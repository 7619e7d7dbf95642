import Mathlib
import Reckoner.Proofs.Evaluation.Numeral
import Reckoner.Rendering

namespace Reckoner

/-- Whether a text is one word: it is not empty, and has no blank in it. -/
def IsWord (text : List Char) : Prop :=
  text ≠ [] ∧ ∀ c ∈ text, Text.isBlank c = false

theorem isBlank_of_isNumeric {c : Char} (numeric : Token.isNumeric c = true) : Text.isBlank c = false :=
  (Double.isPlain_of_isNumeric numeric).isBlank

namespace IsWord

variable {text rest : List Char}

theorem of_numeric (written : text ≠ []) (numeric : ∀ c ∈ text, Token.isNumeric c = true) : IsWord text :=
  ⟨written, fun c member => isBlank_of_isNumeric (numeric c member)⟩

theorem append (first : IsWord text) (second : IsWord rest) : IsWord (text ++ rest) :=
  ⟨List.append_ne_nil_of_left_ne_nil first.1 rest, List.forall_mem_append.2 ⟨first.2, second.2⟩⟩

theorem cons {c : Char} (shown : Text.isBlank c = false) (word : IsWord rest) : IsWord (c :: rest) :=
  ⟨List.cons_ne_nil c rest, List.forall_mem_cons.2 ⟨shown, word.2⟩⟩

theorem exists_shown (word : IsWord text) : ∃ c ∈ text, Text.isBlank c = false := by
  obtain ⟨c, rest, rfl⟩ := List.exists_cons_of_ne_nil word.1
  exact ⟨c, List.mem_cons_self, word.2 c List.mem_cons_self⟩

theorem toString (n : Nat) : IsWord (toString n).toList := by
  rw [Nat.toString_eq_repr, Nat.repr, String.toList_ofList]
  exact of_numeric Nat.toDigits_ne_nil fun c member =>
    Double.isNumeric_of_isDigit (Nat.isDigit_of_mem_toDigits (by decide) (by decide) member)

theorem zero : IsWord "0".toList := toString 0

theorem plain (d : Decimal) : IsWord d.plain.toList := by
  have denotes := Double.denotes_positional d.digits d.exponent
  obtain ⟨lead, rest, shape, _⟩ := Token.exists_cons_of_isNumeral denotes.1
  rw [Decimal.plain, String.toList_ofList, List.append_assoc]
  refine of_numeric (List.append_ne_nil_of_right_ne_nil _ ?_) (numeric_signed d.negative denotes.1)
  rw [shape]
  exact List.cons_ne_nil lead rest

theorem render (d : Decimal) (places : Nat) : IsWord (d.render places).text.toList := by
  unfold Decimal.render
  dsimp only
  generalize (if 0 ≤ d.exponent then d else d.round places) = shown
  by_cases none : shown.digits = 0
  · rw [if_pos none]
    exact zero
  · rw [if_neg none]
    exact plain shown

end IsWord

namespace Fraction

/-- Whether a rational number is shown as a whole number and a proper fraction. -/
def IsMixed (x : Rat) : Prop := x.den ≠ 1 ∧ x.den < x.num.natAbs

instance : DecidablePred IsMixed := fun x => inferInstanceAs (Decidable (x.den ≠ 1 ∧ x.den < x.num.natAbs))

/-- The text of the proper fraction behind the whole part of a rational number. -/
def part (x : Rat) : String := toString (x.num.natAbs % x.den) ++ "/" ++ toString x.den

theorem isWord_quotient (n d : Nat) : IsWord (toString n ++ "/" ++ toString d).toList := by
  rw [String.toList_append, String.toList_append, List.append_assoc]
  exact (IsWord.toString n).append (.cons rfl (.toString d))

/-- A sign in front of a word makes a word. -/
theorem isWord_signed {text : String} (negative : Prop) [Decidable negative] (word : IsWord text.toList) :
    IsWord ((if negative then "-" else "") ++ text).toList := by
  rw [String.toList_append]
  split
  · exact .cons rfl word
  · exact word

theorem isWord_text {x : Rat} (other : ¬ IsMixed x) : IsWord (text x).toList := by
  by_cases whole : x.den = 1
  · have shown : text x = (if x.num < 0 then "-" else "") ++ toString x.num.natAbs := if_pos whole
    rw [shown]
    exact isWord_signed _ (.toString _)
  · have proper : text x = (if x.num < 0 then "-" else "") ++ toString x.num.natAbs ++ "/" ++ toString x.den :=
      (if_neg whole).trans (if_neg fun large => other ⟨whole, large⟩)
    have word := isWord_signed (x.num < 0) (isWord_quotient x.num.natAbs x.den)
    rw [← String.append_assoc, ← String.append_assoc] at word
    rw [proper]
    exact word

theorem text_of_isMixed {x : Rat} (mixed : IsMixed x) :
    ∃ whole, IsWord whole.toList ∧ text x = whole ++ " " ++ part x := by
  have shown : text x = (if x.num < 0 then "-" else "") ++ toString (x.num.natAbs / x.den) ++ " " ++
      toString (x.num.natAbs % x.den) ++ "/" ++ toString x.den := (if_neg mixed.1).trans (if_pos mixed.2)
  refine ⟨_, isWord_signed (x.num < 0) (.toString (x.num.natAbs / x.den)), ?_⟩
  rw [shown, part]
  simp only [String.append_assoc]

end Fraction

/-- Whether a value is shown as a mixed number. -/
def ShownMixed (value : Float) (settings : Settings) : Prop :=
  settings.isOn "fractions" = true ∧
    Fraction.IsMixed (Fraction.nearest Fraction.denominatorLimit (Double.toDecimal value).toRat)

theorem calculate_eq_ok {problem : String} {bindings : Bindings} {settings : Settings} {answer : Answer} :
    calculate problem bindings settings = .ok answer ↔
      (evaluate problem bindings (.elementary (settings.isOn "degrees"))).result = .ok answer.value ∧
        ∃ rendered, render answer.value settings = .ok rendered ∧ answer.text = rendered.line := by
  unfold calculate
  rw [bind_eq_ok]
  constructor
  · rintro ⟨value, evaluated, drawn⟩
    obtain ⟨rendered, found, same⟩ := bind_eq_ok.1 drawn
    cases same
    exact ⟨evaluated, rendered, mapError_eq_ok.1 found, rfl⟩
  · rintro ⟨evaluated, rendered, drawn, same⟩
    refine ⟨answer.value, evaluated, bind_eq_ok.2 ⟨rendered, mapError_eq_ok.2 drawn, ?_⟩⟩
    rw [← same]
    rfl

/-- A finite value is shown as the text of the fraction nearest to it, or as a decimal, which is one word. -/
theorem text_of_render {value : Float} {settings : Settings} {rendered : Rendered} (finite : value.isFinite = true)
    (drawn : render value settings = .ok rendered) :
    (settings.isOn "fractions" = true → rendered.text =
      Fraction.text (Fraction.nearest Fraction.denominatorLimit (Double.toDecimal value).toRat)) ∧
    (settings.isOn "fractions" = false → IsWord rendered.text.toList) := by
  have number := Double.not_isNaN_of_isFinite finite
  have bounded := Double.not_isInf_of_isFinite finite
  obtain ⟨places, _, drawn⟩ := bind_eq_ok.1 drawn
  constructor
  · intro fractions
    simp only [fractions, if_true, renderFraction, number, bounded, Bool.false_eq_true, if_false] at drawn
    cases drawn
    rfl
  · intro decimals
    simp only [decimals, Bool.false_eq_true, if_false, renderDecimal] at drawn
    split at drawn
    · cases drawn
      exact .zero
    · cases places with
      | none => exact nomatch drawn
      | some places =>
        simp only [number, bounded, Bool.false_eq_true, if_false] at drawn
        cases drawn
        exact .render _ places

/-- A finite value that is not shown as a mixed number is shown as one word. -/
theorem isWord_of_render {value : Float} {settings : Settings} {rendered : Rendered} (finite : value.isFinite = true)
    (drawn : render value settings = .ok rendered) (other : ¬ ShownMixed value settings) :
    IsWord rendered.text.toList := by
  obtain ⟨asFraction, asDecimal⟩ := text_of_render finite drawn
  cases fractions : settings.isOn "fractions" with
  | false => exact asDecimal fractions
  | true =>
    rw [asFraction fractions]
    exact Fraction.isWord_text fun mixed => other ⟨fractions, mixed⟩

/-- A mixed number is shown as two words. -/
theorem words_of_render {value : Float} {settings : Settings} {rendered : Rendered} (finite : value.isFinite = true)
    (drawn : render value settings = .ok rendered) (mixed : ShownMixed value settings) :
    ∃ whole part, IsWord whole.toList ∧ IsWord part.toList ∧ rendered.text = whole ++ " " ++ part := by
  obtain ⟨whole, word, same⟩ := Fraction.text_of_isMixed mixed.2
  exact ⟨whole, _, word, Fraction.isWord_quotient _ _, ((text_of_render finite drawn).1 mixed.1).trans same⟩

theorem exists_shown_of_render {value : Float} {settings : Settings} {rendered : Rendered}
    (finite : value.isFinite = true) (drawn : render value settings = .ok rendered) :
    ∃ c ∈ rendered.text.toList, Text.isBlank c = false := by
  by_cases mixed : ShownMixed value settings
  · obtain ⟨whole, part, _, word, same⟩ := words_of_render finite drawn mixed
    obtain ⟨c, member, shown⟩ := word.exists_shown
    rw [same, String.toList_append]
    exact ⟨c, List.mem_append_right _ member, shown⟩
  · exact (isWord_of_render finite drawn mixed).exists_shown

end Reckoner
