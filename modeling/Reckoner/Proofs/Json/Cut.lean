import Mathlib
import Reckoner.Proofs.Json.Readback

namespace Reckoner.Json

/-- A text breaks off somewhere before its end. -/
def Cut (text part : List Char) : Prop := ∃ c rest, text = part ++ c :: rest

namespace Cut

variable {text first second part : List Char}

theorem append (cut : Cut (first ++ second) part) :
    Cut first part ∨ ∃ more, part = first ++ more ∧ Cut second more := by
  obtain ⟨c, rest, same⟩ := cut
  rcases List.append_eq_append_iff.1 same with ⟨more, rfl, within⟩ | ⟨left, rfl, within⟩
  · exact Or.inr ⟨more, rfl, c, rest, within⟩
  · cases left with
    | nil => exact Or.inr ⟨[], by simp, c, rest, within.symm⟩
    | cons d left => exact Or.inl ⟨d, left, rfl⟩

theorem cons {c : Char} (cut : Cut (c :: text) part) : part = [] ∨ ∃ more, part = c :: more ∧ Cut text more := by
  obtain ⟨d, rest, same⟩ := cut
  cases part with
  | nil => exact Or.inl rfl
  | cons _ more =>
    obtain ⟨rfl, within⟩ := List.cons.inj same
    exact Or.inr ⟨more, rfl, d, rest, within⟩

theorem subset (cut : Cut text part) : part ⊆ text := by
  obtain ⟨c, rest, rfl⟩ := cut
  exact List.subset_append_left part _

theorem head?_eq (cut : Cut text part) : part = [] ∨ part.head? = text.head? := by
  obtain ⟨c, rest, rfl⟩ := cut
  cases part with
  | nil => exact Or.inl rfl
  | cons d part => exact Or.inr rfl

end Cut

theorem Stops.cut {text part : List Char} (stops : Stops text) (cut : Cut text part) : Stops part := by
  intro c first
  rcases cut.head?_eq with rfl | same
  · exact nomatch first
  · exact stops c (same ▸ first)

theorem Starts.cut {text part : List Char} (starts : Starts text) (cut : Cut text part) : part = [] ∨ Starts part := by
  obtain ⟨c, rest, rfl, marks⟩ := starts
  rcases cut.cons with rfl | ⟨more, rfl, _⟩
  · exact Or.inl rfl
  · exact Or.inr ⟨c, more, rfl, marks⟩

theorem skipSpace_of_blank {text : List Char} (blank : ∀ c ∈ text, isSpace c = true) : skipSpace text = [] :=
  List.dropWhile_eq_nil_iff.2 blank

/-- What a text is cut to is cut behind its indentation, unless nothing but indentation is left. -/
theorem Cut.skipSpace_eq {blank text part : List Char} (spaces : ∀ c ∈ blank, isSpace c = true)
    (cut : Cut (blank ++ text) part) (starts : Starts text) :
    Cut text (skipSpace part) ∧ (skipSpace part).length ≤ part.length := by
  refine ⟨?_, (List.dropWhile_suffix isSpace).length_le⟩
  rcases cut.append with within | ⟨more, rfl, behind⟩
  · rw [skipSpace_of_blank fun c member => spaces c (within.subset member)]
    obtain ⟨c, rest, rfl, _⟩ := starts
    exact ⟨c, rest, rfl⟩
  · rw [skipSpace, List.dropWhile_append_of_pos spaces]
    change Cut text (skipSpace more)
    rcases starts.cut behind with rfl | begins
    · exact behind
    · rwa [skipSpace_of_starts begins]

/-- A flaw that does not come from a limit. -/
def Ordinary (flaw : Flaw) : Prop := flaw.problem ≠ .tooManyDigits ∧ flaw.problem ≠ .tooDeep

theorem ordinary_of_not_mem {problem : Problem} (other : problem ∉ [Problem.tooManyDigits, .tooDeep]) (left : Nat) :
    Ordinary ⟨problem, left⟩ :=
  ⟨fun same => other (List.mem_cons.2 (Or.inl same)),
    fun same => other (List.mem_cons_of_mem _ (List.mem_singleton.2 same))⟩

/-- What is left does not go on as a list or a mapping does. -/
def Open (rest : List Char) : Prop := ∀ c ∈ (skipSpace rest).head?, c ≠ ',' ∧ c ≠ ']' ∧ c ≠ '\x7d'

theorem open_nil : Open [] := nofun

theorem readText_settles (left : Nat) (text : List Char) : Settles Ordinary (fun _ => True) (readText left text) := by
  have prepends {point : CodePoint} {result : Except Flaw (CodePoints × List Char)}
      (settles : Settles Ordinary (fun _ => True) result) :
        Settles Ordinary (fun _ => True) (prepend point result) := by
    cases result with
    | ok found => trivial
    | error flaw => exact settles
  fun_induction readText left text with
  | case2 => trivial
  | case5 | case6 | case7 | case9 | case12 | case15 =>
    rename_i ih
    exact prepends ih
  | _ => exact ordinary_of_not_mem (by decide) _

/-- An escape by a unit needs four digits, and a character behind them. -/
theorem readText_of_short_unit {left : Nat} {digits : List Char} (short : digits.length ≤ 4) :
    readText left ('\\' :: 'u' :: digits) = .error ⟨.badUnicodeEscape, digits.length + 1⟩ := by
  match digits with
  | [] | [_] | [_, _] | [_, _, _] | [_, _, _, _] =>
    rw [readText.eq_def]
    rfl
  | _ :: _ :: _ :: _ :: _ :: _ =>
    simp only [List.length_cons] at short
    omega

theorem exists_five_of_length {α : Type} {list : List α} (long : 4 < list.length) :
    ∃ a b c d e rest, list = a :: b :: c :: d :: e :: rest := by
  match list, long with
  | a :: b :: c :: d :: e :: rest, _ => exact ⟨a, b, c, d, e, rest, rfl⟩

/-- What is behind a text does not matter to what it is read as. -/
theorem readText_append {left : Nat} {text rest : List Char} {points : CodePoints} (more : List Char)
    (reads : readText left text = .ok (points, rest)) : readText left (text ++ more) = .ok (points, rest ++ more) := by
  fun_induction readText left text generalizing points with
  | case2 =>
    cases reads
    rw [List.cons_append, readText]
  | case5 a b c d e f g h next behind high first isHigh low second isLow ih =>
    obtain ⟨others, later, rfl⟩ := prepend_eq_ok.1 reads
    have read := ih later
    simp only [List.cons_append] at read ⊢
    rw [readText_pair first second isHigh isLow (List.cons_ne_nil _ _), read]
    rfl
  | case6 a b c d e f g h next behind unit first isHigh other second noLow ih =>
    obtain ⟨others, later, rfl⟩ := prepend_eq_ok.1 reads
    have read := ih later
    simp only [List.cons_append] at read ⊢
    rw [readText_unit first (List.cons_ne_nil _ _) fun _ _ _ _ _ _ _ same => ?_, read]
    · rfl
    · cases same
      exact ⟨other, second, Bool.eq_false_iff.2 noLow⟩
  | case7 a b c d e f g h next behind unit first noHigh ih =>
    obtain ⟨others, later, rfl⟩ := prepend_eq_ok.1 reads
    have read := ih later
    simp only [List.cons_append] at read ⊢
    rw [readText_unit first (List.cons_ne_nil _ _) fun isHigh => absurd isHigh noHigh, read]
    rfl
  | case9 a b c d next behind alone unit value ih =>
    obtain ⟨others, later, rfl⟩ := prepend_eq_ok.1 reads
    have read := ih later
    simp only [List.cons_append] at read ⊢
    rw [readText_unit value (List.cons_ne_nil _ _) fun isHigh e f g h last others same => ?_, read]
    · rfl
    · obtain ⟨rfl, within⟩ := List.cons.inj same
      rcases behind with _ | ⟨mark, digits⟩
      · cases later
      · obtain ⟨rfl, _⟩ := List.cons.inj within
        rcases Nat.lt_or_ge 4 digits.length with long | short
        · obtain ⟨e, f, g, h, last, others, rfl⟩ := exists_five_of_length long
          exact (alone _ _ _ _ _ _ rfl rfl).elim
        · rw [readText_of_short_unit short] at later
          cases later
  | case12 behind c noPair noUnit noMark escaped known ih =>
    obtain ⟨others, later, rfl⟩ := prepend_eq_ok.1 reads
    rw [List.cons_append, List.cons_append, readText_short known, ih later]
    rfl
  | case15 c behind noQuote _ _ _ last noEscape _ ih =>
    obtain ⟨others, later, rfl⟩ := prepend_eq_ok.1 reads
    have noBackslash : c ≠ '\\' := fun mark => by
      cases behind with
      | nil => exact last mark rfl
      | cons d behind => exact noEscape d behind mark rfl
    rw [List.cons_append, readText_plain (Nat.le_of_not_lt ‹_›) noQuote noBackslash, ih later]
    rfl
  | _ => cases reads

/-- A text that breaks off before its closing quote is no text. -/
theorem rejects_readText_cut {points : CodePoints} {left : Nat} {part : List Char} (apart : points.Apart)
    (cut : Cut (points.flatMap escapePoint ++ ['"']) part) : Rejects Ordinary (readText left part) := by
  have settles := readText_settles left part
  cases reads : readText left part with
  | error flaw =>
    rw [reads] at settles
    exact settles
  | ok found =>
    obtain ⟨c, rest, same⟩ := cut
    have whole := readText_append (c :: rest) reads
    rw [← same, readText_flatMap_escapePoint apart] at whole
    exact absurd (Prod.ext_iff.1 (Except.ok.inj whole)).2
      (List.append_ne_nil_of_right_ne_nil _ (List.cons_ne_nil _ _)).symm

/-- The digits that a number starts with, behind its sign. -/
def leadingDigits (text : List Char) : List Char :=
  (text.dropWhile (· = '-')).takeWhile Char.isDigit

theorem length_leadingDigits_append (part rest : List Char) :
    (leadingDigits part).length ≤ (leadingDigits (part ++ rest)).length := by
  unfold leadingDigits
  rw [List.dropWhile_append]
  split_ifs with none
  · rw [List.isEmpty_iff.1 none]
    exact Nat.zero_le _
  · rw [List.takeWhile_append]
    split_ifs with all
    · rw [List.length_append, all]
      exact Nat.le_add_right _ _
    · exact Nat.le_refl _

theorem length_takeWhile_le_leadingDigits (text : List Char) :
    (text.takeWhile Char.isDigit).length ≤ (leadingDigits text).length := by
  cases text with
  | nil => exact Nat.le_refl 0
  | cons c rest =>
    by_cases minus : c = '-'
    · subst minus
      exact Nat.zero_le _
    · rw [leadingDigits, List.dropWhile_cons_of_neg (by simpa using minus)]

theorem length_wholeDigits_le (text : List Char) : (wholeDigits text).length ≤ (leadingDigits text).length := by
  refine Nat.le_trans ?_ (length_takeWhile_le_leadingDigits text)
  unfold wholeDigits
  split
  · exact Nat.le_refl 0
  · split_ifs with zero digit
    · subst zero
      exact Nat.succ_le_succ (Nat.zero_le _)
    · rw [List.takeWhile_cons_of_pos digit]
    · exact Nat.zero_le _

/-- A number whose digits are not too many is read from the front of a text, or is no number. -/
theorem readNumber_settles_of_few {text : List Char} (few : (leadingDigits text).length ≤ digitLimit) :
    Settles Ordinary (fun found => found.2 <:+ text) (readNumber text) := by
  unfold readNumber
  split
  rename_i negative body same
  have behind : body <:+ text ∧ (leadingDigits body).length ≤ digitLimit := by
    split at same
    · cases same
      exact ⟨List.suffix_cons _ _, few⟩
    · cases same
      exact ⟨List.suffix_rfl, few⟩
  have short := (length_wholeDigits_le body).trans behind.2
  have suffix (n m k : Nat) : ((body.drop n).drop m).drop k <:+ text :=
    (((List.drop_suffix k _).trans (List.drop_suffix m _)).trans (List.drop_suffix n _)).trans behind.1
  dsimp only
  split
  · exact ordinary_of_not_mem (by decide) _
  · split
    · split
      · exact absurd short (Nat.not_le.2 ‹_›)
      · exact suffix _ _ _
    · split
      · exact suffix _ _ _
      · exact ordinary_of_not_mem (by decide) _

/-- A character as it stands in words and numbers. -/
def IsInner (c : Char) : Prop := isSpace c = false ∧ c ∉ [',', ']', '\x7d', '"', '[', '\x7b']

instance (c : Char) : Decidable (IsInner c) := inferInstanceAs (Decidable (_ ∧ _))

/-- A text that is a word or a number, or the start of one. -/
structure IsScalarText (text : List Char) : Prop where
  inner : ∀ c ∈ text, IsInner c
  few : (leadingDigits text).length ≤ digitLimit

namespace IsScalarText

variable {text part : List Char}

theorem cut (scalar : IsScalarText text) (cut : Cut text part) : IsScalarText part := by
  refine ⟨fun c member => scalar.inner c (cut.subset member), ?_⟩
  obtain ⟨c, rest, rfl⟩ := cut
  exact (length_leadingDigits_append part (c :: rest)).trans scalar.few

theorem open_of_suffix (scalar : IsScalarText text) {rest : List Char} (suffix : rest <:+ text) : Open rest := by
  cases rest with
  | nil => exact open_nil
  | cons c rest =>
    obtain ⟨shown, marks⟩ := scalar.inner c (suffix.subset List.mem_cons_self)
    rw [Open, skipSpace, List.dropWhile_cons_of_neg (Bool.eq_false_iff.1 shown)]
    rintro _ ⟨⟩
    simp only [List.mem_cons, not_or] at marks
    exact ⟨marks.1, marks.2.1, marks.2.2.1⟩

theorem readScalar (scalar : IsScalarText text) : Settles Ordinary (Open ·.2) (readScalar text) := by
  unfold Json.readScalar
  split
  · exact scalar.open_of_suffix (List.drop_suffix _ _)
  · exact (readNumber_settles_of_few scalar.few).mono (fun _ ordinary => ordinary) fun _ => scalar.open_of_suffix

/-- What may be the start of a scalar is read as a scalar that nothing goes on behind, or not at all. -/
theorem readValue (scalar : IsScalarText text) (steps room : Nat) :
    Settles Ordinary (Open ·.2) (readValue steps room text) := by
  cases steps with
  | zero =>
    rw [Json.readValue]
    exact ordinary_of_not_mem (by decide) _
  | succ steps =>
    rw [Json.readValue.eq_def]
    dsimp only
    split
    · exact absurd (scalar.inner _ List.mem_cons_self) (by decide)
    · exact absurd (scalar.inner _ List.mem_cons_self) (by decide)
    · exact absurd (scalar.inner _ List.mem_cons_self) (by decide)
    · exact scalar.readScalar

end IsScalarText

theorem isInner_of_isDigit {c : Char} (digit : c.isDigit = true) : IsInner c := by
  have table : ∀ n < 10, IsInner (Char.ofNat (n + 48)) := by decide
  obtain ⟨n, small, rfl⟩ := Double.exists_ofNat_of_isDigit digit
  exact table n small

/-- Digits that are not too many, then marks and digits, are a number. -/
theorem isScalarText_signed (negative : Bool) {text : List Char}
    (begins : ∃ lead rest, text = lead :: rest ∧ lead.isDigit = true)
    (inner : ∀ c ∈ text, c.isDigit = true ∨ c ∈ ['.', 'e', '+', '-'])
    (few : (text.takeWhile Char.isDigit).length ≤ digitLimit) :
    IsScalarText ((if negative then ['-'] else []) ++ text) := by
  have bare : IsScalarText text := by
    refine ⟨fun c member => ?_, ?_⟩
    · rcases inner c member with digit | mark
      · exact isInner_of_isDigit digit
      · have table : (['.', 'e', '+', '-'].all fun c => IsInner c) = true := by decide
        exact of_decide_eq_true (List.all_eq_true.1 table c mark)
    · obtain ⟨lead, rest, rfl, digit⟩ := begins
      have noMinus : lead ≠ '-' := by
        rintro rfl
        exact Bool.noConfusion digit
      rwa [leadingDigits, List.dropWhile_cons_of_neg (by simpa using noMinus)]
  cases negative with
  | true =>
    refine ⟨List.forall_mem_cons.2 ⟨by decide, bare.inner⟩, ?_⟩
    have same : leadingDigits ('-' :: text) = leadingDigits text := rfl
    exact same ▸ bare.few
  | false => exact bare

theorem isScalarText_word {text : List Char} (inner : (text.all fun c => IsInner c) = true)
    (noDigits : leadingDigits text = []) : IsScalarText text :=
  ⟨fun c member => of_decide_eq_true (List.all_eq_true.1 inner c member), by rw [noDigits]; exact Nat.zero_le _⟩

/-- Words and numbers are printed as such. -/
theorem isScalarText_print {value : Value} (scalar : IsScalar value) (brief : value.Brief) (level : Nat) :
    IsScalarText (print level value) := by
  cases value with
  | null => exact @isScalarText_word "null".toList (by decide) rfl
  | flag value =>
    cases value with
    | true => exact @isScalarText_word "true".toList (by decide) rfl
    | false => exact @isScalarText_word "false".toList (by decide) rfl
  | whole value =>
    cases brief with
    | whole few =>
      rw [print, toList_toString]
      refine isScalarText_signed _ (Double.exists_toDigits_eq_cons value.natAbs) (fun c member => Or.inl ?_) ?_
      · exact Nat.isDigit_of_mem_toDigits (by decide) (by decide) member
      · exact (List.takeWhile_prefix Char.isDigit).length_le.trans few
  | real value =>
    rw [print]
    cases finite : value.isFinite with
    | true =>
      have inner (c : Char) (member : c ∈ Double.unsignedText Double.layout (Double.toDecimal value)) :
          c.isDigit = true ∨ c ∈ ['.', 'e', '+', '-'] := by
        refine Double.isDigit_or_mark_of_mem_chars finite ?_
        rw [Double.chars_of_isFinite finite]
        exact List.mem_append_right _ member
      rw [printReal, Double.not_isNaN_of_isFinite finite, finite, if_neg Bool.false_ne_true, if_pos rfl,
        Double.chars_of_isFinite finite]
      exact isScalarText_signed _ (Double.exists_unsignedText_eq_cons _ _) inner
        ((Double.length_takeWhile_unsignedText_le _).trans (by decide))
    | false =>
      rcases Double.eq_of_not_isFinite finite with rfl | rfl | rfl <;>
        exact isScalarText_word (by decide +kernel) (by decide +kernel)
  | text | list | mapping => exact scalar.elim

end Reckoner.Json
