import Mathlib
import Reckoner.Json.Text

namespace Reckoner

namespace CodePoint

/-- Whether a code point is the first half of a surrogate pair. -/
def isFirstHalf : CodePoint → Bool
  | char _ => false
  | half offset => offset.val < 0x400

/-- Whether a code point is the second half of a surrogate pair. -/
def isSecondHalf : CodePoint → Bool
  | char _ => false
  | half offset => 0x400 ≤ offset.val

end CodePoint

/-- No first half of a surrogate pair stands right before a second half. -/
def CodePoints.Apart (text : CodePoints) : Prop :=
  List.IsChain (fun first second => ¬ (first.isFirstHalf = true ∧ second.isSecondHalf = true)) text

/-- A text of characters alone has no such halves. -/
theorem CodePoints.apart_ofString (s : String) : (ofString s).Apart :=
  (List.isChain_map _).2 (List.pairwise_of_forall fun _ _ both => nomatch both.1).isChain

namespace CodePoint

theorem isFirstHalf_ofUnit (unit : Nat) : (ofUnit unit).isFirstHalf = Json.isHighSurrogate unit := by
  unfold ofUnit firstHalf Json.isHighSurrogate
  split_ifs with within
  · simp only [isFirstHalf]
    rw [Bool.eq_iff_iff, Bool.and_eq_true, decide_eq_true_iff, decide_eq_true_iff, decide_eq_true_iff]
    omega
  · simp only [isFirstHalf]
    rw [eq_comm, Bool.and_eq_false_iff, decide_eq_false_iff_not, decide_eq_false_iff_not]
    omega

theorem isSecondHalf_ofUnit (unit : Nat) : (ofUnit unit).isSecondHalf = Json.isLowSurrogate unit := by
  unfold ofUnit firstHalf Json.isLowSurrogate
  split_ifs with within
  · simp only [isSecondHalf]
    rw [Bool.eq_iff_iff, Bool.and_eq_true, decide_eq_true_iff, decide_eq_true_iff, decide_eq_true_iff]
    omega
  · simp only [isSecondHalf]
    rw [eq_comm, Bool.and_eq_false_iff, decide_eq_false_iff_not, decide_eq_false_iff_not]
    omega

theorem ofUnit_half (offset : Fin 0x800) : ofUnit (firstHalf + offset) = half offset := by
  have within : firstHalf ≤ firstHalf + offset.val ∧ firstHalf + offset.val < firstHalf + 0x800 := by omega
  simp only [ofUnit, dif_pos within, Nat.add_sub_cancel_left, Fin.eta]

/-- A character is no half of a surrogate pair. -/
theorem ofUnit_toNat (c : Char) : ofUnit c.toNat = char c := by
  have outside : ¬ (firstHalf ≤ c.toNat ∧ c.toNat < firstHalf + 0x800) := by
    rcases c.valid with low | ⟨high, _⟩
    · have low' : c.toNat < 0xD800 := low
      unfold firstHalf
      omega
    · have high' : 0xDFFF < c.toNat := high
      unfold firstHalf
      omega
  rw [ofUnit, dif_neg outside, Char.ofNat_toNat]

end CodePoint

namespace Json

theorem hexValue?_digitChar : ∀ n < 16, hexValue? (Nat.digitChar n) = some n := by decide

/-- Four hexadecimal digits are read as the unit that they are printed for. -/
theorem hexValue4?_hexDigits {unit : Nat} (small : unit < 0x10000) :
    ∃ a b c d, Text.hexDigits 4 unit = [a, b, c, d] ∧ hexValue4? a b c d = some unit := by
  refine ⟨_, _, _, _, rfl, ?_⟩
  have digit (n : Nat) : hexValue? (Nat.digitChar (n % 16)) = some (n % 16) :=
    hexValue?_digitChar _ (Nat.mod_lt _ (by decide))
  simp only [hexValue4?, digit, Option.bind_eq_bind, Option.bind_some, Option.pure_def, Option.some.injEq]
  omega

/-- The forms in which a code point stands in a printed text. -/
inductive Escaped : CodePoint → List Char → Prop
  | plain {c : Char} (shown : 0x20 ≤ c.toNat) (noQuote : c ≠ '"') (noBackslash : c ≠ '\\') : Escaped (.char c) [c]
  | short {c mark : Char} (known : shortEscape? mark = some c) : Escaped (.char c) ['\\', mark]
  | unit {u : Nat} (small : u < 0x10000) : Escaped (.ofUnit u) (unitEscape u)
  | pair {high low : Nat} (isHigh : isHighSurrogate high = true) (isLow : isLowSurrogate low = true) :
      Escaped (.char (joinSurrogates high low)) (unitEscape high ++ unitEscape low)

theorem escaped_escapeChar (c : Char) : Escaped (.char c) (escapeChar c) := by
  unfold escapeChar
  split_ifs with quoted lineFeed carriageReturn tab backspace formFeed shown small
  · rcases quoted with rfl | rfl <;> exact .short rfl
  · subst lineFeed
    exact .short rfl
  · subst carriageReturn
    exact .short rfl
  · subst tab
    exact .short rfl
  · subst backspace
    exact .short rfl
  · subst formFeed
    exact .short rfl
  · exact .plain shown.1 (fun same => quoted (Or.inl same)) (fun same => quoted (Or.inr same))
  · rw [← CodePoint.ofUnit_toNat]
    exact .unit small
  · have bound : c.toNat < 0x110000 := by
      rcases c.valid with low | ⟨_, high⟩
      · exact lt_trans low (by decide)
      · exact high
    dsimp only
    have high : isHighSurrogate (0xD800 + (c.toNat - 0x10000) / 0x400) = true := by
      unfold isHighSurrogate
      rw [Bool.and_eq_true, decide_eq_true_iff, decide_eq_true_iff]
      omega
    have low : isLowSurrogate (0xDC00 + (c.toNat - 0x10000) % 0x400) = true := by
      unfold isLowSurrogate
      rw [Bool.and_eq_true, decide_eq_true_iff, decide_eq_true_iff]
      omega
    have joined : joinSurrogates (0xD800 + (c.toNat - 0x10000) / 0x400) (0xDC00 + (c.toNat - 0x10000) % 0x400) = c := by
      unfold joinSurrogates
      have whole : 0x10000 + (0xD800 + (c.toNat - 0x10000) / 0x400 - 0xD800) * 0x400 +
          (0xDC00 + (c.toNat - 0x10000) % 0x400 - 0xDC00) = c.toNat := by omega
      rw [whole, Char.ofNat_toNat]
    have form := Escaped.pair high low
    rw [joined] at form
    exact form

theorem escaped_escapePoint (point : CodePoint) : Escaped point (escapePoint point) := by
  cases point with
  | char c => exact escaped_escapeChar c
  | half offset =>
    have small : CodePoint.firstHalf + offset.val < 0x10000 := by
      unfold CodePoint.firstHalf
      omega
    have form := Escaped.unit small
    rw [CodePoint.ofUnit_half] at form
    exact form

variable {left : Nat} {tail : List Char}

theorem readText_short {c mark : Char} (known : shortEscape? mark = some c) :
    readText left ('\\' :: mark :: tail) = prepend (.char c) (readText left tail) := by
  have other : mark ≠ 'u' := by
    rintro rfl
    exact nomatch known
  rw [readText.eq_def]
  split <;> grind

theorem readText_plain {c : Char} (shown : 0x20 ≤ c.toNat) (noQuote : c ≠ '"') (noBackslash : c ≠ '\\') :
    readText left (c :: tail) = prepend (.char c) (readText left tail) := by
  rw [readText.eq_def]
  split <;> grind

theorem readText_unit {unit : Nat} {a b c d : Char} (value : hexValue4? a b c d = some unit) (more : tail ≠ [])
    (single : isHighSurrogate unit = true →
      ∀ e f g h next rest, tail = '\\' :: 'u' :: e :: f :: g :: h :: next :: rest →
      ∃ other, hexValue4? e f g h = some other ∧ isLowSurrogate other = false) :
    readText left ('\\' :: 'u' :: a :: b :: c :: d :: tail) = prepend (.ofUnit unit) (readText left tail) := by
  obtain ⟨next, others, rfl⟩ := List.exists_cons_of_ne_nil more
  rw [readText.eq_def]
  split <;> grind

theorem readText_pair {high low : Nat} {a b c d e f g h : Char} (first : hexValue4? a b c d = some high)
    (second : hexValue4? e f g h = some low) (isHigh : isHighSurrogate high = true) (isLow : isLowSurrogate low = true)
    (more : tail ≠ []) :
    readText left ('\\' :: 'u' :: a :: b :: c :: d :: '\\' :: 'u' :: e :: f :: g :: h :: tail) =
      prepend (.char (joinSurrogates high low)) (readText left tail) := by
  obtain ⟨next, others, rfl⟩ := List.exists_cons_of_ne_nil more
  rw [readText.eq_def]
  simp only [first, second, isHigh, isLow, if_true]

theorem bounds_of_isHighSurrogate {unit : Nat} (isHigh : isHighSurrogate unit = true) :
    unit < 0x10000 ∧ isLowSurrogate unit = false := by
  unfold isHighSurrogate at isHigh
  rw [Bool.and_eq_true, decide_eq_true_iff, decide_eq_true_iff] at isHigh
  refine ⟨by omega, Bool.and_eq_false_iff.2 (Or.inl (decide_eq_false (by omega)))⟩

theorem lt_of_isLowSurrogate {unit : Nat} (isLow : isLowSurrogate unit = true) : unit < 0x10000 := by
  unfold isLowSurrogate at isLow
  rw [Bool.and_eq_true, decide_eq_true_iff, decide_eq_true_iff] at isLow
  omega

/-- What follows a unit in a printed text does not complete it to a pair. -/
theorem single_of_apart {unit : Nat} {text : CodePoints} {rest : List Char}
    (apart : CodePoints.Apart (.ofUnit unit :: text)) (isHigh : isHighSurrogate unit = true) {e f g h next : Char}
    {others : List Char}
    (same : text.flatMap escapePoint ++ '"' :: rest = '\\' :: 'u' :: e :: f :: g :: h :: next :: others) :
    ∃ other, hexValue4? e f g h = some other ∧ isLowSurrogate other = false := by
  cases text with
  | nil => exact nomatch (List.cons.inj same).1
  | cons point text =>
    have noPair := (List.isChain_cons_cons.1 apart).1
    rw [CodePoint.isFirstHalf_ofUnit] at noPair
    rw [List.flatMap_cons, List.append_assoc] at same
    have form := escaped_escapePoint point
    generalize escapePoint point = printed at form same
    cases form with
    | plain shown noQuote noBackslash => exact absurd (List.cons.inj same).1 noBackslash
    | short known =>
      obtain ⟨rfl, _⟩ := List.cons.inj (List.cons.inj same).2
      exact nomatch known
    | @unit other small =>
      obtain ⟨_, _, _, _, digits, value⟩ := hexValue4?_hexDigits small
      simp only [unitEscape, digits, List.cons_append, List.cons.injEq, true_and] at same
      obtain ⟨rfl, rfl, rfl, rfl, _⟩ := same
      rw [CodePoint.isSecondHalf_ofUnit] at noPair
      exact ⟨other, value, Bool.eq_false_iff.2 fun isLow => noPair ⟨isHigh, isLow⟩⟩
    | @pair high low startsHigh endsLow =>
      obtain ⟨small, noLow⟩ := bounds_of_isHighSurrogate startsHigh
      obtain ⟨_, _, _, _, digits, value⟩ := hexValue4?_hexDigits small
      simp only [unitEscape, digits, List.cons_append, List.cons.injEq, true_and] at same
      obtain ⟨rfl, rfl, rfl, rfl, _⟩ := same
      exact ⟨high, value, noLow⟩

/-- A printed text is read up to its closing quote. -/
theorem readText_flatMap_escapePoint {text : CodePoints} (apart : text.Apart) (rest : List Char) :
    readText left (text.flatMap escapePoint ++ '"' :: rest) = .ok (text, rest) := by
  induction text with
  | nil => rw [List.flatMap_nil, List.nil_append, readText]
  | cons point text ih =>
    have read := ih (List.IsChain.tail apart)
    have more : text.flatMap escapePoint ++ '"' :: rest ≠ [] := List.append_ne_nil_of_right_ne_nil _ nofun
    rw [List.flatMap_cons, List.append_assoc]
    have form := escaped_escapePoint point
    generalize escapePoint point = printed at form
    cases form with
    | plain shown noQuote noBackslash =>
      rw [List.singleton_append, readText_plain shown noQuote noBackslash, read]
      rfl
    | short known =>
      rw [List.cons_append, List.singleton_append, readText_short known, read]
      rfl
    | unit small =>
      obtain ⟨a, b, c, d, digits, value⟩ := hexValue4?_hexDigits small
      simp only [unitEscape, digits, List.cons_append, List.nil_append]
      rw [readText_unit value more fun isHigh e f g h next others same => single_of_apart apart isHigh same, read]
      rfl
    | pair isHigh isLow =>
      obtain ⟨a, b, c, d, digits, value⟩ := hexValue4?_hexDigits (bounds_of_isHighSurrogate isHigh).1
      obtain ⟨e, f, g, h, others, second⟩ := hexValue4?_hexDigits (lt_of_isLowSurrogate isLow)
      simp only [unitEscape, digits, others, List.cons_append, List.nil_append]
      rw [readText_pair value second isHigh isLow more, read]
      rfl

end Json

end Reckoner
