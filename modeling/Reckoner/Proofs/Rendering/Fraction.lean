import Mathlib
import Reckoner.Proofs.Double.Text
import Reckoner.Proofs.Rendering.Convergents
import Reckoner.Proofs.Rendering.Places

namespace Reckoner

namespace Fraction

/-- A fraction without its sign, as it is written: a whole number, a proper fraction, or both. -/
inductive Shape where
  | whole (count : ℕ)
  | proper (num den : ℕ)
  | mixed (count num den : ℕ)

namespace Shape

/-- The number that a shape stands for. -/
def size : Shape → ℚ
  | whole count => count
  | proper num den => num / den
  | mixed count num den => count + num / den

def den : Shape → ℕ
  | whole _ => 1
  | proper _ den | mixed _ _ den => den

def text : Shape → String
  | whole count => toString count
  | proper num den => toString num ++ "/" ++ toString den
  | mixed count num den => toString count ++ " " ++ toString num ++ "/" ++ toString den

/-- Whether a fraction part lies strictly between zero and one, and a whole number in front of it is not zero. -/
def IsProper : Shape → Prop
  | whole _ => True
  | proper num den => 0 < num ∧ num < den
  | mixed count num den => 1 ≤ count ∧ 0 < num ∧ num < den

/-- The shape in which a number is written, apart from its sign. -/
def ofRat (x : ℚ) : Shape :=
  if x.den = 1 then whole x.num.natAbs
  else if x.den < x.num.natAbs then mixed (x.num.natAbs / x.den) (x.num.natAbs % x.den) x.den
  else proper x.num.natAbs x.den

theorem den_ofRat (x : ℚ) : (ofRat x).den = x.den := by
  unfold ofRat
  split_ifs with integral
  · exact integral.symm
  · rfl
  · rfl

/-- A number that is not whole is no whole number of its denominators. -/
theorem mod_den_pos {x : ℚ} (broken : x.den ≠ 1) : 0 < x.num.natAbs % x.den := by
  refine Nat.pos_of_ne_zero fun divides => broken ?_
  have common := Nat.dvd_gcd (Nat.dvd_of_mod_eq_zero divides) (Nat.dvd_refl x.den)
  rwa [Nat.Coprime.gcd_eq_one x.reduced, Nat.dvd_one] at common

theorem isProper_ofRat (x : ℚ) : (ofRat x).IsProper := by
  unfold ofRat
  split_ifs with integral large
  · exact trivial
  · exact ⟨Nat.div_pos large.le x.den_pos, mod_den_pos integral, Nat.mod_lt _ x.den_pos⟩
  · have rest := mod_den_pos integral
    have other : x.num.natAbs ≠ x.den := fun same => by
      rw [same, Nat.mod_self] at rest
      exact Nat.lt_irrefl 0 rest
    have some : x.num.natAbs ≠ 0 := fun zero => by
      rw [zero, Nat.zero_mod] at rest
      exact Nat.lt_irrefl 0 rest
    exact ⟨Nat.pos_of_ne_zero some, by omega⟩

theorem size_ofRat (x : ℚ) : (ofRat x).size = |x| := by
  have field : (x.den : ℚ) ≠ 0 := by exact_mod_cast x.den_nz
  have quotient : |x| = x.num.natAbs / x.den := by
    rw [Rat.abs_def, Rat.divInt_eq_div, Int.cast_natCast, Int.cast_natCast]
  rw [quotient]
  unfold ofRat
  split_ifs with integral
  · rw [size, integral, Nat.cast_one, div_one]
  · rw [size, eq_div_iff field, add_mul, div_mul_cancel₀ _ field, mul_comm]
    exact_mod_cast Nat.div_add_mod x.num.natAbs x.den
  · rfl

theorem text_ofRat (x : ℚ) : Fraction.text x = (if x.num < 0 then "-" else "") ++ (ofRat x).text := by
  unfold Fraction.text ofRat
  dsimp only
  split_ifs <;> simp only [text, String.append_assoc]

end Shape

/-- The number that a row of digits spells. -/
def readDigits? (digits : List Char) : Option ℕ :=
  if digits ≠ [] ∧ ∀ c ∈ digits, c.isDigit = true then some (Nat.ofDigitChars 10 digits 0) else none

/-- The shape that a text without a sign has. -/
def readShape? (text : List Char) : Option Shape :=
  match breakFirst? (· = '/') text with
  | none => (readDigits? text).map .whole
  | some (before, _, den) =>
    match breakFirst? (· = ' ') before with
    | none => do return .proper (← readDigits? before) (← readDigits? den)
    | some (whole, _, num) => do return .mixed (← readDigits? whole) (← readDigits? num) (← readDigits? den)

/-- The sign and the shape of a written fraction. -/
def read? : List Char → Option (Bool × Shape)
  | '-' :: rest => (readShape? rest).map (true, ·)
  | text => (readShape? text).map (false, ·)

theorem toList_toString (n : ℕ) : (toString n).toList = Nat.toDigits 10 n := by
  rw [Nat.toString_eq_repr, Nat.toList_repr]

theorem isDigit_of_mem_toString {n : ℕ} {c : Char} (member : c ∈ (toString n).toList) : c.isDigit = true := by
  rw [toList_toString] at member
  exact Nat.isDigit_of_mem_toDigits (by decide) (by decide) member

theorem readDigits?_toString (n : ℕ) : readDigits? (toString n).toList = some n := by
  rw [readDigits?, if_pos ⟨by rw [toList_toString]; exact Nat.toDigits_ne_nil, fun c => isDigit_of_mem_toString⟩,
    toList_toString, Nat.ofDigitChars_ten_toDigits]

/-- A character that is no digit does not occur in a written number. -/
theorem ne_of_mem_toString {mark : Char} (other : mark.isDigit = false) (n : ℕ) :
    ∀ c ∈ (toString n).toList, decide (c = mark) = false := by
  intro c member
  refine decide_eq_false fun same => ?_
  rw [← same, isDigit_of_mem_toString member] at other
  exact Bool.noConfusion other

theorem breakFirst?_toString {mark : Char} (other : mark.isDigit = false) (n : ℕ) (after : List Char) :
    breakFirst? (· = mark) ((toString n).toList ++ mark :: after) = some ((toString n).toList, mark, after) :=
  breakFirst?_append after (ne_of_mem_toString other n) (decide_eq_true rfl)

theorem readShape?_text (shape : Shape) : readShape? shape.text.toList = some shape := by
  cases shape with
  | whole count =>
    rw [Shape.text, readShape?, breakFirst?_eq_none_iff.2 (ne_of_mem_toString rfl count), readDigits?_toString]
    rfl
  | proper num den =>
    have written : (Shape.proper num den).text.toList = (toString num).toList ++ '/' :: (toString den).toList := by
      rw [Shape.text, String.toList_append, String.toList_append, List.append_assoc]
      rfl
    rw [written, readShape?, breakFirst?_toString rfl]
    dsimp only
    rw [breakFirst?_eq_none_iff.2 (ne_of_mem_toString rfl num), readDigits?_toString, readDigits?_toString]
    rfl
  | mixed count num den =>
    have written : (Shape.mixed count num den).text.toList =
        ((toString count).toList ++ ' ' :: (toString num).toList) ++ '/' :: (toString den).toList := by
      simp only [Shape.text, String.toList_append, List.append_assoc]
      rfl
    have noSlash : ∀ c ∈ (toString count).toList ++ ' ' :: (toString num).toList, decide (c = '/') = false :=
      List.forall_mem_append.2 ⟨ne_of_mem_toString rfl count,
        List.forall_mem_cons.2 ⟨rfl, ne_of_mem_toString rfl num⟩⟩
    rw [written, readShape?, breakFirst?_append _ noSlash (decide_eq_true rfl)]
    dsimp only
    rw [breakFirst?_toString rfl]
    dsimp only
    rw [readDigits?_toString, readDigits?_toString, readDigits?_toString]
    rfl

theorem exists_text_eq_append (shape : Shape) :
    ∃ (n : ℕ) (rest : List Char), shape.text.toList = (toString n).toList ++ rest := by
  cases shape with
  | whole count => exact ⟨count, [], (List.append_nil _).symm⟩
  | proper num den => exact ⟨num, _, by rw [Shape.text, String.toList_append, String.toList_append, List.append_assoc]⟩
  | mixed count num den => exact ⟨count, _, by simp only [Shape.text, String.toList_append, List.append_assoc]; rfl⟩

/-- A written fraction reads back. -/
theorem read?_text (negative : Bool) (shape : Shape) :
    read? ((if negative then "-" else "") ++ shape.text).toList = some (negative, shape) := by
  have body := readShape?_text shape
  cases negative with
  | true =>
    rw [if_pos rfl, String.toList_append]
    change (readShape? shape.text.toList).map (true, ·) = _
    rw [body]
    rfl
  | false =>
    obtain ⟨n, rest, begins⟩ := exists_text_eq_append shape
    rw [if_neg Bool.false_ne_true, String.empty_append]
    unfold read?
    split
    · rename_i minus
      rw [minus] at begins
      obtain ⟨lead, digits, written⟩ := List.exists_cons_of_ne_nil (@Nat.toDigits_ne_nil n 10)
      rw [toList_toString, written] at begins
      have digit := @isDigit_of_mem_toString n lead (by rw [toList_toString, written]; exact List.mem_cons_self)
      rw [← (List.cons.inj begins).1] at digit
      exact nomatch digit
    · rw [body]
      rfl

end Fraction

/-- Whether a text is the written form of a number as a fraction: its shape in lowest terms, with a minus sign in front
exactly if the number is negative. -/
structure Fraction.IsWritten (text : String) (shape : Fraction.Shape) (x : ℚ) : Prop where
  text_eq : text = (if x < 0 then "-" else "") ++ shape.text
  read : Fraction.read? text.toList = some (decide (x < 0), shape)
  value : x = (if x < 0 then -1 else 1) * shape.size
  proper : shape.IsProper
  lowest : shape.den = x.den

theorem Fraction.isWritten_text (x : ℚ) : IsWritten (text x) (.ofRat x) x := by
  have negative : x.num < 0 ↔ x < 0 := Rat.num_neg
  have written : text x = (if x < 0 then "-" else "") ++ (Shape.ofRat x).text := by
    rw [Shape.text_ofRat]
    simp only [negative]
  refine ⟨written, ?_, ?_, Shape.isProper_ofRat x, Shape.den_ofRat x⟩
  · have back := read?_text (decide (x < 0)) (Shape.ofRat x)
    simp only [decide_eq_true_eq] at back
    rw [written, back]
  · rw [Shape.size_ofRat]
    split_ifs with below
    · rw [abs_of_neg below, neg_one_mul, neg_neg]
    · rw [abs_of_nonneg (not_lt.1 below), one_mul]

/-- The written form of a finite double denotes the number that its shortest decimal stands for. -/
theorem Decimal.exists_read?_chars {value : Float} (finite : value.isFinite = true) :
    ∃ exact, read? (Double.chars value) = some exact ∧ exact.toRat = (Double.toDecimal value).toRat := by
  obtain ⟨zeros, read⟩ := read?_chars finite
  refine ⟨_, read, ?_⟩
  rw [toRat_mul_pow, Int.sub_add_cancel, ← Double.toDecimal_negative]

theorem render_of_fractions {value : Float} {settings : Settings} {count : Int} (finite : value.isFinite = true)
    (fractions : settings.isOn "fractions" = true)
    (asked : ((settings.value? "decimal_places").getD (.whole Settings.defaultDecimalPlaces)).whole? = some count) :
    render value settings = .ok (Fraction.render (Double.toDecimal value)) := by
  have shown : renderFraction value = .ok (Fraction.render (Double.toDecimal value)) := by
    simp only [renderFraction, Double.not_isNaN_of_isFinite finite, Double.not_isInf_of_isFinite finite,
      Bool.false_eq_true, if_false]
  rw [render, Settings.places_of_whole? asked, fractions, ← shown]
  rfl

/-- With fractions asked for, every finite value is shown. What is shown is a fraction in lowest terms with a
denominator of at most a hundred thousand, and no other such fraction is closer to the number that the value's written
form denotes. It is marked as rounded exactly if it is another number. -/
theorem render_nearest {value : Float} {settings : Settings} {count : Int} (finite : value.isFinite = true)
    (fractions : settings.isOn "fractions" = true)
    (asked : ((settings.value? "decimal_places").getD (.whole Settings.defaultDecimalPlaces)).whole? = some count) :
    ∃ exact rendered shape shown,
      Decimal.read? (Double.chars value) = some exact ∧
      render value settings = .ok rendered ∧
      Fraction.IsWritten rendered.text shape shown ∧
      1 ≤ shown.den ∧ shown.den ≤ 100000 ∧
      Fraction.IsNearest 100000 exact.toRat shown ∧
      (rendered.rounded = true ↔ shown ≠ exact.toRat) := by
  obtain ⟨exact, read, same⟩ := Decimal.exists_read?_chars finite
  obtain ⟨within, nearest⟩ := Fraction.isNearest_nearest (by decide : 0 < 100000) exact.toRat
  have drawn := render_of_fractions finite fractions asked
  rw [Fraction.render, ← same] at drawn
  exact ⟨exact, _, _, _, read, drawn, Fraction.isWritten_text _, Rat.den_pos _, within, nearest, decide_eq_true_iff⟩

/-- Half the circumference of the unit circle, negated. -/
theorem render_negative_pi :
    ∃ exact rendered shape shown,
      Decimal.read? (Double.chars (-3.141592653589793)) = some exact ∧
      render (-3.141592653589793) (.ofNamed [("fractions", .flag true)]) = .ok rendered ∧
      Fraction.IsWritten rendered.text shape shown ∧
      1 ≤ shown.den ∧ shown.den ≤ 100000 ∧
      Fraction.IsNearest 100000 exact.toRat shown ∧
      (rendered.rounded = true ↔ shown ≠ exact.toRat) :=
  @render_nearest _ _ 10 (by decide +kernel) rfl rfl

end Reckoner
