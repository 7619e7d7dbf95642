import Mathlib
import Reckoner.Proofs.Rendering.Canonical

namespace Reckoner.Decimal

/-- The decimal with its last digit at the given exponent: filled up with zeros, or rounded to the nearest. -/
def rescaled (d : Decimal) (exponent : Int) : Decimal :=
  if exponent ≤ d.exponent then ⟨d.negative, d.digits * 10 ^ (d.exponent - exponent).toNat, exponent⟩
  else ⟨d.negative, Double.roundQuotient d.digits (10 ^ (exponent - d.exponent).toNat), exponent⟩

/-- The decimal rounded to at most the given number of digits. Its exponent is not limited: the range that there is goes
far beyond the exponents of doubles. -/
def limited (d : Decimal) (precision : Nat) : Decimal :=
  let excess := (Nat.toDigits 10 d.digits).length - precision
  if excess = 0 then d else d.rescaled (d.exponent + excess)

/-- What is left behind the point. It is not computed if the part before the point has more
digits than the precision. -/
def remainderOne? (d : Decimal) (precision : Nat) : Option Decimal :=
  let scaled := d.digits * 10 ^ d.exponent.toNat
  let one := 10 ^ (-d.exponent).toNat
  if 10 ^ precision ≤ scaled / one then none
  else some (limited ⟨d.negative, scaled % one, min d.exponent 0⟩ precision)

/-- The decimal rounded to places, unless it has more digits than the precision then. -/
def quantize? (d : Decimal) (precision places : Nat) : Option Decimal :=
  let shown := d.rescaled (-places)
  if precision < (Nat.toDigits 10 shown.digits).length then none else some shown

/-- The digits before the point, the places, and 28 more. -/
def workingPrecision (d : Decimal) (places : Nat) : Nat :=
  (max (d.leadingExponent + 1) 1).toNat + places + 28

/-- The text of a decimal with at most the given places, computed with the working precision. -/
def renderWithin? (d : Decimal) (places : Nat) : Option Rendered := do
  if d.digits = 0 then return ⟨"0", false⟩
  let precision := d.workingPrecision places
  let remainder ← d.remainderOne? precision
  if remainder.digits = 0 then return ⟨(d.limited precision).trimmed.plain, false⟩
  let shown ← d.quantize? precision places
  if shown.digits = 0 then return ⟨"0", shown.toRat ≠ d.toRat⟩
  return ⟨(shown.limited precision).trimmed.plain, shown.toRat ≠ d.toRat⟩

variable {d : Decimal} {exponent : Int} {precision places : Nat}

/-- No digit is lost as long as the last digit other than zero is kept. -/
theorem trimmed_rescaled_of_le (nonzero : d.digits ≠ 0) (fine : exponent ≤ d.trimmed.exponent) :
    (d.rescaled exponent).trimmed = d.trimmed := by
  unfold rescaled
  split_ifs with finer
  · have extended := trimmed_extended d (d.exponent - exponent).toNat
    have place : d.exponent - ((d.exponent - exponent).toNat : Int) = exponent := by omega
    rw [place] at extended
    exact extended
  · obtain ⟨zeros, value, shift, last⟩ := trimmed_spec nonzero
    obtain ⟨rest, rfl⟩ : ∃ rest, zeros = rest + (exponent - d.exponent).toNat :=
      ⟨zeros - (exponent - d.exponent).toNat, by omega⟩
    have kept : d.digits = d.trimmed.digits * 10 ^ rest * 10 ^ (exponent - d.exponent).toNat := by
      rw [Nat.mul_assoc, ← pow_add]
      exact value
    have place : exponent + rest = d.trimmed.exponent := by
      push_cast at shift
      omega
    nth_rewrite 1 [kept]
    rw [Double.roundQuotient_mul_self _ (by positivity), trimmed_mul_pow _ last, place, ← trimmed_negative d]

/-- Where digits are lost, trailing zeros make no difference to how the others are rounded. -/
theorem rescaled_of_lt (nonzero : d.digits ≠ 0) (coarse : d.trimmed.exponent < exponent) :
    d.rescaled exponent = ⟨d.negative,
      Double.roundQuotient d.trimmed.digits (10 ^ (exponent - d.trimmed.exponent).toNat), exponent⟩ := by
  obtain ⟨zeros, value, shift, _⟩ := trimmed_spec nonzero
  have power : (exponent - d.exponent).toNat = (exponent - d.trimmed.exponent).toNat + zeros := by omega
  rw [rescaled, if_neg (by omega), power, pow_add]
  nth_rewrite 1 [value]
  rw [Double.roundQuotient_mul_right _ _ (by positivity)]

theorem trimmed_rescaled (nonzero : d.digits ≠ 0) (places : Nat) :
    (d.rescaled (-places)).trimmed = d.trimmed.round places := by
  unfold round
  dsimp only
  split_ifs with enough
  · exact trimmed_rescaled_of_le nonzero (by omega)
  · have power : (-(places : Int) - d.trimmed.exponent).toNat = (-d.trimmed.exponent - places).toNat := by omega
    rw [rescaled_of_lt nonzero (by omega), power, trimmed_negative, Nat.pow_eq]

theorem lt_pow_length (n : Nat) : n < 10 ^ (Nat.toDigits 10 n).length :=
  (Nat.length_toDigits_le_iff (by decide : 1 < 10) Nat.length_toDigits_pos).1 le_rfl

theorem pow_length_le {n : Nat} (nonzero : n ≠ 0) : 10 ^ ((Nat.toDigits 10 n).length - 1) ≤ n := by
  by_contra below
  rcases Nat.eq_zero_or_pos ((Nat.toDigits 10 n).length - 1) with single | more
  · rw [single, pow_zero] at below
    omega
  · have shorter := (Nat.length_toDigits_le_iff (by decide : 1 < 10) more).2 (Nat.lt_of_not_le below)
    omega

/-- Rounding to digits never leaves none of them. -/
theorem limited_digits_eq_zero_iff (positive : 0 < precision) : (d.limited precision).digits = 0 ↔ d.digits = 0 := by
  unfold limited
  dsimp only
  split_ifs with short
  · rfl
  · have nonzero : d.digits ≠ 0 := by
      intro zero
      rw [zero] at short
      exact short (Nat.sub_eq_zero_of_le positive)
    have leading := pow_length_le nonzero
    generalize (Nat.toDigits 10 d.digits).length = length at *
    have kept : 1 ≤ Double.roundQuotient d.digits (10 ^ (length - precision)) := by
      refine Double.le_roundQuotient (by positivity) ?_
      rw [Nat.one_mul]
      exact (Nat.pow_le_pow_right (by decide) (by omega)).trans leading
    have power : (d.exponent + ((length - precision : Nat) : Int) - d.exponent).toNat = length - precision := by omega
    rw [rescaled, if_neg (by omega)]
    dsimp only
    rw [power]
    omega

theorem workingPrecision_pos (d : Decimal) (places : Nat) : 0 < d.workingPrecision places := by
  unfold workingPrecision
  omega

/-- The digits of a decimal that stand before the point or in the places asked for, and even one more, are fewer than
the working precision. -/
theorem length_lt_workingPrecision (d : Decimal) (places : Nat) :
    (Nat.toDigits 10 d.digits).length + d.exponent + places < d.workingPrecision places ∧
      places + 1 < d.workingPrecision places := by
  unfold workingPrecision leadingExponent
  omega

/-- The part before the point fits the working precision, so that the part behind it is computed. It is zero exactly for
whole numbers. -/
theorem exists_remainderOne? (nonzero : d.digits ≠ 0) (places : Nat) :
    ∃ remainder, d.remainderOne? (d.workingPrecision places) = some remainder ∧
      (remainder.digits = 0 ↔ 0 ≤ d.trimmed.exponent) := by
  have below := lt_pow_length d.digits
  obtain ⟨wide, _⟩ := length_lt_workingPrecision d places
  have positive := workingPrecision_pos d places
  generalize (Nat.toDigits 10 d.digits).length = length at *
  generalize d.workingPrecision places = precision at *
  have before : d.digits * 10 ^ d.exponent.toNat / 10 ^ (-d.exponent).toNat < 10 ^ precision := by
    refine Nat.div_lt_of_lt_mul ?_
    calc d.digits * 10 ^ d.exponent.toNat < 10 ^ length * 10 ^ d.exponent.toNat :=
          Nat.mul_lt_mul_of_pos_right below (by positivity)
      _ = 10 ^ (length + d.exponent.toNat) := (pow_add ..).symm
      _ ≤ 10 ^ ((-d.exponent).toNat + precision) := Nat.pow_le_pow_right (by decide) (by omega)
      _ = 10 ^ (-d.exponent).toNat * 10 ^ precision := pow_add ..
  refine ⟨_, by rw [remainderOne?, if_neg (Nat.not_le.2 before)], ?_⟩
  rw [limited_digits_eq_zero_iff positive]
  dsimp only
  obtain ⟨zeros, value, shift, last⟩ := trimmed_spec nonzero
  have divides := pow_ten_dvd_iff last (zeros + d.exponent.toNat) (-d.exponent).toNat
  rw [pow_add, ← Nat.mul_assoc, ← value] at divides
  rw [← Nat.dvd_iff_mod_eq_zero, divides, shift]
  omega

/-- Rounded to places, a decimal fits the working precision, a carry included. -/
theorem length_rescaled_le (d : Decimal) (places : Nat) :
    (Nat.toDigits 10 (d.rescaled (-places)).digits).length ≤ d.workingPrecision places := by
  have below := lt_pow_length d.digits
  obtain ⟨wide, more⟩ := length_lt_workingPrecision d places
  have positive := workingPrecision_pos d places
  rw [Nat.length_toDigits_le_iff (by decide) positive]
  generalize (Nat.toDigits 10 d.digits).length = length at *
  generalize d.workingPrecision places = precision at *
  unfold rescaled
  split_ifs with finer
  · calc d.digits * 10 ^ (d.exponent - -(places : Int)).toNat
        < 10 ^ length * 10 ^ (d.exponent - -(places : Int)).toNat := Nat.mul_lt_mul_of_pos_right below (by positivity)
      _ = 10 ^ (length + (d.exponent - -(places : Int)).toNat) := (pow_add ..).symm
      _ ≤ 10 ^ precision := Nat.pow_le_pow_right (by decide) (by omega)
  · generalize atCut : (-(places : Int) - d.exponent).toNat = cut
    have rounded : Double.roundQuotient d.digits (10 ^ cut) ≤ 10 ^ (length - cut) := by
      refine Double.roundQuotient_le (by positivity) (below.le.trans ?_)
      rw [← pow_add]
      exact Nat.pow_le_pow_right (by decide) (by omega)
    exact rounded.trans_lt (Nat.pow_lt_pow_right (by decide) (by omega))

theorem quantize?_eq (d : Decimal) (places : Nat) :
    d.quantize? (d.workingPrecision places) places = some (d.rescaled (-places)) := by
  rw [quantize?, if_neg (Nat.not_lt.2 (length_rescaled_le d places))]

theorem limited_rescaled (d : Decimal) (places : Nat) :
    (d.rescaled (-places)).limited (d.workingPrecision places) = d.rescaled (-places) := by
  rw [limited, if_pos (Nat.sub_eq_zero_of_le (length_rescaled_le d places))]

/-- The working precision keeps all digits of a whole number. -/
theorem trimmed_limited_of_whole (nonzero : d.digits ≠ 0) (whole : 0 ≤ d.trimmed.exponent) (places : Nat) :
    (d.limited (d.workingPrecision places)).trimmed = d.trimmed := by
  obtain ⟨wide, _⟩ := length_lt_workingPrecision d places
  unfold limited
  dsimp only
  split_ifs with short
  · rfl
  · exact trimmed_rescaled_of_le nonzero (by omega)

/-- In the working precision no operation fails, and the answer is what is shown. -/
theorem renderWithin?_eq (d : Decimal) (places : Nat) : d.renderWithin? places = some (d.trimmed.render places) := by
  unfold renderWithin?
  rw [render_eq]
  by_cases zero : d.digits = 0
  · rw [if_pos zero, trimmed_of_zero zero, round_of_whole le_rfl, if_pos rfl]
    simp
  · obtain ⟨remainder, behind, isWhole⟩ := exists_remainderOne? zero places
    have rounds := trimmed_rescaled zero places
    have changed := toRat_trimmed_round_eq_iff d places
    rw [← rounds, toRat_trimmed, toRat_trimmed] at changed
    rw [if_neg zero]
    simp only [behind, quantize?_eq, limited_rescaled, isWhole, Option.bind_eq_bind, Option.bind_some, Option.pure_def]
    by_cases whole : 0 ≤ d.trimmed.exponent
    · rw [if_pos whole, trimmed_limited_of_whole zero whole, round_of_whole whole,
        if_neg (trimmed_digits_eq_zero_iff.not.2 zero)]
      simp
    · rw [if_neg whole, ← rounds]
      simp only [trimmed_digits_eq_zero_iff, ne_eq, changed]
      split_ifs <;> rfl

/-- A half goes to the even neighbour. -/
example : renderWithin? ⟨false, 125, -3⟩ 2 = some ⟨"0.12", true⟩ := by decide +kernel

end Reckoner.Decimal
