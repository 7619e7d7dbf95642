import Mathlib
import Reckoner.Double.Nearest

namespace Reckoner.Double

theorem roundQuotient_mono {a b : Nat} (den : Nat) (le : a ≤ b) : roundQuotient a den ≤ roundQuotient b den := by
  have quotients : a / den ≤ b / den := Nat.div_le_div_right le
  have first := Nat.div_add_mod a den
  have second := Nat.div_add_mod b den
  simp only [roundQuotient]
  rcases quotients.lt_or_eq with below | same
  · split_ifs <;> omega
  · rw [same] at first ⊢
    have remainders : a % den ≤ b % den := by omega
    split_ifs <;> omega

theorem roundQuotient_le {num den bound : Nat} (positive : 0 < den) (le : num ≤ bound * den) :
    roundQuotient num den ≤ bound :=
  (roundQuotient_mono den le).trans_eq (roundQuotient_mul_self bound positive)

theorem le_roundQuotient {num den bound : Nat} (positive : 0 < den) (le : bound * den ≤ num) :
    bound ≤ roundQuotient num den :=
  (roundQuotient_mul_self bound positive).symm.trans_le (roundQuotient_mono den le)

/-- How many binary digits a quotient of steps has beyond those of a mantissa. -/
def excess (scaled den : Nat) : Nat := (scaled / den).log2 - 52

theorem nearest_eq (num den : Nat) :
    nearest num den = min (excess (num * stepsInOne) den * leadingBit +
      roundQuotient (num * stepsInOne) (den * 2 ^ excess (num * stepsInOne) den)) infinityBits := rfl

theorem excess_mono {a b : Nat} (den : Nat) (le : a ≤ b) : excess a den ≤ excess b den :=
  Nat.sub_le_sub_right (by
    rw [Nat.log2_eq_log_two, Nat.log2_eq_log_two]
    exact Nat.log_mono_right (Nat.div_le_div_right le)) _

theorem lt_of_excess {scaled den : Nat} (positive : 0 < den) :
    scaled < 2 * leadingBit * (den * 2 ^ excess scaled den) := by
  have upper : scaled / den < 2 ^ ((scaled / den).log2 + 1) := Nat.lt_log2_self
  have power : 2 ^ ((scaled / den).log2 + 1) ≤ 2 * leadingBit * 2 ^ excess scaled den := by
    change _ ≤ 2 ^ 53 * _
    rw [← pow_add]
    exact Nat.pow_le_pow_right (by decide) (by unfold excess; omega)
  have product := (Nat.div_lt_iff_lt_mul positive).1 (upper.trans_le power)
  calc scaled < 2 * leadingBit * 2 ^ excess scaled den * den := product
    _ = 2 * leadingBit * (den * 2 ^ excess scaled den) := by ring

theorem le_of_excess {scaled den : Nat} (long : 0 < excess scaled den) :
    leadingBit * (den * 2 ^ excess scaled den) ≤ scaled := by
  have nonzero : scaled / den ≠ 0 := by
    intro zero
    simp only [excess, zero, Nat.log2_zero] at long
    omega
  have lower := Nat.log2_self_le nonzero
  have power : leadingBit * 2 ^ excess scaled den = 2 ^ (scaled / den).log2 := by
    change 2 ^ 52 * _ = _
    rw [← pow_add]
    congr 1
    unfold excess at *
    omega
  calc leadingBit * (den * 2 ^ excess scaled den) = leadingBit * 2 ^ excess scaled den * den := by ring
    _ = 2 ^ (scaled / den).log2 * den := by rw [power]
    _ ≤ scaled / den * den := Nat.mul_le_mul_right _ lower
    _ ≤ scaled := Nat.div_mul_le_self _ _

/-- Rounding to the nearest double keeps the order of numbers with one denominator. When the larger number has more
binary digits, its mantissa is at least the leading bit, which makes up for the one step of the exponent. -/
theorem nearest_mono {a b den : Nat} (positive : 0 < den) (le : a ≤ b) : nearest a den ≤ nearest b den := by
  have scaled : a * stepsInOne ≤ b * stepsInOne := Nat.mul_le_mul_right _ le
  rw [nearest_eq, nearest_eq]
  refine min_le_min_right _ ?_
  generalize a * stepsInOne = x at *
  generalize b * stepsInOne = y at *
  rcases (excess_mono den scaled).lt_or_eq with shorter | same
  · have gridLeft : 0 < den * 2 ^ excess x den := by positivity
    have gridRight : 0 < den * 2 ^ excess y den := by positivity
    have upper := roundQuotient_le gridLeft (lt_of_excess positive).le
    have lower := le_roundQuotient gridRight (le_of_excess (by omega : 0 < excess y den))
    have step : (excess x den + 1) * leadingBit ≤ excess y den * leadingBit := Nat.mul_le_mul_right _ shorter
    rw [Nat.succ_mul] at step
    omega
  · rw [same]
    exact Nat.add_le_add_left (roundQuotient_mono _ scaled) _

theorem nearest_of_small {num den : Nat} (small : 2 * (num * stepsInOne) < den) : nearest num den = 0 := by
  have zero : num * stepsInOne / den = 0 := Nat.div_eq_of_lt (by omega)
  have rest : num * stepsInOne % den = num * stepsInOne := Nat.mod_eq_of_lt (by omega)
  have short : excess (num * stepsInOne) den = 0 := by simp only [excess, zero, Nat.log2_zero, Nat.zero_sub]
  rw [nearest_eq, short, pow_zero, Nat.mul_one, Nat.zero_mul, Nat.zero_add]
  simp only [roundQuotient, zero, rest, if_pos small, Nat.zero_min]

theorem nearest_zero {den : Nat} (positive : 0 < den) : nearest 0 den = 0 :=
  nearest_of_small (by omega)

theorem stepsInOne_eq : stepsInOne = 2 ^ halvings := by
  unfold stepsInOne
  generalize halvings = power
  exact Nat.pow_eq

theorem nearest_of_large {num den power : Nat} (positive : 0 < den) (beyond : 1024 ≤ power)
    (large : 2 ^ power * den ≤ num) : nearest num den = infinityBits := by
  have quotient : 2 ^ (power + halvings) ≤ num * stepsInOne / den := by
    rw [Nat.le_div_iff_mul_le positive, pow_add, stepsInOne_eq, Nat.mul_right_comm]
    exact Nat.mul_le_mul_right _ large
  have length := (Nat.le_log2 (by have := Nat.two_pow_pos (power + halvings); omega)).2 quotient
  have long : 2046 ≤ excess (num * stepsInOne) den := by
    unfold excess halvings at *
    omega
  have grid : 0 < den * 2 ^ excess (num * stepsInOne) den := by positivity
  have lower := le_roundQuotient grid (le_of_excess (by omega : 0 < excess (num * stepsInOne) den))
  have field : 2046 * leadingBit ≤ excess (num * stepsInOne) den * leadingBit := Nat.mul_le_mul_right _ long
  have top : infinityBits = 2046 * leadingBit + leadingBit := by decide
  rw [nearest_eq]
  exact min_eq_right (by omega)

theorem pow_eight_le (power : Nat) : 2 ^ (3 * power) ≤ 10 ^ power := by
  rw [pow_mul]
  exact Nat.pow_le_pow_left (by decide) power

/-- A decimal whose size alone decides that it is too large is rounded to infinity. -/
theorem nearest_of_log2 {digits power den : Nat} (positive : 0 < den) (nonzero : digits ≠ 0)
    (large : 1024 ≤ digits.log2 + 3 * power) : nearest (digits * 10 ^ power * den) den = infinityBits := by
  refine nearest_of_large positive large (Nat.mul_le_mul_right _ ?_)
  rw [pow_add]
  exact Nat.mul_le_mul (Nat.log2_self_le nonzero) (pow_eight_le power)

/-- A decimal whose size alone decides that it lies below half a step is rounded to zero. -/
theorem nearest_of_log2_lt {digits power : Nat} (small : digits.log2 + (halvings + 3) ≤ 3 * power) :
    nearest digits (10 ^ power) = 0 := by
  refine nearest_of_small ?_
  have upper : digits < 2 ^ (digits.log2 + 1) := Nat.lt_log2_self
  have steps := stepsInOne_eq
  generalize halvings = count at *
  calc 2 * (digits * stepsInOne) = digits * 2 ^ (count + 1) := by rw [steps]; ring
    _ < 2 ^ (digits.log2 + 1) * 2 ^ (count + 1) := Nat.mul_lt_mul_of_pos_right upper (Nat.two_pow_pos _)
    _ = 2 ^ (digits.log2 + 1 + (count + 1)) := (pow_add ..).symm
    _ ≤ 2 ^ (3 * power) := Nat.pow_le_pow_right (by decide) (by omega)
    _ ≤ 10 ^ power := pow_eight_le power

/-- Reading a decimal is rounding it, on whatever grid of powers of ten it is written. -/
theorem nearestDecimal_eq {digits : Nat} {exponent : Int} (places : Nat) (within : 0 ≤ exponent + places) :
    nearestDecimal digits exponent = nearest (digits * 10 ^ (exponent + places).toNat) (10 ^ places) := by
  have positive : 0 < 10 ^ places := by positivity
  cases exponent with
  | ofNat e =>
    have sum : (Int.ofNat e + (places : Int)).toNat = e + places := by simp only [Int.ofNat_eq_natCast]; omega
    rw [sum, pow_add, ← Nat.mul_assoc]
    simp only [nearestDecimal, Nat.pow_eq]
    split_ifs with zero large
    · rw [zero, Nat.zero_mul, Nat.zero_mul, nearest_zero positive]
    · exact (nearest_of_log2 positive zero large).symm
    · have scaled := nearest_mul_right (digits * 10 ^ e) 1 positive
      rw [Nat.one_mul] at scaled
      exact scaled.symm
  | negSucc e =>
    obtain ⟨rest, rfl⟩ : ∃ rest, places = e + 1 + rest := ⟨places - (e + 1), by omega⟩
    have sum : (Int.negSucc e + ((e + 1 + rest : Nat) : Int)).toNat = rest := by omega
    have scaled := nearest_mul_right digits (10 ^ (e + 1)) (show 0 < 10 ^ rest by positivity)
    rw [sum, pow_add 10 (e + 1), scaled]
    simp only [nearestDecimal, Nat.pow_eq]
    split_ifs with small
    · exact (nearest_of_log2_lt small).symm
    · rfl

theorem nearestDecimal_zero (exponent : Int) : nearestDecimal 0 exponent = 0 := by
  rw [nearestDecimal_eq exponent.natAbs (by omega), Nat.zero_mul]
  exact nearest_zero (by positivity)

theorem nearestDecimal_le (digits : Nat) (exponent : Int) : nearestDecimal digits exponent ≤ infinityBits := by
  rw [nearestDecimal_eq exponent.natAbs (by omega)]
  exact min_le_right _ _

theorem nearestDecimal_mul_pow (digits zeros : Nat) (exponent : Int) :
    nearestDecimal (digits * 10 ^ zeros) exponent = nearestDecimal digits (exponent + zeros) := by
  rw [nearestDecimal_eq exponent.natAbs (by omega),
    @nearestDecimal_eq digits (exponent + zeros) exponent.natAbs (by omega)]
  have power : (exponent + zeros + exponent.natAbs).toNat = zeros + (exponent + exponent.natAbs).toNat := by omega
  rw [power, pow_add, Nat.mul_assoc]

end Reckoner.Double
