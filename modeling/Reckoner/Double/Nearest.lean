namespace Reckoner.Double

/-- The magnitude bits of infinity. All smaller numbers are the magnitude bits of finite doubles. -/
def infinityBits : Nat := 0x7FF0000000000000

/-- The bit that makes a double negative. -/
def signBit : Nat := 0x8000000000000000

/-- The lowest bit of the exponent field, the one above the 52 bits of the fraction field. A mantissa of full length
has this bit as its leading one. -/
def leadingBit : Nat := 0x10000000000000

/-- How often one is halved to reach the smallest step. -/
def halvings : Nat := 1074

/-- The number of steps of `2 ^ -1074` in one. -/
def stepsInOne : Nat := Nat.pow 2 halvings

/-- The finite magnitude with the given bits, counted in steps of `2 ^ -1074`. Magnitudes with the exponent
field zero or one are the step count itself; beyond, each exponent doubles the distance of neighbours. -/
def units (bits : Nat) : Nat :=
  if bits / leadingBit = 0 then bits else (bits % leadingBit + leadingBit) * Nat.pow 2 (bits / leadingBit - 1)

/-- The whole number closest to `num / den`; a half goes to the even neighbour. -/
def roundQuotient (num den : Nat) : Nat :=
  let floor := num / den
  let twice := 2 * (num % den)
  if twice < den then floor else if den < twice then floor + 1 else floor + floor % 2

/-- The magnitude bits of the double closest to `num / den`. The quotient is measured in steps of
`2 ^ -1074` and cut to 53 binary digits; a carry out of the mantissa runs into the exponent field, where it
is already right, and everything past the largest finite magnitude is infinity. -/
def nearest (num den : Nat) : Nat :=
  let scaled := num * stepsInOne
  let shift := (scaled / den).log2 - 52
  min (shift * leadingBit + roundQuotient scaled (den * Nat.pow 2 shift)) infinityBits

/-- The magnitude bits of the double closest to `digits * 10 ^ exponent`. Exponents so large that the power of
ten alone decides the answer are answered without computing the power: with `10 ^ e` at least `2 ^ (3 * e)`, the
value is at least `2 ^ 1024` in the first case and below half a step in the second. -/
def nearestDecimal (digits : Nat) : Int → Nat
  | .ofNat e =>
    if digits = 0 then 0
    else if 1024 ≤ digits.log2 + 3 * e then infinityBits
    else nearest (digits * Nat.pow 10 e) 1
  | .negSucc e =>
    if digits.log2 + 1077 ≤ 3 * (e + 1) then 0
    else nearest digits (Nat.pow 10 (e + 1))

/-- The double with the given sign and magnitude bits. -/
def ofMagnitude (negative : Bool) (bits : Nat) : Float :=
  Float.ofBits (UInt64.ofNat (if negative then signBit + bits else bits))

def isNegative (x : Float) : Bool :=
  signBit ≤ x.toBits.toNat

def magnitude (x : Float) : Nat :=
  x.toBits.toNat % signBit

/-- Rounding a quotient does not depend on a common factor. -/
theorem roundQuotient_mul_right (num den : Nat) {k : Nat} (hk : 0 < k) :
    roundQuotient (num * k) (den * k) = roundQuotient num den := by
  have twice : 2 * (num * k % (den * k)) = 2 * (num % den) * k := by
    rw [Nat.mul_mod_mul_right, Nat.mul_assoc]
  simp only [roundQuotient, twice, Nat.mul_div_mul_right _ _ hk, Nat.mul_lt_mul_right hk]

theorem roundQuotient_mul_self (q : Nat) {den : Nat} (h : 0 < den) : roundQuotient (q * den) den = q := by
  simp [roundQuotient, Nat.mul_div_cancel _ h, h]

/-- The closest double depends on the quotient only, not on how it is written. -/
theorem nearest_mul_right (num den : Nat) {k : Nat} (hk : 0 < k) : nearest (num * k) (den * k) = nearest num den := by
  have scaled : num * k * stepsInOne = num * stepsInOne * k := Nat.mul_right_comm ..
  have step (s : Nat) : den * k * Nat.pow 2 s = den * Nat.pow 2 s * k := Nat.mul_right_comm ..
  simp only [nearest, scaled, step, Nat.mul_div_mul_right _ _ hk, roundQuotient_mul_right _ _ hk]

theorem stepsInOne_pos : 0 < stepsInOne := by
  unfold stepsInOne
  generalize halvings = k
  exact Nat.two_pow_pos k

/-- A number of `mantissa * 2 ^ shift` steps whose binary length fits the shift has the magnitude bits that the two
make up. -/
private theorem nearest_of_shape {value shift mantissa : Nat} (shape : value = mantissa * Nat.pow 2 shift)
    (length : value.log2 - 52 = shift) :
    nearest value stepsInOne = min (shift * leadingBit + mantissa) infinityBits := by
  have whole : value * stepsInOne / stepsInOne = value := Nat.mul_div_cancel _ stepsInOne_pos
  have product : value * stepsInOne = mantissa * (stepsInOne * Nat.pow 2 shift) := by
    rw [shape, Nat.mul_assoc, Nat.mul_comm (Nat.pow 2 shift)]
  have positive : 0 < stepsInOne * Nat.pow 2 shift := Nat.mul_pos stepsInOne_pos (Nat.two_pow_pos shift)
  simp only [nearest, whole, length]
  rw [product, roundQuotient_mul_self mantissa positive]

/-- A finite magnitude is the closest double to itself. -/
theorem nearest_units {bits : Nat} (finite : bits < infinityBits) : nearest (units bits) stepsInOne = bits := by
  have leading : leadingBit = 2 ^ 52 := rfl
  unfold infinityBits at finite
  by_cases small : bits / leadingBit = 0
  · have value : units bits = bits * Nat.pow 2 0 := by
      simp only [units, small, if_true, Nat.pow_eq, Nat.pow_zero, Nat.mul_one]
    have length : (units bits).log2 - 52 = 0 := by
      rw [value, Nat.pow_eq, Nat.pow_zero, Nat.mul_one]
      by_cases zero : bits = 0
      · simp only [zero, Nat.log2_zero, Nat.zero_sub]
      · have := (Nat.log2_lt zero).2 (by unfold leadingBit at small; omega : bits < 2 ^ 53)
        omega
    rw [nearest_of_shape value length]
    unfold infinityBits
    omega
  · have value : units bits = (bits % leadingBit + leadingBit) * Nat.pow 2 (bits / leadingBit - 1) := by
      simp only [units, small, if_false]
    have below : bits % leadingBit < leadingBit := Nat.mod_lt _ (by decide)
    have length : (units bits).log2 - 52 = bits / leadingBit - 1 := by
      have ne : units bits ≠ 0 := by
        rw [value]
        exact Nat.mul_ne_zero (by omega) (Nat.ne_of_gt (Nat.two_pow_pos _))
      have lower : 52 + (bits / leadingBit - 1) ≤ (units bits).log2 := by
        rw [Nat.le_log2 ne, value, Nat.pow_eq, Nat.pow_add]
        exact Nat.mul_le_mul_right _ (by omega)
      have upper : (units bits).log2 < 53 + (bits / leadingBit - 1) := by
        rw [Nat.log2_lt ne, value, Nat.pow_eq, Nat.pow_add]
        exact Nat.mul_lt_mul_of_pos_right (by omega) (Nat.two_pow_pos _)
      omega
    rw [nearest_of_shape value length]
    unfold leadingBit infinityBits at *
    omega

end Reckoner.Double
