import Mathlib
import Reckoner.Proofs.Double.Shortest
import Reckoner.Rendering.Decimal

namespace Reckoner.Double

/-- The least whole number beyond which doubles have no fraction, as magnitude bits. -/
def wholeBits : Nat := (halvings + 1) * leadingBit

theorem units_of_wholeBits_le {bits : Nat} (large : wholeBits ≤ bits) :
    ∃ whole, units bits = whole * stepsInOne ∧ 0 < whole := by
  have field : halvings + 1 ≤ bits / leadingBit := (Nat.le_div_iff_mul_le (by decide)).2 large
  obtain ⟨power, atField⟩ := Nat.exists_eq_add_of_le field
  refine ⟨(bits % leadingBit + leadingBit) * 2 ^ power, ?_, by unfold leadingBit; positivity⟩
  have exponent : bits / leadingBit - 1 = power + halvings := by omega
  rw [units, if_neg (by omega), exponent, stepsInOne_eq, Nat.pow_eq, pow_add, Nat.mul_assoc]

theorem exactDigits_eq_mul {bits whole : Nat} (steps : units bits = whole * stepsInOne) :
    exactDigits bits = whole * 10 ^ halvings := by
  have powers : 10 ^ halvings = stepsInOne * 5 ^ halvings := by rw [stepsInOne_eq, ← Nat.mul_pow]
  rw [exactDigits, steps, powers, Nat.pow_eq]
  generalize 5 ^ halvings = power
  ring

/-- A double whose shortest decimal has places behind the point is small enough to have a fraction. -/
theorem magnitude_lt_of_fraction {x : Float} (finite : x.isFinite = true) (fraction : (toDecimal x).exponent < 0) :
    magnitude x < wholeBits := by
  by_contra large
  obtain ⟨whole, steps, positive⟩ := units_of_wholeBits_le (Nat.le_of_not_lt large)
  have finiteBits := (isFinite_iff x).1 finite
  have exact := exactDigits_eq_mul steps
  have reads : onGrid (whole * 10 ^ halvings) = magnitude x := exact ▸ onGrid_exactDigits finiteBits
  have long : halvings < (Nat.toDigits 10 (exactDigits (magnitude x))).length := by
    by_contra short
    have below := (Nat.length_toDigits_le_iff (n := exactDigits (magnitude x)) (by decide : 1 < 10) (by decide)).1
      (Nat.le_of_not_lt short)
    rw [exact] at below
    exact absurd below (Nat.not_lt.2 (Nat.le_mul_of_pos_left _ positive))
  obtain ⟨places, _, last, back, _, none⟩ := found_spec finite
  have nonzero : (found x).1 ≠ 0 := by
    intro zero
    rw [zero, Nat.zero_mul, onGrid_zero] at back
    rw [← back] at large
    exact large (by decide)
  obtain ⟨zeros, _, shift, _⟩ := Decimal.trimmed_spec (d := ⟨isNegative x, (found x).1, (found x).2⟩) nonzero
  rw [← toDecimal_eq] at shift
  simp only at shift
  exact shortestAt?_ne_none finiteBits reads (none halvings (by omega) long)

theorem nearestDecimal_mono {a b : Nat} (exponent : Int) (le : a ≤ b) :
    nearestDecimal a exponent ≤ nearestDecimal b exponent := by
  rw [nearestDecimal_eq exponent.natAbs (by omega), nearestDecimal_eq exponent.natAbs (by omega)]
  exact nearest_mono (by positivity) (Nat.mul_le_mul_right _ le)

theorem nearestDecimal_leadingBit (places : Nat) :
    nearestDecimal (leadingBit * 10 ^ places) (-(places : Int)) = wholeBits := by
  have finite : wholeBits < infinityBits := by decide
  have steps : units wholeBits = leadingBit * stepsInOne := by
    have field : wholeBits / leadingBit = halvings + 1 := by decide
    have rest : wholeBits % leadingBit = 0 := by decide
    rw [units, field, rest, if_neg (Nat.succ_ne_zero halvings), Nat.zero_add, Nat.add_sub_cancel, stepsInOne_eq,
      Nat.pow_eq]
  have same := nearest_units finite
  rw [steps] at same
  have scaled := nearest_mul_right leadingBit 1 stepsInOne_pos
  rw [Nat.one_mul] at scaled
  have place : -(places : Int) + places = 0 := by omega
  have zero : ((0 : Int) + (0 : Nat)).toNat = 0 := rfl
  rw [nearestDecimal_mul_pow, place, nearestDecimal_eq 0 (by omega), zero, pow_zero, Nat.mul_one, ← scaled, same]

/-- The number of the shortest decimal lies below the whole numbers beyond which doubles have no fraction. -/
theorem digits_toDecimal_lt {x : Float} {places : Nat} (finite : x.isFinite = true)
    (fraction : (toDecimal x).exponent = -(places : Int)) (positive : 0 < places) :
    (toDecimal x).digits < leadingBit * 10 ^ places := by
  by_contra large
  have reads := nearestDecimal_toDecimal finite
  have above := nearestDecimal_mono (-(places : Int)) (Nat.le_of_not_lt large)
  rw [nearestDecimal_leadingBit, ← fraction, reads] at above
  exact absurd above (Nat.not_le.2 (magnitude_lt_of_fraction finite (by omega)))

theorem nearestDecimal_round_lt {x : Float} {places excess : Nat} (finite : x.isFinite = true)
    (exponent : (toDecimal x).exponent = -((places + excess : Nat) : Int)) (positive : 0 < excess) :
    nearestDecimal (roundQuotient (toDecimal x).digits (10 ^ excess)) (-(places : Int)) < infinityBits := by
  have below := (digits_toDecimal_lt finite exponent (Nat.add_pos_right places positive)).le
  rw [pow_add, ← Nat.mul_assoc] at below
  have rounded := roundQuotient_mono (10 ^ excess) below
  rw [roundQuotient_mul_self _ (by positivity)] at rounded
  calc nearestDecimal (roundQuotient (toDecimal x).digits (10 ^ excess)) (-(places : Int))
      ≤ nearestDecimal (leadingBit * 10 ^ places) (-(places : Int)) := nearestDecimal_mono _ rounded
    _ = wholeBits := nearestDecimal_leadingBit places
    _ < infinityBits := by decide

/-- A single digit is rounded away, or up to one if a single place is cut off. -/
theorem roundQuotient_of_le_nine {digits excess : Nat} (single : digits ≤ 9) (positive : 0 < excess)
    (nonzero : roundQuotient digits (10 ^ excess) ≠ 0) : excess = 1 ∧ roundQuotient digits (10 ^ excess) = 1 := by
  have ten : 10 ^ 1 ≤ 10 ^ excess := Nat.pow_le_pow_right (by decide) positive
  have floor : digits / 10 ^ excess = 0 := Nat.div_eq_of_lt (by omega)
  have rest : digits % 10 ^ excess = digits := Nat.mod_eq_of_lt (by omega)
  have least : excess = 1 := by
    by_contra other
    have hundred : 10 ^ 2 ≤ 10 ^ excess := Nat.pow_le_pow_right (by decide) (by omega)
    refine nonzero ?_
    simp only [roundQuotient, floor, rest]
    rw [if_pos (by omega)]
  subst least
  refine ⟨rfl, ?_⟩
  simp only [roundQuotient, floor, rest] at nonzero ⊢
  split_ifs at nonzero ⊢ <;> omega

/-- Within the decimal places that can be asked for, the last single digit is told apart from the next power of ten. -/
theorem nearestDecimal_nine_ne {places : Nat} (within : places ≤ 100) :
    nearestDecimal 9 (-((places + 1 : Nat) : Int)) ≠ nearestDecimal 10 (-((places + 1 : Nat) : Int)) := by
  have all : ∀ places < 101,
      nearestDecimal 9 (-((places + 1 : Nat) : Int)) ≠ nearestDecimal 10 (-((places + 1 : Nat) : Int)) := by
    decide +kernel
  exact all places (by omega)

/-- Rounding the shortest decimal gives another double. A decimal with fewer places that read back would leave the
shortest decimal a single digit, which was rounded up to ten; then nine would read back as well. -/
theorem nearestDecimal_round_ne {x : Float} {places excess : Nat} (finite : x.isFinite = true)
    (nonzero : magnitude x ≠ 0)
    (exponent : (toDecimal x).exponent = -((places + excess : Nat) : Int)) (positive : 0 < excess)
    (within : places ≤ 100)
    (left : roundQuotient (toDecimal x).digits (10 ^ excess) ≠ 0) :
    nearestDecimal (roundQuotient (toDecimal x).digits (10 ^ excess)) (-(places : Int)) ≠ magnitude x := by
  intro reads
  have single := digits_toDecimal_le_nine finite nonzero (by omega) reads
  obtain ⟨rfl, one⟩ := roundQuotient_of_le_nine single positive left
  have ten : nearestDecimal 10 (-((places + 1 : Nat) : Int)) = magnitude x := by
    have shifted := nearestDecimal_mul_pow 1 1 (-((places + 1 : Nat) : Int))
    have place : -((places + 1 : Nat) : Int) + (1 : Nat) = -(places : Int) := by omega
    rw [one] at reads
    rw [place, reads] at shifted
    exact shifted
  have low := nearestDecimal_mono (-((places + 1 : Nat) : Int)) single
  have high := nearestDecimal_mono (-((places + 1 : Nat) : Int)) (show 9 ≤ 10 by decide)
  rw [← exponent, nearestDecimal_toDecimal finite, exponent] at low
  rw [ten] at high
  exact nearestDecimal_nine_ne within ((le_antisymm high low).trans ten.symm)

end Reckoner.Double
