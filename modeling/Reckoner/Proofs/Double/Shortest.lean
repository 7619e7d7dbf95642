import Mathlib
import Reckoner.Double.Shortest
import Reckoner.Proofs.Double.Bits
import Reckoner.Proofs.Double.Order

namespace Reckoner

namespace Decimal

theorem trimUpTo_spec (fuel digits : Nat) (exponent : Int) :
    ∃ zeros : Nat, digits = (trimUpTo fuel digits exponent).1 * 10 ^ zeros ∧
      (trimUpTo fuel digits exponent).2 = exponent + zeros ∧
      (digits ≠ 0 → digits < 10 ^ fuel → (trimUpTo fuel digits exponent).1 % 10 ≠ 0) := by
  induction fuel generalizing digits exponent with
  | zero => exact ⟨0, by simp [trimUpTo], by simp [trimUpTo], fun nonzero below => by simp at below; omega⟩
  | succ fuel ih =>
    by_cases last : digits % 10 = 0
    · obtain ⟨zeros, value, shift, trimmed⟩ := ih (digits / 10) (exponent + 1)
      simp only [trimUpTo, if_pos last]
      refine ⟨zeros + 1, ?_, by rw [shift]; push_cast; ring, fun nonzero below => trimmed (by omega) ?_⟩
      · rw [pow_succ, ← Nat.mul_assoc, ← value]
        omega
      · rw [pow_succ] at below
        omega
    · simp only [trimUpTo, if_neg last]
      exact ⟨0, by simp, by simp, fun _ _ => last⟩

/-- Trimming a decimal only moves trailing zeros, and leaves none. -/
theorem trimmed_spec {d : Decimal} (nonzero : d.digits ≠ 0) :
    ∃ zeros : Nat, d.digits = d.trimmed.digits * 10 ^ zeros ∧ d.trimmed.exponent = d.exponent + zeros ∧
      d.trimmed.digits % 10 ≠ 0 := by
  obtain ⟨zeros, value, shift, last⟩ := trimUpTo_spec (Nat.toDigits 10 d.digits).length d.digits d.exponent
  have below := (Nat.length_toDigits_le_iff (n := d.digits) (by decide : 1 < 10) Nat.length_toDigits_pos).1 le_rfl
  simp only [trimmed, if_neg nonzero]
  exact ⟨zeros, value, shift, last nonzero below⟩

theorem trimmed_of_zero {d : Decimal} (zero : d.digits = 0) : d.trimmed = ⟨d.negative, 0, 0⟩ := by
  simp only [trimmed, if_pos zero]

theorem trimmed_negative (d : Decimal) : d.trimmed.negative = d.negative := by
  unfold trimmed
  split <;> rfl

theorem nearestDecimal_trimmed (d : Decimal) :
    Double.nearestDecimal d.trimmed.digits d.trimmed.exponent = Double.nearestDecimal d.digits d.exponent := by
  by_cases zero : d.digits = 0
  · rw [trimmed_of_zero zero, zero, Double.nearestDecimal_zero, Double.nearestDecimal_zero]
  · obtain ⟨zeros, value, shift, _⟩ := trimmed_spec zero
    rw [value, shift, Double.nearestDecimal_mul_pow]

end Decimal

namespace Double

/-- The magnitude that `digits` of the finest grid are rounded to. The grid has `10 ^ -1074` as its step, and the exact
digits of every double lie on it. -/
def onGrid (digits : Nat) : Nat := nearest digits (10 ^ halvings)

theorem onGrid_mono {a b : Nat} (le : a ≤ b) : onGrid a ≤ onGrid b :=
  nearest_mono (by positivity) le

theorem onGrid_zero : onGrid 0 = 0 :=
  nearest_zero (by positivity)

theorem onGrid_exactDigits {bits : Nat} (finite : bits < infinityBits) : onGrid (exactDigits bits) = bits := by
  have powers : 10 ^ halvings = stepsInOne * 5 ^ halvings := by
    rw [stepsInOne_eq, ← Nat.mul_pow]
  have digits : exactDigits bits = units bits * 5 ^ halvings := by
    unfold exactDigits
    generalize halvings = power
    rw [Nat.pow_eq, Nat.mul_comm]
  rw [onGrid, powers, digits, nearest_mul_right _ _ (by positivity), nearest_units finite]

/-- What lies between a number that reads back and the exact digits reads back. -/
theorem onGrid_between {bits a b : Nat} (finite : bits < infinityBits) (reads : onGrid a = bits)
    (between : a ≤ b ∧ b ≤ exactDigits bits ∨ exactDigits bits ≤ b ∧ b ≤ a) : onGrid b = bits := by
  have exact := onGrid_exactDigits finite
  rcases between with ⟨low, high⟩ | ⟨low, high⟩
  · have := onGrid_mono low
    have := onGrid_mono high
    omega
  · have := onGrid_mono low
    have := onGrid_mono high
    omega

theorem nearestDecimal_onGrid {digits : Nat} {exponent : Int} (within : 0 ≤ exponent + halvings) :
    nearestDecimal digits exponent = onGrid (digits * 10 ^ (exponent + halvings).toNat) :=
  nearestDecimal_eq _ within

theorem readsBack_iff {bits digits places : Nat} :
    readsBack bits digits ((places : Int) - halvings) = true ↔ onGrid (digits * 10 ^ places) = bits := by
  rw [readsBack, decide_eq_true_iff, nearestDecimal_onGrid (by omega), Int.sub_add_cancel, Int.toNat_natCast]

/-- If a grid has any number that reads back, then one of the two neighbours of the exact digits does. -/
theorem shortestAt?_ne_none {bits places k : Nat} (finite : bits < infinityBits)
    (reads : onGrid (k * 10 ^ places) = bits) : shortestAt? bits places ≠ none := by
  have positive : 0 < 10 ^ places := by positivity
  have below := Nat.div_mul_le_self (exactDigits bits) (10 ^ places)
  have above := Nat.lt_mul_of_div_lt (Nat.lt_succ_self (exactDigits bits / 10 ^ places)) positive
  have neighbour : readsBack bits (exactDigits bits / 10 ^ places) ((places : Int) - halvings) = true ∨
      readsBack bits (exactDigits bits / 10 ^ places + 1) ((places : Int) - halvings) = true := by
    rw [readsBack_iff, readsBack_iff]
    rcases Nat.lt_or_ge (exactDigits bits / 10 ^ places) k with larger | smaller
    · right
      exact onGrid_between finite reads (Or.inr ⟨above.le, Nat.mul_le_mul_right _ larger⟩)
    · left
      exact onGrid_between finite reads (Or.inl ⟨Nat.mul_le_mul_right _ smaller, below⟩)
  unfold shortestAt?
  simp only [Nat.pow_eq]
  rcases neighbour with reads | reads <;> simp only [reads] <;> split <;> simp_all

theorem shortestAt?_eq_some {bits places digits : Nat} (found : shortestAt? bits places = some digits) :
    onGrid (digits * 10 ^ places) = bits ∧ digits ≤ exactDigits bits / 10 ^ places + 1 := by
  unfold shortestAt? at found
  simp only [Nat.pow_eq] at found
  split at found
  · rename_i low high
    rw [readsBack_iff] at low high
    split_ifs at found <;> cases found
    · exact ⟨low, by omega⟩
    · exact ⟨high, le_rfl⟩
  · rename_i low _
    cases found
    exact ⟨readsBack_iff.1 low, by omega⟩
  · rename_i _ high
    cases found
    exact ⟨readsBack_iff.1 high, le_rfl⟩
  · cases found

/-- The search ends on a grid where its answer reads back, and no coarser grid that it tried has such a number. -/
theorem shortestFrom_spec {bits : Nat} (finite : bits < infinityBits) (top : Nat) :
    ∃ places ≤ top, (shortestFrom bits top).2 = (places : Int) - halvings ∧
      onGrid ((shortestFrom bits top).1 * 10 ^ places) = bits ∧
      (shortestFrom bits top).1 ≤ exactDigits bits / 10 ^ places + 1 ∧
      ∀ coarser, places < coarser → coarser ≤ top → shortestAt? bits coarser = none := by
  induction top with
  | zero =>
    refine ⟨0, le_rfl, ?_, ?_, ?_, fun _ _ _ => by omega⟩
    · simp only [shortestFrom, Int.natCast_zero, Int.zero_sub]
    · rw [pow_zero, Nat.mul_one]
      exact onGrid_exactDigits finite
    · simp only [shortestFrom, pow_zero, Nat.div_one]
      omega
  | succ top ih =>
    cases found : shortestAt? bits (top + 1) with
    | some digits =>
      obtain ⟨reads, close⟩ := shortestAt?_eq_some found
      simp only [shortestFrom, found]
      exact ⟨top + 1, le_rfl, rfl, reads, close, fun _ _ _ => by omega⟩
    | none =>
      obtain ⟨places, within, exponent, reads, close, none⟩ := ih
      simp only [shortestFrom, found]
      refine ⟨places, by omega, exponent, reads, close, fun coarser beyond bound => ?_⟩
      rcases bound.lt_or_eq with earlier | last
      · exact none coarser beyond (by omega)
      · rw [last]
        exact found

/-- The search for the shortest decimal starts on the grid that leaves one digit of the exact number. -/
def found (x : Float) : Nat × Int :=
  shortestFrom (magnitude x) ((Nat.toDigits 10 (exactDigits (magnitude x))).length - 1)

theorem toDecimal_eq (x : Float) : toDecimal x = Decimal.trimmed ⟨isNegative x, (found x).1, (found x).2⟩ := by
  rcases answer : found x with ⟨digits, exponent⟩
  unfold found at answer
  simp only [toDecimal, answer]

theorem toDecimal_negative (x : Float) : (toDecimal x).negative = isNegative x := by
  rw [toDecimal_eq, Decimal.trimmed_negative]

theorem found_spec {x : Float} (finite : x.isFinite = true) :
    ∃ places, places + 1 ≤ (Nat.toDigits 10 (exactDigits (magnitude x))).length ∧
      (found x).2 = (places : Int) - halvings ∧ onGrid ((found x).1 * 10 ^ places) = magnitude x ∧
      (found x).1 ≤ exactDigits (magnitude x) / 10 ^ places + 1 ∧
      ∀ coarser, places < coarser → coarser < (Nat.toDigits 10 (exactDigits (magnitude x))).length →
        shortestAt? (magnitude x) coarser = none := by
  have long := Nat.length_toDigits_pos (b := 10) (n := exactDigits (magnitude x))
  obtain ⟨places, within, exponent, reads, close, none⟩ := shortestFrom_spec ((isFinite_iff x).1 finite)
    ((Nat.toDigits 10 (exactDigits (magnitude x))).length - 1)
  exact ⟨places, by omega, exponent, reads, close, fun coarser beyond bound => none coarser beyond (by omega)⟩

/-- The shortest decimal of a finite double reads back as its magnitude. -/
theorem nearestDecimal_toDecimal {x : Float} (finite : x.isFinite = true) :
    nearestDecimal (toDecimal x).digits (toDecimal x).exponent = magnitude x := by
  obtain ⟨places, _, exponent, reads, _⟩ := found_spec finite
  rw [toDecimal_eq, Decimal.nearestDecimal_trimmed, exponent, nearestDecimal_onGrid (by simp only; omega),
    Int.sub_add_cancel, Int.toNat_natCast]
  exact reads

/-- If a decimal with a coarser last place reads back as well, then the shortest decimal has a single digit. On a grid
that the search tried it would have been found; a coarser grid than these has no number below ten times the leading
digit, so that already the coarsest grid tried gave an answer. -/
theorem digits_toDecimal_le_nine {x : Float} {digits : Nat} {exponent : Int} (finite : x.isFinite = true)
    (nonzero : magnitude x ≠ 0) (coarser : (toDecimal x).exponent < exponent)
    (reads : nearestDecimal digits exponent = magnitude x) : (toDecimal x).digits ≤ 9 := by
  have finiteBits := (isFinite_iff x).1 finite
  obtain ⟨places, within, last, back, close, none⟩ := found_spec finite
  have nonzeroFound : (found x).1 ≠ 0 := by
    intro zero
    rw [zero, Nat.zero_mul, onGrid_zero] at back
    exact nonzero back.symm
  obtain ⟨zeros, value, shift, trimmed⟩ :=
    Decimal.trimmed_spec (d := ⟨isNegative x, (found x).1, (found x).2⟩) nonzeroFound
  rw [← toDecimal_eq] at value shift trimmed
  simp only at value shift
  have below := (Nat.length_toDigits_le_iff (n := exactDigits (magnitude x)) (by decide : 1 < 10)
    Nat.length_toDigits_pos).1 le_rfl
  generalize (Nat.toDigits 10 (exactDigits (magnitude x))).length = length at *
  obtain ⟨grid, atGrid⟩ : ∃ grid : Nat, exponent + halvings = grid := ⟨(exponent + halvings).toNat, by omega⟩
  rw [nearestDecimal_onGrid (by omega), atGrid, Int.toNat_natCast] at reads
  have beyond : length ≤ grid := by
    by_contra tried
    exact shortestAt?_ne_none finiteBits reads (none grid (by omega) (by omega))
  have positive : 0 < digits := by
    rcases Nat.eq_zero_or_pos digits with zero | positive
    · rw [zero, Nat.zero_mul, onGrid_zero] at reads
      exact absurd reads.symm nonzero
    · exact positive
  have power : 10 ^ length ≤ digits * 10 ^ grid :=
    (Nat.pow_le_pow_right (by decide) beyond).trans (Nat.le_mul_of_pos_left _ positive)
  have long : 1 ≤ length := (Nat.le_add_left 1 places).trans within
  have next : 10 * 10 ^ (length - 1) = 10 ^ length := by
    rw [← pow_succ', Nat.sub_add_cancel long]
  have reached : onGrid (10 * 10 ^ (length - 1)) = magnitude x := by
    rw [next]
    exact onGrid_between finiteBits reads (Or.inr ⟨below.le, power⟩)
  have coarsest : places = length - 1 := by
    by_contra other
    exact shortestAt?_ne_none finiteBits reached (none (length - 1) (by omega) (by omega))
  have leading : exactDigits (magnitude x) / 10 ^ places < 10 := by
    rw [coarsest]
    exact Nat.div_lt_of_lt_mul (by rw [Nat.mul_comm, next]; exact below)
  have small : (toDecimal x).digits ≤ (found x).1 := by
    rw [value]
    exact Nat.le_mul_of_pos_right _ (by positivity)
  omega

end Double

end Reckoner
