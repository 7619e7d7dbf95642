import Mathlib
import Reckoner.Proofs.Decimal
import Reckoner.Rendering.Fraction

namespace Reckoner

/-- Whether a whole number is one nearest to `x`, and an even one if `x` lies in the middle of two. -/
def NearestEven (x : ℚ) (count : ℤ) : Prop :=
  |x - count| ≤ 1 / 2 ∧ (|x - count| = 1 / 2 → Even count)

/-- Whether `y` is `x` rounded to the nearest multiple of `10 ^ -places`, where a half goes to the even multiple. -/
def HalfEven (x : ℚ) (places : ℕ) (y : ℚ) : Prop :=
  ∃ count : ℤ, y = count / 10 ^ places ∧ NearestEven (x * 10 ^ places) count

namespace NearestEven

variable {x : ℚ} {count other : ℤ}

theorem of_int (count : ℤ) : NearestEven count count := by
  rw [NearestEven, sub_self, abs_zero]
  exact ⟨by norm_num, by norm_num⟩

theorem neg (near : NearestEven x count) : NearestEven (-x) (-count) := by
  have mirrored : |-x - ((-count : ℤ) : ℚ)| = |x - count| := by
    rw [Int.cast_neg, neg_sub_neg, abs_sub_comm]
  rw [NearestEven, mirrored]
  exact ⟨near.1, fun tie => (near.2 tie).neg⟩

/-- Of two neighbours that are equally near only one is even. -/
theorem le (near : NearestEven x count) (nearOther : NearestEven x other) : count ≤ other := by
  by_contra greater
  obtain ⟨low, _⟩ := abs_le.1 near.1
  obtain ⟨_, high⟩ := abs_le.1 nearOther.1
  have close : (count : ℚ) ≤ ((other + 1 : ℤ) : ℚ) := by
    push_cast
    linarith
  have next : count = other + 1 := by
    have := Int.cast_le.1 close
    omega
  rw [next] at near low
  push_cast at low
  have middle : x = other + 1 / 2 := by linarith
  have even := nearOther.2 (by rw [middle, add_sub_cancel_left]; norm_num)
  have evenNext := near.2 (by rw [middle]; push_cast; norm_num)
  exact (Int.even_add_one.1 evenNext) even

theorem unique (near : NearestEven x count) (nearOther : NearestEven x other) : count = other :=
  le_antisymm (near.le nearOther) (nearOther.le near)

end NearestEven

namespace HalfEven

variable {x y z : ℚ} {places : ℕ}

theorem unique (first : HalfEven x places y) (second : HalfEven x places z) : y = z := by
  obtain ⟨count, rfl, near⟩ := first
  obtain ⟨other, rfl, nearOther⟩ := second
  rw [near.unique nearOther]

/-- What is a multiple of the last place already is not changed. -/
theorem of_multiple {count : ℤ} (multiple : x * 10 ^ places = count) : HalfEven x places x := by
  refine ⟨count, by rw [← multiple, mul_div_cancel_right₀ _ (by positivity)], ?_⟩
  rw [multiple]
  exact .of_int count

theorem eq_of_int {whole : ℤ} (integral : x = whole) (rounds : HalfEven x places y) : y = x := by
  have multiple : x * 10 ^ places = ((whole * 10 ^ places : ℤ) : ℚ) := by
    rw [integral]
    push_cast
    rfl
  exact rounds.unique (.of_multiple multiple)

theorem neg (rounds : HalfEven x places y) : HalfEven (-x) places (-y) := by
  obtain ⟨count, rfl, near⟩ := rounds
  refine ⟨-count, by rw [Int.cast_neg, neg_div], ?_⟩
  rw [neg_mul]
  exact near.neg

end HalfEven

namespace Double

/-- The rounded quotient is the whole number nearest to the quotient, and the even one of two. -/
theorem nearestEven_roundQuotient (num : Nat) {den : Nat} (positive : 0 < den) :
    NearestEven ((num : ℚ) / den) (roundQuotient num den : Nat) := by
  have field : (0 : ℚ) < den := Nat.cast_pos.2 positive
  have divided : (num : ℚ) / den = (num / den : Nat) + (num % den : Nat) / (den : ℚ) := by
    rw [eq_comm, eq_div_iff field.ne', add_mul, div_mul_cancel₀ _ field.ne', mul_comm]
    exact_mod_cast Nat.div_add_mod num den
  have below : num % den < den := Nat.mod_lt num positive
  have least : (0 : ℚ) ≤ (num % den : Nat) / (den : ℚ) := by positivity
  rw [NearestEven, Int.cast_natCast, Int.even_coe_nat, divided]
  simp only [roundQuotient]
  generalize num / den = floor
  generalize num % den = rest at *
  rcases Nat.lt_trichotomy (2 * rest) den with small | tie | large
  · have below : (rest : ℚ) / den < 1 / 2 := by
      have doubled : 2 * (rest : ℚ) < den := by exact_mod_cast small
      rw [div_lt_iff₀ field]
      linarith
    rw [if_pos small, add_sub_cancel_left, abs_of_nonneg least]
    exact ⟨below.le, fun tie => absurd tie below.ne⟩
  · have middle : (rest : ℚ) / den = 1 / 2 := by
      have doubled : 2 * (rest : ℚ) = den := by exact_mod_cast tie
      rw [div_eq_iff field.ne']
      linarith
    rw [if_neg tie.not_lt, if_neg tie.not_gt, middle]
    rcases Nat.mod_two_eq_zero_or_one floor with even | odd
    · rw [even, Nat.add_zero, add_sub_cancel_left]
      exact ⟨by norm_num, fun _ => Nat.even_iff.2 even⟩
    · rw [odd, Nat.cast_add, Nat.cast_one, add_sub_add_left_eq_sub]
      exact ⟨by norm_num, fun _ => (Nat.odd_iff.2 odd).add_one⟩
  · have above : 1 / 2 < (rest : ℚ) / den := by
      have doubled : (den : ℚ) < 2 * rest := by exact_mod_cast large
      rw [lt_div_iff₀ field]
      linarith
    have within : (rest : ℚ) / den < 1 := by
      rw [div_lt_one field]
      exact Nat.cast_lt.2 below
    rw [if_neg large.not_gt, if_pos large, Nat.cast_add, Nat.cast_one, add_sub_add_left_eq_sub,
      abs_of_neg (by linarith)]
    exact ⟨by linarith, fun tie => absurd tie (by linarith)⟩

end Double

namespace Decimal

/-- The number that a decimal stands for, as a product with its sign. -/
theorem toRat_eq (d : Decimal) : d.toRat = (if d.negative then -1 else 1) * (d.digits * 10 ^ d.exponent) := by
  obtain ⟨negative, digits, exponent⟩ := d
  cases exponent with
  | ofNat power =>
    simp only [toRat, Rat.mkRat_eq_div, Nat.pow_eq, Int.ofNat_eq_natCast, zpow_natCast]
    cases negative <;> simp
  | negSucc power =>
    simp only [toRat, Rat.mkRat_eq_div, Nat.pow_eq, zpow_negSucc]
    cases negative <;> simp [div_eq_mul_inv]

theorem toRat_of_zero {d : Decimal} (zero : d.digits = 0) : d.toRat = 0 := by
  rw [toRat_eq, zero, Nat.cast_zero, zero_mul, mul_zero]

/-- Further zeros make no difference to the number. -/
theorem toRat_mul_pow (negative : Bool) (digits zeros : Nat) (exponent : Int) :
    toRat ⟨negative, digits * 10 ^ zeros, exponent⟩ = toRat ⟨negative, digits, exponent + zeros⟩ := by
  rw [toRat_eq, toRat_eq]
  dsimp only
  rw [zpow_add₀ (by norm_num), zpow_natCast, Nat.cast_mul, Nat.cast_pow, Nat.cast_ofNat, mul_assoc (digits : ℚ),
    mul_comm (10 ^ zeros : ℚ)]

theorem toRat_trimmed (d : Decimal) : d.trimmed.toRat = d.toRat := by
  by_cases zero : d.digits = 0
  · rw [trimmed_of_zero zero, toRat_of_zero rfl, toRat_of_zero zero]
  · obtain ⟨zeros, value, shift, _⟩ := trimmed_spec zero
    have parts : d = ⟨d.trimmed.negative, d.trimmed.digits * 10 ^ zeros, d.exponent⟩ := by
      rw [trimmed_negative, ← value]
    have moved := toRat_mul_pow d.trimmed.negative d.trimmed.digits zeros d.exponent
    rw [← parts, ← shift] at moved
    exact moved.symm

/-- In steps of a place that is not coarser than the last one, a decimal is a whole number. -/
theorem toRat_mul_places {d : Decimal} {places : Nat} (fine : 0 ≤ d.exponent + places) :
    d.toRat * 10 ^ places =
      (((if d.negative then -1 else 1) * (d.digits * 10 ^ (d.exponent + places).toNat) : ℤ) : ℚ) := by
  obtain ⟨power, atPower⟩ := Int.eq_ofNat_of_zero_le fine
  have moved : (10 : ℚ) ^ d.exponent * 10 ^ places = 10 ^ power := by
    rw [← zpow_natCast, ← zpow_natCast, ← zpow_add₀ (by norm_num), atPower]
  rw [toRat_eq, atPower, Int.toNat_natCast, mul_assoc, mul_assoc, moved]
  push_cast
  split <;> rfl

theorem toRat_negated (digits : Nat) (exponent : Int) :
    toRat ⟨true, digits, exponent⟩ = -toRat ⟨false, digits, exponent⟩ := by
  rw [toRat_eq, toRat_eq, if_pos rfl, if_neg Bool.false_ne_true, one_mul, neg_one_mul]

theorem halfEven_cut_unsigned (digits places excess : Nat) :
    HalfEven (toRat ⟨false, digits, -((places + excess : Nat) : Int)⟩) places
      (toRat ⟨false, Double.roundQuotient digits (10 ^ excess), -(places : Int)⟩) := by
  have near := Double.nearestEven_roundQuotient digits (show 0 < 10 ^ excess by positivity)
  have exact : toRat ⟨false, digits, -((places + excess : Nat) : Int)⟩ * 10 ^ places =
      (digits : ℚ) / ((10 ^ excess : Nat) : ℚ) := by
    rw [toRat_eq, if_neg Bool.false_ne_true, one_mul, zpow_neg, zpow_natCast, pow_add, mul_inv]
    field_simp
    push_cast
    rfl
  refine ⟨(Double.roundQuotient digits (10 ^ excess) : Nat), ?_, ?_⟩
  · rw [toRat_eq, if_neg Bool.false_ne_true, one_mul, zpow_neg, zpow_natCast, ← div_eq_mul_inv, Int.cast_natCast]
  · rw [exact]
    exact near

/-- Cutting `excess` places off rounds to the places that are left. -/
theorem halfEven_cut (negative : Bool) (digits places excess : Nat) :
    HalfEven (toRat ⟨negative, digits, -((places + excess : Nat) : Int)⟩) places
      (toRat ⟨negative, Double.roundQuotient digits (10 ^ excess), -(places : Int)⟩) := by
  have unsigned := halfEven_cut_unsigned digits places excess
  cases negative with
  | false => exact unsigned
  | true =>
    rw [toRat_negated, toRat_negated]
    exact unsigned.neg

theorem halfEven_round (d : Decimal) (places : Nat) : HalfEven d.toRat places (d.round places).toRat := by
  unfold round
  dsimp only
  split_ifs with enough
  · exact .of_multiple (toRat_mul_places (by omega))
  · have last : d.exponent = -((places + (-d.exponent - places).toNat : Nat) : Int) := by omega
    have cut := halfEven_cut d.negative d.digits places (-d.exponent - places).toNat
    rw [← last] at cut
    rw [toRat_trimmed]
    exact cut

theorem round_of_whole {d : Decimal} (whole : 0 ≤ d.exponent) (places : Nat) : d.round places = d := by
  rw [round, if_pos (by omega)]

/-- A whole number is not rounded, so it needs no case of its own. -/
theorem render_eq (d : Decimal) (places : Nat) :
    d.render places = ⟨if (d.round places).digits = 0 then "0" else (d.round places).plain, d.round places ≠ d⟩ := by
  have shown : (if 0 ≤ d.exponent then d else d.round places) = d.round places := by
    split_ifs with whole
    · exact (round_of_whole whole places).symm
    · rfl
  rw [render, shown]

/-- A decimal without trailing zeros changes its value whenever places are cut off. In steps of the last place, what it
is rounded to has a trailing zero. -/
theorem toRat_round_eq_iff {d : Decimal} (last : d.digits % 10 ≠ 0) (places : Nat) :
    (d.round places).toRat = d.toRat ↔ d.round places = d := by
  refine ⟨fun same => ?_, congrArg toRat⟩
  unfold round at same ⊢
  dsimp only at same ⊢
  split_ifs at same ⊢ with enough
  · rfl
  · rw [toRat_trimmed, Nat.pow_eq] at same
    generalize atExcess : (-d.exponent - places).toNat = excess at *
    have exact := toRat_mul_places (show 0 ≤ d.exponent + (places + excess : Nat) by omega)
    have rounded := @toRat_mul_places ⟨d.negative, Double.roundQuotient d.digits (10 ^ excess), -places⟩
      (places + excess) (by dsimp only; omega)
    have power : (d.exponent + (places + excess : Nat)).toNat = 0 := by omega
    have more : (-(places : Int) + (places + excess : Nat)).toNat = excess := by omega
    rw [same, exact, Int.cast_inj] at rounded
    dsimp only at rounded
    rw [power, pow_zero, mul_one, more] at rounded
    have signed : (if d.negative then -1 else 1 : Int) ≠ 0 := by split <;> decide
    have digits : d.digits = Double.roundQuotient d.digits (10 ^ excess) * 10 ^ excess := by
      exact_mod_cast mul_left_cancel₀ signed rounded
    have trailing : 10 ∣ d.digits := digits ▸ (dvd_pow_self 10 enough).mul_left _
    exact absurd (Nat.mod_eq_zero_of_dvd trailing) last

end Decimal

end Reckoner
