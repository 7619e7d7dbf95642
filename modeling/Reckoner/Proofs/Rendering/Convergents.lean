import Mathlib
import Reckoner.Rendering.Fraction

namespace Reckoner.Fraction

/-- Whether no fraction whose denominator is within the limit is closer to `x` than `y` is. -/
def IsNearest (limit : ℕ) (x y : ℚ) : Prop :=
  ∀ (num : ℤ) (den : ℕ), 0 < den → den ≤ limit → |y - x| ≤ |(num : ℚ) / den - x|

/-- Two neighbouring fractions, and a number from the lower to the higher one. -/
structure Enclose (lowNum lowDen highNum highDen : ℤ) (x : ℚ) : Prop where
  lowDen_pos : 0 < lowDen
  highDen_pos : 0 < highDen
  neighbours : highNum * lowDen - lowNum * highDen = 1
  low_le : (lowNum : ℚ) / lowDen ≤ x
  le_high : x ≤ (highNum : ℚ) / highDen

namespace Enclose

variable {lowNum lowDen highNum highDen : ℤ} {x : ℚ}

/-- A fraction strictly between two neighbours has a denominator of at least the sum of theirs. -/
theorem add_le_den (enclose : Enclose lowNum lowDen highNum highDen x) {num : ℤ} {den : ℕ} (positive : 0 < den)
    (above : (lowNum : ℚ) / lowDen < num / den) (below : (num : ℚ) / den < highNum / highDen) :
    lowDen + highDen ≤ den := by
  have lowDen_pos := enclose.lowDen_pos
  have highDen_pos := enclose.highDen_pos
  have den_pos : (0 : ℚ) < den := by exact_mod_cast positive
  have fromLow : 1 ≤ num * lowDen - lowNum * den := by
    rw [div_lt_div_iff₀ (by exact_mod_cast lowDen_pos) den_pos] at above
    have crossed : lowNum * den < num * lowDen := by exact_mod_cast above
    omega
  have toHigh : 1 ≤ highNum * den - num * highDen := by
    rw [div_lt_div_iff₀ den_pos (by exact_mod_cast highDen_pos)] at below
    have crossed : num * highDen < highNum * den := by exact_mod_cast below
    omega
  calc lowDen + highDen
      = lowDen * 1 + highDen * 1 := by ring
    _ ≤ lowDen * (highNum * den - num * highDen) + highDen * (num * lowDen - lowNum * den) :=
        add_le_add (mul_le_mul_of_nonneg_left toHigh lowDen_pos.le) (mul_le_mul_of_nonneg_left fromLow highDen_pos.le)
    _ = (highNum * lowDen - lowNum * highDen) * den := by ring
    _ = den := by rw [enclose.neighbours, one_mul]

/-- No fraction with a denominator below the sum is closer than both neighbours. -/
theorem abs_sub_le_or (enclose : Enclose lowNum lowDen highNum highDen x) {limit : ℕ}
    (small : (limit : ℤ) < lowDen + highDen) {num : ℤ} {den : ℕ} (positive : 0 < den) (within : den ≤ limit) :
    |(lowNum : ℚ) / lowDen - x| ≤ |(num : ℚ) / den - x| ∨ |(highNum : ℚ) / highDen - x| ≤ |(num : ℚ) / den - x| := by
  have low_le := enclose.low_le
  have le_high := enclose.le_high
  rcases le_or_gt ((num : ℚ) / den) (lowNum / lowDen) with below | above
  · left
    rw [abs_of_nonpos (by linarith), abs_of_nonpos (by linarith)]
    linarith
  · right
    have beyond : (highNum : ℚ) / highDen ≤ num / den := by
      by_contra between
      have := enclose.add_le_den positive above (not_le.1 between)
      omega
    rw [abs_of_nonneg (by linarith), abs_of_nonneg (by linarith)]
    linarith

end Enclose

/-- Where the expansion of a number stands: the convergents so far with denominators within the limit, and the quotient
`n / d` that is still to expand. Consecutive convergents are neighbours, on alternating sides of the number. -/
structure Expands (limit : ℕ) (x : ℚ) (c : Convergents) (n : ℤ) (d : ℕ) : Prop where
  num_eq : x.num = c.num * n + c.earlierNum * d
  den_eq : (x.den : ℤ) = c.den * n + c.earlierDen * d
  neighbours : c.num * c.earlierDen - c.earlierNum * c.den = 1 ∨ c.num * c.earlierDen - c.earlierNum * c.den = -1
  earlierDen_nonneg : 0 ≤ c.earlierDen
  earlierDen_le : c.earlierDen ≤ limit
  den_nonneg : 0 ≤ c.den
  den_le : c.den ≤ limit
  quotient : c.den = 0 ∨ 0 ≤ n

namespace Expands

variable {limit : ℕ} {x : ℚ} {c : Convergents} {n : ℤ} {d : ℕ}

theorem start (positive : 0 < limit) (x : ℚ) : Expands limit x .start x.num x.den where
  num_eq := by simp [Convergents.start]
  den_eq := by simp [Convergents.start]
  neighbours := by simp [Convergents.start]
  earlierDen_nonneg := by simp [Convergents.start]
  earlierDen_le := by simpa [Convergents.start] using Nat.succ_le_of_lt positive
  den_nonneg := by simp [Convergents.start]
  den_le := by simp [Convergents.start]
  quotient := .inl rfl

theorem term_mul_nonneg (expands : Expands limit x c n d) (positive : 0 < d) : 0 ≤ n / (d : ℤ) * c.den := by
  rcases expands.quotient with zero | nonneg
  · rw [zero, mul_zero]
  · exact mul_nonneg (Int.ediv_nonneg nonneg (by omega)) expands.den_nonneg

/-- One term more, as long as the next denominator is within the limit. -/
theorem step (expands : Expands limit x c n d) (positive : 0 < d)
    (within : c.earlierDen + n / (d : ℤ) * c.den ≤ limit) :
    Expands limit x ⟨c.num, c.den, c.earlierNum + n / (d : ℤ) * c.num, c.earlierDen + n / (d : ℤ) * c.den⟩ d
      (n % (d : ℤ)).toNat := by
  have rest : ((n % (d : ℤ)).toNat : ℤ) = n - n / (d : ℤ) * d := by
    rw [Int.toNat_of_nonneg (Int.emod_nonneg n (by omega)), Int.emod_def, mul_comm]
  have nonneg := expands.term_mul_nonneg positive
  refine ⟨?_, ?_, ?_, expands.den_nonneg, expands.den_le, add_nonneg expands.earlierDen_nonneg nonneg, within,
    .inr (by omega)⟩
  · rw [rest, expands.num_eq]
    ring
  · rw [rest, expands.den_eq]
    ring
  · have turned : (c.earlierNum + n / (d : ℤ) * c.num) * c.den - c.num * (c.earlierDen + n / (d : ℤ) * c.den) =
        -(c.num * c.earlierDen - c.earlierNum * c.den) := by ring
    dsimp only
    rw [turned]
    rcases expands.neighbours with above | below
    · exact .inr (by rw [above])
    · exact .inl (by rw [below, neg_neg])

/-- A number whose own denominator is beyond the limit is not expanded to its end. -/
theorem remainder_pos (expands : Expands limit x c n d) (large : limit < x.den) : 0 < d := by
  refine Nat.pos_of_ne_zero fun zero => ?_
  have num_eq := expands.num_eq
  have den_eq := expands.den_eq
  rw [zero, Nat.cast_zero, mul_zero, add_zero] at num_eq den_eq
  have common : n.natAbs ∣ Nat.gcd x.num.natAbs x.den :=
    Nat.dvd_gcd (Int.natAbs_dvd_natAbs.2 (Dvd.intro_left c.num num_eq.symm))
      (Int.natCast_dvd_natCast.1 (Int.natAbs_dvd.2 (Dvd.intro_left c.den den_eq.symm)))
  rw [Nat.Coprime.gcd_eq_one x.reduced, Nat.dvd_one] at common
  have whole : x.den = c.den.natAbs := by
    rw [← Int.natAbs_natCast x.den, den_eq, Int.natAbs_mul, common, Nat.mul_one]
  have := expands.den_nonneg
  have := expands.den_le
  omega

/-- The expansion stops where the next denominator would exceed the limit. -/
theorem exists_expand (expands : Expands limit x c n d) (large : limit < x.den) :
    ∃ n' d', Expands limit x (expand limit c n d) n' d' ∧
      (limit : ℤ) < (expand limit c n d).earlierDen + n' / (d' : ℤ) * (expand limit c n d).den := by
  fun_induction expand limit c n d with
  | case1 c n => exact absurd (expands.remainder_pos large) (Nat.lt_irrefl 0)
  | case2 c n d _ term den beyond => exact ⟨n, d, expands, beyond⟩
  | case3 c n d _ term den within ih => exact ih (expands.step (expands.remainder_pos large) (not_lt.1 within))

end Expands

theorem div_le_iff_crossed {num den : ℤ} {x : ℚ} (positive : 0 < den) :
    (num : ℚ) / den ≤ x ↔ num * x.den ≤ x.num * den := by
  nth_rewrite 1 [← Rat.num_div_den x]
  rw [div_le_div_iff₀ (by exact_mod_cast positive) (by exact_mod_cast x.den_pos)]
  exact_mod_cast Iff.rfl

theorem le_div_iff_crossed {num den : ℤ} {x : ℚ} (positive : 0 < den) :
    x ≤ (num : ℚ) / den ↔ x.num * den ≤ num * x.den := by
  nth_rewrite 1 [← Rat.num_div_den x]
  rw [div_le_div_iff₀ (by exact_mod_cast x.den_pos) (by exact_mod_cast positive)]
  exact_mod_cast Iff.rfl

/-- How often the later convergent goes onto the earlier one within the limit. -/
def lastCount (limit : ℕ) (c : Convergents) : ℤ := (limit - c.earlierDen) / c.den

/-- The numerator of the last fraction on the way to the next convergent. -/
def lastNum (limit : ℕ) (c : Convergents) : ℤ := c.earlierNum + lastCount limit c * c.num

/-- The denominator of the last fraction on the way to the next convergent. -/
def lastDen (limit : ℕ) (c : Convergents) : ℤ := c.earlierDen + lastCount limit c * c.den

namespace Expands

variable {limit : ℕ} {x : ℚ} {c : Convergents} {n : ℤ} {d : ℕ}

theorem den_pos (expands : Expands limit x c n d) (beyond : (limit : ℤ) < c.earlierDen + n / (d : ℤ) * c.den) :
    0 < c.den := by
  refine lt_of_le_of_ne expands.den_nonneg fun zero => ?_
  rw [← zero, mul_zero] at beyond
  have := expands.earlierDen_le
  omega

theorem lastDen_spec (expands : Expands limit x c n d) (positive : 0 < c.den) :
    0 < lastDen limit c ∧ lastDen limit c ≤ limit ∧ limit < lastDen limit c + c.den := by
  have split := Int.mul_ediv_add_emod (limit - c.earlierDen) c.den
  have rest_nonneg := Int.emod_nonneg (limit - c.earlierDen) positive.ne'
  have rest_lt := Int.emod_lt_of_pos (limit - c.earlierDen) positive
  have nonneg := expands.earlierDen_nonneg
  have le := expands.den_le
  rw [mul_comm] at split
  unfold lastDen lastCount
  omega

/-- The last fraction comes before the next convergent, so it does not pass the number. -/
theorem lastCount_mul_le (expands : Expands limit x c n d) (positive : 0 < d)
    (beyond : (limit : ℤ) < c.earlierDen + n / (d : ℤ) * c.den) : lastCount limit c * d ≤ n := by
  have den_pos := expands.den_pos beyond
  have last := (expands.lastDen_spec den_pos).2.1
  have before : lastCount limit c ≤ n / (d : ℤ) := by
    by_contra later
    have := mul_le_mul_of_nonneg_right (not_le.1 later).le den_pos.le
    unfold lastDen at last
    omega
  exact (Int.le_ediv_iff_mul_le (by omega)).1 before

/-- Where the expansion stops, the convergent and the last fraction on the way to the next one enclose the number. -/
theorem enclose (expands : Expands limit x c n d) (large : limit < x.den)
    (beyond : (limit : ℤ) < c.earlierDen + n / (d : ℤ) * c.den) :
    Enclose (lastNum limit c) (lastDen limit c) c.num c.den x ∨
      Enclose c.num c.den (lastNum limit c) (lastDen limit c) x := by
  have den_pos := expands.den_pos beyond
  have lastDen_pos := (expands.lastDen_spec den_pos).1
  have left := expands.lastCount_mul_le (expands.remainder_pos large) beyond
  have toConvergent : c.num * x.den - x.num * c.den = (c.num * c.earlierDen - c.earlierNum * c.den) * d := by
    rw [expands.num_eq, expands.den_eq]
    ring
  have fromLast : x.num * lastDen limit c - lastNum limit c * x.den =
      (c.num * c.earlierDen - c.earlierNum * c.den) * (n - lastCount limit c * d) := by
    rw [expands.num_eq, expands.den_eq, lastDen, lastNum]
    ring
  have pair : c.num * lastDen limit c - lastNum limit c * c.den = c.num * c.earlierDen - c.earlierNum * c.den := by
    rw [lastDen, lastNum]
    ring
  rcases expands.neighbours with above | below
  · rw [above] at toConvergent fromLast pair
    exact .inl ⟨lastDen_pos, den_pos, pair, (div_le_iff_crossed lastDen_pos).2 (by omega),
      (le_div_iff_crossed den_pos).2 (by omega)⟩
  · rw [below] at toConvergent fromLast pair
    exact .inr ⟨den_pos, lastDen_pos, by linarith, (div_le_iff_crossed den_pos).2 (by omega),
      (le_div_iff_crossed lastDen_pos).2 (by omega)⟩

end Expands

theorem den_mkRat_toNat_le (num : ℤ) {den : ℤ} (positive : 0 < den) : ((mkRat num den.toNat).den : ℤ) ≤ den := by
  rw [Rat.mkRat_eq_divInt, Int.toNat_of_nonneg positive.le]
  exact Int.le_of_dvd positive (Rat.den_dvd num den)

theorem mkRat_toNat (num : ℤ) {den : ℤ} (positive : 0 < den) : mkRat num den.toNat = (num : ℚ) / den := by
  rw [Rat.mkRat_eq_div]
  congr 1
  exact_mod_cast Int.toNat_of_nonneg positive.le

theorem abs_eq (x : ℚ) : Rat.abs x = |x| := by
  unfold Rat.abs
  split
  · rw [abs_of_nonneg (by assumption)]
  · rw [abs_of_neg (by linarith)]

/-- What is as close to a number as both neighbours around it is nearest to it. -/
theorem IsNearest.of_neighbours {a b c d : ℤ} {limit : ℕ} {x y : ℚ} (enclose : Enclose a b c d x ∨ Enclose c d a b x)
    (small : (limit : ℤ) < b + d) (first : |y - x| ≤ |(a : ℚ) / b - x|) (second : |y - x| ≤ |(c : ℚ) / d - x|) :
    IsNearest limit x y := by
  intro num den positive within
  rcases enclose with enclose | enclose
  · rcases enclose.abs_sub_le_or small positive within with closer | closer
    · exact first.trans closer
    · exact second.trans closer
  · rcases enclose.abs_sub_le_or (by omega) positive within with closer | closer
    · exact second.trans closer
    · exact first.trans closer

/-- The denominator of the nearest fraction is within the limit, and no other such fraction is closer. -/
theorem isNearest_nearest {limit : ℕ} (positive : 0 < limit) (x : ℚ) :
    (nearest limit x).den ≤ limit ∧ IsNearest limit x (nearest limit x) := by
  rcases le_or_gt x.den limit with small | large
  · rw [nearest, if_pos small]
    refine ⟨small, fun num den _ _ => ?_⟩
    rw [sub_self, abs_zero]
    exact abs_nonneg _
  · obtain ⟨n, d, expands, beyond⟩ := (Expands.start positive x).exists_expand large
    rw [nearest, if_neg large.not_ge]
    generalize expand limit .start x.num x.den = c at *
    have den_pos := expands.den_pos beyond
    obtain ⟨lastDen_pos, last_le, next⟩ := expands.lastDen_spec den_pos
    have num_eq : c.earlierNum + (limit - c.earlierDen) / c.den * c.num = lastNum limit c := rfl
    have den_eq : c.earlierDen + (limit - c.earlierDen) / c.den * c.den = lastDen limit c := rfl
    simp only [num_eq, den_eq]
    have convergent_le := den_mkRat_toNat_le c.num den_pos
    have between_le := den_mkRat_toNat_le (lastNum limit c) lastDen_pos
    have den_le := expands.den_le
    rw [mkRat_toNat _ den_pos] at convergent_le ⊢
    rw [mkRat_toNat _ lastDen_pos] at between_le ⊢
    rw [abs_eq, abs_eq]
    split_ifs with closer
    · exact ⟨by omega, .of_neighbours (expands.enclose large beyond) next closer le_rfl⟩
    · exact ⟨by omega, .of_neighbours (expands.enclose large beyond) next le_rfl (not_le.1 closer).le⟩

end Reckoner.Fraction
