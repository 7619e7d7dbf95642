import Mathlib
import Reckoner.Proofs.Double.Shortest

namespace Reckoner.Decimal

theorem mod_ten_trimmed {d : Decimal} (nonzero : d.trimmed.digits ≠ 0) : d.trimmed.digits % 10 ≠ 0 := by
  by_cases zero : d.digits = 0
  · rw [trimmed_of_zero zero] at nonzero
    exact absurd rfl nonzero
  · obtain ⟨_, _, _, last⟩ := trimmed_spec zero
    exact last

theorem trimmed_digits_eq_zero_iff {d : Decimal} : d.trimmed.digits = 0 ↔ d.digits = 0 := by
  refine ⟨fun none => ?_, fun zero => by rw [trimmed_of_zero zero]⟩
  by_contra nonzero
  obtain ⟨zeros, value, _⟩ := trimmed_spec nonzero
  rw [none, Nat.zero_mul] at value
  exact nonzero value

theorem mul_pow_ne_zero {digits : Nat} (last : digits % 10 ≠ 0) (zeros : Nat) : digits * 10 ^ zeros ≠ 0 := by
  have nonzero : digits ≠ 0 := fun blank => last (by rw [blank])
  positivity

/-- A number without trailing zeros has those of a power of ten that it is multiplied by. -/
theorem pow_ten_dvd_iff {digits : Nat} (last : digits % 10 ≠ 0) (zeros power : Nat) :
    10 ^ power ∣ digits * 10 ^ zeros ↔ power ≤ zeros := by
  refine ⟨fun divides => ?_, fun le => (pow_dvd_pow 10 le).mul_left digits⟩
  by_contra more
  have split : 10 ^ power = 10 ^ (power - zeros) * 10 ^ zeros := by
    rw [← pow_add, Nat.sub_add_cancel (Nat.le_of_not_le more)]
  rw [split] at divides
  have trailing : 10 ∣ digits :=
    (dvd_pow_self 10 (by omega)).trans (Nat.dvd_of_mul_dvd_mul_right (by positivity) divides)
  exact last (Nat.mod_eq_zero_of_dvd trailing)

theorem mul_pow_ten_inj {a b m n : Nat} (lastA : a % 10 ≠ 0) (lastB : b % 10 ≠ 0) (same : a * 10 ^ m = b * 10 ^ n) :
    a = b ∧ m = n := by
  have shorter := (pow_ten_dvd_iff lastB n m).1 (Dvd.intro_left a same)
  have longer := (pow_ten_dvd_iff lastA m n).1 (Dvd.intro_left b same.symm)
  obtain rfl := le_antisymm shorter longer
  exact ⟨Nat.eq_of_mul_eq_mul_right (by positivity) same, rfl⟩

/-- The trimmed form is the only one without trailing zeros. -/
theorem trimmed_mul_pow (negative : Bool) {digits : Nat} (last : digits % 10 ≠ 0) (zeros : Nat) (exponent : Int) :
    trimmed ⟨negative, digits * 10 ^ zeros, exponent⟩ = ⟨negative, digits, exponent + zeros⟩ := by
  obtain ⟨others, value, shift, lastTrimmed⟩ :=
    @trimmed_spec ⟨negative, digits * 10 ^ zeros, exponent⟩ (mul_pow_ne_zero last zeros)
  have sign := trimmed_negative ⟨negative, digits * 10 ^ zeros, exponent⟩
  obtain ⟨same, rfl⟩ := mul_pow_ten_inj last lastTrimmed value
  generalize trimmed ⟨negative, digits * 10 ^ zeros, exponent⟩ = form at *
  obtain ⟨_, _, _⟩ := form
  dsimp only at sign same shift
  rw [sign, ← same, shift]

/-- Further zeros do not change the trimmed form. -/
theorem trimmed_extended (d : Decimal) (zeros : Nat) :
    trimmed ⟨d.negative, d.digits * 10 ^ zeros, d.exponent - zeros⟩ = d.trimmed := by
  by_cases zero : d.digits = 0
  · rw [trimmed_of_zero zero, trimmed_of_zero (by dsimp only; rw [zero, Nat.zero_mul])]
  · obtain ⟨others, value, shift, last⟩ := trimmed_spec zero
    have sign := trimmed_negative d
    generalize d.trimmed = form at *
    obtain ⟨_, _, _⟩ := form
    dsimp only at sign value shift last
    rw [value, Nat.mul_assoc, ← pow_add, trimmed_mul_pow _ last, mk.injEq]
    exact ⟨sign.symm, rfl, by push_cast; omega⟩

theorem trimmed_trimmed (d : Decimal) : d.trimmed.trimmed = d.trimmed := by
  by_cases zero : d.digits = 0
  · rw [trimmed_of_zero zero, trimmed_of_zero rfl]
  · obtain ⟨zeros, value, shift, _⟩ := trimmed_spec zero
    have extended := trimmed_extended d.trimmed zeros
    rw [← value, shift, Int.add_sub_cancel, trimmed_negative] at extended
    exact extended.symm

end Reckoner.Decimal
