import Mathlib
import Reckoner.Proofs.Double.Sum
import Reckoner.Proofs.Rendering.Precision
import Reckoner.Rendering

namespace Reckoner

namespace Double

theorem trimmed_toDecimal (x : Float) : (toDecimal x).trimmed = toDecimal x := by
  rw [toDecimal_eq, Decimal.trimmed_trimmed]

theorem magnitude_of_beq {x : Float} (equal : (x == 0) = true) : magnitude x = 0 := by
  by_cases negative : x = -0.0
  · rw [negative]
    decide +kernel
  · rw [eq_posZero_of_beq negative equal]
    decide +kernel

theorem toDecimal_of_magnitude {x : Float} (zero : magnitude x = 0) : toDecimal x = ⟨isNegative x, 0, 0⟩ := by
  have none : exactDigits 0 = 0 := by
    rw [exactDigits, show units 0 = 0 from rfl, Nat.mul_zero]
  have blank : (found x).1 = 0 := by
    rw [found, zero, none]
    exact none
  rw [toDecimal_eq, Decimal.trimmed_of_zero blank]

end Double

/-- A finite value is shown as its shortest decimal is, zero like any other. -/
theorem renderDecimal_of_isFinite {value : Float} (finite : value.isFinite = true) (places : Nat) :
    renderDecimal value (some places) = .ok ((Double.toDecimal value).render places) := by
  unfold renderDecimal
  by_cases zero : (value == 0) = true
  · rw [if_pos zero, Double.toDecimal_of_magnitude (Double.magnitude_of_beq zero), Decimal.render_eq,
      Decimal.round_of_whole le_rfl, if_pos rfl]
    simp
  · simp only [zero, Double.not_isNaN_of_isFinite finite, Double.not_isInf_of_isFinite finite, Bool.false_eq_true,
      if_false]

/-- The whole number that a value is. A flag is one as well: one if it is set, and zero otherwise. -/
def Value.whole? : Value → Option Int
  | .whole n => some n
  | .flag value => some value.toNat
  | _ => none

/-- The places that are shown if `count` are asked for. -/
def Settings.shownPlaces (count : Int) : Nat := (min (max count 0) mostDecimalPlaces).toNat

theorem Settings.places_of_whole? {settings : Settings} {count : Int}
    (asked : ((settings.value? "decimal_places").getD (.whole defaultDecimalPlaces)).whole? = some count) :
    settings.places = .ok (some (shownPlaces count)) := by
  unfold places shownPlaces
  generalize (settings.value? "decimal_places").getD (.whole defaultDecimalPlaces) = setting at *
  cases setting with
  | whole n =>
    obtain rfl := Option.some.inj asked
    rw [placesOf]
    congr 2
    omega
  | flag value =>
    obtain rfl := Option.some.inj asked
    cases value <;> rfl
  | _ => exact nomatch asked

/-- With decimals and a whole number of places asked for, every finite value is shown. What is shown is the number that
the value's written form denotes: in full if it is whole, and else rounded to the places, a half to even. It is marked
as rounded exactly if it is another number. The decimal arithmetic behind it never runs out of digits. -/
theorem render_halfEven {value : Float} {settings : Settings} {count : Int} (finite : value.isFinite = true)
    (decimals : settings.isOn "fractions" = false)
    (asked : ((settings.value? "decimal_places").getD (.whole Settings.defaultDecimalPlaces)).whole? = some count) :
    ∃ exact rendered shown sign whole fraction,
      Decimal.read? (Double.chars value) = some exact ∧
      render value settings = .ok rendered ∧
      exact.renderWithin? (Settings.shownPlaces count) = some rendered ∧
      Decimal.read? rendered.text.toList = some shown ∧
      IsCanonical rendered.text.toList sign whole fraction ∧
      (∀ integer : ℤ, exact.toRat = integer → shown.toRat = exact.toRat) ∧
      HalfEven exact.toRat (Settings.shownPlaces count) shown.toRat ∧
      (rendered.rounded = true ↔ shown.toRat ≠ exact.toRat) := by
  obtain ⟨zeros, read⟩ := Decimal.read?_chars finite
  have trimmed := Decimal.trimmed_extended (Double.toDecimal value) zeros
  rw [Double.toDecimal_negative, Double.trimmed_toDecimal] at trimmed
  generalize (⟨_, _, _⟩ : Decimal) = exact at read trimmed
  have drawn : render value settings = .ok (exact.trimmed.render (Settings.shownPlaces count)) := by
    rw [render, Settings.places_of_whole? asked, decimals, trimmed, ← renderDecimal_of_isFinite finite]
    rfl
  obtain ⟨shown, sign, whole, fraction, readShown, canonical, rounds, marked⟩ :=
    Decimal.render_trimmed exact (Settings.shownPlaces count)
  exact ⟨exact, _, shown, sign, whole, fraction, read, drawn, Decimal.renderWithin?_eq exact _, readShown, canonical,
    fun integer integral => rounds.eq_of_int integral, rounds, marked⟩

/-- One eighth with two places. -/
theorem render_eighth :
    ∃ exact rendered shown sign whole fraction,
      Decimal.read? (Double.chars 0.125) = some exact ∧
      render 0.125 (.ofNamed [("decimal_places", .whole 2)]) = .ok rendered ∧
      exact.renderWithin? (Settings.shownPlaces 2) = some rendered ∧
      Decimal.read? rendered.text.toList = some shown ∧
      IsCanonical rendered.text.toList sign whole fraction ∧
      (∀ integer : ℤ, exact.toRat = integer → shown.toRat = exact.toRat) ∧
      HalfEven exact.toRat (Settings.shownPlaces 2) shown.toRat ∧
      (rendered.rounded = true ↔ shown.toRat ≠ exact.toRat) :=
  render_halfEven (by decide +kernel) rfl rfl

end Reckoner
