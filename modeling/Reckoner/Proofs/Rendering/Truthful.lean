import Mathlib
import Reckoner.Proofs.Evaluation.Numeral
import Reckoner.Proofs.Rendering.Decimal
import Reckoner.Rendering

namespace Reckoner

open Evaluation

variable {bindings : Bindings} {functions : FunctionTable}

theorem evaluate_plain {d : Decimal} (fits : Double.nearestDecimal d.digits d.exponent < Double.infinityBits) :
    (evaluate d.plain bindings functions).result =
      .ok (Double.ofMagnitude (d.negative && Double.nearestDecimal d.digits d.exponent ≠ 0)
        (Double.nearestDecimal d.digits d.exponent)) := by
  have value :=
    @evaluate_numeral bindings functions _ _ _ d.negative (Double.denotes_positional d.digits d.exponent) fits
  rw [← List.append_assoc] at value
  exact value

theorem evaluate_zero : (evaluate "0" bindings functions).result = .ok 0.0 := by
  have zero := @evaluate_numeral bindings functions _ 0 0 false (Double.denotes_positional 0 0) (by decide)
  rw [Double.posZero_eq]
  exact zero

theorem evaluate_shown {d : Decimal} (fits : Double.nearestDecimal d.digits d.exponent < Double.infinityBits) :
    (evaluate (if d.digits = 0 then "0" else d.plain) bindings functions).result =
      .ok (Double.ofMagnitude (d.negative && Double.nearestDecimal d.digits d.exponent ≠ 0)
        (Double.nearestDecimal d.digits d.exponent)) := by
  split
  · rename_i zero
    rw [zero, Double.nearestDecimal_zero, evaluate_zero, Double.posZero_eq]
    simp
  · exact evaluate_plain fits

/-- Rounded to places that cut something off, a double's decimal reads back as another finite double. -/
theorem nearestDecimal_round {value : Float} {places : Nat} (finite : value.isFinite = true)
    (nonzero : Double.magnitude value ≠ 0) (cut : (Double.toDecimal value).exponent < -(places : Int))
    (within : places ≤ 100) :
    Double.nearestDecimal ((Double.toDecimal value).round places).digits
      ((Double.toDecimal value).round places).exponent <
        Double.infinityBits ∧
      Double.nearestDecimal ((Double.toDecimal value).round places).digits
        ((Double.toDecimal value).round places).exponent ≠ Double.magnitude value := by
  have positive : 0 < (-(Double.toDecimal value).exponent - places).toNat := by omega
  have exponent : (Double.toDecimal value).exponent =
      -((places + (-(Double.toDecimal value).exponent - places).toNat : Nat) : Int) := by omega
  simp only [Decimal.round, if_neg positive.ne', Decimal.nearestDecimal_trimmed, Nat.pow_eq]
  generalize (-(Double.toDecimal value).exponent - places).toNat = excess at *
  refine ⟨Double.nearestDecimal_round_lt finite exponent positive, ?_⟩
  by_cases left : Double.roundQuotient (Double.toDecimal value).digits (10 ^ excess) = 0
  · rw [left, Double.nearestDecimal_zero]
    exact nonzero.symm
  · exact Double.nearestDecimal_round_ne finite nonzero exponent positive within left

/-- The text of a double other than zero evaluates, and it evaluates to that double exactly if nothing was rounded. -/
theorem evaluate_render {value : Float} {places : Nat} (proper : Proper value) (nonzero : Double.magnitude value ≠ 0)
    (within : places ≤ 100) :
    ∃ other, (∀ bindings functions,
        (evaluate ((Double.toDecimal value).render places).text bindings functions).result = .ok other) ∧
      (((Double.toDecimal value).render places).rounded = false ↔ other = value) := by
  have finite := proper.1
  have reads := Double.nearestDecimal_toDecimal finite
  have fits := (Double.isFinite_iff value).1 finite
  unfold Decimal.render
  dsimp only
  generalize atShown : (if 0 ≤ (Double.toDecimal value).exponent then Double.toDecimal value
    else (Double.toDecimal value).round places) = shown
  by_cases same : shown = Double.toDecimal value
  · rw [same]
    refine ⟨value, fun bindings functions => ?_, by simp⟩
    rw [evaluate_shown (by rw [reads]; exact fits), reads, Double.toDecimal_negative, proper.isNegative_and,
      Double.ofMagnitude_self]
  · have cut : (Double.toDecimal value).exponent < -(places : Int) := by
      by_contra enough
      have whole : (-(Double.toDecimal value).exponent - places).toNat = 0 := by omega
      rw [Decimal.round, if_pos whole, ite_self] at atShown
      exact same atShown.symm
    rw [if_neg (by omega)] at atShown
    obtain ⟨fitsShown, other⟩ := nearestDecimal_round finite nonzero cut within
    rw [atShown] at fitsShown other
    refine ⟨_, fun bindings functions => evaluate_shown fitsShown, ?_⟩
    simp only [ne_eq, same, not_false_eq_true, decide_true, Bool.true_eq_false, false_iff]
    intro reached
    have sizes := congrArg Double.magnitude reached
    rw [Double.magnitude_ofMagnitude _ fitsShown.le] at sizes
    exact other sizes

/-- A proper value is shown as a text that evaluates, and evaluates to the value exactly if nothing was rounded. -/
theorem evaluate_renderDecimal {value : Float} {places : Nat} (proper : Proper value) (within : places ≤ 100) :
    ∃ rendered, renderDecimal value (some places) = .ok rendered ∧
      ∃ other, (∀ bindings functions, (evaluate rendered.text bindings functions).result = .ok other) ∧
        (rendered.rounded = false ↔ other = value) := by
  unfold renderDecimal
  by_cases zero : (value == 0) = true
  · rw [if_pos zero]
    refine ⟨_, rfl, 0.0, fun bindings functions => evaluate_zero, ?_⟩
    simp only [Double.eq_posZero_of_beq proper.2 zero]
  · have nonzero : Double.magnitude value ≠ 0 := by
      intro blank
      have same := Double.ofMagnitude_self value
      have positive := proper.isNegative_and
      simp only [blank, ne_eq, not_true_eq_false, decide_false, Bool.and_false] at positive
      rw [blank, ← positive, ← Double.posZero_eq] at same
      rw [← same] at zero
      exact zero rfl
    rw [if_neg zero]
    simp only [Double.not_isNaN_of_isFinite proper.1, Double.not_isInf_of_isFinite proper.1, Bool.false_eq_true,
      if_false]
    exact ⟨_, rfl, evaluate_render proper nonzero within⟩

/-- With decimals and a whole number of places asked for, the text behind the sign is an expression again. The sign is
the equals sign exactly if that expression evaluates to the value of the problem. -/
theorem calculate_truthful {problem : String} {bindings : Bindings} {settings : Settings} {value : Float} {count : Int}
    (decimals : settings.isOn "fractions" = false)
    (places : (settings.value? "decimal_places").getD (.whole Settings.defaultDecimalPlaces) = .whole count)
    (evaluated : (evaluate problem bindings (.elementary (settings.isOn "degrees"))).result = .ok value) :
    ∃ exact text, calculate problem bindings settings = .ok ⟨(if exact then "= " else "\u2248 ") ++ text, value⟩ ∧
      ∃ other, (∀ otherBindings functions, (evaluate text otherBindings functions).result = .ok other) ∧
        (exact = true ↔ other = value) := by
  obtain ⟨rendered, shown, other, evaluates, isExact⟩ :=
    @evaluate_renderDecimal value (min count.toNat 100) (proper_of_evaluate evaluated) (min_le_right _ _)
  have asked : settings.places = .ok (some (min count.toNat 100)) := by
    rw [Settings.places, places]
    rfl
  have drawn : render value settings = .ok rendered := by
    rw [render, asked, ← shown, decimals]
    rfl
  refine ⟨!rendered.rounded, rendered.text, ?_, other, evaluates, ?_⟩
  · rw [calculate, evaluated]
    change ((render value settings).mapError Stop.fault >>= fun rendered => _) = _
    rw [drawn]
    cases atRounded : rendered.rounded <;>
      simp [Except.mapError, bind, Except.bind, pure, Except.pure, Rendered.line, atRounded]
  · rw [Bool.not_eq_true', isExact]

/-- One eighth with two places. -/
theorem calculate_eighth :
    ∃ exact text, calculate "x/y" (.ofList [("x", .real 1.0), ("y", .real 8.0)])
        (.ofNamed [("decimal_places", .whole 2)]) =
        .ok ⟨(if exact then "= " else "\u2248 ") ++ text, 0.125⟩ ∧
      ∃ other, (∀ otherBindings functions, (evaluate text otherBindings functions).result = .ok other) ∧
        (exact = true ↔ other = 0.125) :=
  @calculate_truthful _ _ _ _ 2 (by decide +kernel) rfl rfl

end Reckoner
