import Mathlib
import Reckoner.Proofs.Evaluation.Interchange
import Reckoner.Proofs.Token.Boundary

namespace Reckoner

namespace Evaluation

variable {bindings : Bindings} {functions : FunctionTable} {room : Nat}

@[simp] theorem replaceName_ofValue (value : Float) : replaceName bindings (.ofValue value) = .ofValue value := rfl

theorem replaceName_replaceName (token : Token) :
    replaceName bindings (replaceName bindings token) = replaceName bindings token := by
  rcases @replaceName_cases bindings token with kept | ⟨_, value, _, _, replaced⟩
  · rw [kept, kept]
  · rw [replaced, replaceName_ofValue]

/-- Replacing names changes no parentheses. -/
theorem isParenthesis_replaceName (token : Token) : (replaceName bindings token).isOpen = token.isOpen ∧
    (replaceName bindings token).isClose = token.isClose := by
  rcases @replaceName_cases bindings token with kept | ⟨_, value, rfl, _, replaced⟩
  · rw [kept]
    exact ⟨rfl, rfl⟩
  · rw [replaced]
    exact ⟨rfl, rfl⟩

theorem evaluateFlat_map (finite : bindings.AllFinite) (tokens : List Token) :
    evaluateFlat room bindings functions (tokens.map (replaceName bindings)) =
      evaluateFlat room bindings functions tokens := by
  rw [evaluateFlat, evaluateFlat, substitute_eq finite, substitute_eq finite, List.map_map]
  simp only [Function.comp_def, replaceName_replaceName]

theorem closeGroup_map (finite : bindings.AllFinite) (opening : Token) (rest : List Token) :
    (closeGroup bindings functions (replaceName bindings opening) (rest.map (replaceName bindings))).result =
      (closeGroup bindings functions opening rest).result.map (List.map (replaceName bindings)) := by
  rw [closeGroup, closeGroup, breakFirst?_map fun token => (isParenthesis_replaceName token).2]
  rcases breakFirst? Token.isClose rest with _ | ⟨inner, closing, after⟩
  · rfl
  · simp only [Option.map_some, Traced.result_bind, evaluateFlat_map finite]
    cases (evaluateFlat groupRoom bindings functions inner).result <;> rfl

/-- Names may be replaced before the groups are resolved. -/
theorem sweepGroups_map (finite : bindings.AllFinite) (tokens : List Token) :
    (sweepGroups bindings functions (tokens.map (replaceName bindings))).result =
      (sweepGroups bindings functions tokens).result.map (List.map (replaceName bindings)) := by
  induction tokens with
  | nil => rfl
  | cons token rest ih =>
    rw [List.map_cons, sweepGroups, sweepGroups, Traced.result_bind, Traced.result_bind, ih,
      (isParenthesis_replaceName token).1]
    cases (sweepGroups bindings functions rest).result with
    | error stop => rfl
    | ok swept =>
      cases token.isOpen with
      | true => exact closeGroup_map finite token swept
      | false => rfl

theorem evaluateTokens_map (finite : bindings.AllFinite) (tokens : List Token) :
    (evaluateTokens bindings functions (tokens.map (replaceName bindings))).result =
      (evaluateTokens bindings functions tokens).result := by
  rw [evaluateTokens, evaluateTokens, resolveGroups_eq, resolveGroups_eq]
  simp only [bind_assoc, pure_bind]
  rw [Traced.result_bind, Traced.result_bind, sweepGroups_map finite]
  cases (sweepGroups bindings functions tokens).result with
  | error stop => rfl
  | ok swept =>
    have closed : checkClosed (swept.map (replaceName bindings)) = checkClosed swept := by
      simp only [checkClosed, List.any_map, Function.comp_def, (isParenthesis_replaceName _).2]
    change (Traced.ofFailing (checkClosed (swept.map (replaceName bindings))) >>= fun _ =>
      evaluateFlat wholeRoom bindings functions (swept.map (replaceName bindings))).result = _
    rw [closed, evaluateFlat_map finite]
    rfl

/-- In a list a bound name is as good as the number token of its value. -/
theorem evaluateTokens_bound {name : String} {value : Float} (finite : bindings.AllFinite)
    (bound : bindings.get? name = some (.real value)) (before after : List Token) :
    (evaluateTokens bindings functions (before ++ .name name false :: after)).result =
      (evaluateTokens bindings functions (before ++ .ofValue value :: after)).result := by
  have replaced : replaceName bindings (.name name false) = .ofValue value := by simp [replaceName, bound]
  rw [← evaluateTokens_map finite, ← evaluateTokens_map finite (before ++ .ofValue value :: after), List.map_append,
    List.map_append, List.map_cons, List.map_cons, replaced, replaceName_ofValue]

end Evaluation

open Evaluation

variable {bindings : Bindings} {functions : FunctionTable}

/-- A bound name that stands as a whole word can be replaced by the written form of its value in parentheses. The
outcome stays the same, whatever stands around it: the same value, or a failure of the same class and code. -/
theorem evaluate_variable_text {name : String} {value : Float} (finite : bindings.AllFinite)
    (bound : bindings.get? name = some (.real value)) (nonzero : value ≠ -0.0) {before after : String}
    (whole : Token.WholeWord before.toList name.toList after.toList) (apart : before.toList.getLast? ≠ some '.') :
    SameOutcome (evaluate (before ++ name ++ after) bindings functions).result
      (evaluate (before ++ "(" ++ (Double.text value).toUpper ++ ")" ++ after) bindings functions).result := by
  obtain ⟨x, same, isFinite⟩ := finite name _ bound
  cases same
  obtain ⟨inner, scanned, evaluated⟩ := evaluate_eq_ok.1 (@evaluate_text bindings functions value ⟨isFinite, nonzero⟩)
  obtain ⟨position, right⟩ := Token.scan_group (getLast?_text_ne isFinite) scanned before after
  have left := @Token.scan_wholeWord bindings.contains functions.keys before name after position (some ')') apart whole
    (by rw [OrderedMap.contains, bound]; rfl)
  refine sameOutcome_evaluate finite ?_
  rw [category_evaluate_bind, category_evaluate_bind, left, right]
  cases Token.scanFrom bindings.contains functions.keys 0 0 none before.toList with
  | error cause => rfl
  | ok first =>
    cases Token.scanFrom bindings.contains functions.keys 0 position (some ')') (Token.dropEquals after.toList) with
    | error cause => rfl
    | ok last =>
      have group := result_evaluateTokens_congr (sweepGroups_congr first (sweepGroups_group_eq_ofValue evaluated last))
      exact congrArg (Except.mapError Stop.category) ((evaluateTokens_bound finite bound first last).trans group.symm)

/-- A negative value as the base of a power, under a name that begins like a function and ends in the mark of
exponents. -/
theorem evaluate_variable_base :
    SameOutcome (evaluate ("-" ++ "sinE" ++ "^2") (.ofList [("sinE", .real (-2.0))]) (.elementary false)).result
      (evaluate ("-" ++ "(" ++ (Double.text (-2.0)).toUpper ++ ")" ++ "^2") (.ofList [("sinE", .real (-2.0))])
        (.elementary false)).result := by
  have finite : Bindings.AllFinite (.ofList [("sinE", .real (-2.0))]) := .single "sinE" (by decide +kernel)
  have bound : (OrderedMap.ofList [("sinE", Value.real (-2.0))]).get? "sinE" = some (.real (-2.0)) := rfl
  have nonzero : (-2.0 : Float) ≠ -0.0 := by decide +kernel
  have whole : Token.WholeWord "-".toList "sinE".toList "^2".toList := by
    refine ⟨⟨'s', rfl, rfl⟩, List.all_eq_true.1 rfl, ?_, ?_⟩
    · rintro _ ⟨⟩
      rfl
    · rintro _ ⟨⟩
      rfl
  generalize OrderedMap.ofList [("sinE", Value.real (-2.0))] = bindings at finite bound ⊢
  exact evaluate_variable_text finite bound nonzero whole (by decide)

end Reckoner
