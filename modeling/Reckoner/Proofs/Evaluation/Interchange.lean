import Mathlib
import Reckoner.Proofs.Evaluation.Numeral

namespace Reckoner

namespace Evaluation

variable {bindings : Bindings} {functions : FunctionTable}

theorem sweepGroups_append_of_error {others : List Token} {stop : Stop} (tokens : List Token)
    (stops : (sweepGroups bindings functions others).result = .error stop) :
    (sweepGroups bindings functions (tokens ++ others)).result = .error stop := by
  induction tokens with
  | nil => exact stops
  | cons token rest ih =>
    rw [List.cons_append, sweepGroups, Traced.result_bind, ih]
    rfl

theorem collapses_group {tokens after swept : List Token} {value : Float}
    (evaluated : (evaluateTokens bindings functions tokens).result = .ok value)
    (behind : Collapses bindings functions after swept) :
    Collapses bindings functions (.lparen "(" :: (tokens ++ .rparen ")" :: after)) (Token.ofValue value :: swept) := by
  obtain ⟨inner, collapses, noClose, result⟩ := evaluateTokens_eq_ok.1 evaluated
  exact .close rfl noClose rfl (evaluateFlat_of_ok result groupRoom) (collapses.append (.keep rfl behind))

/-- A sweep depends on the tokens at its end only through what they are swept to. -/
theorem sweepGroups_congr {one other : List Token} (tokens : List Token)
    (same : (sweepGroups bindings functions one).result = (sweepGroups bindings functions other).result) :
    (sweepGroups bindings functions (tokens ++ one)).result =
      (sweepGroups bindings functions (tokens ++ other)).result := by
  induction tokens with
  | nil => exact same
  | cons token rest ih => rw [List.cons_append, List.cons_append, sweepGroups, sweepGroups, Traced.result_bind,
      Traced.result_bind, ih]

theorem result_evaluateTokens_congr {one other : List Token}
    (same : (sweepGroups bindings functions one).result = (sweepGroups bindings functions other).result) :
    (evaluateTokens bindings functions one).result = (evaluateTokens bindings functions other).result := by
  rw [evaluateTokens, evaluateTokens, resolveGroups_eq, resolveGroups_eq]
  simp only [Traced.result_bind, same]

theorem sweepGroups_group_of_error {tokens after : List Token} {stop : Stop}
    (stops : (sweepGroups bindings functions after).result = .error stop) :
    (sweepGroups bindings functions (.lparen "(" :: (tokens ++ .rparen ")" :: after))).result = .error stop := by
  have whole := sweepGroups_append_of_error (.lparen "(" :: (tokens ++ [.rparen ")"])) stops
  rwa [List.cons_append, List.append_assoc] at whole

/-- A group that has a value is as good as the number token of the value. -/
theorem sweepGroups_group_eq_ofValue {inner : List Token} {value : Float}
    (evaluated : (evaluateTokens bindings functions inner).result = .ok value) (after : List Token) :
    (sweepGroups bindings functions (.lparen "(" :: (inner ++ .rparen ")" :: after))).result =
      (sweepGroups bindings functions (.ofValue value :: after)).result := by
  cases isSwept : (sweepGroups bindings functions after).result with
  | ok swept =>
    have behind := sweepGroups_eq_ok.1 isSwept
    rw [sweepGroups_eq_ok.2 (collapses_group evaluated behind), sweepGroups_eq_ok.2 (.keep rfl behind)]
  | error stop =>
    rw [sweepGroups_group_of_error isSwept]
    exact (sweepGroups_append_of_error [.ofValue value] isSwept).symm

theorem evaluateTokens_congr {one other : List Token} {value : Float} (before after : List Token)
    (first : (evaluateTokens bindings functions one).result = .ok value)
    (second : (evaluateTokens bindings functions other).result = .ok value) :
    (evaluateTokens bindings functions (before ++ .lparen "(" :: (one ++ .rparen ")" :: after))).result =
      (evaluateTokens bindings functions (before ++ .lparen "(" :: (other ++ .rparen ")" :: after))).result := by
  refine result_evaluateTokens_congr (sweepGroups_congr before ?_)
  exact (sweepGroups_group_eq_ofValue first after).trans (sweepGroups_group_eq_ofValue second after).symm

end Evaluation

open Evaluation

namespace Token

variable {bound : String → Bool} {names : List String}

theorem toList_group (before one after : String) :
    (before ++ "(" ++ one ++ ")" ++ after).toList =
      before.toList ++ '(' :: (one.toList ++ ')' :: after.toList) := by
  simp only [String.toList_append, List.append_assoc]
  rfl

/-- A group in a text is scanned as its expression is by itself, and the text around it does not depend on it. -/
theorem scan_group {one : String} {inner : List Token} (plain : one.toList.getLast? ≠ some '=')
    (scanned : scan bound names one = .ok inner) (before after : String) :
    ∃ position, scan bound names (before ++ "(" ++ one ++ ")" ++ after) = do
      let first ← scanFrom bound names 0 0 none before.toList
      let last ← scanFrom bound names 0 position (some ')') (dropEquals after.toList)
      return first ++ .lparen "(" :: (inner ++ .rparen ")" :: last) := by
  rw [scan, dropEquals_of_getLast?_ne plain] at scanned
  have inside := @scanFrom_of_start bound names _ _ (some '(') scanned (0 + before.toList.length + 1) rfl
  refine ⟨0 + before.toList.length + 1 + one.toList.length + 1, ?_⟩
  rw [scan, toList_group, dropEquals_append (by decide), dropEquals_append (by decide),
    scanFrom_append stands_open _ _ _ _ _ (Nat.zero_le _), scanFrom_append stands_close _ _ _ _ _ (Nat.zero_le _),
      inside]
  refine bind_congr fun first => ?_
  change (pure inner >>= _ >>= _) = _
  simp only [bind_assoc, pure_bind]

end Token

/-- Outcomes that agree: the same value, or failures of the same class and code. -/
def SameOutcome : Except Stop Float → Except Stop Float → Prop
  | .ok value, .ok other => value = other
  | .error (.failure cause _), .error (.failure other _) =>
    cause.report.kind = other.report.kind ∧ cause.report.code = other.report.code
  | _, _ => False

/-- The class and the code of a failure. A fault has none. -/
def Stop.category : Stop → Option (FailureKind × String)
  | .failure cause _ => some cause.category
  | .fault _ => none

theorem Stop.category_about (equation : String) (stop : Stop) : (stop.about equation).category = stop.category := by
  cases stop <;> rfl

variable {bindings : Bindings} {functions : FunctionTable}

theorem sameOutcome_of_category {one other : Except Stop Float}
    (settles : Settles (fun stop => ∃ cause equation, stop = .failure cause equation) (fun _ => True) one)
    (same : one.mapError Stop.category = other.mapError Stop.category) : SameOutcome one other := by
  cases one with
  | ok value =>
    cases other with
    | ok _ =>
      cases same
      rfl
    | error stop => exact nomatch same
  | error stop =>
    obtain ⟨cause, equation, rfl⟩ := settles
    cases other with
    | ok _ => exact nomatch same
    | error stop =>
      cases stop with
      | failure other _ => exact Prod.mk.inj (Option.some.inj (Except.error.inj same))
      | fault kind => exact nomatch Except.error.inj same

/-- Up to the text of failures, evaluating is scanning and evaluating the tokens. -/
theorem category_evaluate (expression : String) :
    (evaluate expression bindings functions).result.mapError Stop.category =
      match Token.scan bindings.contains functions.keys expression with
      | .ok tokens => (evaluateTokens bindings functions tokens).result.mapError Stop.category
      | .error cause => .error (some cause.category) := by
  rw [evaluate, Traced.result_mapStop]
  cases Token.scan bindings.contains functions.keys expression with
  | error cause => rfl
  | ok tokens =>
    change (Except.mapError _ (evaluateTokens bindings functions tokens).result).mapError _ =
      (evaluateTokens bindings functions tokens).result.mapError _
    cases (evaluateTokens bindings functions tokens).result with
    | ok value => rfl
    | error stop => exact congrArg Except.error (Stop.category_about expression stop)

/-- Up to the text of failures, an evaluation depends on what the scan comes to up to that text. -/
theorem category_evaluate_bind (expression : String) :
    (evaluate expression bindings functions).result.mapError Stop.category =
      ((Token.scan bindings.contains functions.keys expression).mapError Failure.category).mapError some >>=
        fun tokens => (evaluateTokens bindings functions tokens).result.mapError Stop.category := by
  rw [category_evaluate]
  cases Token.scan bindings.contains functions.keys expression <;> rfl

theorem sameOutcome_evaluate {one other : String} (finite : bindings.AllFinite)
    (same : (evaluate one bindings functions).result.mapError Stop.category =
      (evaluate other bindings functions).result.mapError Stop.category) :
    SameOutcome (evaluate one bindings functions).result (evaluate other bindings functions).result := by
  refine sameOutcome_of_category ?_ same
  refine (evaluate_settles finite functions one).mono (fun stop closed => ?_) fun _ _ => trivial
  obtain ⟨cause, same, _⟩ := closed
  exact ⟨cause, _, same⟩

theorem getLast?_text_ne {value : Float} (finite : value.isFinite = true) :
    (Double.text value).toUpper.toList.getLast? ≠ some '=' := by
  have numeric := numeric_signed (Double.isNegative value)
    (Double.denotes_unsignedText Double.layout (Double.toDecimal value)).1
  rw [toUpper_text finite, String.toList_ofList]
  exact fun last => nomatch numeric '=' (List.mem_of_getLast? last)

theorem category_evaluate_group {one other : String} {value : Float} (before after : String)
    (plainOne : one.toList.getLast? ≠ some '=') (plainOther : other.toList.getLast? ≠ some '=')
    (first : (evaluate one bindings functions).result = .ok value)
    (second : (evaluate other bindings functions).result = .ok value) :
    (evaluate (before ++ "(" ++ one ++ ")" ++ after) bindings functions).result.mapError Stop.category =
      (evaluate (before ++ "(" ++ other ++ ")" ++ after) bindings functions).result.mapError Stop.category := by
  obtain ⟨tokens, scanned, evaluated⟩ := evaluate_eq_ok.1 first
  obtain ⟨otherTokens, scannedOther, evaluatedOther⟩ := evaluate_eq_ok.1 second
  obtain ⟨position, whole⟩ := Token.scan_group plainOne scanned before after
  obtain ⟨otherPosition, wholeOther⟩ := Token.scan_group plainOther scannedOther before after
  have behind := @Token.scanFrom_mapError bindings.contains functions.keys (Token.dropEquals after.toList) 0 position
    otherPosition (some ')') (some ')') fun _ _ _ => rfl
  rw [category_evaluate, category_evaluate, whole, wholeOther]
  cases Token.scanFrom bindings.contains functions.keys 0 0 none before.toList with
  | error cause => rfl
  | ok leading =>
    cases last : Token.scanFrom bindings.contains functions.keys 0 position (some ')')
      (Token.dropEquals after.toList) with
    | ok trailing =>
      rw [last] at behind
      rw [mapError_eq_ok.1 behind.symm]
      exact congrArg (Except.mapError Stop.category) (evaluateTokens_congr leading trailing evaluated evaluatedOther)
    | error cause =>
      cases lastOther : Token.scanFrom bindings.contains functions.keys 0 otherPosition (some ')')
        (Token.dropEquals after.toList) with
      | ok trailing =>
        rw [last, lastOther] at behind
        exact nomatch behind
      | error otherCause =>
        rw [last, lastOther] at behind
        exact congrArg (fun category => Except.error (some category)) (Except.error.inj behind)

/-- A group can be replaced by the written form of its value. The outcome stays the same, whatever stands around the
group: the same value, or a failure of the same class and code. -/
theorem evaluate_group_text {expression : String} {value : Float} (finite : bindings.AllFinite)
    (plain : expression.toList.getLast? ≠ some '=')
    (evaluated : (evaluate expression bindings functions).result = .ok value) (before after : String) :
    SameOutcome (evaluate (before ++ "(" ++ expression ++ ")" ++ after) bindings functions).result
      (evaluate (before ++ "(" ++ (Double.text value).toUpper ++ ")" ++ after) bindings functions).result := by
  have proper := proper_of_evaluate evaluated
  have same := category_evaluate_group before after plain (getLast?_text_ne proper.1) evaluated (evaluate_text proper)
  exact sameOutcome_evaluate finite same

/-- The negative exponent of a power, in a text with a parenthesis too many. -/
theorem evaluate_exponent_text :
    SameOutcome (evaluate ("x^" ++ "(" ++ "-x" ++ ")" ++ "*x)") (.ofList [("x", .real 2.0)]) .empty).result
      (evaluate ("x^" ++ "(" ++ (Double.text (-2.0)).toUpper ++ ")" ++ "*x)") (.ofList [("x", .real 2.0)])
        .empty).result := by
  have finite : Bindings.AllFinite (.ofList [("x", .real 2.0)]) := .single "x" rfl
  have value : (evaluate "-x" (.ofList [("x", .real 2.0)]) .empty).result = .ok (-2.0) := by rfl
  exact evaluate_group_text finite (by decide) value "x^" "*x)"

end Reckoner
