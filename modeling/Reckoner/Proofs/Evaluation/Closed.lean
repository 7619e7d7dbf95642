import Mathlib
import Reckoner.Evaluation
import Reckoner.Proofs.Double.Sum
import Reckoner.Proofs.Evaluation.Flat
import Reckoner.Proofs.Evaluation.Groups
import Reckoner.Proofs.Token.Scan

namespace Reckoner

/-- The classes and codes of the failures of an evaluation. -/
def closedCategories : List (FailureKind × String) :=
  [(.form, "3009"), (.form, "3010"), (.form, "3031"), (.form, "3032"), (.form, "3033"), (.form, "3034"),
   (.numeric, "3011"), (.numeric, "3035"), (.numeric, "3038"), (.numeric, "3039"),
   (.arithmetic, "2005"), (.arithmetic, "3003"), (.arithmetic, "3026"), (.missingArgument, "3036")]

def ClosedFailure (cause : Failure) : Prop :=
  cause.category ∈ closedCategories

/-- The causes that arise in an evaluation. A name that is not in the table is never called, finite bindings can always
be used, and the other causes belong to assignments and to the window. -/
def Failure.Arises : Failure → Prop
  | unknownFunction _ | unusableBinding _ _ | missingEquals _ | missingName _ | unreadableBinding _ _ | noLastResult
  | crash _ => False
  | _ => True

theorem closed_of_arises {cause : Failure} (arises : cause.Arises) : ClosedFailure cause := by
  cases cause <;>
    simp_all [Failure.Arises, ClosedFailure, Failure.category, Failure.report, closedCategories]

/-- The causes that arise in a list without parentheses whose functions are all known. -/
def Failure.IsFlat : Failure → Prop
  | unmatchedOpen | unmatchedClose => False
  | cause => cause.Arises

theorem Failure.IsFlat.arises {cause : Failure} (flat : cause.IsFlat) : cause.Arises := by
  cases cause <;> first | exact flat | exact flat.elim

/-- A failure that an evaluation may come to, in an expression not yet known. -/
def ClosedStop (stop : Stop) : Prop :=
  ∃ cause, stop = .of cause ∧ ClosedFailure cause

namespace Evaluation

variable {bindings : Bindings} {functions : FunctionTable} {room : Nat}

section Flat

variable {failing : Stop → Prop}

theorem settles_ofFailing {α : Type} {answer : α → Prop} {result : Except Failure α}
    (settles : Settles (fun cause => failing (.of cause)) answer result) :
    Settles failing answer (Traced.ofFailing result).result := by
  rw [Traced.result_ofFailing]
  exact settles.mapError fun _ fails => fails

theorem settles_ofFlat {α : Type} {answer : α → Prop} {result : Except Failure α}
    (flat : ∀ cause : Failure, cause.IsFlat → failing (.of cause)) (settles : Settles Failure.IsFlat answer result) :
    Settles failing answer (Traced.ofFailing result).result :=
  settles_ofFailing (settles.mono flat fun _ holds => holds)

theorem settles_note {step : Step} : Settles failing (fun _ => True) (Traced.note step).result :=
  trivial

theorem checkNames_settles (tokens : List Token) : Settles Failure.IsFlat (fun _ => True) (checkNames tokens) := by
  induction tokens with
  | nil => trivial
  | cons token rest ih =>
    cases token with
    | name name attached =>
      exact trivial
    | _ => exact ih

theorem checkPairs_settles (tokens : List Token) : Settles Failure.IsFlat (fun _ => True) (checkPairs tokens) := by
  fun_induction checkPairs tokens with
  | case1 left right rest invalid =>
    exact trivial
  | case2 left right rest valid ih => exact ih
  | case3 token rest _ ih => exact ih
  | case4 => trivial

theorem validate_settles (tokens : List Token) : Settles Failure.IsFlat (fun _ => True) (validate tokens) := by
  have start : Settles Failure.IsFlat (fun _ => True) (checkStart tokens) := by
    unfold checkStart
    split
    · split
      · exact trivial
      · trivial
    · trivial
  have atEnd : Settles Failure.IsFlat (fun _ => True) (checkEnd tokens) := by
    unfold checkEnd
    split
    · split
      · exact trivial
      · trivial
    · trivial
  exact (checkNames_settles tokens).bind fun _ _ => (checkPairs_settles tokens).bind fun _ _ =>
    start.bind fun _ _ => atEnd

/-- Whether a function is known, or may stop a computation by being unknown. -/
def Callable (failing : Stop → Prop) (functions : FunctionTable) (name : String) : Prop :=
  functions.contains name = true ∨ failing (.of (.unknownFunction name))

theorem apply_settles (flat : ∀ cause : Failure, cause.IsFlat → failing (.of cause)) {name : String}
    (callable : Callable failing functions name) (argument : Float) :
    Settles (fun cause => failing (.of cause)) (fun _ => True) (functions.apply name argument) := by
  unfold FunctionTable.apply
  rcases found : functions.get? name with _ | function
  · rcases callable with listed | fails
    · simp [OrderedMap.contains, found] at listed
    · exact fails
  · dsimp only
    rcases function argument with (_ | _) | value
    · exact flat _ trivial
    · exact flat _ trivial
    · dsimp only
      split
      · trivial
      · exact flat _ trivial

theorem sweepCalls_settles (flat : ∀ cause : Failure, cause.IsFlat → failing (.of cause)) {waiting : List OpenCall}
    {tokens : List Token} (waits : ∀ call ∈ waiting, Callable failing functions call.name)
    (callable : ∀ name, .function name ∈ tokens → Callable failing functions name) :
    Settles failing (fun _ => True) (sweepCalls functions waiting tokens).result := by
  have close : ∀ {waiting : List OpenCall} {text value}, (∀ call ∈ waiting, Callable failing functions call.name) →
      Settles failing (fun _ => True) (closeCalls functions waiting text value).result := by
    intro waiting
    induction waiting with
    | nil => exact fun _ => trivial
    | cons call outer ih =>
      intro text value waits
      have called : Settles failing (fun _ => True) (callValue functions call.name (call.argument value)).result :=
        Traced.settles_bind (settles_ofFailing (apply_settles flat (waits call List.mem_cons_self) _)) fun _ _ =>
          Traced.settles_bind settles_note fun _ _ => trivial
      exact Traced.settles_bind called fun result _ =>
        ih fun other member => waits other (List.mem_cons_of_mem call member)
  fun_induction sweepCalls functions waiting tokens with
  | case1 => trivial
  | case2 waiting text value rest ih =>
    have others : ∀ name, .function name ∈ rest → Callable failing functions name :=
      fun name member => callable name (List.mem_cons_of_mem _ member)
    exact Traced.settles_bind (close waits) fun _ _ =>
      Traced.settles_bind (ih (List.forall_mem_nil _) others) fun _ _ => trivial
  | case3 waiting name rest ih =>
    exact ih (List.forall_mem_cons.2 ⟨callable name List.mem_cons_self, waits⟩)
      fun other member => callable other (List.mem_cons_of_mem _ member)
  | case4 name minus outer op rest isMinus ih =>
    have waitsOuter : ∀ call ∈ outer, Callable failing functions call.name :=
      fun call member => waits call (List.mem_cons_of_mem _ member)
    exact ih (List.forall_mem_cons.2 ⟨waits ⟨name, none, minus⟩ List.mem_cons_self, waitsOuter⟩)
      fun other member => callable other (List.mem_cons_of_mem _ member)
  | case5 name minus outer op rest noMinus ih =>
    have others : ∀ name, .function name ∈ rest → Callable failing functions name :=
      fun name member => callable name (List.mem_cons_of_mem _ member)
    exact Traced.settles_bind (ih (List.forall_mem_nil _) others) fun _ _ => trivial
  | case6 waiting token rest _ _ _ ih =>
    have others : ∀ name, .function name ∈ rest → Callable failing functions name :=
      fun name member => callable name (List.mem_cons_of_mem _ member)
    exact Traced.settles_bind (ih (List.forall_mem_nil _) others) fun _ _ => trivial

theorem checkArguments_settles (tokens : List Token) :
    Settles Failure.IsFlat (fun _ => True) (checkArguments tokens) := by
  induction tokens with
  | nil => trivial
  | cons token rest ih =>
    cases token with
    | function name => exact trivial
    | _ => exact ih

theorem rawCompute_settles (left : Float) (op : Operator) (right : Float) :
    Settles Failure.IsFlat (fun _ => True) (rawCompute left op right) := by
  have byZero : Failure.IsFlat .divisionByZero := trivial
  cases op with
  | power =>
    rw [rawCompute]
    split
    · exact byZero
    · unfold power
      dsimp only
      split_ifs
      · exact trivial
      · exact trivial
      · exact trivial
      · trivial
      · trivial
  | divide =>
    rw [rawCompute]
    split
    · exact byZero
    · trivial
  | times => trivial
  | _ =>
    exact trivial

theorem compute_settles (left : Float) (op : Operator) (right : Float) :
    Settles Failure.IsFlat (fun _ => True) (compute left op right) := by
  refine (rawCompute_settles left op right).bind fun value _ => ?_
  split
  · trivial
  · exact trivial

theorem operands_settles (before : List Token) (op : Operator) (after : List Token) :
    Settles Failure.IsFlat (fun _ => True) (operands before op after) := by
  unfold operands
  rcases leftOperand? before with _ | ⟨init, left⟩
  · exact trivial
  · dsimp only
    rcases rightOperand? after with _ | ⟨right, rest⟩
    · exact trivial
    · trivial

theorem foldAt_settles (flat : ∀ cause : Failure, cause.IsFlat → failing (.of cause))
    (parts : List Token × Token × List Token) : Settles failing (fun _ => True) (foldAt parts).result := by
  obtain ⟨before, token, after⟩ := parts
  cases token with
  | operator op =>
    exact Traced.settles_bind (settles_ofFlat flat (operands_settles before op after)) fun _ _ =>
      Traced.settles_bind (settles_ofFlat flat (compute_settles _ op _)) fun _ _ =>
        Traced.settles_bind settles_note fun _ _ => trivial
  | _ => trivial

theorem reducePrecedence_settles (flat : ∀ cause : Failure, cause.IsFlat → failing (.of cause)) (tokens : List Token) :
    Settles failing (fun _ => True) (reducePrecedence tokens).result := by
  have folds : ∀ {pick : List Token → Option (List Token × Token × List Token)} {tokens : List Token}
      {next : Traced (List Token)}, (pick tokens).map foldAt = some next →
      Settles failing (fun _ => True) next.result := by
    intro pick tokens next picked
    obtain ⟨parts, _, rfl⟩ := Option.map_eq_some_iff.1 picked
    exact foldAt_settles flat parts
  have powers : Settles failing (fun _ => True) (rounds powerRound (tokens.countP isPower) tokens).result :=
    Traced.settles_rounds trivial (fun _ _ _ taken => folds taken) _
  refine Traced.settles_bind powers fun swept _ => ?_
  have products : Settles failing (fun _ => True) (rounds productRound (swept.countP isProduct) swept).result :=
    Traced.settles_rounds trivial (fun _ _ _ taken => folds taken) _
  exact Traced.settles_bind products fun _ _ => trivial

/-- No step of a sum turns a total other than the negative zero into it. -/
theorem take_settles {sum : RunningSum} (total : sum.total ≠ -0.0) (token : Token) :
    Settles Failure.IsFlat (fun next => next.total ≠ -0.0) (sum.take token) := by
  have noValue : Failure.IsFlat (.noValueAt token.text) := trivial
  cases token with
  | number text value =>
    rw [RunningSum.take]
    split
    · intro negative
      dsimp only at negative
      split at negative
      · exact total (Double.eq_negZero_of_add negative).1
      · exact total (Double.eq_negZero_of_sub negative)
    · exact trivial
  | operator op =>
    rw [RunningSum.take]
    split
    · exact total
    · exact noValue
  | _ => exact noValue

theorem sumTerms_settles (tokens : List Token) :
    Settles Failure.IsFlat (fun value => value ≠ -0.0) (sumTerms tokens) := by
  unfold sumTerms
  split
  · exact trivial
  · have start : RunningSum.start.total ≠ -0.0 := by decide
    have run : Settles Failure.IsFlat (fun sum : RunningSum => sum.total ≠ -0.0)
        (tokens.foldlM RunningSum.take .start) :=
      Settles.foldlM start fun sum token _ total => take_settles total token
    refine run.bind fun sum total => ?_
    split
    · exact trivial
    · exact total

/-- A finite number other than the negative zero. -/
def Proper (value : Float) : Prop :=
  value.isFinite = true ∧ value ≠ -0.0

/-- Whatever the variables are bound to, a flat list has a proper value if it has any. -/
theorem proper_of_evaluateFlat {tokens : List Token} {value : Float}
    (result : (evaluateFlat room bindings functions tokens).result = .ok value) : Proper value := by
  obtain ⟨_, _, reduced, _, _, _, _, summed, isFinite⟩ := evaluateFlat_eq_ok.1 result
  exact ⟨isFinite, (sumTerms_settles reduced).of_ok summed⟩

/-- What stops the evaluation of a flat list, where it is known what stops the substitution of its variables and whether
its functions can be called. -/
theorem evaluateFlat_settles_of (flat : ∀ cause : Failure, cause.IsFlat → failing (.of cause)) {tokens : List Token}
    (replaced : Settles failing (fun others => ∀ name, .function name ∈ others → Callable failing functions name)
      (substitute room bindings tokens)) :
    Settles failing Proper (evaluateFlat room bindings functions tokens).result := by
  unfold evaluateFlat
  refine Traced.settles_bind replaced fun others callable => ?_
  refine Traced.settles_bind (settles_ofFlat flat (validate_settles _)) fun _ _ => ?_
  have called : Settles failing (fun _ => True) (applyFunctions functions others).result := by
    rw [applyFunctions_eq]
    exact Traced.settles_bind (sweepCalls_settles flat (List.forall_mem_nil _) callable) fun swept _ =>
      Traced.settles_bind (settles_ofFlat flat (checkArguments_settles swept)) fun _ _ => trivial
  refine Traced.settles_bind called fun swept _ => ?_
  refine Traced.settles_bind (reducePrecedence_settles flat swept) fun reduced _ => ?_
  refine Traced.settles_bind settles_note fun _ _ => ?_
  refine Traced.settles_bind (settles_ofFlat flat (sumTerms_settles reduced)) fun value nonzero => ?_
  split
  · rename_i isFinite
    exact ⟨isFinite, nonzero⟩
  · exact flat .sumTooLarge trivial

end Flat

/-- Whether all functions of a list are in the table. -/
def Listed (functions : FunctionTable) (tokens : List Token) : Prop :=
  ∀ name, .function name ∈ tokens → functions.contains name = true

theorem Listed.of_mem {tokens swept : List Token} (listed : Listed functions tokens)
    (mem : ∀ token ∈ swept, token ∈ tokens ∨ ∃ value, token = Token.ofValue value) : Listed functions swept := by
  intro name member
  rcases mem _ member with old | ⟨value, same⟩
  · exact listed name old
  · exact nomatch same

theorem settles_ofClosed {α : Type} {answer : α → Prop} {result : Except Failure α}
    (settles : Settles ClosedFailure answer result) : Settles ClosedStop answer (Traced.ofFailing result).result :=
  settles_ofFailing (settles.mono (fun cause closed => ⟨cause, rfl, closed⟩) fun _ holds => holds)

theorem evaluateFlat_settles {tokens : List Token} (finite : bindings.AllFinite) (listed : Listed functions tokens) :
    Settles ClosedStop Proper (evaluateFlat room bindings functions tokens).result := by
  have listedReplaced : Listed functions (tokens.map (replaceName bindings)) :=
    listed.of_mem fun token member => (@respelled_replaceName bindings functions tokens).mem member
  refine evaluateFlat_settles_of (fun cause flat => ⟨cause, rfl, closed_of_arises flat.arises⟩) ?_
  rw [substitute_eq finite]
  exact fun name member => Or.inl (listedReplaced name member)

theorem sweepGroups_settles {tokens : List Token} (finite : bindings.AllFinite) (listed : Listed functions tokens) :
    Settles ClosedStop (Listed functions) (sweepGroups bindings functions tokens).result := by
  induction tokens with
  | nil => exact fun _ member => nomatch member
  | cons token rest ih =>
    have swept := ih fun name member => listed name (List.mem_cons_of_mem _ member)
    refine Traced.settles_bind swept fun swept listedSwept => ?_
    split
    · unfold closeGroup
      rcases parts : breakFirst? Token.isClose swept with _ | ⟨inner, closing, after⟩
      · refine ⟨.unmatchedOpen, rfl, ?_⟩
        exact closed_of_arises trivial
      · obtain ⟨rfl, _, _⟩ := eq_of_breakFirst? parts
        have listedInner : Listed functions inner := fun name member => listedSwept name (List.mem_append_left _ member)
        refine Traced.settles_bind (evaluateFlat_settles finite listedInner) fun value _ =>
          Traced.settles_bind settles_note fun _ _ => ?_
        intro name member
        rcases List.mem_cons.1 member with same | later
        · exact nomatch same
        · exact listedSwept name (List.mem_append_right _ (List.mem_cons_of_mem _ later))
    · intro name member
      rcases List.mem_cons.1 member with same | later
      · exact listed name (same ▸ List.mem_cons_self)
      · exact listedSwept name later

theorem evaluateTokens_settles {tokens : List Token} (finite : bindings.AllFinite) (listed : Listed functions tokens) :
    Settles ClosedStop Proper (evaluateTokens bindings functions tokens).result := by
  unfold evaluateTokens
  rw [resolveGroups_eq, bind_assoc]
  refine Traced.settles_bind (sweepGroups_settles finite listed) fun swept listedSwept => ?_
  have checked : Settles ClosedFailure (fun _ => True) (checkClosed swept) := by
    unfold checkClosed
    split
    · exact closed_of_arises trivial
    · trivial
  rw [bind_assoc]
  refine Traced.settles_bind (settles_ofClosed checked) fun _ _ => ?_
  rw [pure_bind]
  exact evaluateFlat_settles finite listedSwept

theorem closed_of_scanFailure {cause : Failure} (failure : Token.ScanFailure cause) : ClosedFailure cause := by
  unfold ClosedFailure
  rcases failure with same | same | same <;> rw [same] <;> decide

theorem contains_of_mem_keys {name : String} (member : name ∈ functions.keys) : functions.contains name = true := by
  obtain ⟨entry, inEntries, rfl⟩ := List.mem_map.1 member
  rw [OrderedMap.contains, OrderedMap.get?, List.lookup_isSome_iff]
  exact ⟨entry, inEntries, beq_self_eq_true _⟩

theorem scan_settles (expression : String) :
    Settles ClosedFailure (Listed functions) (Token.scan bindings.contains functions.keys expression) := by
  refine (Token.scanFrom_settles _ 0 0 none).mono (fun _ => closed_of_scanFailure) fun tokens listed name member => ?_
  exact contains_of_mem_keys (listed name member)

end Evaluation

open Evaluation

/-- An expression has a value exactly if it is scanned and its tokens have that value. -/
theorem evaluate_eq_ok {bindings : Bindings} {functions : FunctionTable} {expression : String} {value : Float} :
    (evaluate expression bindings functions).result = .ok value ↔
      ∃ tokens, Token.scan bindings.contains functions.keys expression = .ok tokens ∧
        (evaluateTokens bindings functions tokens).result = .ok value := by
  rw [evaluate, Traced.result_mapStop, mapError_eq_ok, Traced.result_bind_eq_ok]
  simp only [Traced.result_ofFailing_eq_ok, Traced.result_bind_of_ok (Traced.result_note _)]

theorem proper_of_evaluate {bindings : Bindings} {functions : FunctionTable} {expression : String} {value : Float}
    (evaluated : (evaluate expression bindings functions).result = .ok value) : Proper value := by
  obtain ⟨tokens, _, result⟩ := evaluate_eq_ok.1 evaluated
  obtain ⟨swept, _, _, resultFlat⟩ := evaluateTokens_eq_ok.1 result
  exact proper_of_evaluateFlat resultFlat

theorem evaluate_settles {bindings : Bindings} (finite : bindings.AllFinite) (functions : FunctionTable)
    (expression : String) :
    Settles (fun stop => ∃ cause, stop = .failure cause (some expression) ∧ ClosedFailure cause) Proper
      (evaluate expression bindings functions).result := by
  have body : Settles ClosedStop Proper (do
      let tokens ← Traced.ofFailing (Token.scan bindings.contains functions.keys expression)
      Traced.note (.scanned tokens)
      evaluateTokens bindings functions tokens).result :=
    Traced.settles_bind (settles_ofClosed (scan_settles expression)) fun tokens listed =>
      Traced.settles_bind settles_note fun _ _ => evaluateTokens_settles finite listed
  refine body.mapError fun stop closed => ?_
  obtain ⟨cause, rfl, inList⟩ := closed
  exact ⟨cause, rfl, inList⟩

/-- An evaluation comes to a finite number other than the negative zero, or to one of the listed failures in the
expression as it was given. -/
theorem evaluate_closed {bindings : Bindings} (finite : bindings.AllFinite) (functions : FunctionTable)
    (expression : String) :
    (∃ value : Float, (evaluate expression bindings functions).result = .ok value ∧ value.isFinite = true ∧
      value ≠ -0.0) ∨
    ∃ cause, (evaluate expression bindings functions).result = .error (.failure cause (some expression)) ∧
      (cause.report.kind, cause.report.code) ∈ closedCategories := by
  have settles := evaluate_settles finite functions expression
  rcases result : (evaluate expression bindings functions).result with stop | value
  · obtain ⟨cause, rfl, inList⟩ := settles.of_error result
    exact Or.inr ⟨cause, rfl, inList⟩
  · obtain ⟨isFinite, nonzero⟩ := settles.of_ok result
    exact Or.inl ⟨value, rfl, isFinite, nonzero⟩

theorem evaluate_quotient_by_zero :
    ∃ cause, (evaluate "x/(x-x)" (.ofList [("x", .real 2.0)]) .empty).result =
        .error (.failure cause (some "x/(x-x)")) ∧
      (cause.report.kind, cause.report.code) ∈ closedCategories := by
  have finite : Bindings.AllFinite (.ofList [("x", .real 2.0)]) := .single "x" rfl
  have stops : (evaluate "x/(x-x)" (.ofList [("x", .real 2.0)]) .empty).result =
      .error (.failure .divisionByZero (some "x/(x-x)")) := by rfl
  refine (evaluate_closed finite .empty "x/(x-x)").resolve_left ?_
  rintro ⟨value, answer, _⟩
  exact nomatch stops.symm.trans answer

end Reckoner
