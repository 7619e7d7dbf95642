import Mathlib
import Reckoner.Evaluation.Calls

namespace Reckoner.Evaluation

variable {functions : FunctionTable}

/-- A function that waits for its argument, with the minus read behind it. -/
structure OpenCall where
  name : String
  sign : Option Operator
  minus : ∀ op ∈ sign, op.isAmong [.minus] = true

namespace OpenCall

def tokens (call : OpenCall) : List Token :=
  .function call.name :: (call.sign.map Token.operator).toList

/-- The number that the function is applied to, once the number behind it is known. -/
def argument (call : OpenCall) (value : Float) : Float :=
  if call.sign.isSome then -value else value

/-- The tokens of open calls, the innermost call first in the list and last in the tokens. -/
def flush : List OpenCall → List Token
  | [] => []
  | call :: outer => flush outer ++ call.tokens

end OpenCall

def callValue (functions : FunctionTable) (name : String) (argument : Float) : Traced Float := do
  let value ← Traced.ofFailing (functions.apply name argument)
  Traced.note (.call name argument value)
  return value

/-- Applies open calls to a number, the innermost first. Without any the number token stays as it is. -/
def closeCalls (functions : FunctionTable) : List OpenCall → String → Float → Traced Token
  | [], text, value => return .number text value
  | call :: outer, _, value => do
    let result ← callValue functions call.name (call.argument value)
    closeCalls functions outer (Double.text result) result

/-- Evaluates the calls of a list from its start, behind functions that wait for an argument. -/
def sweepCalls (functions : FunctionTable) : List OpenCall → List Token → Traced (List Token)
  | waiting, [] => return OpenCall.flush waiting
  | waiting, .number text value :: rest => do
    let token ← closeCalls functions waiting text value
    return token :: (← sweepCalls functions [] rest)
  | waiting, .function name :: rest => sweepCalls functions (⟨name, none, nofun⟩ :: waiting) rest
  | ⟨name, none, _⟩ :: outer, .operator op :: rest =>
    if minus : op.isAmong [.minus] = true then
      sweepCalls functions (⟨name, some op, fun _ same => Option.some.inj same ▸ minus⟩ :: outer) rest
    else return OpenCall.flush (⟨name, none, nofun⟩ :: outer) ++ .operator op :: (← sweepCalls functions [] rest)
  | waiting, token :: rest => return OpenCall.flush waiting ++ token :: (← sweepCalls functions [] rest)

/-- A call found behind more tokens. -/
def Call.behind (before : List Token) (call : Call) : Call :=
  { call with before := before ++ call.before }

theorem Call.behind_behind (first second : List Token) (call : Call) :
    (call.behind second).behind first = call.behind (first ++ second) := by
  simp only [Call.behind, List.append_assoc]

theorem firstCall?_of_none {token : Token} {rest : List Token} (noCall : callAtStart? (token :: rest) = none) :
    firstCall? (token :: rest) = (firstCall? rest).map (Call.behind [token]) := by
  simp only [firstCall?, noCall]
  rfl

theorem firstCall?_cons {token : Token} (rest : List Token) (noFunction : token.isFunction = false) :
    firstCall? (token :: rest) = (firstCall? rest).map (Call.behind [token]) := by
  refine firstCall?_of_none ?_
  cases token <;> first | rfl | exact nomatch noFunction

/-- An open call that is followed by another function is not complete. -/
theorem firstCall?_flush_append (waiting : List OpenCall) (name : String) (rest : List Token) :
    firstCall? (OpenCall.flush waiting ++ .function name :: rest) =
      (firstCall? (.function name :: rest)).map (Call.behind (OpenCall.flush waiting)) := by
  induction waiting generalizing name rest with
  | nil => exact Option.map_id'.symm
  | cons call outer ih =>
    obtain ⟨called, sign, minus⟩ := call
    rw [OpenCall.flush, List.append_assoc, OpenCall.tokens, List.cons_append, ih]
    cases sign with
    | none =>
      rw [firstCall?_of_none rfl]
      simp only [Option.map_none, Option.toList_none, List.nil_append, Option.map_map, Function.comp_def,
        Call.behind_behind]
    | some op =>
      simp only [Option.map_some, Option.toList_some, List.cons_append, List.nil_append]
      rw [firstCall?_of_none rfl, firstCall?_cons _ rfl]
      simp only [Option.map_map, Function.comp_def, Call.behind_behind, List.cons_append, List.nil_append]

theorem firstCall?_number (call : OpenCall) (outer : List OpenCall) (text : String) (value : Float)
    (rest : List Token) :
    firstCall? (OpenCall.flush (call :: outer) ++ .number text value :: rest) =
      some ⟨OpenCall.flush outer, call.name, call.argument value, rest⟩ := by
  obtain ⟨called, sign, minus⟩ := call
  rw [OpenCall.flush, List.append_assoc, OpenCall.tokens, List.cons_append, firstCall?_flush_append]
  cases sign with
  | none => simp [firstCall?, callAtStart?, Call.behind, OpenCall.argument]
  | some op => simp [firstCall?, callAtStart?, minus op rfl, Call.behind, OpenCall.argument]

/-- Whether a token leaves the innermost open call without an argument. -/
def Blocks : List OpenCall → Token → Prop
  | ⟨_, none, _⟩ :: _, .operator op => op.isAmong [.minus] = false
  | _, .number _ _ => False
  | _, .function _ => False
  | _, _ => True

theorem blocks_operator {name : String} {minus : ∀ op ∈ (none : Option Operator), op.isAmong [.minus] = true}
    {outer : List OpenCall} {op : Operator} (noMinus : ¬ op.isAmong [.minus] = true) :
    Blocks (⟨name, none, minus⟩ :: outer) (.operator op) :=
  eq_false_of_ne_true noMinus

theorem blocks_other {waiting : List OpenCall} {token : Token}
    (noNumber : ∀ text value, token = .number text value → False) (noFunction : ∀ name, token = .function name → False)
    (noMinus : ∀ name minus outer op, waiting = ⟨name, none, minus⟩ :: outer → token = .operator op → False) :
    Blocks waiting token ∧ token.isFunction = false := by
  constructor
  · unfold Blocks
    split
    · exact (noMinus _ _ _ _ rfl rfl).elim
    · exact noNumber _ _ rfl
    · exact noFunction _ rfl
    · trivial
  · cases token with
    | function name => exact (noFunction name rfl).elim
    | _ => rfl

/-- Tokens that no call can begin in, whatever follows them. -/
def Inert (before : List Token) : Prop :=
  ∀ tokens, firstCall? (before ++ tokens) = (firstCall? tokens).map (Call.behind before)

theorem firstCall?_blocked {waiting : List OpenCall} {token : Token} (blocked : Blocks waiting token)
    (rest : List Token) :
    firstCall? (OpenCall.flush waiting ++ token :: rest) =
      (firstCall? rest).map (Call.behind (OpenCall.flush waiting ++ [token])) := by
  have noFunction : token.isFunction = false := by
    cases token with
    | function name => rcases waiting with _ | ⟨⟨called, _ | op, minus⟩, outer⟩ <;> exact blocked.elim
    | _ => rfl
  rcases waiting with _ | ⟨⟨called, sign, minus⟩, outer⟩
  · rw [OpenCall.flush, List.nil_append, List.nil_append, firstCall?_cons rest noFunction]
  · rw [OpenCall.flush, List.append_assoc, OpenCall.tokens, List.cons_append, firstCall?_flush_append]
    cases sign with
    | none =>
      have noCall : callAtStart? (.function called :: token :: rest) = none := by
        cases token with
        | number text value => exact blocked.elim
        | operator op =>
          rw [callAtStart?.eq_def]
          split
          · rename_i same
            cases same
          · rename_i same
            cases same
            exact if_neg (by rw [show op.isAmong [.minus] = false from blocked]; exact Bool.noConfusion)
          · rfl
        | _ => rfl
      simp only [Option.map_none, Option.toList_none, List.nil_append]
      rw [firstCall?_of_none noCall, firstCall?_cons rest noFunction]
      simp only [Option.map_map, Function.comp_def, Call.behind_behind, List.append_assoc, List.cons_append,
        List.nil_append]
    | some op =>
      have noCall : callAtStart? (.function called :: .operator op :: token :: rest) = none := by
        cases token with
        | number text value => exact blocked.elim
        | _ => rfl
      simp only [Option.map_some, Option.toList_some, List.cons_append, List.nil_append]
      rw [firstCall?_of_none noCall, firstCall?_cons _ rfl, firstCall?_cons rest noFunction]
      simp only [Option.map_map, Function.comp_def, Call.behind_behind, List.append_assoc, List.cons_append,
        List.nil_append]

theorem inert_nil : Inert [] :=
  fun _ => Option.map_id'.symm

theorem Inert.append_blocked {before : List Token} {waiting : List OpenCall} {token : Token} (inert : Inert before)
    (blocked : Blocks waiting token) : Inert (before ++ (OpenCall.flush waiting ++ [token])) := by
  intro tokens
  rw [List.append_assoc, inert, List.append_assoc, List.singleton_append, firstCall?_blocked blocked]
  simp only [Option.map_map, Function.comp_def, Call.behind_behind]

theorem Inert.append_number {before : List Token} (inert : Inert before) (text : String) (value : Float) :
    Inert (before ++ [.number text value]) := by
  intro tokens
  rw [List.append_assoc, inert, List.singleton_append, firstCall?_cons _ rfl]
  simp only [Option.map_map, Function.comp_def, Call.behind_behind]

/-- The number that open calls wait for is taken by all of them in turn. -/
theorem rounds_closeCalls {before : List Token} (inert : Inert before) (waiting : List OpenCall) (text : String)
    (value : Float) (rest : List Token) (count : Nat) :
    rounds (callRound functions) (waiting.length + count)
        (before ++ (OpenCall.flush waiting ++ .number text value :: rest)) =
      closeCalls functions waiting text value >>= fun token =>
        rounds (callRound functions) count (before ++ token :: rest) := by
  induction waiting generalizing text value with
  | nil => simp [closeCalls, OpenCall.flush]
  | cons call outer ih =>
    have found : callRound functions (before ++ (OpenCall.flush (call :: outer) ++ .number text value :: rest)) =
        some (callValue functions call.name (call.argument value) >>= fun result =>
          return before ++ (OpenCall.flush outer ++ Token.ofValue result :: rest)) := by
      rw [callRound, inert, firstCall?_number]
      simp only [Option.map_some, Call.behind, callValue, bind_assoc, pure_bind, List.append_assoc]
    rw [List.length_cons, Nat.succ_add, rounds_succ_of_some found, closeCalls, bind_assoc, bind_assoc]
    refine Traced.bind_congr_of_ok fun result _ => ?_
    rw [pure_bind]
    exact ih (Double.text result) result

theorem exists_number_of_closeCalls {waiting : List OpenCall} {text : String} {value : Float} {token : Token}
    (closed : (closeCalls functions waiting text value).result = .ok token) :
    ∃ written result, token = .number written result := by
  induction waiting generalizing text value with
  | nil =>
    cases closed
    exact ⟨text, value, rfl⟩
  | cons call outer ih =>
    obtain ⟨result, _, rest⟩ := Traced.result_bind_eq_ok.1 closed
    exact ih rest

theorem rounds_callRound_blocked {before : List Token} {waiting : List OpenCall} {token : Token} {rest : List Token}
    (inert : Inert before) (blocked : Blocks waiting token) (noFunction : token.isFunction = false)
    (later : ∀ before, Inert before → ∀ count, rounds (callRound functions) (rest.countP Token.isFunction + count)
      (before ++ rest) = (before ++ ·) <$> sweepCalls functions [] rest) (count : Nat) :
    rounds (callRound functions) (waiting.length + (token :: rest).countP Token.isFunction + count)
        (before ++ (OpenCall.flush waiting ++ token :: rest)) =
      (before ++ ·) <$> (sweepCalls functions [] rest >>= fun swept =>
        return OpenCall.flush waiting ++ token :: swept) := by
  have step := later _ (inert.append_blocked blocked) (waiting.length + count)
  have counts : waiting.length + (token :: rest).countP Token.isFunction + count =
      rest.countP Token.isFunction + (waiting.length + count) := by
    rw [List.countP_cons_of_neg (by simp [noFunction])]
    omega
  have split : before ++ (OpenCall.flush waiting ++ token :: rest) =
      before ++ (OpenCall.flush waiting ++ [token]) ++ rest := by
    simp only [List.append_assoc, List.singleton_append]
  rw [counts, split, step]
  simp only [map_eq_pure_bind, bind_assoc, pure_bind, List.append_assoc, List.singleton_append]

theorem rounds_callRound_append (waiting : List OpenCall) (tokens before : List Token) (inert : Inert before)
    (count : Nat) :
    rounds (callRound functions) (waiting.length + tokens.countP Token.isFunction + count)
        (before ++ (OpenCall.flush waiting ++ tokens)) =
      (before ++ ·) <$> sweepCalls functions waiting tokens := by
  fun_induction sweepCalls functions waiting tokens generalizing before count with
  | case1 waiting =>
    have noCall : callRound functions (before ++ (OpenCall.flush waiting ++ [])) = none := by
      rw [callRound, inert]
      rcases waiting with _ | ⟨call, outer⟩
      · rfl
      · have stopped := firstCall?_flush_append outer call.name (call.sign.map Token.operator).toList
        rw [List.append_nil, OpenCall.flush, OpenCall.tokens, stopped]
        rcases call.sign with _ | op <;> rfl
    rw [rounds_of_none noCall, List.append_nil]
    rfl
  | case2 waiting text value rest ih =>
    have counts : waiting.length + (Token.number text value :: rest).countP Token.isFunction + count =
        waiting.length + (0 + rest.countP Token.isFunction + count) := by
      rw [List.countP_cons_of_neg (by simp [Token.isFunction])]
      omega
    rw [counts, rounds_closeCalls inert]
    simp only [map_eq_pure_bind, bind_assoc, pure_bind]
    refine Traced.bind_congr_of_ok fun token closed => ?_
    obtain ⟨written, result, rfl⟩ := exists_number_of_closeCalls closed
    have step := ih (before ++ [.number written result]) (inert.append_number written result) count
    simp only [OpenCall.flush, List.nil_append, List.length_nil, List.append_assoc, List.singleton_append] at step
    rw [step]
    simp only [map_eq_pure_bind]
  | case3 waiting name rest ih =>
    have step := ih before inert count
    have counts : waiting.length + (Token.function name :: rest).countP Token.isFunction + count =
        waiting.length + 1 + rest.countP Token.isFunction + count := by
      rw [List.countP_cons_of_pos (by simp [Token.isFunction])]
      omega
    rw [counts, ← step]
    simp [OpenCall.flush, OpenCall.tokens]
  | case4 name minus outer op rest isMinus ih =>
    have step := ih before inert count
    rw [← step, List.countP_cons_of_neg (by simp [Token.isFunction])]
    simp [OpenCall.flush, OpenCall.tokens]
  | case5 name minus outer op rest noMinus ih =>
    refine rounds_callRound_blocked inert (blocks_operator noMinus) rfl (fun before inert count => ?_) count
    simpa [OpenCall.flush] using ih before inert count
  | case6 waiting token rest noNumber noFunction noMinus ih =>
    obtain ⟨blocked, isOther⟩ := blocks_other noNumber noFunction noMinus
    refine rounds_callRound_blocked inert blocked isOther (fun before inert count => ?_) count
    simpa [OpenCall.flush] using ih before inert count

/-- Evaluating the leftmost call again and again is one sweep from the start. -/
theorem rounds_callRound (tokens : List Token) :
    rounds (callRound functions) (tokens.countP Token.isFunction) tokens = sweepCalls functions [] tokens := by
  have all := @rounds_callRound_append functions [] tokens [] inert_nil 0
  simpa [OpenCall.flush] using all

theorem applyFunctions_eq (tokens : List Token) :
    applyFunctions functions tokens = do
      let swept ← sweepCalls functions [] tokens
      Traced.ofFailing (checkArguments swept)
      return swept := by
  rw [applyFunctions, rounds_callRound]

theorem checkArguments_eq_ok {tokens : List Token} :
    checkArguments tokens = .ok () ↔ ∀ token ∈ tokens, token.isFunction = false := by
  induction tokens with
  | nil => simp [checkArguments]
  | cons token rest ih => cases token <;> simp [checkArguments, Token.isFunction, ih]

/-- The calls of a list have values exactly if their rounds come to a list without functions. -/
theorem applyFunctions_eq_ok {tokens called : List Token} :
    (applyFunctions functions tokens).result = .ok called ↔
      (rounds (callRound functions) (tokens.countP Token.isFunction) tokens).result = .ok called ∧
        ∀ token ∈ called, token.isFunction = false := by
  unfold applyFunctions
  simp only [Traced.result_bind_eq_ok, Traced.result_ofFailing_eq_ok]
  constructor
  · rintro ⟨left, isLeft, _, complete, same⟩
    cases same
    exact ⟨isLeft, checkArguments_eq_ok.1 complete⟩
  · rintro ⟨isCalled, complete⟩
    exact ⟨called, isCalled, (), checkArguments_eq_ok.2 complete, rfl⟩

end Reckoner.Evaluation
