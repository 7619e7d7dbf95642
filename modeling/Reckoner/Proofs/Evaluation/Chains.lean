import Mathlib
import Reckoner.Proofs.Evaluation.Calls

namespace Reckoner.Evaluation

variable {functions : FunctionTable}

/-- A row of functions, each perhaps with a minus behind it, and the number that the last of them is applied to. -/
structure Chain where
  calls : List OpenCall
  text : String
  argument : Float
  calls_ne_nil : calls ≠ []

/-- The value of a row of calls on a number, the outermost call first in the row. Each call takes the value of the calls
behind it, negated if there is a minus between them. -/
def nestedValue (functions : FunctionTable) : List OpenCall → Float → Traced Float
  | [], value => return value
  | call :: inner, value => do
    let argument ← nestedValue functions inner value
    callValue functions call.name (call.argument argument)

namespace Chain

def tokens (chain : Chain) : List Token :=
  chain.calls.flatMap OpenCall.tokens ++ [.number chain.text chain.argument]

def value (functions : FunctionTable) (chain : Chain) : Traced Float :=
  nestedValue functions chain.calls chain.argument

end Chain

/-- Whether tokens end in a function, or in a function and a minus, and so wait for an argument. -/
def EndsInCall (tokens : List Token) : Prop :=
  ∃ (before : List Token) (call : OpenCall), tokens = before ++ call.tokens

/-- A chain that stands between two parts of a list and is complete: no function waits for it. -/
structure Chain.IsComplete (chain : Chain) (tokens front back : List Token) : Prop where
  split : tokens = front ++ (chain.tokens ++ back)
  outermost : ¬ EndsInCall front

/-- A part of a list: a chain, or a token outside all chains. -/
inductive Piece where
  | chain (row : Chain)
  | other (token : Token)

theorem isMinus_of_mem_none : ∀ op ∈ (none : Option Operator), op.isAmong [.minus] = true := by
  rintro _ ⟨⟩

theorem isMinus_of_mem_some {sign : Operator} (minus : sign.isAmong [.minus] = true) :
    ∀ op ∈ some sign, op.isAmong [.minus] = true := by
  rintro _ ⟨⟩
  exact minus

namespace Piece

def tokens : Piece → List Token
  | chain row => row.tokens
  | other token => [token]

/-- The name of a function outside all chains. -/
def loneFunction? : Piece → Option String
  | other (.function name) => some name
  | _ => none

/-- The token that takes the place of a piece: the value of a chain, and every other token itself. -/
def settle (functions : FunctionTable) : Piece → Traced Token
  | chain row => do
    let value ← row.value functions
    return .ofValue value
  | other token => return token

/-- The piece that open calls, the innermost first, make up with the number behind them. -/
def closing : List OpenCall → String → Float → Piece
  | [], text, value => other (.number text value)
  | call :: outer, text, value =>
    chain ⟨(call :: outer).reverse, text, value, List.reverse_ne_nil_iff.2 (List.cons_ne_nil call outer)⟩

/-- Cuts a list into its pieces, behind functions that wait for an argument. -/
def cut : List OpenCall → List Token → List Piece
  | waiting, [] => (OpenCall.flush waiting).map other
  | waiting, .number text value :: rest => closing waiting text value :: cut [] rest
  | waiting, .function name :: rest => cut (⟨name, none, isMinus_of_mem_none⟩ :: waiting) rest
  | ⟨name, none, _⟩ :: outer, .operator op :: rest =>
    if minus : op.isAmong [.minus] = true then
      cut (⟨name, some op, isMinus_of_mem_some minus⟩ :: outer) rest
    else (OpenCall.flush (⟨name, none, isMinus_of_mem_none⟩ :: outer)).map other ++ other (.operator op) :: cut [] rest
  | waiting, token :: rest => (OpenCall.flush waiting).map other ++ other token :: cut [] rest

end Piece

/-- A list in pieces, with a piece for every complete chain of it and for no other. -/
structure Cuts (pieces : List Piece) (tokens : List Token) : Prop where
  whole : pieces.flatMap Piece.tokens = tokens
  chains : ∀ (chain : Chain) front back, chain.IsComplete tokens front back ↔
    ∃ before after, pieces = before ++ .chain chain :: after ∧ before.flatMap Piece.tokens = front ∧
      after.flatMap Piece.tokens = back

section Pieces

theorem flush_eq (waiting : List OpenCall) : OpenCall.flush waiting = waiting.reverse.flatMap OpenCall.tokens := by
  induction waiting with
  | nil => rfl
  | cons call outer ih => rw [OpenCall.flush, ih, List.reverse_cons, List.flatMap_append, List.flatMap_singleton]

theorem flatMap_map_other (tokens : List Token) : (tokens.map Piece.other).flatMap Piece.tokens = tokens := by
  rw [List.flatMap_map]
  exact List.flatMap_singleton' tokens

theorem tokens_closing (waiting : List OpenCall) (text : String) (value : Float) :
    (Piece.closing waiting text value).tokens = OpenCall.flush waiting ++ [.number text value] := by
  cases waiting with
  | nil => rfl
  | cons call outer =>
    rw [flush_eq]
    rfl

theorem flatMap_cut (waiting : List OpenCall) (tokens : List Token) :
    (Piece.cut waiting tokens).flatMap Piece.tokens = OpenCall.flush waiting ++ tokens := by
  have blocked {waiting : List OpenCall} {token : Token} {rest : List Token}
      (ih : (Piece.cut [] rest).flatMap Piece.tokens = rest) :
      ((OpenCall.flush waiting).map Piece.other ++ .other token :: Piece.cut [] rest).flatMap Piece.tokens =
        OpenCall.flush waiting ++ token :: rest := by
    rw [List.flatMap_append, flatMap_map_other, List.flatMap_cons, ih]
    rfl
  fun_induction Piece.cut waiting tokens with
  | case1 waiting => rw [flatMap_map_other, List.append_nil]
  | case2 waiting text value rest ih =>
    rw [List.flatMap_cons, tokens_closing, ih, List.append_assoc]
    rfl
  | case3 waiting name rest ih =>
    rw [ih, OpenCall.flush, List.append_assoc]
    rfl
  | case4 name minus outer op rest isMinus ih =>
    rw [ih, OpenCall.flush, OpenCall.flush, List.append_assoc, List.append_assoc]
    rfl
  | case5 name minus outer op rest noMinus ih => exact blocked ih
  | case6 waiting token rest _ _ _ ih => exact blocked ih

theorem endsInCall_flush {call : OpenCall} {outer : List OpenCall} : EndsInCall (OpenCall.flush (call :: outer)) :=
  ⟨OpenCall.flush outer, call, rfl⟩

theorem EndsInCall.prepend (front : List Token) {tokens : List Token} (ends : EndsInCall tokens) :
    EndsInCall (front ++ tokens) := by
  obtain ⟨before, call, rfl⟩ := ends
  exact ⟨front ++ before, call, (List.append_assoc ..).symm⟩

theorem not_endsInCall_nil : ¬ EndsInCall [] := by
  rintro ⟨before, call, empty⟩
  exact absurd empty.symm (List.append_ne_nil_of_right_ne_nil before (List.cons_ne_nil _ _))

/-- A token that is no function, and no minus behind one, ends every wait for an argument. What waits is a function and
at most one sign, so it lies behind the token, or the token is one of its two. -/
theorem EndsInCall.of_append_cons {front back : List Token} {token : Token} (ends : EndsInCall (front ++ token :: back))
    (noFunction : token.isFunction = false)
    (noMinus : ∀ before name, front = before ++ [.function name] → token.isOperatorIn [.minus] = false) :
    EndsInCall back := by
  obtain ⟨before, ⟨name, sign, minus⟩, split⟩ := ends
  rcases List.append_eq_append_iff.1 split with ⟨more, rfl, whole⟩ | ⟨more, rfl, whole⟩
  · cases more with
    | nil =>
      cases (List.cons.inj whole).1
      exact nomatch noFunction
    | cons first more =>
      obtain ⟨rfl, rfl⟩ := List.cons.inj whole
      exact ⟨more, ⟨name, sign, minus⟩, rfl⟩
  · cases more with
    | nil =>
      cases (List.cons.inj whole).1
      exact nomatch noFunction
    | cons first more =>
      obtain ⟨rfl, rest⟩ := List.cons.inj whole
      cases sign with
      | none => exact absurd rest.symm (List.append_ne_nil_of_right_ne_nil more (List.cons_ne_nil _ _))
      | some op =>
        rcases List.append_eq_singleton_iff.1 rest.symm with ⟨rfl, same⟩ | ⟨_, none⟩
        · cases same
          exact absurd (minus op rfl) (Bool.eq_false_iff.1 (noMinus before name rfl))
        · cases none

theorem EndsInCall.of_number {front back : List Token} {text : String} {value : Float}
    (ends : EndsInCall (front ++ .number text value :: back)) : EndsInCall back :=
  ends.of_append_cons rfl fun _ _ _ => rfl

/-- Open calls that a token leaves without an argument wait in vain. -/
theorem EndsInCall.of_blocked {waiting : List OpenCall} {token : Token} {back : List Token}
    (ends : EndsInCall (OpenCall.flush waiting ++ token :: back)) (blocked : Blocks waiting token)
    (noFunction : token.isFunction = false) : EndsInCall back := by
  refine ends.of_append_cons noFunction fun before name last => ?_
  cases token with
  | operator op =>
    rcases waiting with _ | ⟨⟨called, _ | sign, minus⟩, outer⟩
    · exact absurd last.symm (List.append_ne_nil_of_right_ne_nil before (List.cons_ne_nil _ _))
    · exact blocked
    · -- the last of the open calls ends in its sign, not in a function
      have ending : some (.operator sign) = some (Token.function name) := by
        simpa [OpenCall.flush, OpenCall.tokens] using congrArg List.getLast? last
      cases ending
  | _ => rfl

/-- A list is cut apart at every place where no function waits for an argument. -/
theorem cut_append {waiting : List OpenCall} {front : List Token} (back : List Token)
    (free : ¬ EndsInCall (OpenCall.flush waiting ++ front)) :
    Piece.cut waiting (front ++ back) = Piece.cut waiting front ++ Piece.cut [] back := by
  have behind {waiting : List OpenCall} {token : Token} {rest : List Token}
      (free : ¬ EndsInCall (OpenCall.flush waiting ++ token :: rest)) : ¬ EndsInCall (OpenCall.flush [] ++ rest) :=
    fun ends => free (List.append_cons .. ▸ ends.prepend _)
  fun_induction Piece.cut waiting front with
  | case1 waiting =>
    cases waiting with
    | nil => rfl
    | cons call outer => exact absurd endsInCall_flush (by rwa [List.append_nil] at free)
  | case2 waiting text value rest ih =>
    rw [List.cons_append, Piece.cut, ih (behind free)]
    rfl
  | case3 waiting name rest ih =>
    rw [List.cons_append, Piece.cut]
    refine ih fun ends => free ?_
    rwa [OpenCall.flush, List.append_assoc] at ends
  | case4 name minus outer op rest isMinus ih =>
    rw [List.cons_append, Piece.cut, dif_pos isMinus]
    refine ih fun ends => free ?_
    rw [OpenCall.flush, List.append_assoc] at ends ⊢
    exact ends
  | case5 name minus outer op rest noMinus ih =>
    rw [List.cons_append, Piece.cut, dif_neg noMinus, ih (behind free), List.append_assoc]
    rfl
  | case6 waiting token rest noNumber noFunction noMinus ih =>
    rw [List.cons_append, Piece.cut.eq_5 _ _ _ noNumber noFunction noMinus, ih (behind free), List.append_assoc]
    rfl

/-- Calls and the number behind them make up one piece with the calls that wait before them. -/
theorem cut_calls (waiting calls : List OpenCall) (text : String) (value : Float) (back : List Token) :
    Piece.cut waiting (calls.flatMap OpenCall.tokens ++ .number text value :: back) =
      Piece.closing (calls.reverse ++ waiting) text value :: Piece.cut [] back := by
  induction calls generalizing waiting with
  | nil =>
    rw [List.flatMap_nil, List.nil_append, Piece.cut]
    rfl
  | cons call inner ih =>
    obtain ⟨name, sign, minus⟩ := call
    have step := ih (⟨name, sign, minus⟩ :: waiting)
    rw [List.reverse_cons, List.append_assoc, List.singleton_append, ← step, List.flatMap_cons, List.append_assoc]
    cases sign with
    | none => exact Piece.cut.eq_3 ..
    | some op =>
      rw [OpenCall.tokens, List.cons_append, Piece.cut]
      exact dif_pos (minus op rfl)

theorem closing_reverse {calls : List OpenCall} (calls_ne_nil : calls ≠ []) (text : String) (value : Float) :
    Piece.closing calls.reverse text value = .chain ⟨calls, text, value, calls_ne_nil⟩ := by
  cases whole : calls.reverse with
  | nil => exact absurd (List.reverse_eq_nil_iff.1 whole) calls_ne_nil
  | cons call outer =>
    obtain rfl : (call :: outer).reverse = calls := by rw [← whole, List.reverse_reverse]
    rfl

theorem cut_chain (chain : Chain) (back : List Token) :
    Piece.cut [] (chain.tokens ++ back) = .chain chain :: Piece.cut [] back := by
  rw [Chain.tokens, List.append_assoc, List.singleton_append, cut_calls, List.append_nil,
    closing_reverse chain.calls_ne_nil]

/-- A chain in a list that starts with other tokens stands behind them. -/
theorem chain_behind {tokens : List Token} {pieces before after : List Piece} {chain : Chain}
    (split : tokens.map .other ++ pieces = before ++ .chain chain :: after) :
    ∃ later, before = tokens.map .other ++ later ∧ pieces = later ++ .chain chain :: after := by
  rcases List.append_eq_append_iff.1 split with ⟨later, whole, behind⟩ | ⟨more, whole, behind⟩
  · exact ⟨later, whole, behind⟩
  · cases more with
    | nil => exact ⟨[], by rw [whole, List.append_nil, List.append_nil], behind.symm⟩
    | cons first more =>
      obtain ⟨rfl, -⟩ := List.cons.inj behind
      have member : Piece.chain chain ∈ tokens.map .other := whole ▸ List.mem_append_right _ List.mem_cons_self
      obtain ⟨_, _, same⟩ := List.mem_map.1 member
      cases same

/-- A list is cut so that no function waits for the value of a chain. -/
theorem not_endsInCall_of_cut {waiting : List OpenCall} {tokens : List Token} {before after : List Piece}
    {chain : Chain}
    (split : Piece.cut waiting tokens = before ++ .chain chain :: after) :
    ¬ EndsInCall (before.flatMap Piece.tokens) := by
  have blocked {waiting : List OpenCall} {token : Token} {rest : List Token} {before : List Piece}
      (isBlocked : Blocks waiting token) (noFunction : token.isFunction = false)
      (split : (OpenCall.flush waiting).map Piece.other ++ .other token :: Piece.cut [] rest =
        before ++ .chain chain :: after)
      (ih : ∀ {later : List Piece}, Piece.cut [] rest = later ++ .chain chain :: after →
        ¬ EndsInCall (later.flatMap Piece.tokens)) : ¬ EndsInCall (before.flatMap Piece.tokens) := by
    have whole : (OpenCall.flush waiting ++ [token]).map Piece.other ++ Piece.cut [] rest =
        before ++ .chain chain :: after := by
      rw [← split, List.map_append, List.append_assoc]
      rfl
    obtain ⟨later, rfl, behind⟩ := chain_behind whole
    rw [List.flatMap_append, flatMap_map_other, List.append_assoc, List.singleton_append]
    exact fun ends => ih behind (ends.of_blocked isBlocked noFunction)
  fun_induction Piece.cut waiting tokens generalizing before with
  | case1 waiting =>
    have none := @chain_behind (OpenCall.flush waiting) [] before after chain (by rwa [List.append_nil])
    obtain ⟨later, -, empty⟩ := none
    exact absurd empty.symm (List.append_ne_nil_of_right_ne_nil later (List.cons_ne_nil _ _))
  | case2 waiting text value rest ih =>
    cases before with
    | nil => exact not_endsInCall_nil
    | cons first before =>
      obtain ⟨rfl, behind⟩ := List.cons.inj split
      rw [List.flatMap_cons, tokens_closing, List.append_assoc, List.singleton_append]
      exact fun ends => ih behind ends.of_number
  | case3 waiting name rest ih => exact ih split
  | case4 name minus outer op rest isMinus ih => exact ih split
  | case5 name minus outer op rest noMinus ih => exact blocked (blocks_operator noMinus) rfl split ih
  | case6 waiting token rest noNumber noFunction noMinus ih =>
    obtain ⟨isBlocked, isOther⟩ := blocks_other noNumber noFunction noMinus
    exact blocked isBlocked isOther split ih

/-- The pieces of a list are its complete chains and the tokens between them. -/
theorem cuts_cut (tokens : List Token) : Cuts (Piece.cut [] tokens) tokens where
  whole := flatMap_cut [] tokens
  chains chain front back := by
    constructor
    · rintro ⟨rfl, outermost⟩
      refine ⟨Piece.cut [] front, Piece.cut [] back, ?_, flatMap_cut [] front, flatMap_cut [] back⟩
      rw [@cut_append [] front _ outermost, cut_chain]
    · rintro ⟨before, after, split, rfl, rfl⟩
      have whole := flatMap_cut [] tokens
      rw [split, List.flatMap_append, List.flatMap_cons] at whole
      exact ⟨whole.symm, not_endsInCall_of_cut split⟩

end Pieces

section Values

theorem nestedValue_append (outer inner : List OpenCall) (value : Float) :
    nestedValue functions (outer ++ inner) value =
      nestedValue functions inner value >>= nestedValue functions outer := by
  induction outer with
  | nil => exact (bind_pure _).symm
  | cons call outer ih =>
    rw [List.cons_append, nestedValue, ih, bind_assoc]
    rfl

theorem closeCalls_eq (waiting : List OpenCall) (value : Float) :
    closeCalls functions waiting (Double.text value) value =
      Token.ofValue <$> nestedValue functions waiting.reverse value := by
  induction waiting generalizing value with
  | nil => rfl
  | cons call outer ih =>
    have one : nestedValue functions [call] value = callValue functions call.name (call.argument value) := by
      rw [nestedValue, nestedValue, pure_bind]
    rw [List.reverse_cons, nestedValue_append, one, closeCalls]
    simp only [ih, map_eq_pure_bind, bind_assoc]

theorem settle_closing (waiting : List OpenCall) (text : String) (value : Float) :
    (Piece.closing waiting text value).settle functions = closeCalls functions waiting text value := by
  cases waiting with
  | nil => rfl
  | cons call outer =>
    change _ = closeCalls functions (call :: outer) (Double.text value) value
    rw [closeCalls_eq]
    rfl

theorem mapM_settle_other (tokens : List Token) :
    (tokens.map Piece.other).mapM (Piece.settle functions) = pure tokens := by
  induction tokens with
  | nil => rfl
  | cons token rest ih =>
    rw [List.map_cons, List.mapM_cons, ih, Piece.settle, pure_bind, pure_bind]

/-- The sweep over calls settles the pieces of a list one after the other. -/
theorem sweepCalls_eq (waiting : List OpenCall) (tokens : List Token) :
    sweepCalls functions waiting tokens = (Piece.cut waiting tokens).mapM (Piece.settle functions) := by
  have blocked {waiting : List OpenCall} {token : Token} {rest : List Token}
      (ih : sweepCalls functions [] rest = (Piece.cut [] rest).mapM (Piece.settle functions)) :
      (do return OpenCall.flush waiting ++ token :: (← sweepCalls functions [] rest)) =
        ((OpenCall.flush waiting).map Piece.other ++ .other token :: Piece.cut [] rest).mapM
          (Piece.settle functions) := by
    rw [List.mapM_append, mapM_settle_other, List.mapM_cons, ← ih, Piece.settle]
    simp only [pure_bind, bind_assoc]
  fun_induction sweepCalls functions waiting tokens with
  | case1 waiting => rw [Piece.cut, mapM_settle_other]
  | case2 waiting text value rest ih => rw [Piece.cut, List.mapM_cons, settle_closing, ih]
  | case3 waiting name rest ih => rw [ih, Piece.cut]
  | case4 name minus outer op rest isMinus ih => rw [ih, Piece.cut, dif_pos isMinus]
  | case5 name minus outer op rest noMinus ih =>
    rw [Piece.cut, dif_neg noMinus]
    exact blocked ih
  | case6 waiting token rest noNumber noFunction noMinus ih =>
    rw [Piece.cut.eq_5 _ _ _ noNumber noFunction noMinus]
    exact blocked ih

/-- The functions that are left when the chains have their values are those outside all chains. -/
theorem checkArguments_of_settled {pieces : List Piece} {settled : List Token}
    (settles : (pieces.mapM (Piece.settle functions)).result = .ok settled) :
    checkArguments settled =
      match pieces.findSome? Piece.loneFunction? with
      | some name => .error (.missingArgument name)
      | none => .ok () := by
  induction pieces generalizing settled with
  | nil =>
    cases settles
    rfl
  | cons piece rest ih =>
    rw [List.mapM_cons] at settles
    obtain ⟨token, isToken, settles⟩ := Traced.result_bind_eq_ok.1 settles
    obtain ⟨others, isOthers, same⟩ := Traced.result_bind_eq_ok.1 settles
    cases same
    have behind := ih isOthers
    cases piece with
    | chain row =>
      obtain ⟨value, -, same⟩ := Traced.result_bind_eq_ok.1 isToken
      cases same
      exact behind
    | other token =>
      cases isToken
      cases token with
      | function name => rfl
      | _ => exact behind

end Values

/-- Applying the functions of a list gives its complete chains their values, from left to right and each from the
inside out, and leaves all other tokens where they are. The first call that fails stops it. If none does, a function
outside the chains has no argument, and the first such function is the one that is complained about. -/
theorem applyFunctions_chains (functions : FunctionTable) (tokens : List Token) :
    ∃ pieces, Cuts pieces tokens ∧ applyFunctions functions tokens = do
      let settled ← pieces.mapM (Piece.settle functions)
      match pieces.findSome? Piece.loneFunction? with
      | some name => Traced.fail (.missingArgument name)
      | none => return settled := by
  refine ⟨Piece.cut [] tokens, cuts_cut tokens, ?_⟩
  rw [applyFunctions_eq, sweepCalls_eq]
  refine Traced.bind_congr_of_ok fun settled settles => ?_
  rw [checkArguments_of_settled settles]
  cases (Piece.cut [] tokens).findSome? Piece.loneFunction? with
  | some name => rfl
  | none => rfl

end Reckoner.Evaluation
