import Mathlib
import Reckoner.Proofs.Evaluation.Dependence
import Reckoner.Proofs.Evaluation.Groups
import Reckoner.Proofs.Evaluation.Log
import Reckoner.Proofs.Evaluation.Matching
import Reckoner.Proofs.Evaluation.TwoSweeps
import Reckoner.Proofs.Rounds
import Reckoner.Proofs.Token.Progress

namespace Reckoner

namespace Evaluation

variable {bindings : Bindings} {functions : FunctionTable} {operators : List Operator} {kind : Token → Bool}
  {room : Nat}
  {tokens taken next : List Token}

/-- Tokens that can come from a text. -/
def AllKnown (tokens : List Token) : Prop :=
  ∀ token ∈ tokens, token.IsKnown

section Counting

theorem filter_of_none (none : ∀ token ∈ tokens, kind token = false) : tokens.filter kind = [] :=
  List.filter_eq_nil_iff.2 fun token member => ne_true_of_eq_false (none token member)

theorem none_of_countP (empty : tokens.countP kind = 0) : ∀ token ∈ tokens, kind token = false :=
  fun token member => eq_false_of_ne_true (List.countP_eq_zero.1 empty token member)

/-- One of the tokens of a kind is gone, and there are no others of it than before. -/
def OneLess (kind : Token → Bool) (tokens next : List Token) : Prop :=
  ∃ front token back, tokens.filter kind = front ++ token :: back ∧ next.filter kind = front ++ back

theorem OneLess.countP_lt (less : OneLess kind tokens next) : next.countP kind < tokens.countP kind := by
  obtain ⟨front, token, back, before, after⟩ := less
  rw [List.countP_eq_length_filter, List.countP_eq_length_filter, before, after, List.length_append, List.length_append,
    List.length_cons]
  omega

/-- A value takes the place of a stretch of a list. -/
inductive Replaces : (tokens taken next : List Token) → Prop
  | intro (front taken back : List Token) (value : Float) :
      Replaces (front ++ (taken ++ back)) taken (front ++ Token.ofValue value :: back)

/-- A kind of tokens that are neither numbers nor signs. -/
structure NoOperand (kind : Token → Bool) : Prop where
  number : ∀ text value, kind (.number text value) = false
  plus : kind (.operator .plus) = false
  minus : kind (.operator .minus) = false

theorem NoOperand.sign (apart : NoOperand kind) {token : Token} (known : token.IsKnown) (sign : token.isSign = true) :
    kind token = false := by
  obtain ⟨op, rfl⟩ := exists_operator_of_isOperatorIn sign
  cases op with
  | plus => exact apart.plus
  | minus => exact apart.minus
  | unknown symbol other => simp [Token.IsKnown, Operator.all] at known
  | _ => exact Bool.noConfusion sign

theorem Replaces.oneLess (replaces : Replaces tokens taken next)
    (number : ∀ text value, kind (.number text value) = false)
    {token : Token} (single : taken.filter kind = [token]) : OneLess kind tokens next := by
  obtain ⟨front, taken, back, value⟩ := replaces
  refine ⟨front.filter kind, token, back.filter kind, ?_, ?_⟩
  · rw [List.filter_append, List.filter_append, single, List.singleton_append]
  · rw [List.filter_append, Token.ofValue, List.filter_cons_of_neg (ne_true_of_eq_false (number _ value))]

theorem Replaces.filter_eq (replaces : Replaces tokens taken next)
    (number : ∀ text value, kind (.number text value) = false) (none : taken.filter kind = []) :
    next.filter kind = tokens.filter kind := by
  obtain ⟨front, taken, back, value⟩ := replaces
  rw [List.filter_append, List.filter_append, List.filter_append, none, List.nil_append, Token.ofValue,
    List.filter_cons_of_neg (ne_true_of_eq_false (number _ value))]

theorem Replaces.forall_mem {property : Token → Prop} (replaces : Replaces tokens taken next)
    (number : ∀ text value, property (.number text value))
    (all : ∀ token ∈ tokens, property token) : ∀ token ∈ next, property token := by
  obtain ⟨front, taken, back, value⟩ := replaces
  obtain ⟨inFront, behind⟩ := List.forall_mem_append.1 all
  exact List.forall_mem_append.2 ⟨inFront, List.forall_mem_cons.2 ⟨number _ value, (List.forall_mem_append.1 behind).2⟩⟩

theorem Replaces.isKnown (replaces : Replaces tokens taken next) (known : AllKnown tokens) : AllKnown next :=
  replaces.forall_mem (fun _ _ => trivial) known

theorem Replaces.isKnown_taken (replaces : Replaces tokens taken next) (known : AllKnown tokens) : AllKnown taken := by
  obtain ⟨front, taken, back, value⟩ := replaces
  exact fun token member => known token (List.mem_append_right _ (List.mem_append_left _ member))

end Counting

section Groups

/-- A round of the groups takes away one left and one right parenthesis. -/
def ClosesGroup (tokens next : List Token) : Prop :=
  OneLess Token.isOpen tokens next ∧ OneLess Token.isClose tokens next

theorem replaces_of_groupRound (leads : Leads (groupRound bindings functions) tokens next) :
    ∃ opening inner closing, Replaces tokens (opening :: (inner ++ [closing])) next ∧
      opening.isOpen = true ∧ closing.isClose = true ∧ (∀ token ∈ inner ++ [closing], token.isOpen = false) ∧
      ∀ token ∈ opening :: inner, token.isClose = false := by
  obtain ⟨taken, round, result⟩ := leads
  obtain ⟨⟨before, opening, rest⟩, opens, rfl⟩ := Option.map_eq_some_iff.1 round
  obtain ⟨rfl, isOpen, noOpen⟩ := eq_of_breakLast? opens
  dsimp only at result
  rcases closes : breakFirst? Token.isClose rest with _ | ⟨inner, closing, after⟩
  · rw [closes] at result
    exact nomatch result
  · rw [closes] at result
    obtain ⟨rfl, isClose, noClose⟩ := eq_of_breakFirst? closes
    obtain ⟨value, _, rfl⟩ := Traced.result_bind_note_eq_ok.1 result
    have replaces := Replaces.intro before (opening :: (inner ++ [closing])) after value
    rw [List.cons_append, List.append_assoc, List.singleton_append] at replaces
    refine ⟨opening, inner, closing, replaces, isOpen, isClose, fun token member => noOpen token ?_,
      List.forall_mem_cons.2 ⟨Matching.isClose_of_isOpen isOpen, noClose⟩⟩
    rw [← List.singleton_append, ← List.append_assoc]
    exact List.mem_append_left after member

theorem closesGroup_of_groupRound (leads : Leads (groupRound bindings functions) tokens next) :
    ClosesGroup tokens next := by
  obtain ⟨opening, inner, closing, replaces, isOpen, isClose, noOpen, noClose⟩ := replaces_of_groupRound leads
  have oneOpen : (opening :: (inner ++ [closing])).filter Token.isOpen = [opening] := by
    rw [List.filter_cons_of_pos isOpen, filter_of_none noOpen]
  have oneClose : (opening :: (inner ++ [closing])).filter Token.isClose = [closing] := by
    rw [← List.cons_append, List.filter_append, filter_of_none noClose, List.nil_append,
      List.filter_cons_of_pos isClose, List.filter_nil]
  exact ⟨replaces.oneLess (fun _ _ => rfl) oneOpen, replaces.oneLess (fun _ _ => rfl) oneClose⟩

theorem groupRound_eq_none : groupRound bindings functions tokens = none ↔ ∀ token ∈ tokens, token.isOpen = false := by
  rw [groupRound, Option.map_eq_none_iff, breakLast?_eq_none_iff]

theorem ends_groups (tokens : List Token) : Ends (groupRound bindings functions) ClosesGroup tokens
    (rounds (groupRound bindings functions) (tokens.countP Token.isOpen) tokens).result := by
  refine ends_rounds (fun (_ : True) leads => ⟨closesGroup_of_groupRound leads, trivial⟩)
    (fun step => step.1.countP_lt) (fun _ empty => ?_) trivial le_rfl
  exact groupRound_eq_none.2 (none_of_countP empty)

/-- Groups are resolved round by round, until no parenthesis is left. -/
theorem leads_of_resolveGroups {resolved : List Token}
    (resolves : (resolveGroups bindings functions tokens).result = .ok resolved) :
    Relation.ReflTransGen (Leads (groupRound bindings functions)) tokens resolved ∧
      ∀ token ∈ resolved, token.isOpen = false ∧ token.isClose = false := by
  obtain ⟨state, turned, checked⟩ := Traced.result_bind_eq_ok.1 resolves
  obtain ⟨_, closed, same⟩ := Traced.result_bind_eq_ok.1 checked
  cases same
  obtain ⟨leads, done⟩ := Ends.leads (turned ▸ ends_groups tokens)
  have noOpen := groupRound_eq_none.1 done
  have noClose := checkClosed_eq_ok.1 (Traced.result_ofFailing_eq_ok.1 closed)
  exact ⟨leads, fun token member => ⟨noOpen token member, noClose token member⟩⟩

/-- The lists that are evaluated for a list: what stands in its groups, once those that open behind them have values,
and what is left when all groups have values. -/
inductive Evaluated (bindings : Bindings) (functions : FunctionTable) (tokens : List Token) : List Token → Prop
  | group {state before rest inner after : List Token} {opening closing : Token} :
      Relation.ReflTransGen (Leads (groupRound bindings functions)) tokens state →
      breakLast? Token.isOpen state = some (before, opening, rest) →
      breakFirst? Token.isClose rest = some (inner, closing, after) → Evaluated bindings functions tokens inner
  | whole {resolved : List Token} : (resolveGroups bindings functions tokens).result = .ok resolved →
      Evaluated bindings functions tokens resolved

/-- No evaluation meets a parenthesis. -/
theorem Evaluated.flat {flat : List Token} (evaluated : Evaluated bindings functions tokens flat) :
    ∀ token ∈ flat, token.isOpen = false ∧ token.isClose = false := by
  cases evaluated with
  | group _ opens closes =>
    obtain ⟨_, _, noOpen⟩ := eq_of_breakLast? opens
    obtain ⟨rfl, _, noClose⟩ := eq_of_breakFirst? closes
    exact fun token member => ⟨noOpen token (List.mem_append_left _ member), noClose token member⟩
  | whole resolves => exact (leads_of_resolveGroups resolves).2

theorem isKnown_of_groupRound (known : AllKnown tokens) (leads : Leads (groupRound bindings functions) tokens next) :
    AllKnown next := by
  obtain ⟨_, _, _, replaces, _⟩ := replaces_of_groupRound leads
  exact replaces.isKnown known

theorem Evaluated.isKnown {flat : List Token} (evaluated : Evaluated bindings functions tokens flat)
    (known : AllKnown tokens) : AllKnown flat := by
  cases evaluated with
  | group leads opens closes =>
    have later := holds_of_leads isKnown_of_groupRound leads known
    obtain ⟨rfl, _, _⟩ := eq_of_breakLast? opens
    obtain ⟨rfl, _, _⟩ := eq_of_breakFirst? closes
    exact fun token member => later token
      (List.mem_append_right _ (List.mem_cons_of_mem _ (List.mem_append_left _ member)))
  | whole resolves => exact holds_of_leads isKnown_of_groupRound (leads_of_resolveGroups resolves).1 known

end Groups

section Nesting

/-- Replaces the group that opens last by the value that an evaluation gives it. -/
def groupRoundBy (inner : List Token → Traced Float) (tokens : List Token) : Option (Traced (List Token)) :=
  (breakLast? Token.isOpen tokens).map fun (before, opening, rest) =>
    match breakFirst? Token.isClose rest with
    | none => Traced.fail .unmatchedOpen
    | some (group, closing, after) => do
      let value ← inner group
      Traced.note (.group (opening :: (group ++ [closing])) value)
      return before ++ Token.ofValue value :: after

/-- The value of a token list whose groups have the values that an evaluation gives them. -/
def evaluateBy (room : Nat) (bindings : Bindings) (functions : FunctionTable) (inner : List Token → Traced Float)
    (tokens : List Token) : Traced Float := do
  let tokens ← rounds (groupRoundBy inner) (tokens.countP Token.isOpen) tokens
  Traced.ofFailing (checkClosed tokens)
  evaluateFlat room bindings functions tokens

/-- Without parentheses there is nothing for the evaluation of groups to do. -/
theorem evaluateBy_flat (inner : List Token → Traced Float)
    (flat : ∀ token ∈ tokens, token.isOpen = false ∧ token.isClose = false) :
    evaluateBy room bindings functions inner tokens = evaluateFlat room bindings functions tokens := by
  have noGroup : groupRoundBy inner tokens = none := by
    rw [groupRoundBy, breakLast?_eq_none_iff.2 fun token member => (flat token member).1]
    rfl
  have closed : checkClosed tokens = .ok () := checkClosed_eq_ok.2 fun token member => (flat token member).2
  rw [evaluateBy, rounds_of_none noGroup, pure_bind, closed]
  exact pure_bind () _

theorem groupRoundBy_evaluateBy (deeper : List Token → Traced Float) (tokens : List Token) :
    groupRoundBy (evaluateBy groupRoom bindings functions deeper) tokens = groupRound bindings functions tokens := by
  unfold groupRoundBy groupRound
  rcases opens : breakLast? Token.isOpen tokens with _ | ⟨before, opening, rest⟩
  · rfl
  · rw [Option.map_some, Option.map_some]
    dsimp only
    rcases closes : breakFirst? Token.isClose rest with _ | ⟨inner, closing, after⟩
    · rfl
    · dsimp only
      rw [evaluateBy_flat deeper (@Evaluated.group bindings functions _ _ _ _ _ _ _ _ .refl opens closes).flat]

/-- Evaluating groups the way lists with groups are evaluated comes to the same, whatever is done about the groups in
them. -/
theorem evaluateBy_evaluateBy (deeper : List Token → Traced Float) (tokens : List Token) :
    evaluateBy wholeRoom bindings functions (evaluateBy groupRoom bindings functions deeper) tokens =
      evaluateTokens bindings functions tokens := by
  rw [evaluateBy, funext (groupRoundBy_evaluateBy deeper), evaluateTokens, resolveGroups]
  simp only [bind_assoc, pure_bind]

end Nesting

section Calls

theorem exists_append_of_callAtStart? {call : Call} (found : callAtStart? tokens = some call) :
    call.before = [] ∧ ∃ argument, tokens = .function call.name :: argument ++ call.after ∧
      ∀ token ∈ argument, token.isFunction = false := by
  unfold callAtStart? at found
  split at found
  · rename_i name text value rest
    cases found
    exact ⟨rfl, [.number text value], rfl, List.forall_mem_singleton.2 rfl⟩
  · rename_i name op text value rest
    split at found
    · cases found
      exact ⟨rfl, [.operator op, .number text value], rfl,
        List.forall_mem_cons.2 ⟨rfl, List.forall_mem_singleton.2 rfl⟩⟩
    · exact nomatch found
  · exact nomatch found

theorem exists_append_of_firstCall? {call : Call} (found : firstCall? tokens = some call) :
    ∃ argument, tokens = call.before ++ (.function call.name :: argument ++ call.after) ∧
      ∀ token ∈ argument, token.isFunction = false := by
  induction tokens generalizing call with
  | nil => exact nomatch found
  | cons token rest ih =>
    rw [firstCall?] at found
    split at found
    · rename_i first atStart
      cases found
      obtain ⟨start, argument, whole, noFunction⟩ := exists_append_of_callAtStart? atStart
      exact ⟨argument, by rw [start, whole, List.nil_append], noFunction⟩
    · obtain ⟨later, isLater, rfl⟩ := Option.map_eq_some_iff.1 found
      obtain ⟨argument, rfl, noFunction⟩ := ih isLater
      exact ⟨argument, rfl, noFunction⟩

theorem replaces_of_callRound (leads : Leads (callRound functions) tokens next) :
    ∃ name argument, Replaces tokens (.function name :: argument) next ∧
      ∀ token ∈ argument, token.isFunction = false := by
  obtain ⟨taken, round, result⟩ := leads
  obtain ⟨call, found, rfl⟩ := Option.map_eq_some_iff.1 round
  obtain ⟨value, _, rfl⟩ := Traced.result_bind_note_eq_ok.1 result
  obtain ⟨argument, rfl, noFunction⟩ := exists_append_of_firstCall? found
  exact ⟨call.name, argument, .intro call.before _ call.after value, noFunction⟩

theorem callRound_eq_none (noFunction : ∀ token ∈ tokens, token.isFunction = false) :
    callRound functions tokens = none := by
  rw [callRound, Option.map_eq_none_iff, Option.eq_none_iff_forall_ne_some]
  intro call found
  obtain ⟨argument, rfl, _⟩ := exists_append_of_firstCall? found
  exact absurd (noFunction (.function call.name) (by simp)) (by simp [Token.isFunction])

theorem oneLess_of_callRound (leads : Leads (callRound functions) tokens next) :
    OneLess Token.isFunction tokens next := by
  obtain ⟨name, argument, replaces, noFunction⟩ := replaces_of_callRound leads
  have single : (Token.function name :: argument).filter Token.isFunction = [.function name] := by
    rw [List.filter_cons_of_pos rfl, filter_of_none noFunction]
  exact replaces.oneLess (fun _ _ => rfl) single

theorem ends_calls (tokens : List Token) : Ends (callRound functions) (OneLess Token.isFunction) tokens
    (rounds (callRound functions) (tokens.countP Token.isFunction) tokens).result := by
  refine ends_rounds (fun (_ : True) leads => ⟨oneLess_of_callRound leads, trivial⟩) (fun step => step.countP_lt)
    (fun _ empty => ?_) trivial le_rfl
  exact callRound_eq_none (none_of_countP empty)

/-- What holds of a list at the start of its calls, and is kept where a value takes the place of a stretch, holds when
they are done. -/
theorem holds_of_applyFunctions {holds : List Token → Prop}
    (keeps : ∀ {tokens taken next}, holds tokens → Replaces tokens taken next → holds next) (start : holds tokens)
    (applied : (applyFunctions functions tokens).result = .ok next) : holds next := by
  have turned := (applyFunctions_eq_ok.1 applied).1
  refine holds_of_leads (fun {state following} kept leads => ?_) (Ends.leads (turned ▸ ends_calls tokens)).1 start
  obtain ⟨_, _, replaces, _⟩ := replaces_of_callRound leads
  exact keeps kept replaces

theorem isKnown_of_applyFunctions (known : AllKnown tokens)
    (applied : (applyFunctions functions tokens).result = .ok next) : AllKnown next :=
  holds_of_applyFunctions (fun known replaces => replaces.isKnown known) known applied

end Calls

section Folds

variable {others : List Operator} {pick : List Token → Option (List Token × Token × List Token)}

theorem isKnown_foldSignsAfter (known : AllKnown tokens) : AllKnown (foldSignsAfter operators tokens) := by
  intro token member
  rcases mem_foldSignsAfterFrom member with old | rfl
  · exact known token old
  · decide

/-- Folding signs is nothing to other tokens. -/
theorem filter_foldSignsAfterFrom (apart : NoOperand kind) (pending : Option Bool) (known : AllKnown tokens) :
    (foldSignsAfterFrom operators pending tokens).filter kind = tokens.filter kind := by
  have none : ∀ negative, (operandSign negative).filter kind = [] := by
    intro negative
    cases negative with
    | false => rfl
    | true => exact List.filter_cons_of_neg (ne_true_of_eq_false apart.minus)
  induction tokens generalizing pending with
  | nil =>
    rcases pending with _ | negative
    · rfl
    · exact none negative
  | cons token rest ih =>
    obtain ⟨first, later⟩ := List.forall_mem_cons.1 known
    rcases pending with _ | negative
    · rw [foldSignsAfterFrom, List.filter_cons, List.filter_cons, ih _ later]
    · rw [foldSignsAfterFrom]
      split
      · rename_i sign
        rw [ih _ later, List.filter_cons_of_neg (ne_true_of_eq_false (apart.sign first sign))]
      · rw [List.filter_append, none, List.nil_append, List.filter_cons, List.filter_cons, ih _ later]

/-- An operator with its operands: a number on either side, the right one behind signs. -/
inductive Operation (op : Operator) : List Token → Prop
  | intro (leftText rightText : String) (left right : Float) (signs : List Token) :
      (∀ token ∈ signs, token.isSign = true) →
      Operation op (.number leftText left :: .operator op :: (signs ++ [.number rightText right]))

theorem Operation.filter_eq {op : Operator} (operation : Operation op taken) (apart : NoOperand kind)
    (known : AllKnown taken) : taken.filter kind = [.operator op].filter kind := by
  obtain ⟨leftText, rightText, left, right, signs, areSigns⟩ := operation
  have noSigns : signs.filter kind = [] := filter_of_none fun token member =>
    apart.sign (known token (by simp [member])) (areSigns token member)
  rw [List.filter_cons_of_neg (ne_true_of_eq_false (apart.number _ _)), ← List.singleton_append, List.filter_append,
    List.filter_append, noSigns, List.filter_cons_of_neg (ne_true_of_eq_false (apart.number _ _))]
  exact List.append_nil _

theorem Operation.isKnown {op : Operator} (operation : Operation op taken) (known : AllKnown taken) :
    op ∈ Operator.all := by
  obtain ⟨leftText, rightText, left, right, signs, areSigns⟩ := operation
  exact known (.operator op) (List.mem_cons_of_mem _ List.mem_cons_self)

theorem replaces_of_foldBinary {before after : List Token} {op : Operator}
    (result : (foldBinary before op after).result = .ok next) :
    ∃ taken, Operation op taken ∧ Replaces (before ++ .operator op :: after) taken next := by
  obtain ⟨found, operands, computes⟩ := Traced.result_bind_eq_ok.1 result
  obtain ⟨value, _, rfl⟩ := Traced.result_bind_note_eq_ok.1 computes
  unfold Evaluation.operands at operands
  rcases atLeft : leftOperand? before with _ | ⟨init, left⟩
  · rw [atLeft] at operands
    exact nomatch operands
  · rcases atRight : rightOperand? after with _ | ⟨right, rest⟩
    · rw [atLeft, atRight] at operands
      exact nomatch operands
    · rw [atLeft, atRight] at operands
      cases operands
      obtain ⟨leftText, rfl⟩ := eq_append_of_leftOperand? atLeft
      obtain ⟨signs, rightText, operand, rfl, areSigns⟩ := eq_append_of_rightOperand? atRight
      refine ⟨_, .intro leftText rightText left operand signs areSigns, ?_⟩
      have replaces := Replaces.intro init
        (.number leftText left :: .operator op :: (signs ++ [.number rightText operand])) rest value
      simpa only [List.append_assoc, List.cons_append, List.singleton_append, List.nil_append] using replaces

theorem replaces_of_foldedRound (picks : Picks operators pick)
    (leads : Leads (foldedRound operators pick) tokens next) :
    ∃ op taken, op.isAmong operators = true ∧ Operation op taken ∧
      Replaces (foldSignsAfter operators tokens) taken next := by
  obtain ⟨taken, round, result⟩ := leads
  obtain ⟨⟨before, token, after⟩, found, rfl⟩ := Option.map_eq_some_iff.1 round
  obtain ⟨whole, isOperator⟩ := picks.parts found
  obtain ⟨op, rfl⟩ := exists_operator_of_isOperatorIn isOperator
  obtain ⟨taken, operation, replaces⟩ := replaces_of_foldBinary result
  exact ⟨op, taken, isOperator, operation, whole ▸ replaces⟩

/-- A round of a reduction takes away one of its operators, and none of the other reduction. -/
def Folds (operators others : List Operator) (tokens next : List Token) : Prop :=
  OneLess (Token.isOperatorIn operators) tokens next ∧
    next.filter (Token.isOperatorIn others) = tokens.filter (Token.isOperatorIn others)

/-- Operators of two reductions, which are no signs and none of each other. -/
structure Separate (operators others : List Operator) : Prop where
  own : NoOperand (Token.isOperatorIn operators)
  other : NoOperand (Token.isOperatorIn others)
  disjoint : ∀ op ∈ Operator.all, op.isAmong operators = true → op.isAmong others = false

theorem separate_power : Separate [.power] Operator.products :=
  ⟨⟨fun _ _ => rfl, rfl, rfl⟩, ⟨fun _ _ => rfl, rfl, rfl⟩, by decide⟩

theorem separate_products : Separate Operator.products [.power] :=
  ⟨⟨fun _ _ => rfl, rfl, rfl⟩, ⟨fun _ _ => rfl, rfl, rfl⟩, by decide⟩

theorem folds_of_foldedRound (picks : Picks operators pick) (separate : Separate operators others)
    (known : AllKnown tokens) (leads : Leads (foldedRound operators pick) tokens next) :
    Folds operators others tokens next ∧ AllKnown next := by
  obtain ⟨op, taken, isAmong, operation, replaces⟩ := replaces_of_foldedRound picks leads
  have folded := @isKnown_foldSignsAfter operators tokens known
  have knownTaken : AllKnown taken := replaces.isKnown_taken folded
  have knownOp : op ∈ Operator.all := operation.isKnown knownTaken
  have ownSame := @filter_foldSignsAfterFrom operators _ tokens separate.own none known
  have otherSame := @filter_foldSignsAfterFrom operators _ tokens separate.other none known
  have single : taken.filter (Token.isOperatorIn operators) = [.operator op] := by
    rw [operation.filter_eq separate.own knownTaken]
    exact List.filter_cons_of_pos isAmong
  have none : taken.filter (Token.isOperatorIn others) = [] := by
    rw [operation.filter_eq separate.other knownTaken]
    exact List.filter_cons_of_neg (ne_true_of_eq_false (separate.disjoint op knownOp isAmong))
  refine ⟨⟨?_, ?_⟩, replaces.isKnown folded⟩
  · obtain ⟨front, token, back, before, after⟩ := replaces.oneLess separate.own.number single
    exact ⟨front, token, back, ownSame.symm.trans before, after⟩
  · exact (replaces.filter_eq separate.other.number none).trans otherSame

theorem foldedRound_eq_none (picks : Picks operators pick)
    (clean : ∀ token ∈ tokens, token.isOperatorIn operators = false) : foldedRound operators pick tokens = none := by
  rw [foldedRound, foldSignsAfter_of_clean clean, Option.map_eq_none_iff, Option.eq_none_iff_forall_ne_some]
  rintro ⟨before, token, after⟩ found
  obtain ⟨rfl, isOperator⟩ := picks.parts found
  exact absurd isOperator (ne_true_of_eq_false (clean token (List.mem_append_right _ List.mem_cons_self)))

theorem ends_folds (picks : Picks operators pick) (separate : Separate operators others) (known : AllKnown tokens) :
    Ends (foldedRound operators pick) (Folds operators others) tokens
      (rounds (foldedRound operators pick) (tokens.countP (Token.isOperatorIn operators)) tokens).result := by
  have turns {state following : List Token} (known : AllKnown state)
      (leads : Leads (foldedRound operators pick) state following) :
      Folds operators others state following ∧ AllKnown following :=
    folds_of_foldedRound picks separate known leads
  exact ends_rounds turns (fun step => step.1.countP_lt)
    (fun _ empty => foldedRound_eq_none picks (none_of_countP empty)) known le_rfl

end Folds

/-- The loops that a list without parentheses goes through. Each ends, and each of its rounds takes away one token of
its own. -/
structure LoopsEnd (bindings : Bindings) (functions : FunctionTable) (tokens : List Token) : Prop where
  calls : ∀ room replaced, substitute room bindings tokens = .ok replaced →
    Ends (callRound functions) (OneLess Token.isFunction) replaced
      (rounds (callRound functions) (replaced.countP Token.isFunction) replaced).result
  powers : ∀ room replaced applied, substitute room bindings tokens = .ok replaced →
    (applyFunctions functions replaced).result = .ok applied →
    Ends powerRound (Folds [.power] Operator.products) applied
      (rounds powerRound (applied.countP isPower) applied).result
  products : ∀ room replaced applied powered, substitute room bindings tokens = .ok replaced →
    (applyFunctions functions replaced).result = .ok applied →
    (rounds powerRound (applied.countP isPower) applied).result = .ok powered →
    Ends productRound (Folds Operator.products [.power]) powered
      (rounds productRound (powered.countP isProduct) powered).result

theorem loopsEnd (known : AllKnown tokens) : LoopsEnd bindings functions tokens := by
  have knownReplaced {room : Nat} {replaced : List Token}
    (substituted : substitute room bindings tokens = .ok replaced) :
      AllKnown replaced := by
    intro token member
    rcases mem_of_substitute substituted token member with old | ⟨value, rfl⟩
    · exact known token old
    · trivial
  have endsPowers {applied : List Token} (known : AllKnown applied) :
      Ends powerRound (Folds [.power] Operator.products) applied
        (rounds powerRound (applied.countP isPower) applied).result :=
    ends_folds (picks_last unsigned_power) separate_power known
  refine ⟨fun _ replaced _ => ends_calls replaced, fun _ replaced applied substituted applies => ?_,
    fun _ replaced applied powered substituted applies turned => ?_⟩
  · exact endsPowers (isKnown_of_applyFunctions (knownReplaced substituted) applies)
  · have knownApplied := isKnown_of_applyFunctions (knownReplaced substituted) applies
    have leads := (Ends.leads (turned ▸ endsPowers knownApplied)).1
    have knownPowered := holds_of_leads
      (fun known leads => (folds_of_foldedRound (picks_last unsigned_power) separate_power known leads).2) leads
        knownApplied
    exact ends_folds (picks_first unsigned_products) separate_products knownPowered

end Evaluation

open Evaluation

/-- Evaluation ends on every text, and none of its loops needs a bound. Scanning moves on in each round, and each round
of the groups closes one. What is evaluated then has no parentheses and loops that use up its calls, powers and
products. So the evaluation of a group asks for no other, and it does not matter what one would be. -/
theorem evaluate_ends (expression : String) (bindings : Bindings) (functions : FunctionTable) :
    Token.Scans bindings.contains functions.keys (Token.dropEquals expression.toList) 0
        (Token.scan bindings.contains functions.keys expression) ∧
      ∀ tokens, Token.scan bindings.contains functions.keys expression = .ok tokens →
        Ends (groupRound bindings functions) ClosesGroup tokens
            (rounds (groupRound bindings functions) (tokens.countP Token.isOpen) tokens).result ∧
          (∀ flat, Evaluated bindings functions tokens flat →
            (∀ token ∈ flat, token.isOpen = false ∧ token.isClose = false) ∧ LoopsEnd bindings functions flat) ∧
          ∀ deeper, evaluateTokens bindings functions tokens =
            evaluateBy wholeRoom bindings functions (evaluateBy groupRoom bindings functions deeper) tokens := by
  refine ⟨Token.scan_advances _ _ _, fun tokens scanned => ⟨ends_groups tokens, fun flat evaluated => ?_,
    fun deeper => (evaluateBy_evaluateBy deeper tokens).symm⟩⟩
  exact ⟨evaluated.flat, loopsEnd (evaluated.isKnown (Token.isKnown_of_scan scanned))⟩

/-- A power in a group, which a call takes as its argument. -/
theorem evaluate_ends_power :
    let bindings : Bindings := .ofList [("x", .real 2.0)]
    let functions : FunctionTable := .ofList [("half", fun x => .ok (x / 2.0))]
    ∃ tokens, Token.scan bindings.contains functions.keys "half(x^-x)=" = .ok tokens ∧
      Ends (groupRound bindings functions) ClosesGroup tokens
        (rounds (groupRound bindings functions) (tokens.countP Token.isOpen) tokens).result ∧
      LoopsEnd bindings functions [.name "x" false, .operator .power, .operator .minus, .name "x" false] := by
  intro bindings functions
  have scanned : Token.scan bindings.contains functions.keys "half(x^-x)=" = .ok
      [.function "half", .lparen "(", .name "x" false, .operator .power, .operator .minus, .name "x" false,
        .rparen ")"] := by rfl
  obtain ⟨_, ends⟩ := evaluate_ends "half(x^-x)=" bindings functions
  obtain ⟨groups, lists, _⟩ := ends _ scanned
  exact ⟨_, scanned, groups, (lists _ (.group .refl rfl rfl)).2⟩

end Reckoner
