import Mathlib
import Reckoner.Proofs.Evaluation.Inventory
import Reckoner.Proofs.Token.Lossless

namespace Reckoner

open Evaluation

theorem Token.isKnown_of_readsAs {bound : String → Bool} {names : List String} {before : Option Char} {text : List Char}
    {token : Token} (reads : Token.ReadsAs bound names before text token) : token.IsKnown := by
  cases reads with
  | mark isMark =>
    rcases Token.mark?_cases isMark with ⟨_, rfl⟩ | ⟨_, rfl⟩ | ⟨op, operator, rfl⟩
    · trivial
    · trivial
    · unfold Operator.ofChar? at operator
      split at operator <;> (cases operator <;> decide)
  | _ => trivial

/-- The scanner makes no other operators than those of arithmetic. -/
theorem Token.isKnown_of_scan {bound : String → Bool} {names : List String} {expression : String} {tokens : List Token}
    (scanned : Token.scan bound names expression = .ok tokens) : ∀ token ∈ tokens, token.IsKnown := by
  intro token member
  obtain ⟨front, back, rfl⟩ := List.append_of_mem member
  exact isKnown_of_readsAs (Token.readsAs_of_scanFrom scanned)

namespace Derivation

variable {bindings : Bindings} {functions : FunctionTable} {phrase : Phrase} {derivation : Derivation}

section Groups

abbrev SweepsGroups (bindings : Bindings) (functions : FunctionTable) (tokens swept : List Token) (steps : List Step) :
    Prop :=
  SweepsBack (sweepGroups bindings functions) id tokens swept steps

theorem sweepsGroups_single {token : Token} (noOpen : token.isOpen = false) :
    SweepsGroups bindings functions [token] [token] [] := by
  intro rest done before result
  rw [List.append_nil]
  refine Traced.bind_pure_of_eq result ?_
  rw [noOpen]
  rfl

theorem sweepsGroups_operators {front : List Token} (operators : AllOperators front) :
    ∀ token ∈ front, SweepsGroups bindings functions [token] [token] [] := by
  intro token member
  obtain ⟨op, rfl⟩ := operators token member
  exact sweepsGroups_single rfl

/-- A group is left with its steps and its value, once the groups behind its left parenthesis are values. -/
theorem Sound.closeGroup_eq {inner : Derivation} (sound : Sound bindings functions .expression inner)
    (opening closing : String) (start : Nat) (done : List Token) :
    closeGroup bindings functions (.lparen opening) (inner.spelled .resolved ++ .rparen closing :: done) =
      ⟨(Enclosed.mk start opening closing inner).steps, .ok (.ofValue inner.value :: done)⟩ := by
  have parts := breakFirst?_append done (fun token member => (sound.leaves .resolved token member).2.2)
    (show Token.isClose (.rparen closing) = true from rfl)
  rw [closeGroup, parts]
  exact Traced.bind_of_eq (sound.evaluateFlat_eq (start + 1)) rfl

/-- The sweep over groups records the groups of a list from the one that opens last on, and replaces them by their
values. When it meets the left parenthesis of a group, the groups inside are values. -/
theorem Sound.sweepsGroups (sound : Sound bindings functions phrase derivation) (start : Nat) :
    SweepsGroups bindings functions derivation.tokens (derivation.spelled .resolved)
      ((derivation.groups start).reverse.flatMap Enclosed.steps) := by
  induction sound generalizing start with
  | number | bound => exact sweepsGroups_single rfl
  | @group opening closing inner sound ih =>
    intro rest done before result
    have closes : SweepsGroups bindings functions [.rparen closing] [.rparen closing] [] := sweepsGroups_single rfl
    have behind : sweepGroups bindings functions (inner.tokens ++ [.rparen closing] ++ rest) =
        ⟨before ++ (inner.groups (start + 1)).reverse.flatMap Enclosed.steps,
          .ok (inner.spelled .resolved ++ .rparen closing :: done)⟩ := by
      simpa using (ih (start + 1)).append closes rest done before result
    rw [groups, List.reverse_cons, List.flatMap_append, List.flatMap_singleton, ← List.append_assoc]
    exact Traced.bind_of_eq behind (sound.closeGroup_eq opening closing start done)
  | @call name negated operand _ _ _ ih =>
    have signs : AllOperators (operandSign negated) := by
      cases negated with
      | false => exact List.forall_mem_nil _
      | true => exact allOperators_cons .minus []
    have called : SweepsGroups bindings functions [.function name] [.function name] [] := sweepsGroups_single rfl
    have whole := called.append ((ih (start + 1 + (operandSign negated).length)).behind (sweepsGroups_operators signs))
    rwa [List.append_nil] at whole
  | ofPrimary _ ih | ofPower _ ih | ofSum _ _ ih => exact ih start
  | power run _ _ _ ihLeft ihRight =>
    rw [groups, List.reverse_append, List.flatMap_append]
    exact (ihLeft start).append ((ihRight _).behind (sweepsGroups_operators (allOperators_cons .power run)))
  | @product _ _ _ op run _ _ _ _ _ ihLeft ihRight =>
    rw [groups, List.reverse_append, List.flatMap_append]
    exact (ihLeft start).append ((ihRight _).behind (sweepsGroups_operators (allOperators_cons op run)))
  | firstTerm run _ ih => exact (ih _).behind (sweepsGroups_operators (allOperators_signs run))
  | @nextTerm _ _ run _ _ _ ihSum ihTerm =>
    rw [groups, List.reverse_append, List.flatMap_append]
    exact (ihSum start).append ((ihTerm _).behind (sweepsGroups_operators (allOperators_signs run)))

/-- An evaluation takes the steps of a derivation of its list, and comes to the value of it. -/
theorem Sound.evaluateTokens_eq (sound : Sound bindings functions .expression derivation) :
    evaluateTokens bindings functions derivation.tokens = ⟨derivation.steps, .ok derivation.value⟩ := by
  have swept : sweepGroups bindings functions derivation.tokens =
      ⟨(derivation.groups 0).reverse.flatMap Enclosed.steps, .ok (derivation.spelled .resolved)⟩ := by
    simpa using sound.sweepsGroups 0 [] [] [] rfl
  have closed : checkClosed (derivation.spelled .resolved) = .ok () :=
    checkClosed_eq_ok.2 fun token member => (sound.leaves .resolved token member).2.2
  rw [evaluateTokens, resolveGroups_eq, bind_assoc]
  refine Traced.bind_of_eq swept ?_
  rw [closed]
  exact sound.evaluateFlat_eq 0

end Groups

/-- What comes to a value is derived. -/
theorem exists_of_evaluateTokens {tokens : List Token} {value : Float} (known : ∀ token ∈ tokens, token.IsKnown)
    (evaluated : (evaluateTokens bindings functions tokens).result = .ok value) :
    ∃ derivation, Sound bindings functions .expression derivation ∧ derivation.tokens = tokens ∧
      derivation.value = value := by
  obtain ⟨usable, same⟩ := evaluateTokens_doubles evaluated
  rw [same] at evaluated
  exact exists_of_means (means_of_evaluateTokens (allFinite_doubles bindings) known evaluated) usable

end Derivation

/-- Whether an account tells of the tokens of a list that starts at a place, apart from those in its groups: of every
function once, of every power once from the last on, and of every product and quotient once from the first on. -/
structure Account.Follows (account : Account) (start : Nat) (tokens : List Token) : Prop where
  calls : (account.calls.map CallRecord.spot).Perm (ownSpots Token.isFunction start tokens)
  powers : account.powers.map OperationRecord.spot = (ownSpots isPower start tokens).reverse
  products : account.products.map OperationRecord.spot = ownSpots isProduct start tokens

/-- How many steps of a kind the log of a list has. -/
def Step.Kind.expected (tokens : List Token) : Step.Kind → Nat
  | scanned => 1
  | group => tokens.countP Token.isOpen
  | call => tokens.countP Token.isFunction
  | operation => tokens.countP isBinary
  | reduced => tokens.countP Token.isOpen + 1

theorem Step.Kind.expected_eq (tokens : List Token) (kind : Step.Kind) : kind.expected tokens =
    tokens.countP kind.marks + (if kind = .reduced then 1 else 0) + if Step.Kind.scanned == kind then 1 else 0 := by
  cases kind with
  | scanned =>
    rw [marks, List.countP_false]
    rfl
  | _ => rfl

namespace Inventory

variable {start : Nat} {derivation : Derivation}

theorem follows (inventory : Of start derivation) :
    (derivation.account start).Follows start derivation.tokens where
  calls := inventory.calls_perm
  powers := List.map_reverse.trans (congrArg List.reverse inventory.powers_eq)
  products := inventory.products_eq

/-- The log of an expression has a step for the tokens, and one more than its groups for the sums that are left. -/
theorem count_log (inventory : Of 0 derivation) (kind : Step.Kind) :
    ((.scanned derivation.tokens :: derivation.steps).map Step.kind).count kind = kind.expected derivation.tokens := by
  have reversed : (((derivation.groups 0).reverse.flatMap Enclosed.steps).map Step.kind).Perm
      (((derivation.groups 0).flatMap Enclosed.steps).map Step.kind) :=
    ((List.reverse_perm _).flatMap_right _).map _
  rw [Derivation.steps, List.map_cons, List.map_append, List.count_cons, List.count_append, reversed.count_eq,
    Account.count_steps, inventory.tally_account, Step.Kind.expected_eq, ← inventory.count_steps kind, Step.kind]
  omega

end Inventory

/-- Every operation of an accepted expression is carried out once, and the log tells of each: the scanned tokens, then
list by list the groups from the one that opens last on, and at the end the outermost list. Each list has all of its
calls first, then its powers from the last on, its products and quotients from the first on, and what is left to add
up. -/
theorem evaluate_records {expression : String} {bindings : Bindings} {functions : FunctionTable} {value : Float}
    (accepted : (evaluate expression bindings functions).result = .ok value) :
    ∃ tokens derivation, Token.scan bindings.contains functions.keys expression = .ok tokens ∧
      Derivation.Sound bindings functions .expression derivation ∧ derivation.tokens = tokens ∧
      derivation.value = value ∧
      (evaluate expression bindings functions).steps = .scanned tokens :: derivation.steps ∧
      (derivation.groups 0).map Enclosed.spot = spots Token.isOpen 0 tokens ∧
      (∀ group ∈ derivation.groups 0, group.Within 0 tokens ∧
        group.account.Follows (group.place + 1) group.inner.tokens) ∧
      (derivation.account 0).Follows 0 tokens ∧
      ∀ kind, ((evaluate expression bindings functions).steps.map Step.kind).count kind = kind.expected tokens := by
  obtain ⟨tokens, scanned, evaluated⟩ := evaluate_eq_ok.1 accepted
  have known := Token.isKnown_of_scan scanned
  obtain ⟨derivation, sound, rfl, rfl⟩ := Derivation.exists_of_evaluateTokens known evaluated
  have inventory := sound.inventory 0
  have steps : (evaluate expression bindings functions).steps = .scanned derivation.tokens :: derivation.steps := by
    rw [evaluate, scanned, Traced.steps_mapStop]
    change (Traced.note (.scanned derivation.tokens) >>= fun _ =>
      evaluateTokens bindings functions derivation.tokens).steps = _
    rw [sound.evaluateTokens_eq]
    rfl
  refine ⟨derivation.tokens, derivation, scanned, sound, rfl, rfl, steps, inventory.groups_spots, ?_, inventory.follows,
    fun kind => ?_⟩
  · exact fun group member => (inventory.forall_groups group member).imp_right fun inner => inner.follows
  · rw [steps]
    exact inventory.count_log kind

/-- Two groups, one in the other, with a call between them. -/
theorem evaluate_records_nested :
    let bindings : Bindings := .ofList [("x", .real 2.0)]
    let functions : FunctionTable := .ofList [("half", fun x => .ok (x / 2.0))]
    (evaluate "x*(x+half(x))/x" bindings functions).result = .ok 3.0 ∧
      ∃ derivation, Derivation.Sound bindings functions .expression derivation ∧
        (evaluate "x*(x+half(x))/x" bindings functions).steps = .scanned derivation.tokens :: derivation.steps ∧
        (derivation.groups 0).map Enclosed.spot = [(.lparen "(", 2), (.lparen "(", 6)] ∧
        (derivation.account 0).products.map OperationRecord.spot = [(.operator .times, 1), (.operator .divide, 10)] ∧
        ((evaluate "x*(x+half(x))/x" bindings functions).steps.map Step.kind).count .reduced = 3 := by
  intro bindings functions
  have accepted : (evaluate "x*(x+half(x))/x" bindings functions).result = .ok 3.0 := by rfl
  have isScan : Token.scan bindings.contains functions.keys "x*(x+half(x))/x" = .ok
      [.name "x" false, .operator .times, .lparen "(", .name "x" false, .operator .plus, .function "half", .lparen "(",
        .name "x" false, .rparen ")", .rparen ")", .operator .divide, .name "x" false] := by rfl
  obtain ⟨tokens, derivation, scanned, sound, same, _, steps, groups, _, follows, counts⟩ := evaluate_records accepted
  cases isScan.symm.trans scanned
  exact ⟨accepted, derivation, sound, same ▸ steps, groups, follows.products, counts .reduced⟩

end Reckoner
