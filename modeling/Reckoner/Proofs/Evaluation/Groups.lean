import Mathlib
import Reckoner.Evaluation.Groups

namespace Reckoner.Evaluation

variable {bindings : Bindings} {functions : FunctionTable}

/-- Replaces the group that a left parenthesis opens by its value. No group opens in the tokens behind it. -/
def closeGroup (bindings : Bindings) (functions : FunctionTable) (opening : Token) (rest : List Token) :
    Traced (List Token) :=
  match breakFirst? Token.isClose rest with
  | none => Traced.fail .unmatchedOpen
  | some (inner, closing, after) => do
    let value ← evaluateFlat groupRoom bindings functions inner
    Traced.note (.group (opening :: (inner ++ [closing])) value)
    return Token.ofValue value :: after

/-- Resolves the groups of a list from its end. -/
def sweepGroups (bindings : Bindings) (functions : FunctionTable) : List Token → Traced (List Token)
  | [] => return []
  | token :: rest => do
    let rest ← sweepGroups bindings functions rest
    if token.isOpen then closeGroup bindings functions token rest else return token :: rest

theorem groupRound_append {opening : Token} {rest : List Token} (before : List Token)
    (clean : ∀ token ∈ rest, token.isOpen = false) (opens : opening.isOpen = true) :
    groupRound bindings functions (before ++ opening :: rest) =
      some ((before ++ ·) <$> closeGroup bindings functions opening rest) := by
  unfold groupRound closeGroup
  rw [breakLast?_append before clean opens, Option.map_some]
  dsimp only
  rcases breakFirst? Token.isClose rest with _ | ⟨inner, closing, after⟩
  · rfl
  · simp only [map_eq_pure_bind, bind_assoc, pure_bind]

/-- What is left of a list whose groups have values: every group is its value, which stands for the tokens from its
left parenthesis to the first right parenthesis behind it. -/
inductive Collapses (bindings : Bindings) (functions : FunctionTable) : List Token → List Token → Prop
  | nil : Collapses bindings functions [] []
  | keep {token rest swept} (noOpen : token.isOpen = false) :
      Collapses bindings functions rest swept → Collapses bindings functions (token :: rest) (token :: swept)
  | close {opening rest inner closing after value} (opens : opening.isOpen = true)
      (noClose : ∀ token ∈ inner, token.isClose = false) (closes : closing.isClose = true)
      (evaluated : (evaluateFlat groupRoom bindings functions inner).result = .ok value) :
      Collapses bindings functions rest (inner ++ closing :: after) →
      Collapses bindings functions (opening :: rest) (Token.ofValue value :: after)

theorem closeGroup_eq_ok {opening : Token} {rest swept : List Token} :
    (closeGroup bindings functions opening rest).result = .ok swept ↔
      ∃ inner closing after value, rest = inner ++ closing :: after ∧ (∀ token ∈ inner, token.isClose = false) ∧
        closing.isClose = true ∧ (evaluateFlat groupRoom bindings functions inner).result = .ok value ∧
        swept = Token.ofValue value :: after := by
  unfold closeGroup
  constructor
  · intro closed
    rcases parts : breakFirst? Token.isClose rest with _ | ⟨inner, closing, after⟩
    · rw [parts] at closed
      exact nomatch closed
    · rw [parts] at closed
      obtain ⟨value, evaluated, left⟩ := Traced.result_bind_note_eq_ok.1 closed
      obtain ⟨whole, closes, noClose⟩ := eq_of_breakFirst? parts
      exact ⟨inner, closing, after, value, whole, noClose, closes, evaluated, left⟩
  · rintro ⟨inner, closing, after, value, rfl, noClose, closes, evaluated, rfl⟩
    rw [breakFirst?_append after noClose closes]
    exact Traced.result_bind_note_eq_ok.2 ⟨value, evaluated, rfl⟩

theorem sweepGroups_eq_ok {tokens swept : List Token} :
    (sweepGroups bindings functions tokens).result = .ok swept ↔ Collapses bindings functions tokens swept := by
  constructor
  · intro result
    induction tokens generalizing swept with
    | nil =>
      cases result
      exact .nil
    | cons token rest ih =>
      obtain ⟨behind, resultRest, closed⟩ := Traced.result_bind_eq_ok.1 result
      cases opens : token.isOpen with
      | true =>
        rw [opens, if_pos rfl] at closed
        obtain ⟨inner, closing, after, value, rfl, noClose, closes, evaluated, rfl⟩ := closeGroup_eq_ok.1 closed
        exact .close opens noClose closes evaluated (ih resultRest)
      | false =>
        rw [opens] at closed
        cases closed
        exact .keep opens (ih resultRest)
  · intro collapses
    induction collapses with
    | nil => rfl
    | @keep token rest swept noOpen _ ih =>
      refine Traced.result_bind_eq_ok.2 ⟨swept, ih, ?_⟩
      rw [noOpen]
      rfl
    | @close opening rest inner closing after value opens noClose closes evaluated _ ih =>
      refine Traced.result_bind_eq_ok.2 ⟨_, ih, ?_⟩
      rw [opens, if_pos rfl]
      exact closeGroup_eq_ok.2 ⟨inner, closing, after, value, rfl, noClose, closes, evaluated, rfl⟩

namespace Collapses

variable {tokens swept others sweptOthers : List Token}

theorem not_isOpen (collapses : Collapses bindings functions tokens swept) : ∀ token ∈ swept, token.isOpen = false := by
  induction collapses with
  | nil => exact List.forall_mem_nil _
  | keep noOpen _ ih => exact List.forall_mem_cons.2 ⟨noOpen, ih⟩
  | close _ _ _ _ _ ih =>
    have behind := (List.forall_mem_append.1 ih).2
    exact List.forall_mem_cons.2 ⟨rfl, (List.forall_mem_cons.1 behind).2⟩

/-- Only tokens that were there are left, and values of groups. -/
theorem mem (collapses : Collapses bindings functions tokens swept) :
    ∀ token ∈ swept, token ∈ tokens ∨ ∃ value, token = Token.ofValue value := by
  induction collapses with
  | nil => exact List.forall_mem_nil _
  | keep _ _ ih =>
    exact List.forall_mem_cons.2 ⟨Or.inl List.mem_cons_self, fun other member =>
      (ih other member).imp_left (List.mem_cons_of_mem _)⟩
  | @close _ _ _ _ _ value _ _ _ _ _ ih =>
    have behind := (List.forall_mem_cons.1 (List.forall_mem_append.1 ih).2).2
    exact List.forall_mem_cons.2 ⟨Or.inr ⟨value, rfl⟩, fun other member =>
      (behind other member).imp_left (List.mem_cons_of_mem _)⟩

/-- Lists whose groups are complete collapse apart from each other. -/
theorem append (first : Collapses bindings functions tokens swept)
    (second : Collapses bindings functions others sweptOthers) :
    Collapses bindings functions (tokens ++ others) (swept ++ sweptOthers) := by
  induction first with
  | nil => exact second
  | keep noOpen _ ih => exact .keep noOpen ih
  | close opens noClose closes evaluated _ ih =>
    rw [List.append_assoc, List.cons_append] at ih
    exact .close opens noClose closes evaluated ih

theorem refl (clean : ∀ token ∈ tokens, token.isOpen = false) : Collapses bindings functions tokens tokens := by
  induction tokens with
  | nil => exact .nil
  | cons token rest ih =>
    obtain ⟨noOpen, cleanRest⟩ := List.forall_mem_cons.1 clean
    exact .keep noOpen (ih cleanRest)

end Collapses

theorem rounds_groupRound_append (before tokens : List Token) :
    rounds (groupRound bindings functions) (before.countP Token.isOpen + tokens.countP Token.isOpen)
        (before ++ tokens) =
      sweepGroups bindings functions tokens >>= fun swept =>
        rounds (groupRound bindings functions) (before.countP Token.isOpen) (before ++ swept) := by
  induction tokens generalizing before with
  | nil => simp [sweepGroups]
  | cons token rest ih =>
    have step := ih (before ++ [token])
    simp only [List.countP_append, List.append_assoc, List.singleton_append] at step
    rw [sweepGroups, bind_assoc]
    cases opens : token.isOpen with
    | true =>
      simp only [List.countP_cons, List.countP_nil, opens, if_true] at step ⊢
      rw [Nat.add_comm (rest.countP _), ← Nat.add_assoc, step]
      refine Traced.bind_congr_of_ok fun behind resolved => ?_
      rw [rounds_succ_of_some (groupRound_append before (sweepGroups_eq_ok.1 resolved).not_isOpen opens)]
      simp only [map_eq_pure_bind, bind_assoc, pure_bind]
    | false =>
      simp only [List.countP_cons, List.countP_nil, opens, Bool.false_eq_true, if_false, Nat.add_zero] at step ⊢
      simp only [step, pure_bind]

/-- Replacing the group that opens last, again and again, is one sweep from the end. -/
theorem rounds_groupRound (tokens : List Token) :
    rounds (groupRound bindings functions) (tokens.countP Token.isOpen) tokens =
      sweepGroups bindings functions tokens := by
  have all := @rounds_groupRound_append bindings functions [] tokens
  simpa [rounds] using all

theorem resolveGroups_eq (tokens : List Token) :
    resolveGroups bindings functions tokens = do
      let swept ← sweepGroups bindings functions tokens
      Traced.ofFailing (checkClosed swept)
      return swept := by
  rw [resolveGroups, rounds_groupRound]

theorem checkClosed_eq_ok {tokens : List Token} :
    checkClosed tokens = .ok () ↔ ∀ token ∈ tokens, token.isClose = false := by
  rw [checkClosed]
  cases closing : tokens.any Token.isClose with
  | true => simpa using List.any_eq_true.1 closing
  | false => simpa using closing

/-- A token list has a value exactly if its groups do, none is left half open, and what is left has that value. -/
theorem evaluateTokens_eq_ok {tokens : List Token} {value : Float} :
    (evaluateTokens bindings functions tokens).result = .ok value ↔
      ∃ swept, Collapses bindings functions tokens swept ∧
        (∀ token ∈ swept, token.isClose = false) ∧
          (evaluateFlat wholeRoom bindings functions swept).result = .ok value := by
  rw [evaluateTokens, resolveGroups_eq, bind_assoc]
  simp only [Traced.result_bind_eq_ok, Traced.result_ofFailing_eq_ok, sweepGroups_eq_ok]
  constructor
  · rintro ⟨swept, isSwept, _, ⟨_, checked, same⟩, evaluated⟩
    cases same
    exact ⟨swept, isSwept, checkClosed_eq_ok.1 checked, evaluated⟩
  · rintro ⟨swept, isSwept, closed, evaluated⟩
    exact ⟨swept, isSwept, swept, ⟨(), checkClosed_eq_ok.2 closed, rfl⟩, evaluated⟩

end Reckoner.Evaluation
