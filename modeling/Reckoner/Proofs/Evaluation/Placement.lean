import Mathlib
import Reckoner.Proofs.Evaluation.Addable
import Reckoner.Proofs.Evaluation.Unusable

namespace Reckoner

/-- The failures on an operator that computes nothing, on a token that is out of place in a sum, and on a sign at its
end. -/
def Failure.IsMisplaced : Failure → Prop
  | invalidOperation _ | noValueAt _ => True
  | missingRightOperand op => op ∈ Operator.signs
  | _ => False

/-- A stop for any other reason. -/
def Stop.Sparing : Stop → Prop
  | failure cause _ => ¬ cause.IsMisplaced
  | fault _ => True

namespace Evaluation

variable {bindings : Bindings} {functions : FunctionTable} {operators : List Operator} {tokens reduced : List Token}
  {room : Nat}

/-- A computation that is not stopped by a token in a wrong place. -/
abbrev Spared {α : Type} (result : Except Failure α) : Prop :=
  Settles (fun cause => ¬ cause.IsMisplaced) (fun _ => True) result

theorem spared_ofFailing {α : Type} {result : Except Failure α} (spared : Spared result) :
    Settles Stop.Sparing (fun _ => True) (Traced.ofFailing result).result :=
  @settles_ofFailing Stop.Sparing α _ result spared

theorem Adds.spared {outcome : Except Failure Float} (adds : Adds tokens outcome) : Spared outcome := by
  cases adds with
  | nothing => exact id
  | total => trivial
  | unseparated => exact id

theorem checkNames_spared (tokens : List Token) : Spared (checkNames tokens) := by
  induction tokens with
  | nil => trivial
  | cons token rest ih =>
    cases token with
    | name => exact id
    | _ => exact ih

theorem checkPairs_spared (tokens : List Token) : Spared (checkPairs tokens) := by
  fun_induction checkPairs tokens with
  | case1 => exact id
  | case2 _ _ _ _ ih => exact ih
  | case3 _ _ _ ih => exact ih
  | case4 => trivial

theorem validate_spared (tokens : List Token) : Spared (validate tokens) := by
  have start : Spared (checkStart tokens) := by
    unfold checkStart
    split
    · split
      · exact id
      · trivial
    · trivial
  have atEnd : Spared (checkEnd tokens) := by
    unfold checkEnd
    split
    · split
      · exact id
      · trivial
    · trivial
  exact (checkNames_spared tokens).bind fun _ _ => (checkPairs_spared tokens).bind fun _ _ => start.bind fun _ _ =>
    atEnd

theorem apply_spared (functions : FunctionTable) (name : String) (argument : Float) :
    Spared (functions.apply name argument) := by
  unfold FunctionTable.apply
  cases functions.get? name with
  | none => exact id
  | some function =>
    dsimp only
    rcases function argument with (_ | _) | value
    · exact id
    · exact id
    · dsimp only
      split
      · trivial
      · exact id

theorem checkArguments_spared (tokens : List Token) : Spared (checkArguments tokens) := by
  induction tokens with
  | nil => trivial
  | cons token rest ih =>
    cases token with
    | function => exact id
    | _ => exact ih

theorem applyFunctions_sparing (functions : FunctionTable) (tokens : List Token) :
    Settles Stop.Sparing (fun _ => True) (applyFunctions functions tokens).result := by
  have calls : Settles Stop.Sparing (fun _ => True)
      (rounds (callRound functions) (tokens.countP Token.isFunction) tokens).result := by
    refine Traced.settles_rounds trivial (fun state next _ round => ?_) _
    obtain ⟨call, _, rfl⟩ := Option.map_eq_some_iff.1 round
    exact Traced.settles_bind (spared_ofFailing (apply_spared functions _ _)) fun _ _ =>
      Traced.settles_bind settles_note fun _ _ => trivial
  exact Traced.settles_bind calls fun applied _ =>
    Traced.settles_bind (spared_ofFailing (checkArguments_spared applied)) fun _ _ => trivial

theorem compute_spared {op : Operator} (binary : isBinary (.operator op) = true) (left right : Float) :
    Spared (compute left op right) := by
  have raw : Spared (rawCompute left op right) := by
    cases op with
    | power =>
      rw [rawCompute]
      split
      · exact id
      · unfold power
        dsimp only
        split_ifs
        · exact id
        · exact id
        · exact id
        · trivial
        · trivial
    | times => trivial
    | divide =>
      rw [rawCompute]
      split
      · exact id
      · trivial
    | _ => exact Bool.noConfusion binary
  refine raw.bind fun value _ => ?_
  split
  · trivial
  · exact id

theorem operands_spared {op : Operator} (binary : isBinary (.operator op) = true) (before after : List Token) :
    Spared (operands before op after) := by
  have noSign : op ∉ Operator.signs := by
    rintro sign
    rcases List.mem_cons.1 sign with rfl | sign
    · exact Bool.noConfusion binary
    · rw [List.mem_singleton.1 sign] at binary
      exact Bool.noConfusion binary
  unfold operands
  cases leftOperand? before with
  | none => exact id
  | some left =>
    dsimp only
    cases rightOperand? after with
    | none => exact noSign
    | some right => trivial

theorem foldBinary_sparing {op : Operator} (binary : isBinary (.operator op) = true) (before after : List Token) :
    Settles Stop.Sparing (fun _ => True) (foldBinary before op after).result :=
  Traced.settles_bind (spared_ofFailing (operands_spared binary before after)) fun _ _ =>
    Traced.settles_bind (spared_ofFailing (compute_spared binary _ _)) fun _ _ =>
      Traced.settles_bind settles_note fun _ _ => trivial

/-- A loop that folds operators with two operands is not stopped by any other operator. An operator that it picks is
known, and so it is neither a sign nor an operator that computes nothing. -/
theorem rounds_sparing {pick : List Token → Option (List Token × Token × List Token)} (picks : Picks operators pick)
    (binary : ∀ op ∈ Operator.all, op.isAmong operators = true → isBinary (.operator op) = true)
    (known : AllKnown tokens)
    (count : Nat) : Settles Stop.Sparing AllKnown (rounds (foldedRound operators pick) count tokens).result := by
  refine Traced.settles_rounds known (fun state next known round => ?_) count
  have folded := @isKnown_foldSignsAfter operators state known
  cases result : next.result with
  | ok following =>
    obtain ⟨_, _, _, _, replaces⟩ := replaces_of_foldedRound picks ⟨next, round, result⟩
    exact replaces.isKnown folded
  | error stop =>
    obtain ⟨⟨before, token, after⟩, found, rfl⟩ := Option.map_eq_some_iff.1 round
    obtain ⟨whole, among⟩ := picks.parts found
    obtain ⟨op, rfl⟩ := exists_operator_of_isOperatorIn among
    have isKnown : op ∈ Operator.all := folded (.operator op) (by rw [whole]; simp)
    exact (foldBinary_sparing (binary op isKnown among) before after).of_error result

theorem reducePrecedence_sparing (known : AllKnown tokens) :
    Settles Stop.Sparing (fun _ => True) (reducePrecedence tokens).result :=
  Traced.settles_bind (rounds_sparing (picks_last unsigned_power) (by decide) known _) fun _ knownPowered =>
    Traced.settles_bind (rounds_sparing (picks_first unsigned_products) (by decide) knownPowered _) fun _ _ => trivial

theorem sparing_of_substitute {stop : Stop} (stops : substitute room bindings tokens = .error stop) : stop.Sparing := by
  obtain ⟨name, value, _, rfl⟩ := substitute_eq_error.1 stops
  unfold Value.refusal refuseValue
  split
  · trivial
  · split
    · exact id
    · trivial

theorem isKnown_of_substitute {replaced : List Token} (known : AllKnown tokens)
    (substituted : substitute room bindings tokens = .ok replaced) : AllKnown replaced := by
  intro token member
  rcases mem_of_substitute substituted token member with old | ⟨value, rfl⟩
  · exact known token old
  · trivial

/-- Without parentheses, a list that passes the checks on its form has only numbers, operators and functions. -/
theorem isFlat_of_substitute {replaced : List Token}
    (closed : ∀ token ∈ tokens, token.isOpen = false ∧ token.isClose = false)
    (substituted : substitute room bindings tokens = .ok replaced) (valid : validate replaced = .ok ()) :
    ∀ token ∈ replaced, token.IsFlat := by
  intro token member
  rcases mem_of_substitute substituted token member with old | ⟨value, rfl⟩
  · obtain ⟨noOpen, noClose⟩ := closed token old
    cases token with
    | lparen => exact Bool.noConfusion noOpen
    | rparen => exact Bool.noConfusion noClose
    | name name attached => exact ((validate_eq_ok.1 valid).1 name attached member).elim
    | _ => trivial
  · trivial

theorem addable_of_substitute {replaced : List Token} (known : AllKnown tokens)
    (closed : ∀ token ∈ tokens, token.isOpen = false ∧ token.isClose = false)
    (substituted : substitute room bindings tokens = .ok replaced) (reduces : Reduces functions replaced reduced) :
    reduced = [] ∨ Addable reduced :=
  addable_of_reduces (isKnown_of_substitute known substituted) (isFlat_of_substitute closed substituted reduces.1)
    reduces

theorem sparing_of_evaluateFlat {stop : Stop} (known : AllKnown tokens)
    (closed : ∀ token ∈ tokens, token.isOpen = false ∧ token.isClose = false)
    (stops : (evaluateFlat room bindings functions tokens).result = .error stop) : stop.Sparing := by
  rcases Traced.result_bind_eq_error.1 stops with stops | ⟨replaced, substituted, stops⟩
  · exact sparing_of_substitute stops
  rcases Traced.result_bind_eq_error.1 stops with stops | ⟨_, valid, stops⟩
  · exact (spared_ofFailing (validate_spared replaced)).of_error stops
  rcases Traced.result_bind_eq_error.1 stops with stops | ⟨applied, applies, stops⟩
  · exact (applyFunctions_sparing functions replaced).of_error stops
  rcases Traced.result_bind_eq_error.1 stops with stops | ⟨reduced, reduces, stops⟩
  · have knownApplied := isKnown_of_applyFunctions (isKnown_of_substitute known substituted) applies
    exact (reducePrecedence_sparing knownApplied).of_error stops
  rw [Traced.result_bind_of_ok (Traced.result_note _)] at stops
  rcases Traced.result_bind_eq_error.1 stops with stops | ⟨value, _, stops⟩
  · have addable := addable_of_substitute known closed substituted
      ⟨Traced.result_ofFailing_eq_ok.1 valid, applied, applies, reduces⟩
    exact (spared_ofFailing (adds_of_addable addable).spared).of_error stops
  · split at stops
    · exact nomatch stops
    · cases stops
      exact id

theorem groupRound_sparing {taken : Traced (List Token)} (known : AllKnown tokens)
    (round : groupRound bindings functions tokens = some taken) : Settles Stop.Sparing AllKnown taken.result := by
  cases result : taken.result with
  | ok following => exact isKnown_of_groupRound known ⟨taken, round, result⟩
  | error stop =>
    obtain ⟨⟨before, opening, rest⟩, opens, rfl⟩ := Option.map_eq_some_iff.1 round
    dsimp only at result
    rcases closes : breakFirst? Token.isClose rest with _ | ⟨inner, closing, after⟩
    · rw [closes] at result
      cases result
      exact id
    · rw [closes] at result
      have evaluated := @Evaluated.group bindings functions _ _ _ _ _ _ _ _ .refl opens closes
      rcases Traced.result_bind_eq_error.1 result with stops | ⟨value, _, noted⟩
      · exact sparing_of_evaluateFlat (evaluated.isKnown known) evaluated.flat stops
      · exact nomatch noted

theorem sparing_of_evaluateTokens {stop : Stop} (known : AllKnown tokens)
    (stops : (evaluateTokens bindings functions tokens).result = .error stop) : stop.Sparing := by
  rcases Traced.result_bind_eq_error.1 stops with stops | ⟨resolved, resolves, stops⟩
  · have groups : Settles Stop.Sparing AllKnown
        (rounds (groupRound bindings functions) (tokens.countP Token.isOpen) tokens).result :=
      Traced.settles_rounds known (fun _ _ known round => groupRound_sparing known round) _
    rcases Traced.result_bind_eq_error.1 stops with stops | ⟨swept, _, stops⟩
    · exact groups.of_error stops
    · rcases Traced.result_bind_eq_error.1 stops with stops | ⟨_, _, noted⟩
      · unfold checkClosed at stops
        split at stops
        · cases stops
          exact id
        · exact nomatch stops
      · exact nomatch noted
  · have evaluated := @Evaluated.whole bindings functions tokens resolved resolves
    exact sparing_of_evaluateFlat (evaluated.isKnown known) evaluated.flat stops

/-- What is left of a list of numbers, operators and functions is nothing, or numbers and single signs with a number at
the end. So a sum comes to a total, or to a failure because there is nothing to add up or because no sign stands between
two numbers. That is all that sums come to within an evaluation, which never stops at a token in a wrong place. -/
theorem sumTerms_addable (bindings : Bindings) (functions : FunctionTable) {tokens : List Token}
    (known : AllKnown tokens) :
    ((∀ token ∈ tokens, token.IsFlat) → ∀ reduced, Reduces functions tokens reduced →
        (reduced = [] ∨ Addable reduced) ∧ Adds reduced (sumTerms reduced)) ∧
      (∀ room flat replaced reduced, Evaluated bindings functions tokens flat →
        substitute room bindings flat = .ok replaced →
        Reduces functions replaced reduced → Adds reduced (sumTerms reduced)) ∧
      ∀ cause equation, (evaluateTokens bindings functions tokens).result = .error (.failure cause equation) →
        ¬ cause.IsMisplaced := by
  refine ⟨fun flat reduced reduces => ?_, fun _ flat replaced reduced evaluated substituted reduces => ?_,
    fun cause equation stops => sparing_of_evaluateTokens known stops⟩
  · have addable := addable_of_reduces known flat reduces
    exact ⟨addable, adds_of_addable addable⟩
  · exact adds_of_addable
      (addable_of_substitute (evaluated.isKnown known) evaluated.flat substituted reduces)

/-- A call and products between signs, and two numbers next to each other. -/
theorem sumTerms_addable_unseparated :
    let functions : FunctionTable := .ofList [("twice", fun x => .ok (2.0 * x))]
    let tokens := [Token.operator .minus, .number "2" 2.0, .operator .times, .operator .minus, .number "3" 3.0,
      .operator .minus, .operator .minus, .function "twice", .number "4" 4.0, .number "5" 5.0]
    let reduced := [Token.operator .minus, .ofValue (-6.0), .operator .plus, .ofValue 8.0, .number "5" 5.0]
    AllKnown tokens ∧ (∀ token ∈ tokens, token.IsFlat) ∧ Reduces functions tokens reduced ∧ Addable reduced ∧
      sumTerms reduced = .error (.missingOperator "5") ∧
      Evaluated .empty functions tokens tokens ∧ substitute wholeRoom .empty tokens = .ok tokens ∧
      Adds reduced (.error (.missingOperator "5")) ∧
      (evaluateTokens .empty functions tokens).result = .error (.failure (.missingOperator "5") none) ∧
      ¬ (Failure.missingOperator "5").IsMisplaced := by
  intro functions tokens reduced
  have known : AllKnown tokens := by unfold AllKnown; decide
  have flat : ∀ token ∈ tokens, token.IsFlat := by simp [tokens, Token.IsFlat]
  have applies : (applyFunctions functions tokens).result = .ok [.operator .minus, .number "2" 2.0, .operator .times,
      .operator .minus, .number "3" 3.0, .operator .minus, .operator .minus, .ofValue 8.0, .number "5" 5.0] := by rfl
  have reduces : Reduces functions tokens reduced := ⟨rfl, _, applies, by rfl⟩
  have evaluated : Evaluated .empty functions tokens tokens := .whole rfl
  have stops : (evaluateTokens .empty functions tokens).result = .error (.failure (.missingOperator "5") none) := by rfl
  obtain ⟨onFlat, within, notMisplaced⟩ := sumTerms_addable .empty functions known
  obtain ⟨addable, _⟩ := onFlat flat reduced reduces
  exact ⟨known, flat, reduces, addable.resolve_left (List.cons_ne_nil _ _), rfl, evaluated, rfl,
    within wholeRoom tokens tokens reduced evaluated rfl reduces, stops, notMisplaced _ _ stops⟩

end Evaluation

end Reckoner
