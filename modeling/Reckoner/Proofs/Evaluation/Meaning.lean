import Mathlib
import Reckoner.Proofs.Evaluation.Flat
import Reckoner.Proofs.Evaluation.Groups

namespace Reckoner.Evaluation

variable {bindings : Bindings} {functions : FunctionTable}

theorem exists_lparen {token : Token} (opens : token.isOpen = true) : ∃ opening, token = .lparen opening := by
  cases token with
  | lparen opening => exact ⟨opening, rfl⟩
  | _ => cases opens

theorem exists_rparen {token : Token} (closes : token.isClose = true) : ∃ closing, token = .rparen closing := by
  cases token with
  | rparen closing => exact ⟨closing, rfl⟩
  | _ => cases closes

/-- A group is a primary, and its value takes its place. -/
theorem Collapses.respelled {tokens swept : List Token} (finite : bindings.AllFinite)
    (known : ∀ token ∈ tokens, token.IsKnown) (collapses : Collapses bindings functions tokens swept) :
    Respelled (Means bindings functions .primary) tokens swept := by
  induction collapses with
  | nil => exact .nil
  | @keep token rest swept _ _ ih =>
    exact .keep token (ih fun other member => known other (List.mem_cons_of_mem _ member))
  | @close opening rest inner closing after value opens _ closes evaluated _ ih =>
    have knownRest : ∀ token ∈ rest, token.IsKnown := fun other member => known other (List.mem_cons_of_mem _ member)
    have knownInner : ∀ token ∈ inner, token.IsKnown := fun other member =>
      respelled_known knownRest (ih knownRest) other (List.mem_append_left _ member)
    obtain ⟨first, second, rfl, respelledInner, respelledSecond⟩ := (ih knownRest).split
    obtain ⟨opening, rfl⟩ := exists_lparen opens
    obtain ⟨closing, rfl⟩ := exists_rparen closes
    obtain ⟨others, rfl, respelledAfter⟩ := respelledSecond.of_cons nofun
    have means := (means_of_evaluateFlat finite knownInner evaluated).spell_out (by decide) (Or.inl rfl) respelledInner
    have whole := Respelled.replace (.group opening closing means) respelledAfter
    simpa using whole

def NoGroup (token : Token) : Prop :=
  token.isOpen = false ∧ token.isClose = false

theorem noGroup_signs (run : List Bool) : ∀ token ∈ run.map signToken, NoGroup token := by
  intro token member
  obtain ⟨sign, _, rfl⟩ := List.mem_map.1 member
  exact ⟨rfl, rfl⟩

theorem collapses_signs (run : List Bool) :
    Collapses bindings functions (run.map signToken) (run.map signToken) :=
  .refl fun token member => (noGroup_signs run token member).1

/-- A phrase collapses to one without parentheses that means the same. -/
theorem collapses_of_means {phrase : Phrase} {tokens : List Token} {value : Float} (finite : bindings.AllFinite)
    (known : ∀ token ∈ tokens, token.IsKnown) (means : Means bindings functions phrase tokens value) :
    ∃ swept, Means bindings functions phrase swept value ∧ (∀ token ∈ swept, NoGroup token) ∧
      Collapses bindings functions tokens swept := by
  induction means with
  | number text value =>
    exact ⟨_, .number text value, List.forall_mem_singleton.2 ⟨rfl, rfl⟩, .keep rfl .nil⟩
  | bound binding =>
    exact ⟨_, .bound binding, List.forall_mem_singleton.2 ⟨rfl, rfl⟩, .keep rfl .nil⟩
  | @group opening closing tokens value _ ih =>
    have knownInner := (List.forall_mem_append.1 (List.forall_mem_cons.1 known).2).1
    obtain ⟨swept, means, noGroup, collapses⟩ := ih knownInner
    have knownSwept := respelled_known knownInner (collapses.respelled finite knownInner)
    have evaluated : (evaluateFlat groupRoom bindings functions swept).result = .ok value :=
      evaluateFlat_of_means finite knownSwept (fun token member => (noGroup token member).1) means
    have behind := collapses.append (.keep (show Token.isOpen (.rparen closing) = false from rfl) .nil)
    exact ⟨[.ofValue value], .number _ value, List.forall_mem_singleton.2 ⟨rfl, rfl⟩,
      .close rfl (fun token member => (noGroup token member).2) rfl evaluated behind⟩
  | call _ applied ih =>
    obtain ⟨swept, means, noGroup, collapses⟩ := ih (List.forall_mem_cons.1 known).2
    exact ⟨_, .call means applied, List.forall_mem_cons.2 ⟨⟨rfl, rfl⟩, noGroup⟩, .keep rfl collapses⟩
  | negatedCall _ applied ih =>
    obtain ⟨swept, means, noGroup, collapses⟩ := ih (List.forall_mem_cons.1 (List.forall_mem_cons.1 known).2).2
    exact ⟨_, .negatedCall means applied,
      List.forall_mem_cons.2 ⟨⟨rfl, rfl⟩, List.forall_mem_cons.2 ⟨⟨rfl, rfl⟩, noGroup⟩⟩,
      .keep rfl (.keep rfl collapses)⟩
  | ofPrimary _ ih =>
    obtain ⟨swept, means, others⟩ := ih known
    exact ⟨swept, .ofPrimary means, others⟩
  | ofPower _ ih =>
    obtain ⟨swept, means, others⟩ := ih known
    exact ⟨swept, .ofPower means, others⟩
  | power run _ _ computed ihLeft ihRight =>
    obtain ⟨knownLeft, _, _, knownRight⟩ := forall_mem_operation.1 known
    obtain ⟨left, meansLeft, noGroupLeft, collapsesLeft⟩ := ihLeft knownLeft
    obtain ⟨right, meansRight, noGroupRight, collapsesRight⟩ := ihRight knownRight
    exact ⟨_, .power run meansLeft meansRight computed,
      forall_mem_operation.2 ⟨noGroupLeft, ⟨rfl, rfl⟩, noGroup_signs run, noGroupRight⟩,
      collapsesLeft.append (.keep rfl ((collapses_signs run).append collapsesRight))⟩
  | product run _ isProduct minusFirst _ computed ihLeft ihRight =>
    obtain ⟨knownLeft, _, _, knownRight⟩ := forall_mem_operation.1 known
    obtain ⟨left, meansLeft, noGroupLeft, collapsesLeft⟩ := ihLeft knownLeft
    obtain ⟨right, meansRight, noGroupRight, collapsesRight⟩ := ihRight knownRight
    exact ⟨_, .product run meansLeft isProduct minusFirst meansRight computed,
      forall_mem_operation.2 ⟨noGroupLeft, ⟨rfl, rfl⟩, noGroup_signs run, noGroupRight⟩,
      collapsesLeft.append (.keep rfl ((collapses_signs run).append collapsesRight))⟩
  | firstTerm run _ ih =>
    obtain ⟨swept, means, noGroup, collapses⟩ := ih (List.forall_mem_append.1 known).2
    exact ⟨_, .firstTerm run means, List.forall_mem_append.2 ⟨noGroup_signs run, noGroup⟩,
      (collapses_signs run).append collapses⟩
  | @nextTerm _ _ _ _ run _ signed _ ihSum ihTerm =>
    obtain ⟨knownSum, knownRest⟩ := List.forall_mem_append.1 known
    obtain ⟨sum, meansSum, noGroupSum, collapsesSum⟩ := ihSum knownSum
    obtain ⟨term, meansTerm, noGroupTerm, collapsesTerm⟩ := ihTerm (List.forall_mem_append.1 knownRest).2
    exact ⟨_, .nextTerm meansSum signed meansTerm, List.forall_mem_append.2 ⟨noGroupSum, List.forall_mem_append.2
      ⟨noGroup_signs run, noGroupTerm⟩⟩, collapsesSum.append ((collapses_signs run).append collapsesTerm)⟩
  | ofSum _ isFinite ih =>
    obtain ⟨swept, means, others⟩ := ih known
    exact ⟨swept, .ofSum means isFinite, others⟩

/-- What a token list comes to is its meaning. -/
theorem means_of_evaluateTokens {tokens : List Token} {value : Float} (finite : bindings.AllFinite)
    (known : ∀ token ∈ tokens, token.IsKnown) (result : (evaluateTokens bindings functions tokens).result = .ok value) :
    Means bindings functions .expression tokens value := by
  obtain ⟨swept, collapses, _, evaluated⟩ := evaluateTokens_eq_ok.1 result
  have respelled := collapses.respelled finite known
  have means := means_of_evaluateFlat finite (respelled_known known respelled) evaluated
  exact means.spell_out (by decide) (Or.inl rfl) respelled

/-- A token list has a value exactly if it is an expression of the grammar with that value. -/
theorem evaluateTokens_eq_ok_iff {tokens : List Token} (finite : bindings.AllFinite)
    (known : ∀ token ∈ tokens, token.IsKnown) (value : Float) :
    (evaluateTokens bindings functions tokens).result = .ok value ↔
      Means bindings functions .expression tokens value := by
  constructor
  · exact means_of_evaluateTokens finite known
  · intro means
    obtain ⟨swept, meansSwept, noGroup, collapses⟩ := collapses_of_means finite known means
    have knownSwept := respelled_known known (collapses.respelled finite known)
    have evaluated : (evaluateFlat wholeRoom bindings functions swept).result = .ok value :=
      evaluateFlat_of_means finite knownSwept (fun token member => (noGroup token member).1) meansSwept
    exact evaluateTokens_eq_ok.2 ⟨swept, collapses, fun token member => (noGroup token member).2, evaluated⟩

/-- The list for `2*-half(x+4)-1`, with two for the variable. -/
theorem means_product_of_call :
    Means (.ofList [("x", .real 2.0)]) (.ofList [("half", fun x => .ok (x / 2.0))]) .expression
      [.number "2" 2.0, .operator .times, .operator .minus, .function "half", .lparen "(", .name "x" false,
        .operator .plus, .number "4" 4.0, .rparen ")", .operator .minus, .number "1" 1.0] (-7.0) := by
  have finite : Bindings.AllFinite (.ofList [("x", .real 2.0)]) := .single "x" rfl
  exact (evaluateTokens_eq_ok_iff finite (by decide) (-7.0)).1 rfl

end Reckoner.Evaluation
