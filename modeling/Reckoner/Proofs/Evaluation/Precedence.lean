import Mathlib
import Reckoner.Proofs.Evaluation.Signs

namespace Reckoner

/-- Whether a token can come from a text: its operator, if it is one, is an operator of arithmetic. -/
def Token.IsKnown : Token → Prop
  | .operator op => op ∈ Operator.all
  | _ => True

instance : DecidablePred Token.IsKnown
  | .operator op => inferInstanceAs (Decidable (op ∈ Operator.all))
  | .number .. | .lparen _ | .rparen _ | .function _ | .name .. => inferInstanceAs (Decidable True)

namespace Evaluation

variable {operators : List Operator}

theorem isSign_eq_false_of_isPower {token : Token} (known : token.IsKnown) (power : isPower token = true) :
    token.isSign = false := by
  obtain ⟨op, rfl⟩ := exists_operator_of_isOperatorIn power
  cases op with
  | unknown symbol other => simp [Token.IsKnown, Operator.all] at known
  | power => rfl
  | _ => exact Bool.noConfusion power

theorem isSign_eq_false_of_isProduct {token : Token} (known : token.IsKnown) (product : isProduct token = true) :
    token.isSign = false := by
  obtain ⟨op, rfl⟩ := exists_operator_of_isOperatorIn product
  cases op with
  | unknown symbol other => simp [Token.IsKnown, Operator.all] at known
  | times | divide => rfl
  | _ => exact Bool.noConfusion product

/-- Operators that are no signs, among tokens that can come from a text. -/
structure Unsigned (operators : List Operator) : Prop where
  noMinus : (Token.operator .minus).isOperatorIn operators = false
  noSign : ∀ {token : Token}, token.IsKnown → token.isOperatorIn operators = true → token.isSign = false

theorem unsigned_power : Unsigned [.power] :=
  ⟨rfl, isSign_eq_false_of_isPower⟩

theorem unsigned_products : Unsigned Operator.products :=
  ⟨rfl, isSign_eq_false_of_isProduct⟩

/-- Folds an operator token between two lists with the whole run of signs behind it. -/
def foldSignedAt : List Token × Token × List Token → Traced (List Token)
  | (before, .operator op, after) => foldSigned before op after
  | (before, token, after) => return before ++ token :: after

theorem clean_foldSignsAfterFrom (unsigned : Unsigned operators) {tokens : List Token}
    (clean : ∀ token ∈ tokens, token.isOperatorIn operators = false) (pending : Option Bool) :
    ∀ token ∈ foldSignsAfterFrom operators pending tokens, token.isOperatorIn operators = false := by
  intro token member
  rcases mem_foldSignsAfterFrom member with old | rfl
  · exact clean token old
  · exact unsigned.noMinus

theorem breakLast?_foldSignsAfter (unsigned : Unsigned operators) {tokens : List Token}
    (known : ∀ token ∈ tokens, token.IsKnown) :
    breakLast? (Token.isOperatorIn operators) (foldSignsAfter operators tokens) =
      (breakLast? (Token.isOperatorIn operators) tokens).map fun (before, token, after) =>
        (foldSignsAfter operators before, token, foldSignsAfterFrom operators (some false) after) := by
  rcases parts : breakLast? (Token.isOperatorIn operators) tokens with _ | ⟨before, token, after⟩
  · have clean := breakLast?_eq_none_iff.1 parts
    exact breakLast?_eq_none_iff.2 (clean_foldSignsAfterFrom unsigned clean none)
  · obtain ⟨rfl, isOperator, clean⟩ := eq_of_breakLast? parts
    have noSign := unsigned.noSign (known token (by simp)) isOperator
    rw [foldSignsAfter_operator before after isOperator noSign]
    exact breakLast?_append _ (clean_foldSignsAfterFrom unsigned clean _) isOperator

theorem breakFirst?_foldSignsAfter (unsigned : Unsigned operators) {tokens : List Token}
    (known : ∀ token ∈ tokens, token.IsKnown) :
    breakFirst? (Token.isOperatorIn operators) (foldSignsAfter operators tokens) =
      (breakFirst? (Token.isOperatorIn operators) tokens).map fun (before, token, after) =>
        (foldSignsAfter operators before, token, foldSignsAfterFrom operators (some false) after) := by
  rcases parts : breakFirst? (Token.isOperatorIn operators) tokens with _ | ⟨before, token, after⟩
  · have clean := breakFirst?_eq_none_iff.1 parts
    exact breakFirst?_eq_none_iff.2 (clean_foldSignsAfterFrom unsigned clean none)
  · obtain ⟨rfl, isOperator, clean⟩ := eq_of_breakFirst? parts
    have noSign := unsigned.noSign (known token (by simp)) isOperator
    rw [foldSignsAfter_operator before after isOperator noSign]
    exact breakFirst?_append _ (clean_foldSignsAfterFrom unsigned clean _) isOperator

theorem mem_of_readSigns {negative : Bool} {tokens : List Token} {token : Token}
    (member : token ∈ (readSigns negative tokens).2) : token ∈ tokens := by
  induction tokens generalizing negative with
  | nil => exact member
  | cons first rest ih =>
    rw [readSigns] at member
    split at member
    · exact List.mem_cons_of_mem first (ih member)
    · exact member

theorem eq_append_of_leftOperand? {tokens before : List Token} {left : Float}
    (found : leftOperand? tokens = some (before, left)) : ∃ text, tokens = before ++ [.number text left] := by
  rcases List.eq_nil_or_concat tokens with rfl | ⟨init, token, rfl⟩
  · exact nomatch found
  · rw [List.concat_eq_append, leftOperand?_append] at found
    cases token with
    | number text value =>
      cases found
      exact ⟨text, List.concat_eq_append⟩
    | _ => exact nomatch found

/-- What an operator needs to be folded, and what it leaves. -/
theorem foldSigned_eq_ok {before after folded : List Token} {op : Operator} :
    (foldSigned before op after).result = .ok folded ↔
      ∃ init leftText left negative rightText right rest value, before = init ++ [.number leftText left] ∧
        readSigns false after = (negative, .number rightText right :: rest) ∧
        compute left op ((if negative then -1.0 else 1.0) * right) = .ok value ∧
        folded = init ++ Token.ofValue value :: rest := by
  constructor
  · intro result
    obtain ⟨found, operands, result⟩ := Traced.result_bind_eq_ok.1 result
    obtain ⟨value, computed, rfl⟩ := Traced.result_bind_note_eq_ok.1 result
    unfold signedOperands at operands
    rcases atLeft : leftOperand? before with _ | ⟨init, left⟩
    · rw [atLeft] at operands
      exact nomatch operands
    · obtain ⟨leftText, whole⟩ := eq_append_of_leftOperand? atLeft
      unfold signedOperand? at operands
      rcases parts : readSigns false after with ⟨negative, _ | ⟨token, rest⟩⟩
      · rw [atLeft, parts] at operands
        exact nomatch operands
      · rw [atLeft, parts] at operands
        cases token with
        | number rightText right =>
          cases operands
          exact ⟨init, leftText, left, negative, rightText, right, rest, value, whole, rfl,
            Traced.result_ofFailing_eq_ok.1 computed, rfl⟩
        | _ => exact nomatch operands
  · rintro ⟨init, leftText, left, negative, rightText, right, rest, value, rfl, parts, computed, rfl⟩
    unfold foldSigned signedOperands signedOperand?
    rw [leftOperand?_append, parts]
    simp only [Traced.ofFailing, pure_bind, computed]
    rfl

theorem mem_of_foldSigned {before after folded : List Token} {op : Operator}
    (result : (foldSigned before op after).result = .ok folded) {token : Token} (member : token ∈ folded) :
    token ∈ before ∨ token ∈ after ∨ ∃ value, token = Token.ofValue value := by
  obtain ⟨init, _, _, _, _, _, rest, value, rfl, parts, _, rfl⟩ := foldSigned_eq_ok.1 result
  rcases List.mem_append.1 member with inBefore | inRest
  · exact Or.inl (List.mem_append_left _ inBefore)
  · rcases List.mem_cons.1 inRest with rfl | inAfter
    · exact Or.inr (Or.inr ⟨value, rfl⟩)
    · have read : token ∈ (readSigns false after).2 := by
        rw [parts]
        exact List.mem_cons_of_mem _ inAfter
      exact Or.inr (Or.inl (mem_of_readSigns read))

/-- A way to pick the operator that is folded next. -/
structure Picks (operators : List Operator) (pick : List Token → Option (List Token × Token × List Token)) : Prop where
  stops : ∀ {tokens}, pick tokens = none → ∀ token ∈ tokens, token.isOperatorIn operators = false
  parts : ∀ {tokens before token after}, pick tokens = some (before, token, after) →
    tokens = before ++ token :: after ∧ token.isOperatorIn operators = true
  folds : ∀ {tokens}, (∀ token ∈ tokens, token.IsKnown) → pick (foldSignsAfter operators tokens) =
    (pick tokens).map fun (before, token, after) =>
      (foldSignsAfter operators before, token, foldSignsAfterFrom operators (some false) after)

theorem picks_last (unsigned : Unsigned operators) : Picks operators (breakLast? (Token.isOperatorIn operators)) where
  stops := breakLast?_eq_none_iff.1
  parts found := ⟨(eq_of_breakLast? found).1, (eq_of_breakLast? found).2.1⟩
  folds known := breakLast?_foldSignsAfter unsigned known

theorem picks_first (unsigned : Unsigned operators) : Picks operators (breakFirst? (Token.isOperatorIn operators)) where
  stops := breakFirst?_eq_none_iff.1
  parts found := ⟨(eq_of_breakFirst? found).1, (eq_of_breakFirst? found).2.1⟩
  folds known := breakFirst?_foldSignsAfter unsigned known

variable {pick : List Token → Option (List Token × Token × List Token)} {tokens : List Token}

/-- One step of a reduction, once signs are folded. -/
def foldedRound (operators : List Operator) (pick : List Token → Option (List Token × Token × List Token))
    (tokens : List Token) : Option (Traced (List Token)) :=
  (pick (foldSignsAfter operators tokens)).map foldAt

/-- One step of a reduction that takes the run of signs behind its operator. -/
def signedRound (pick : List Token → Option (List Token × Token × List Token)) (tokens : List Token) :
    Option (Traced (List Token)) :=
  (pick tokens).map foldSignedAt

theorem rounds_foldSignsAfter (picks : Picks operators pick) (known : ∀ token ∈ tokens, token.IsKnown) (count : Nat) :
    rounds (foldedRound operators pick) count (foldSignsAfter operators tokens) =
      foldSignsAfter operators <$> rounds (signedRound pick) count tokens := by
  induction count generalizing tokens with
  | zero => rfl
  | succ count ih =>
    rcases found : pick tokens with _ | ⟨before, token, after⟩
    · rw [rounds_of_none (by simp [foldedRound, foldSignsAfter_idem, picks.folds known, found]),
        rounds_of_none (by simp [signedRound, found])]
      rfl
    · obtain ⟨rfl, isOperator⟩ := picks.parts found
      obtain ⟨op, rfl⟩ := exists_operator_of_isOperatorIn isOperator
      have folded : foldedRound operators pick (foldSignsAfter operators (before ++ .operator op :: after)) =
          some (foldSignsAfter operators <$> foldSigned before op after) := by
        simp only [foldedRound, foldSignsAfter_idem, picks.folds known, found, Option.map_some, foldAt,
          foldBinary_foldSignsAfter]
      have signed : signedRound pick (before ++ .operator op :: after) = some (foldSigned before op after) := by
        simp only [signedRound, found, Option.map_some, foldSignedAt]
      rw [rounds_succ_of_some folded, rounds_succ_of_some signed]
      simp only [map_eq_pure_bind, bind_assoc, pure_bind] at ih ⊢
      refine Traced.bind_congr_of_ok fun next result => ih fun token member => ?_
      rcases mem_of_foldSigned result member with inBefore | inAfter | ⟨value, rfl⟩
      · exact known token (List.mem_append_left _ inBefore)
      · exact known token (List.mem_append_right _ (List.mem_cons_of_mem _ inAfter))
      · trivial

/-- A reduction that leaves none of its operators does not need its signs folded beforehand. -/
theorem rounds_foldedRound (picks : Picks operators pick) (known : ∀ token ∈ tokens, token.IsKnown) {count : Nat}
    (cleared : ∀ left, (rounds (signedRound pick) count tokens).result = .ok left →
      ∀ token ∈ left, token.isOperatorIn operators = false) :
    rounds (foldedRound operators pick) count tokens = rounds (signedRound pick) count tokens := by
  have unfolded : foldSignsAfter operators <$> rounds (signedRound pick) count tokens =
      rounds (signedRound pick) count tokens := by
    rw [map_eq_pure_bind]
    conv_rhs => rw [← bind_pure (rounds (signedRound pick) count tokens)]
    refine Traced.bind_congr_of_ok fun left result => ?_
    rw [foldSignsAfter_of_clean (cleared left result)]
  rw [← unfolded, ← rounds_foldSignsAfter picks known]
  have sameRound :
    foldedRound operators pick (foldSignsAfter operators tokens) = foldedRound operators pick tokens := by
    simp only [foldedRound, foldSignsAfter_idem]
  rcases found : pick tokens with _ | ⟨before, token, after⟩
  · rw [foldSignsAfter_of_clean (picks.stops found)]
  · cases count with
    | zero =>
      have clean := cleared tokens rfl token
      obtain ⟨rfl, isOperator⟩ := picks.parts found
      exact absurd (clean (by simp)) (by simp [isOperator])
    | succ count =>
      obtain ⟨next, round⟩ : ∃ next, foldedRound operators pick tokens = some next := by
        rw [foldedRound, picks.folds known, found]
        exact ⟨_, rfl⟩
      rw [rounds_succ_of_some round, rounds_succ_of_some (sameRound.trans round)]

theorem reducePrecedence_eq_ok {tokens reduced : List Token} :
    (reducePrecedence tokens).result = .ok reduced ↔ ∃ powers products,
      (rounds powerRound (tokens.countP isPower) tokens).result = .ok powers ∧
        (rounds productRound (powers.countP isProduct) powers).result = .ok products ∧
          reduced = foldSigns products := by
  unfold reducePrecedence
  simp only [Traced.result_bind_eq_ok]
  constructor
  · rintro ⟨powers, isPowers, products, isProducts, same⟩
    cases same
    exact ⟨powers, products, isPowers, isProducts, rfl⟩
  · rintro ⟨powers, products, isPowers, isProducts, rfl⟩
    exact ⟨powers, isPowers, products, isProducts, rfl⟩

end Evaluation

end Reckoner
