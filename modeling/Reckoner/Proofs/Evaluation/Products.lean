import Mathlib
import Reckoner.Proofs.Evaluation.Precedence

namespace Reckoner.Evaluation

/-- An operator with its left operand, and whether the signs read behind it are negative. -/
structure OpenProduct where
  left : Float
  operator : Operator
  negative : Bool

/-- The state of the sweep: the list without products up to the left operand of the open one. -/
structure ProductSweep where
  done : List Token
  pending : Option OpenProduct

def openProduct (done : List Token) (op : Operator) : Traced ProductSweep :=
  match leftOperand? done with
  | none => Traced.fail (.missingLeftOperand op)
  | some (before, left) => return ⟨before, some ⟨left, op, false⟩⟩

def closeProduct (done : List Token) (product : OpenProduct) (value : Float) : Traced ProductSweep := do
  let right := (if product.negative then -1.0 else 1.0) * value
  let result ← Traced.ofFailing (compute product.left product.operator right)
  Traced.note (.operation product.left product.operator right result)
  return ⟨done ++ [Token.ofValue result], none⟩

def ProductSweep.take (sweep : ProductSweep) (token : Token) : Traced ProductSweep :=
  match sweep.pending with
  | none =>
    match token with
    | .operator op =>
      if op.isAmong Operator.products then openProduct sweep.done op else return ⟨sweep.done ++ [token], none⟩
    | _ => return ⟨sweep.done ++ [token], none⟩
  | some product =>
    if token.isSign then return ⟨sweep.done, some { product with negative := product.negative ^^ token.isMinus }⟩
    else match token with
      | .number _ value => closeProduct sweep.done product value
      | _ => Traced.fail (.missingRightOperand product.operator)

def ProductSweep.close (sweep : ProductSweep) : Traced (List Token) :=
  match sweep.pending with
  | none => return sweep.done
  | some product => Traced.fail (.missingRightOperand product.operator)

/-- Evaluates the products and quotients of a list from its start. -/
def sweepProducts (tokens : List Token) : Traced (List Token) :=
  tokens.foldlM ProductSweep.take ⟨[], none⟩ >>= ProductSweep.close

theorem signedOperand?_number {negative : Bool} {rest after : List Token} {text : String} {value : Float}
    (same : readSigns false after = readSigns negative (.number text value :: rest)) :
    signedOperand? after = some ((if negative then -1.0 else 1.0) * value, rest) := by
  rw [signedOperand?, same]
  rfl

theorem signedOperand?_other {negative : Bool} {rest after : List Token} {token : Token}
    (same : readSigns false after = readSigns negative (token :: rest)) (noSign : token.isSign = false)
    (noNumber : ∀ text value, token ≠ .number text value) : signedOperand? after = none := by
  have read : readSigns negative (token :: rest) = (negative, token :: rest) := if_neg (by simp [noSign])
  rw [signedOperand?, same, read]
  cases token with
  | number text value => exact (noNumber text value rfl).elim
  | _ => rfl

namespace ProductSweep

variable {done : List Token} {product : OpenProduct} {token : Token}

theorem take_other (noProduct : isProduct token = false) :
    (⟨done, none⟩ : ProductSweep).take token = pure ⟨done ++ [token], none⟩ := by
  cases token with
  | operator op => exact if_neg (ne_true_of_eq_false noProduct)
  | _ => rfl

theorem take_operator {op : Operator} (isProductOp : op.isAmong Operator.products = true) :
    (⟨done, none⟩ : ProductSweep).take (.operator op) = openProduct done op :=
  if_pos isProductOp

theorem take_sign (sign : token.isSign = true) :
    (⟨done, some product⟩ : ProductSweep).take token =
      pure ⟨done, some { product with negative := product.negative ^^ token.isMinus }⟩ :=
  if_pos sign

theorem take_missing (noSign : token.isSign = false) (noNumber : ∀ text value, token ≠ .number text value) :
    (⟨done, some product⟩ : ProductSweep).take token = Traced.fail (.missingRightOperand product.operator) := by
  cases token with
  | number text value => exact (noNumber text value rfl).elim
  | operator op => exact if_neg (ne_true_of_eq_false noSign)
  | _ => rfl

/-- What the sweep does with a token. It keeps a token outside products and opens a product at its operator; with an
open product it counts a sign, and closes the product with a number. -/
inductive Takes : ProductSweep → Token → ProductSweep → Prop
  | keep {done : List Token} {token : Token} (noProduct : isProduct token = false) :
      Takes ⟨done, none⟩ token ⟨done ++ [token], none⟩
  | opening {before : List Token} {text : String} {left : Float} {op : Operator}
      (isProductOp : op.isAmong Operator.products = true) :
      Takes ⟨before ++ [.number text left], none⟩ (.operator op) ⟨before, some ⟨left, op, false⟩⟩
  | sign {done : List Token} {product : OpenProduct} {token : Token} (sign : token.isSign = true) :
      Takes ⟨done, some product⟩ token ⟨done, some { product with negative := product.negative ^^ token.isMinus }⟩
  | closing {done : List Token} {product : OpenProduct} {text : String} {value result : Float}
      (computed : compute product.left product.operator ((if product.negative then -1.0 else 1.0) * value) =
        .ok result) :
      Takes ⟨done, some product⟩ (.number text value) ⟨done ++ [Token.ofValue result], none⟩

theorem takes_of_take {sweep next : ProductSweep} (taken : (sweep.take token).result = .ok next) :
    sweep.Takes token next := by
  obtain ⟨done, _ | product⟩ := sweep
  · cases isProductToken : isProduct token with
    | true =>
      obtain ⟨op, rfl⟩ := exists_operator_of_isOperatorIn isProductToken
      rw [take_operator isProductToken, openProduct] at taken
      rcases atLeft : leftOperand? done with _ | ⟨before, left⟩
      · rw [atLeft] at taken
        cases taken
      · rw [atLeft] at taken
        cases taken
        obtain ⟨text, rfl⟩ := eq_append_of_leftOperand? atLeft
        exact .opening isProductToken
    | false =>
      rw [take_other isProductToken] at taken
      cases taken
      exact .keep isProductToken
  · cases sign : token.isSign with
    | true =>
      rw [take_sign sign] at taken
      cases taken
      exact .sign sign
    | false =>
      cases token with
      | number text value =>
        obtain ⟨result, computed, rfl⟩ := Traced.result_bind_note_eq_ok.1 taken
        exact .closing (Traced.result_ofFailing_eq_ok.1 computed)
      | _ =>
        rw [take_missing sign nofun] at taken
        cases taken

/-- The sweep over a list, one token after the other. -/
inductive Runs : ProductSweep → List Token → ProductSweep → Prop
  | nil {sweep : ProductSweep} : Runs sweep [] sweep
  | cons {sweep next final : ProductSweep} {token : Token} {tokens : List Token} (takes : Takes sweep token next)
      (runs : Runs next tokens final) : Runs sweep (token :: tokens) final

theorem runs_of_foldlM {tokens : List Token} {sweep final : ProductSweep}
    (result : (tokens.foldlM take sweep).result = .ok final) : Runs sweep tokens final := by
  induction tokens generalizing sweep with
  | nil =>
    cases result
    exact .nil
  | cons token rest ih =>
    rw [List.foldlM_cons] at result
    obtain ⟨next, taken, later⟩ := Traced.result_bind_eq_ok.1 result
    exact .cons (takes_of_take taken) (ih later)

/-- A sweep comes to a list by a run that leaves no product open. -/
theorem runs_of_sweepProducts {tokens swept : List Token} (result : (sweepProducts tokens).result = .ok swept) :
    Runs ⟨[], none⟩ tokens ⟨swept, none⟩ := by
  obtain ⟨⟨done, _ | product⟩, run, closed⟩ := Traced.result_bind_eq_ok.1 result
  · cases closed
    exact runs_of_foldlM run
  · cases closed

theorem Takes.clean {sweep next : ProductSweep} (takes : sweep.Takes token next)
    (clean : ∀ token ∈ sweep.done, isProduct token = false) : ∀ token ∈ next.done, isProduct token = false := by
  cases takes with
  | keep noProduct => exact List.forall_mem_append.2 ⟨clean, List.forall_mem_singleton.2 noProduct⟩
  | opening => exact (List.forall_mem_append.1 clean).1
  | sign => exact clean
  | closing => exact List.forall_mem_append.2 ⟨clean, List.forall_mem_singleton.2 rfl⟩

theorem Runs.clean {tokens : List Token} {sweep final : ProductSweep} (runs : sweep.Runs tokens final)
    (clean : ∀ token ∈ sweep.done, isProduct token = false) : ∀ token ∈ final.done, isProduct token = false := by
  induction runs with
  | nil => exact clean
  | cons takes _ ih => exact ih (takes.clean clean)

end ProductSweep

theorem sweepProducts_clean {tokens swept : List Token} (result : (sweepProducts tokens).result = .ok swept) :
    ∀ token ∈ swept, isProduct token = false :=
  (ProductSweep.runs_of_sweepProducts result).clean (List.forall_mem_nil _)

theorem signedRound_product {done : List Token} (text : String) (left : Float) {op : Operator} (after : List Token)
    (clean : ∀ token ∈ done, isProduct token = false) (isProductOp : op.isAmong Operator.products = true) :
    signedRound (breakFirst? isProduct) (done ++ .number text left :: .operator op :: after) =
      some (foldSigned (done ++ [.number text left]) op after) := by
  have cleanLeft : ∀ token ∈ done ++ [.number text left], isProduct token = false :=
    List.forall_mem_append.2 ⟨clean, List.forall_mem_singleton.2 rfl⟩
  have found : isProduct (.operator op) = true := isProductOp
  rw [← List.singleton_append, ← List.append_assoc, signedRound, breakFirst?_append after cleanLeft found]
  rfl

section Rounds

variable {done rest after : List Token} {product : OpenProduct} {text : String} {count : Nat}

theorem rounds_of_missing_left {op : Operator} (clean : ∀ token ∈ done, isProduct token = false)
    (isProductOp : op.isAmong Operator.products = true) (noOperand : leftOperand? done = none) :
    rounds (signedRound (breakFirst? isProduct)) (count + 1) (done ++ .operator op :: rest) =
      Traced.fail (.missingLeftOperand op) := by
  have found : isProduct (.operator op) = true := isProductOp
  have missing : signedRound (breakFirst? isProduct) (done ++ .operator op :: rest) =
      some (Traced.fail (.missingLeftOperand op)) := by
    rw [signedRound, breakFirst?_append rest clean found, Option.map_some, foldSignedAt, foldSigned,
      signedOperands, noOperand]
    rfl
  exact rounds_succ_of_some missing _

theorem rounds_of_missing_right (clean : ∀ token ∈ done, isProduct token = false)
    (isProductOp : product.operator.isAmong Operator.products = true) (noOperand : signedOperand? after = none) :
    rounds (signedRound (breakFirst? isProduct)) (count + 1)
        (done ++ .number text product.left :: .operator product.operator :: after) =
      Traced.fail (.missingRightOperand product.operator) := by
  rw [rounds_succ_of_some (signedRound_product text product.left after clean isProductOp), foldSigned,
    signedOperands, leftOperand?_append, noOperand]
  rfl

theorem rounds_of_operand {value : Float} (clean : ∀ token ∈ done, isProduct token = false)
    (isProductOp : product.operator.isAmong Operator.products = true)
    (operand : signedOperand? after = some ((if product.negative then -1.0 else 1.0) * value, rest)) :
    rounds (signedRound (breakFirst? isProduct)) (count + 1)
        (done ++ .number text product.left :: .operator product.operator :: after) =
      closeProduct done product value >>= fun next =>
        rounds (signedRound (breakFirst? isProduct)) count (next.done ++ rest) := by
  rw [rounds_succ_of_some (signedRound_product text product.left after clean isProductOp), foldSigned,
    signedOperands, leftOperand?_append, operand, closeProduct]
  simp only [Traced.ofFailing, pure_bind, bind_assoc, List.append_assoc, List.singleton_append]

end Rounds

theorem closeProduct_clean {done : List Token} {product : OpenProduct} {value : Float} {next : ProductSweep}
    (clean : ∀ token ∈ done, isProduct token = false) (closed : (closeProduct done product value).result = .ok next) :
    next.pending = none ∧ ∀ token ∈ next.done, isProduct token = false := by
  obtain ⟨result, _, rfl⟩ := Traced.result_bind_note_eq_ok.1 closed
  exact ⟨rfl, List.forall_mem_append.2 ⟨clean, List.forall_mem_singleton.2 rfl⟩⟩

/-- The rounds that are left from a state of the sweep on. With an open product, `after` holds the signs that the
sweep has read already. -/
theorem rounds_take (tokens : List Token) (known : ∀ token ∈ tokens, token.IsKnown) :
    (∀ done : List Token, (∀ token ∈ done, isProduct token = false) →
      rounds (signedRound (breakFirst? isProduct)) (tokens.countP isProduct) (done ++ tokens) =
        tokens.foldlM ProductSweep.take ⟨done, none⟩ >>= ProductSweep.close) ∧
    ∀ (done after : List Token) (text : String) (product : OpenProduct), (∀ token ∈ done, isProduct token = false) →
      product.operator.isAmong Operator.products = true → readSigns false after = readSigns product.negative tokens →
      rounds (signedRound (breakFirst? isProduct)) (tokens.countP isProduct + 1)
          (done ++ .number text product.left :: .operator product.operator :: after) =
        tokens.foldlM ProductSweep.take ⟨done, some product⟩ >>= ProductSweep.close := by
  induction tokens with
  | nil =>
    refine ⟨fun done clean => ?_, fun done after text product clean isProductOp same => ?_⟩
    · rw [List.append_nil, List.foldlM_nil, pure_bind]
      rfl
    · have noOperand : signedOperand? after = none := by
        rw [signedOperand?, same]
        rfl
      rw [rounds_of_missing_right clean isProductOp noOperand]
      rfl
  | cons token rest ih =>
    obtain ⟨ihDone, ihOpen⟩ := ih fun other member => known other (List.mem_cons_of_mem token member)
    refine ⟨fun done clean => ?_, fun done after text product clean isProductOp same => ?_⟩
    · rw [List.foldlM_cons, bind_assoc]
      cases isProductToken : isProduct token with
      | true =>
        obtain ⟨op, rfl⟩ := exists_operator_of_isOperatorIn isProductToken
        rw [ProductSweep.take_operator isProductToken, List.countP_cons_of_pos isProductToken, openProduct]
        rcases atLeft : leftOperand? done with _ | ⟨before, left⟩
        · exact rounds_of_missing_left clean isProductToken atLeft
        · obtain ⟨text, rfl⟩ := eq_append_of_leftOperand? atLeft
          rw [List.append_assoc, List.singleton_append, pure_bind]
          exact ihOpen before rest text ⟨left, op, false⟩ (List.forall_mem_append.1 clean).1 isProductToken rfl
      | false =>
        have cleanNext := List.forall_mem_append.2 ⟨clean, List.forall_mem_singleton.2 isProductToken⟩
        rw [ProductSweep.take_other isProductToken, pure_bind,
          List.countP_cons_of_neg (ne_true_of_eq_false isProductToken), ← ihDone _ cleanNext, List.append_assoc,
          List.singleton_append]
    · rw [List.foldlM_cons, bind_assoc]
      cases sign : token.isSign with
      | true =>
        have noProduct : ¬ isProduct token = true := fun isProductToken => by
          rw [isSign_eq_false_of_isProduct (known token List.mem_cons_self) isProductToken] at sign
          exact Bool.noConfusion sign
        have read : readSigns product.negative (token :: rest) = readSigns (product.negative ^^ token.isMinus) rest :=
          if_pos sign
        rw [List.countP_cons_of_neg noProduct, ProductSweep.take_sign sign, pure_bind]
        exact ihOpen done after text { product with negative := product.negative ^^ token.isMinus } clean isProductOp
          (same.trans read)
      | false =>
        by_cases isNumber : ∃ written value, token = .number written value
        · obtain ⟨written, value, rfl⟩ := isNumber
          rw [List.countP_cons_of_neg Bool.false_ne_true,
            rounds_of_operand clean isProductOp (signedOperand?_number same)]
          refine Traced.bind_congr_of_ok fun next closed => ?_
          obtain ⟨noPending, cleanNext⟩ := closeProduct_clean clean closed
          rw [ihDone _ cleanNext, ← noPending]
        · have noNumber : ∀ written value, token ≠ .number written value :=
            fun written value same => isNumber ⟨written, value, same⟩
          rw [rounds_of_missing_right clean isProductOp (signedOperand?_other same sign noNumber),
            ProductSweep.take_missing sign noNumber]
          rfl

/-- Folding the first product again and again is one sweep from the start. -/
theorem rounds_productRound {tokens : List Token} (known : ∀ token ∈ tokens, token.IsKnown) :
    rounds productRound (tokens.countP isProduct) tokens = sweepProducts tokens := by
  have signed : rounds (signedRound (breakFirst? isProduct)) (tokens.countP isProduct) tokens = sweepProducts tokens :=
    (rounds_take tokens known).1 [] nofun
  have cleared : ∀ left, (rounds (signedRound (breakFirst? isProduct)) (tokens.countP isProduct) tokens).result =
      .ok left → ∀ token ∈ left, isProduct token = false := by
    intro left result
    rw [signed] at result
    exact sweepProducts_clean result
  rw [← signed]
  exact rounds_foldedRound (picks_first unsigned_products) known cleared

end Reckoner.Evaluation
