import Mathlib
import Reckoner.Proofs.Evaluation.Sum

namespace Reckoner.Evaluation

variable {operators : List Operator}

/-- Applies an operator to its operands. -/
def applied (left : Float) (op : Operator) (right : Float) : Traced Token := do
  let value ← Traced.ofFailing (compute left op right)
  Traced.note (.operation left op right value)
  return Token.ofValue value

/-- Combines the powers of a list from its end. What is still to be read is in `front`, its last token first. What has
been read is in `back`, and is only read again as a right operand. -/
def combinePowers : (front back : List Token) → Traced (List Token)
  | [], back => return back
  | .operator op :: front, back =>
    if op.isAmong [.power] then
      match front with
      | .number _ left :: front =>
        match rightOperand? back with
        | some (right, back) => do combinePowers front ((← applied left op right) :: back)
        | none => Traced.fail (.missingRightOperand op)
      | _ => Traced.fail (.missingLeftOperand op)
    else combinePowers front (.operator op :: back)
  | token :: front, back => combinePowers front (token :: back)

/-- A right operand stands at the start of a list, behind signs. -/
theorem eq_append_of_rightOperand? {tokens rest : List Token} {right : Float}
    (found : rightOperand? tokens = some (right, rest)) :
    ∃ signs text value, tokens = signs ++ .number text value :: rest ∧ ∀ token ∈ signs, token.isSign = true := by
  unfold rightOperand? at found
  split at found
  · cases found
    exact ⟨[], _, _, rfl, nofun⟩
  · split at found
    · rename_i op _ _ _ isSign
      cases found
      exact ⟨[.operator op], _, _, rfl, List.forall_mem_singleton.2 isSign⟩
    · exact nomatch found
  · exact nomatch found

theorem length_lt_of_rightOperand? {tokens rest : List Token} {right : Float}
    (found : rightOperand? tokens = some (right, rest)) : rest.length < tokens.length := by
  obtain ⟨signs, text, value, rfl, _⟩ := eq_append_of_rightOperand? found
  simp only [List.length_append, List.length_cons]
  omega

/-- Combines the products and quotients of a list from its start. What has been read is in `front`, its last token
first, and is only read again as a left operand. What is still to be read is in `back`. -/
def combineProducts : (front back : List Token) → Traced (List Token)
  | front, [] => return front.reverse
  | front, .operator op :: back =>
    if op.isAmong Operator.products then
      match front with
      | .number _ left :: front =>
        match _found : rightOperand? back with
        | some (right, back) => do combineProducts ((← applied left op right) :: front) back
        | none => Traced.fail (.missingRightOperand op)
      | _ => Traced.fail (.missingLeftOperand op)
    else combineProducts (.operator op :: front) back
  | front, token :: back => combineProducts (token :: front) back
termination_by _ back => back.length
decreasing_by
  · exact (length_lt_of_rightOperand? _found).trans (Nat.lt_succ_self _)
  · exact Nat.lt_succ_self _
  · exact Nat.lt_succ_self _

/-- Reduces powers, then products and quotients, then runs of signs, in one sweep each. -/
def reduceInTwoSweeps (tokens : List Token) : Traced (List Token) := do
  let tokens ← combinePowers (foldSignsAfter [.power] tokens).reverse []
  let tokens ← combineProducts [] (foldSignsAfter Operator.products tokens)
  return foldSigns tokens

section Folding

theorem length_foldSignsAfterFrom_le (pending : Option Bool) (tokens : List Token) :
    (foldSignsAfterFrom operators pending tokens).length ≤ tokens.length + if pending = some true then 1 else 0 := by
  induction tokens generalizing pending with
  | nil => rcases pending with _ | _ | _ <;> simp [foldSignsAfterFrom, operandSign]
  | cons token rest ih =>
    have behind :
      (foldSignsAfterFrom operators (if token.isOperatorIn operators then some false else none) rest).length ≤
        rest.length := by
      refine (ih _).trans_eq ?_
      cases token.isOperatorIn operators <;> rfl
    rcases pending with _ | negative
    · exact Nat.succ_le_succ behind
    · rw [foldSignsAfterFrom]
      split
      · refine (ih _).trans ?_
        rw [List.length_cons]
        split <;> omega
      · rw [List.length_append, List.length_cons, List.length_cons]
        cases negative <;> simp only [operandSign, Bool.false_eq_true, if_true, if_false, List.length_nil,
          List.length_singleton, Option.some.injEq] <;> omega

theorem length_foldSignsAfter_le (tokens : List Token) : (foldSignsAfter operators tokens).length ≤ tokens.length :=
  length_foldSignsAfterFrom_le none tokens

/-- A list with folded signs has them folded on both sides of a number. -/
theorem foldSignsAfter_split {before after : List Token} {text : String} {value : Float} :
    foldSignsAfter operators (before ++ .number text value :: after) = before ++ .number text value :: after ↔
      foldSignsAfter operators before = before ∧ foldSignsAfter operators after = after := by
  rw [foldSignsAfter_number]
  constructor
  · intro folded
    have shortBefore := @length_foldSignsAfter_le operators before
    have shortAfter := @length_foldSignsAfter_le operators after
    have whole := congrArg List.length folded
    simp only [List.length_append, List.length_cons] at whole
    obtain ⟨sameBefore, same⟩ := List.append_inj folded (by omega)
    exact ⟨sameBefore, (List.cons.inj same).2⟩
  · rintro ⟨sameBefore, sameAfter⟩
    rw [sameBefore, sameAfter]

/-- Folding does not reach the first operator, and leaves it. So a list that has none after folding had none before, and
folding does nothing to it. -/
theorem foldSignsAfter_eq_self {tokens : List Token}
    (clean : ∀ token ∈ foldSignsAfter operators tokens, token.isOperatorIn operators = false) :
    foldSignsAfter operators tokens = tokens := by
  induction tokens with
  | nil => rfl
  | cons token rest ih =>
    have first := clean token List.mem_cons_self
    have same : foldSignsAfter operators (token :: rest) = token :: foldSignsAfter operators rest := by
      rw [foldSignsAfter, foldSignsAfterFrom, first]
      rfl
    rw [same] at clean ⊢
    rw [ih fun other member => clean other (List.mem_cons_of_mem token member)]

/-- Folding puts no operator into a list but minus. -/
theorem countP_foldSignsAfterFrom_le (noMinus : (Token.operator .minus).isOperatorIn operators = false)
    (pending : Option Bool) (tokens : List Token) :
    (foldSignsAfterFrom operators pending tokens).countP (Token.isOperatorIn operators) ≤
      tokens.countP (Token.isOperatorIn operators) := by
  have none : ∀ negative, (operandSign negative).countP (Token.isOperatorIn operators) = 0 := by
    intro negative
    cases negative with
    | false => rfl
    | true => exact List.countP_cons_of_neg (ne_true_of_eq_false noMinus)
  induction tokens generalizing pending with
  | nil =>
    rcases pending with _ | negative
    · rfl
    · exact (none negative).le
  | cons token rest ih =>
    rcases pending with _ | negative
    · simp only [foldSignsAfterFrom, List.countP_cons]
      exact Nat.add_le_add_right (ih _) _
    · rw [foldSignsAfterFrom]
      split
      · exact (ih _).trans (List.countP_cons ▸ Nat.le_add_right _ _)
      · simp only [List.countP_append, List.countP_cons, none, Nat.zero_add]
        exact Nat.add_le_add_right (ih _) _

/-- The rounds of a reduction start with folding the signs of the list. -/
theorem rounds_start {pick : List Token → Option (List Token × Token × List Token)}
    (stops : ∀ {tokens}, pick tokens = none → ∀ token ∈ tokens, token.isOperatorIn operators = false)
    (tokens : List Token) :
    rounds (foldedRound operators pick) (tokens.countP (Token.isOperatorIn operators)) tokens =
      rounds (foldedRound operators pick) (tokens.countP (Token.isOperatorIn operators))
        (foldSignsAfter operators tokens) := by
  have sameRound :
    foldedRound operators pick (foldSignsAfter operators tokens) = foldedRound operators pick tokens := by
    simp only [foldedRound, foldSignsAfter_idem]
  rcases found : pick (foldSignsAfter operators tokens) with _ | parts
  · rw [foldSignsAfter_eq_self (stops found)]
  · have round : foldedRound operators pick tokens = some (foldAt parts) := by rw [foldedRound, found]; rfl
    cases count : tokens.countP (Token.isOperatorIn operators) with
    | zero =>
      rw [foldSignsAfter_of_clean fun token member => Bool.eq_false_iff.2 (List.countP_eq_zero.1 count token member)]
    | succ count => rw [rounds_succ_of_some round, rounds_succ_of_some (sameRound.trans round)]

end Folding

section Operands

variable {front back rest : List Token} {op : Operator} {left right : Float} {text : String}

theorem leftOperand?_reverse_cons (token : Token) (front : List Token) :
    leftOperand? (token :: front).reverse =
      match token with
      | .number _ value => some (front.reverse, value)
      | _ => none := by
  rw [List.reverse_cons]
  exact leftOperand?_append _ token

theorem foldBinary_reverse (found : rightOperand? back = some (right, rest)) :
    foldBinary (.number text left :: front).reverse op back =
      applied left op right >>= fun token => pure (front.reverse ++ token :: rest) := by
  rw [foldBinary, operands, leftOperand?_reverse_cons]
  simp only [found, Traced.ofFailing, pure_bind, applied, bind_assoc]

theorem foldBinary_missingRight (missing : rightOperand? back = none) :
    foldBinary (.number text left :: front).reverse op back = Traced.fail (.missingRightOperand op) := by
  rw [foldBinary, operands, leftOperand?_reverse_cons]
  simp only [missing]
  rfl

theorem foldBinary_missingLeft (missing : ∀ text left rest, front = .number text left :: rest → False) :
    foldBinary front.reverse op back = Traced.fail (.missingLeftOperand op) := by
  have none : leftOperand? front.reverse = none := by
    cases front with
    | nil => rfl
    | cons token front =>
      rw [leftOperand?_reverse_cons]
      cases token with
      | number text left => exact (missing text left front rfl).elim
      | _ => rfl
  rw [foldBinary, operands, none]
  rfl

theorem applied_eq_ok {token : Token} :
    (applied left op right).result = .ok token ↔
      ∃ value, compute left op right = .ok value ∧ token = Token.ofValue value := by
  rw [applied, Traced.result_bind_note_eq_ok]
  simp only [Traced.result_ofFailing_eq_ok]

/-- What is left of a list with folded signs has its signs folded, when a result takes the place of an operator and its
operands. -/
theorem foldSignsAfter_combined {token : Token} (found : rightOperand? back = some (right, rest))
    (result : (applied left op right).result = .ok token)
    (folded : foldSignsAfter operators (front.reverse ++ .number text left :: .operator op :: back) =
      front.reverse ++ .number text left :: .operator op :: back) :
    foldSignsAfter operators (front.reverse ++ token :: rest) = front.reverse ++ token :: rest := by
  obtain ⟨signs, rightText, value, rfl, _⟩ := eq_append_of_rightOperand? found
  obtain ⟨value, _, rfl⟩ := applied_eq_ok.1 result
  obtain ⟨before, after⟩ := foldSignsAfter_split.1 folded
  rw [← List.cons_append] at after
  exact foldSignsAfter_split.2 ⟨before, (foldSignsAfter_split.1 after).2⟩

theorem mem_of_rightOperand? {token : Token} (found : rightOperand? back = some (right, rest)) (member : token ∈ rest) :
    token ∈ back := by
  obtain ⟨signs, text, value, rfl, _⟩ := eq_append_of_rightOperand? found
  exact List.mem_append_right _ (List.mem_cons_of_mem _ member)

end Operands

section Sweeps

variable {front back : List Token} {op : Operator}

theorem powerRound_last (isPowerOp : op.isAmong [.power] = true) (clean : ∀ token ∈ back, isPower token = false)
    (folded : foldSignsAfter [.power] (front.reverse ++ .operator op :: back) = front.reverse ++ .operator op :: back) :
    powerRound (front.reverse ++ .operator op :: back) = some (foldBinary front.reverse op back) := by
  have found : isPower (.operator op) = true := isPowerOp
  rw [powerRound, folded, breakLast?_append front.reverse clean found]
  rfl

theorem productRound_first (isProductOp : op.isAmong Operator.products = true)
    (clean : ∀ token ∈ front, isProduct token = false)
    (folded : foldSignsAfter Operator.products (front.reverse ++ .operator op :: back) =
      front.reverse ++ .operator op :: back) :
    productRound (front.reverse ++ .operator op :: back) = some (foldBinary front.reverse op back) := by
  have cleanReverse : ∀ token ∈ front.reverse, isProduct token = false :=
    fun token member => clean token (List.mem_reverse.1 member)
  have found : isProduct (.operator op) = true := isProductOp
  rw [productRound, folded, breakFirst?_append back cleanReverse found]
  rfl

theorem exists_succ_of_countP_cons {rest : List Token} {count : Nat} (among : op.isAmong operators = true)
    (enough : (.operator op :: rest).countP (Token.isOperatorIn operators) ≤ count) :
    ∃ others, count = others + 1 ∧ rest.countP (Token.isOperatorIn operators) ≤ others := by
  have holds : (Token.operator op).isOperatorIn operators = true := among
  rw [List.countP_cons_of_pos holds] at enough
  exact ⟨count - 1, by omega, by omega⟩

/-- The rounds that are left where the sweep has come to. Behind that place there are no powers. -/
theorem rounds_combinePowers (clean : ∀ token ∈ back, isPower token = false)
    (folded : foldSignsAfter [.power] (front.reverse ++ back) = front.reverse ++ back) {count : Nat}
    (enough : front.countP isPower ≤ count) :
    rounds powerRound count (front.reverse ++ back) = combinePowers front back := by
  fun_induction combinePowers front back generalizing count with
  | case1 back =>
    have stops : powerRound back = none := by
      rw [powerRound, foldSignsAfter_of_clean clean, breakLast?_eq_none_iff.2 clean]
      rfl
    exact rounds_of_none stops count
  | case2 op back isPowerOp text left front right rest found ih =>
    obtain ⟨count, rfl, fewer⟩ := exists_succ_of_countP_cons isPowerOp enough
    rw [List.reverse_cons, List.append_assoc, List.singleton_append] at folded ⊢
    rw [rounds_succ_of_some (powerRound_last isPowerOp clean folded), foldBinary_reverse found, bind_assoc]
    refine Traced.bind_congr_of_ok fun token result => ?_
    rw [pure_bind]
    rw [List.reverse_cons, List.append_assoc, List.singleton_append] at folded
    obtain ⟨value, _, rfl⟩ := applied_eq_ok.1 result
    have cleanNext : ∀ token ∈ Token.ofValue value :: rest, isPower token = false :=
      List.forall_mem_cons.2 ⟨rfl, fun other member => clean other (mem_of_rightOperand? found member)⟩
    exact ih _ cleanNext (foldSignsAfter_combined found result folded) fewer
  | case3 op back isPowerOp text left front missing =>
    obtain ⟨count, rfl, _⟩ := exists_succ_of_countP_cons isPowerOp enough
    rw [List.reverse_cons, List.append_assoc, List.singleton_append] at folded ⊢
    rw [rounds_succ_of_some (powerRound_last isPowerOp clean folded), foldBinary_missingRight missing]
    rfl
  | case4 op front back isPowerOp missing =>
    obtain ⟨count, rfl, _⟩ := exists_succ_of_countP_cons isPowerOp enough
    rw [List.reverse_cons, List.append_assoc, List.singleton_append] at folded ⊢
    rw [rounds_succ_of_some (powerRound_last isPowerOp clean folded), foldBinary_missingLeft missing]
    rfl
  | case5 op front back isOther ih =>
    have noPower : isPower (.operator op) = false := Bool.eq_false_iff.2 isOther
    rw [List.countP_cons_of_neg (ne_true_of_eq_false noPower)] at enough
    rw [List.reverse_cons, List.append_assoc, List.singleton_append] at folded ⊢
    exact ih (List.forall_mem_cons.2 ⟨noPower, clean⟩) folded enough
  | case6 token front back isOther ih =>
    have noPower : isPower token = false := isOperatorIn_eq_false isOther
    rw [List.countP_cons_of_neg (ne_true_of_eq_false noPower)] at enough
    rw [List.reverse_cons, List.append_assoc, List.singleton_append] at folded ⊢
    exact ih (List.forall_mem_cons.2 ⟨noPower, clean⟩) folded enough

/-- The rounds that are left where the sweep has come to. Before that place there are no products or quotients. -/
theorem rounds_combineProducts (clean : ∀ token ∈ front, isProduct token = false)
    (folded : foldSignsAfter Operator.products (front.reverse ++ back) = front.reverse ++ back) {count : Nat}
    (enough : back.countP isProduct ≤ count) :
    rounds productRound count (front.reverse ++ back) = combineProducts front back := by
  fun_induction combineProducts front back generalizing count with
  | case1 front =>
    have cleanReverse : ∀ token ∈ front.reverse ++ [], isProduct token = false := fun token member =>
      clean token (List.mem_reverse.1 (List.append_nil front.reverse ▸ member))
    have stops : productRound (front.reverse ++ []) = none := by
      rw [productRound, folded, breakFirst?_eq_none_iff.2 cleanReverse]
      rfl
    rw [rounds_of_none stops, List.append_nil]
  | case2 op back isProductOp text left front right rest found ih =>
    obtain ⟨count, rfl, fewer⟩ := exists_succ_of_countP_cons isProductOp enough
    rw [rounds_succ_of_some (productRound_first isProductOp clean folded), foldBinary_reverse found, bind_assoc]
    refine Traced.bind_congr_of_ok fun token result => ?_
    rw [pure_bind]
    rw [List.reverse_cons, List.append_assoc, List.singleton_append] at folded
    have foldedNext := foldSignsAfter_combined found result folded
    obtain ⟨value, _, rfl⟩ := applied_eq_ok.1 result
    have cleanNext : ∀ token ∈ Token.ofValue value :: front, isProduct token = false :=
      List.forall_mem_cons.2 ⟨rfl, fun other member => clean other (List.mem_cons_of_mem _ member)⟩
    have behind : rest.countP isProduct ≤ back.countP isProduct := by
      obtain ⟨signs, rightText, number, rfl, _⟩ := eq_append_of_rightOperand? found
      rw [List.countP_append, List.countP_cons]
      omega
    have next := ih (Token.ofValue value) cleanNext
    rw [List.reverse_cons, List.append_assoc, List.singleton_append] at next
    exact next foldedNext (behind.trans fewer)
  | case3 op back isProductOp text left front missing =>
    obtain ⟨count, rfl, _⟩ := exists_succ_of_countP_cons isProductOp enough
    rw [rounds_succ_of_some (productRound_first isProductOp clean folded), foldBinary_missingRight missing]
    rfl
  | case4 front op back isProductOp missing =>
    obtain ⟨count, rfl, _⟩ := exists_succ_of_countP_cons isProductOp enough
    rw [rounds_succ_of_some (productRound_first isProductOp clean folded), foldBinary_missingLeft missing]
    rfl
  | case5 front op back isOther ih =>
    have noProduct : isProduct (.operator op) = false := Bool.eq_false_iff.2 isOther
    rw [List.countP_cons_of_neg (ne_true_of_eq_false noProduct)] at enough
    rw [List.reverse_cons, List.append_assoc, List.singleton_append] at ih
    exact ih (List.forall_mem_cons.2 ⟨noProduct, clean⟩) folded enough
  | case6 front token back isOther ih =>
    have noProduct : isProduct token = false := isOperatorIn_eq_false isOther
    rw [List.countP_cons_of_neg (ne_true_of_eq_false noProduct)] at enough
    rw [List.reverse_cons, List.append_assoc, List.singleton_append] at ih
    exact ih (List.forall_mem_cons.2 ⟨noProduct, clean⟩) folded enough

theorem rounds_powerRound_eq (tokens : List Token) :
    rounds powerRound (tokens.countP isPower) tokens = combinePowers (foldSignsAfter [.power] tokens).reverse [] := by
  have start : rounds powerRound (tokens.countP isPower) tokens =
      rounds powerRound (tokens.countP isPower) (foldSignsAfter [.power] tokens) :=
    rounds_start breakLast?_eq_none_iff.1 tokens
  have enough : (foldSignsAfter [.power] tokens).reverse.countP isPower ≤ tokens.countP isPower := by
    rw [List.countP_reverse]
    exact countP_foldSignsAfterFrom_le rfl none tokens
  have folded : foldSignsAfter [.power] ((foldSignsAfter [.power] tokens).reverse.reverse ++ []) =
      (foldSignsAfter [.power] tokens).reverse.reverse ++ [] := by
    rw [List.reverse_reverse, List.append_nil, foldSignsAfter_idem]
  rw [start, ← rounds_combinePowers (List.forall_mem_nil _) folded enough, List.reverse_reverse, List.append_nil]

theorem rounds_productRound_eq (tokens : List Token) :
    rounds productRound (tokens.countP isProduct) tokens =
      combineProducts [] (foldSignsAfter Operator.products tokens) := by
  have start : rounds productRound (tokens.countP isProduct) tokens =
      rounds productRound (tokens.countP isProduct) (foldSignsAfter Operator.products tokens) :=
    rounds_start breakFirst?_eq_none_iff.1 tokens
  have enough : (foldSignsAfter Operator.products tokens).countP isProduct ≤ tokens.countP isProduct :=
    countP_foldSignsAfterFrom_le rfl none tokens
  exact start.trans (rounds_combineProducts (List.forall_mem_nil _) (foldSignsAfter_idem tokens) enough)

theorem reducePrecedence_eq (tokens : List Token) : reducePrecedence tokens = reduceInTwoSweeps tokens := by
  simp only [reducePrecedence, reduceInTwoSweeps, rounds_powerRound_eq, rounds_productRound_eq]

/-- What a reduction leaves comes from the two sweeps. -/
theorem eq_foldSigns_of_reducePrecedence {tokens reduced : List Token}
    (result : (reducePrecedence tokens).result = .ok reduced) : ∃ powered multiplied,
      (combinePowers (foldSignsAfter [.power] tokens).reverse []).result = .ok powered ∧
        (combineProducts [] (foldSignsAfter Operator.products powered)).result = .ok multiplied ∧
        reduced = foldSigns multiplied := by
  obtain ⟨powered, multiplied, combined, multiplies, left⟩ := reducePrecedence_eq_ok.1 result
  rw [rounds_powerRound_eq] at combined
  rw [rounds_productRound_eq] at multiplies
  exact ⟨powered, multiplied, combined, multiplies, left⟩

end Sweeps

section Left

/-- The operators that take two numbers and leave one. -/
def isBinary : Token → Bool
  | .operator .power | .operator .times | .operator .divide => true
  | _ => false

def isNumber : Token → Bool
  | .number .. => true
  | _ => false

/-- How many more numbers than operators with two operands a list has. -/
def surplus (tokens : List Token) : Int :=
  tokens.countP isNumber - tokens.countP isBinary

theorem surplus_append (first second : List Token) : surplus (first ++ second) = surplus first + surplus second := by
  simp only [surplus, List.countP_append]
  omega

theorem surplus_cons (token : Token) (rest : List Token) : surplus (token :: rest) = surplus [token] + surplus rest :=
  surplus_append [token] rest

theorem surplus_reverse (tokens : List Token) : surplus tokens.reverse = surplus tokens := by
  simp only [surplus, List.countP_reverse]

theorem surplus_number (text : String) (value : Float) : surplus [.number text value] = 1 := rfl

theorem surplus_sign {token : Token} (sign : token.isSign = true) : surplus [token] = 0 := by
  obtain ⟨op, rfl⟩ := exists_operator_of_isOperatorIn sign
  cases op with
  | plus | minus | unknown => rfl
  | _ => exact Bool.noConfusion sign

theorem surplus_signs {tokens : List Token} (signs : ∀ token ∈ tokens, token.isSign = true) : surplus tokens = 0 := by
  induction tokens with
  | nil => rfl
  | cons token rest ih =>
    obtain ⟨sign, later⟩ := List.forall_mem_cons.1 signs
    rw [surplus_cons, surplus_sign sign, ih later, Int.zero_add]

theorem surplus_foldSignsAfterFrom (pending : Option Bool) (tokens : List Token) :
    surplus (foldSignsAfterFrom operators pending tokens) = surplus tokens := by
  have none (negative : Bool) : surplus (operandSign negative) = 0 := by cases negative <;> rfl
  induction tokens generalizing pending with
  | nil =>
    rcases pending with _ | negative
    · rfl
    · exact none negative
  | cons token rest ih =>
    rcases pending with _ | negative
    · rw [foldSignsAfterFrom, surplus_cons, ih, ← surplus_cons]
    · rw [foldSignsAfterFrom]
      split
      · rename_i sign
        rw [ih, surplus_cons token, surplus_sign sign, Int.zero_add]
      · rw [surplus_append, none, surplus_cons, ih, ← surplus_cons, Int.zero_add]

theorem surplus_foldSignsFrom {pending : Option Token} (tokens : List Token)
    (sign : ∀ token ∈ pending, token.isSign = true) : surplus (foldSignsFrom pending tokens) = surplus tokens := by
  fun_induction foldSignsFrom pending tokens with
  | case1 => rfl
  | case2 token => exact surplus_sign (sign token rfl)
  | case3 token rest isSign ih =>
    rw [ih fun other same => Option.some.inj same ▸ isSign, surplus_cons, surplus_sign isSign, Int.zero_add]
  | case4 token rest noSign ih => rw [surplus_cons, ih nofun, ← surplus_cons]
  | case5 sign token rest isSign ih =>
    rw [ih fun other same => Option.some.inj same ▸ isSign_signToken _, surplus_cons, surplus_sign isSign, Int.zero_add]
  | case6 first token rest noSign ih =>
    rw [surplus_cons, surplus_sign (sign first rfl), surplus_cons, ih nofun, ← surplus_cons, Int.zero_add]

theorem surplus_rightOperand? {tokens rest : List Token} {right : Float}
    (found : rightOperand? tokens = some (right, rest)) : surplus tokens = 1 + surplus rest := by
  obtain ⟨signs, text, value, rfl, isSign⟩ := eq_append_of_rightOperand? found
  rw [surplus_append, surplus_signs isSign, surplus_cons, surplus_number, Int.zero_add]

/-- Only operators with two operands are ever applied. -/
theorem surplus_operator {left right value : Float} {op : Operator} (computed : compute left op right = .ok value) :
    surplus [.operator op] = -1 := by
  cases op with
  | power | times | divide => rfl
  | _ => exact nomatch computed

theorem isBinary_eq_false {token : Token} (neither : isPower token = false ∧ isProduct token = false) :
    isBinary token = false := by
  unfold isBinary
  split
  · exact Bool.noConfusion neither.1
  · exact Bool.noConfusion neither.2
  · exact Bool.noConfusion neither.2
  · rfl

/-- Applying an operator turns two numbers into one. -/
theorem surplus_applied {op : Operator} {left right : Float} {text : String} {token : Token} {tokens rest : List Token}
    (found : rightOperand? tokens = some (right, rest)) (result : (applied left op right).result = .ok token) :
    surplus [.operator op] + surplus [.number text left] + surplus tokens = surplus (token :: rest) := by
  obtain ⟨value, computed, rfl⟩ := applied_eq_ok.1 result
  rw [surplus_operator computed, surplus_number, surplus_rightOperand? found, surplus_cons]
  change _ = 1 + _
  omega

variable {front back swept : List Token} {property : Token → Prop}

theorem surplus_combinePowers (result : (combinePowers front back).result = .ok swept) :
    surplus swept = surplus front + surplus back := by
  fun_induction combinePowers front back with
  | case1 back =>
    cases result
    exact (Int.zero_add _).symm
  | case2 op back isPowerOp text left front right rest found ih =>
    obtain ⟨token, applies, result⟩ := Traced.result_bind_eq_ok.1 result
    have balance := @surplus_applied op left right text token back rest found applies
    rw [ih token result, ← balance, surplus_cons _ (_ :: front), surplus_cons _ front]
    ring
  | case3 => exact nomatch result
  | case4 => exact nomatch result
  | case5 op front back isOther ih =>
    rw [ih result, surplus_cons _ back, surplus_cons _ front]
    ring
  | case6 token front back isOther ih =>
    rw [ih result, surplus_cons _ back, surplus_cons _ front]
    ring

/-- The sweep of the powers leaves numbers of its own, what it had read, and what it comes to that is no power. -/
theorem forall_combinePowers (number : ∀ text value, property (.number text value))
    (read : ∀ token ∈ back, property token)
    (unread : ∀ token ∈ front, isPower token = false → property token)
    (result : (combinePowers front back).result = .ok swept) : ∀ token ∈ swept, property token := by
  fun_induction combinePowers front back with
  | case1 back =>
    cases result
    exact read
  | case2 op back isPowerOp text left front right rest found ih =>
    obtain ⟨token, applies, result⟩ := Traced.result_bind_eq_ok.1 result
    obtain ⟨value, _, rfl⟩ := applied_eq_ok.1 applies
    obtain ⟨_, behind⟩ := List.forall_mem_cons.1 unread
    obtain ⟨_, later⟩ := List.forall_mem_cons.1 behind
    exact ih _ (List.forall_mem_cons.2
      ⟨number _ value, fun other member => read other (mem_of_rightOperand? found member)⟩)
      later result
  | case3 => exact nomatch result
  | case4 => exact nomatch result
  | case5 op front back isOther ih =>
    obtain ⟨first, later⟩ := List.forall_mem_cons.1 unread
    exact ih (List.forall_mem_cons.2 ⟨first (Bool.eq_false_iff.2 isOther), read⟩) later result
  | case6 token front back isOther ih =>
    obtain ⟨first, later⟩ := List.forall_mem_cons.1 unread
    have noPower : isPower token = false := isOperatorIn_eq_false isOther
    exact ih (List.forall_mem_cons.2 ⟨first noPower, read⟩) later result

theorem surplus_combineProducts (result : (combineProducts front back).result = .ok swept) :
    surplus swept = surplus front + surplus back := by
  fun_induction combineProducts front back with
  | case1 front =>
    cases result
    rw [surplus_reverse]
    exact (Int.add_zero _).symm
  | case2 op back isProductOp text left front right rest found ih =>
    obtain ⟨token, applies, result⟩ := Traced.result_bind_eq_ok.1 result
    have balance := @surplus_applied op left right text token back rest found applies
    rw [surplus_cons token rest] at balance
    rw [ih token result, surplus_cons token front, surplus_cons _ front, surplus_cons _ back]
    omega
  | case3 => exact nomatch result
  | case4 => exact nomatch result
  | case5 front op back isOther ih =>
    rw [ih result, surplus_cons _ front, surplus_cons _ back]
    ring
  | case6 front token back isOther ih =>
    rw [ih result, surplus_cons _ front, surplus_cons _ back]
    ring

/-- The sweep of the products leaves numbers of its own, what it had read, and what it comes to that is no product. -/
theorem forall_combineProducts (number : ∀ text value, property (.number text value))
    (read : ∀ token ∈ front, property token) (unread : ∀ token ∈ back, isProduct token = false → property token)
    (result : (combineProducts front back).result = .ok swept) : ∀ token ∈ swept, property token := by
  fun_induction combineProducts front back with
  | case1 front =>
    cases result
    exact fun token member => read token (List.mem_reverse.1 member)
  | case2 op back isProductOp text left front right rest found ih =>
    obtain ⟨token, applies, result⟩ := Traced.result_bind_eq_ok.1 result
    obtain ⟨value, _, rfl⟩ := applied_eq_ok.1 applies
    obtain ⟨_, others⟩ := List.forall_mem_cons.1 read
    obtain ⟨_, later⟩ := List.forall_mem_cons.1 unread
    exact ih _ (List.forall_mem_cons.2 ⟨number _ value, others⟩)
      (fun other member => later other (mem_of_rightOperand? found member)) result
  | case3 => exact nomatch result
  | case4 => exact nomatch result
  | case5 front op back isOther ih =>
    obtain ⟨first, later⟩ := List.forall_mem_cons.1 unread
    exact ih (List.forall_mem_cons.2 ⟨first (Bool.eq_false_iff.2 isOther), read⟩) later result
  | case6 front token back isOther ih =>
    obtain ⟨first, later⟩ := List.forall_mem_cons.1 unread
    have noProduct : isProduct token = false := isOperatorIn_eq_false isOther
    exact ih (List.forall_mem_cons.2 ⟨first noProduct, read⟩) later result

theorem forall_foldSignsFrom {pending : Option Token} {tokens : List Token}
    (sign : ∀ negative, property (signToken negative))
    (held : ∀ token ∈ pending, property token) (all : ∀ token ∈ tokens, property token) :
    ∀ token ∈ foldSignsFrom pending tokens, property token := by
  fun_induction foldSignsFrom pending tokens with
  | case1 => exact all
  | case2 token => exact List.forall_mem_singleton.2 (held token rfl)
  | case3 token rest isSign ih =>
    obtain ⟨first, later⟩ := List.forall_mem_cons.1 all
    exact ih (fun other same => Option.some.inj same ▸ first) later
  | case4 token rest noSign ih =>
    obtain ⟨first, later⟩ := List.forall_mem_cons.1 all
    exact List.forall_mem_cons.2 ⟨first, ih nofun later⟩
  | case5 held token rest isSign ih =>
    exact ih (fun other same => Option.some.inj same ▸ sign _) (List.forall_mem_cons.1 all).2
  | case6 pending token rest noSign ih =>
    obtain ⟨first, later⟩ := List.forall_mem_cons.1 all
    exact List.forall_mem_cons.2 ⟨held pending rfl, List.forall_mem_cons.2 ⟨first, ih nofun later⟩⟩

/-- Folded runs leave no two signs next to each other. -/
theorem isChain_foldSignsFrom (pending : Option Token) (tokens : List Token) :
    (foldSignsFrom pending tokens).IsChain fun first second => ¬ (first.isSign = true ∧ second.isSign = true) := by
  fun_induction foldSignsFrom pending tokens with
  | case1 => exact .nil
  | case2 token => exact .singleton token
  | case3 token rest isSign ih => exact ih
  | case4 token rest noSign ih => exact List.isChain_cons.2 ⟨fun next _ both => noSign both.1, ih⟩
  | case5 sign token rest isSign ih => exact ih
  | case6 sign token rest noSign ih =>
    refine .cons_cons (fun both => noSign both.2) (List.isChain_cons.2 ⟨fun next _ both => noSign both.1, ih⟩)

end Left

/-- Reduction comes to the same as two sweeps, with the same steps: to the same tokens, or to the same failure. In what
is left there are no operators with two operands and no two signs next to each other, and there are fewer numbers than
before by as many as there were such operators. -/
theorem reducePrecedence_two_sweeps (tokens : List Token) :
    reducePrecedence tokens = reduceInTwoSweeps tokens ∧
      ∀ reduced, (reducePrecedence tokens).result = .ok reduced →
        (∀ token ∈ reduced, isPower token = false ∧ isProduct token = false) ∧
          (reduced.IsChain fun first second => ¬ (first.isSign = true ∧ second.isSign = true)) ∧
          reduced.countP isNumber + tokens.countP isBinary = tokens.countP isNumber := by
  refine ⟨reducePrecedence_eq tokens, fun reduced result => ?_⟩
  obtain ⟨powered, multiplied, combined, multiplies, rfl⟩ := eq_foldSigns_of_reducePrecedence result
  have noPower : ∀ token ∈ powered, isPower token = false :=
    forall_combinePowers (fun _ _ => rfl) (List.forall_mem_nil _) (fun _ _ other => other) combined
  have folded : ∀ token ∈ foldSignsAfter Operator.products powered, isPower token = false :=
    fun token member => (mem_foldSignsAfterFrom member).elim (noPower token) fun same => same ▸ rfl
  have neither : ∀ token ∈ multiplied, isPower token = false ∧ isProduct token = false :=
    forall_combineProducts (fun _ _ => ⟨rfl, rfl⟩) (List.forall_mem_nil _)
      (fun token member other => ⟨folded token member, other⟩) multiplies
  have left : ∀ token ∈ foldSigns multiplied, isPower token = false ∧ isProduct token = false :=
    forall_foldSignsFrom (fun negative => by cases negative <;> exact ⟨rfl, rfl⟩) nofun neither
  have balance : surplus (foldSigns multiplied) = surplus tokens := by
    have signs : surplus (foldSigns multiplied) = surplus multiplied := surplus_foldSignsFrom multiplied nofun
    rw [signs, surplus_combineProducts multiplies, foldSignsAfter,
      surplus_foldSignsAfterFrom, surplus_combinePowers combined, surplus_reverse, foldSignsAfter,
      surplus_foldSignsAfterFrom]
    exact (Int.zero_add _).trans (Int.add_zero _)
  have noBinary : (foldSigns multiplied).countP isBinary = 0 :=
    List.countP_eq_zero.2 fun token member => ne_true_of_eq_false (isBinary_eq_false (left token member))
  refine ⟨left, isChain_foldSignsFrom none multiplied, ?_⟩
  simp only [surplus, noBinary] at balance
  omega

/-- Runs of signs are folded behind a product and where a sum goes on. -/
theorem two_sweeps_of_signs :
    let tokens := [Token.number "3" 3.0, .operator .times, .operator .minus, .operator .minus, .number "4" 4.0,
      .operator .divide, .operator .plus, .operator .minus, .number "2" 2.0, .operator .minus, .operator .minus,
      .number "5" 5.0]
    (reducePrecedence tokens).result = .ok [.ofValue (-6.0), .operator .plus, .number "5" 5.0] ∧
      reducePrecedence tokens = reduceInTwoSweeps tokens ∧
      [Token.ofValue (-6.0), .operator .plus, .number "5" 5.0].countP isNumber + tokens.countP isBinary =
        tokens.countP isNumber := by
  intro tokens
  have reduced : (reducePrecedence tokens).result = .ok [.ofValue (-6.0), .operator .plus, .number "5" 5.0] := by rfl
  exact ⟨reduced, (reducePrecedence_two_sweeps tokens).1, ((reducePrecedence_two_sweeps tokens).2 _ reduced).2.2⟩

end Reckoner.Evaluation
