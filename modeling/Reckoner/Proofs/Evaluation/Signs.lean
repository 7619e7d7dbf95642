import Mathlib
import Reckoner.Evaluation.Precedence

namespace Reckoner.Evaluation

variable {operators : List Operator}

/-- Reads a run of signs at the start of a list: whether the run, with what was read before it, is negative, and what
follows it. -/
def readSigns : Bool → List Token → Bool × List Token
  | negative, [] => (negative, [])
  | negative, token :: rest =>
    if token.isSign then readSigns (negative ^^ token.isMinus) rest else (negative, token :: rest)

theorem foldSignsAfterFrom_some (negative : Bool) (tokens : List Token) :
    foldSignsAfterFrom operators (some negative) tokens =
      operandSign (readSigns negative tokens).1 ++ foldSignsAfter operators (readSigns negative tokens).2 := by
  induction tokens generalizing negative with
  | nil => exact (List.append_nil _).symm
  | cons token rest ih =>
    by_cases sign : token.isSign = true
    · rw [foldSignsAfterFrom, if_pos sign, readSigns, if_pos sign, ih]
    · rw [foldSignsAfterFrom, if_neg sign, readSigns, if_neg sign]
      rfl

theorem head_readSigns (negative : Bool) (tokens : List Token) :
    ∀ token ∈ (readSigns negative tokens).2.head?, token.isSign = false := by
  induction tokens generalizing negative with
  | nil => exact nofun
  | cons token rest ih =>
    by_cases sign : token.isSign = true
    · rw [readSigns, if_pos sign]
      exact ih _
    · rw [readSigns, if_neg sign]
      intro first same
      cases same
      exact eq_false_of_ne_true sign

/-- What stands before and behind a token other than a sign is folded by itself. -/
theorem foldSignsAfterFrom_append (pending : Option Bool) (before after : List Token) {token : Token}
    (noSign : token.isSign = false) :
    foldSignsAfterFrom operators pending (before ++ token :: after) =
      foldSignsAfterFrom operators pending before ++ token ::
        foldSignsAfterFrom operators (if token.isOperatorIn operators then some false else none) after := by
  induction before generalizing pending with
  | nil =>
    rcases pending with _ | negative
    · rfl
    · exact if_neg (ne_true_of_eq_false noSign)
  | cons first before ih =>
    rcases pending with _ | negative
    · simp only [List.cons_append, foldSignsAfterFrom, ih]
    · simp only [List.cons_append, foldSignsAfterFrom]
      split <;> simp only [ih, List.append_assoc, List.cons_append]

theorem foldSignsAfter_number (before after : List Token) (text : String) (value : Float) :
    foldSignsAfter operators (before ++ .number text value :: after) =
      foldSignsAfter operators before ++ .number text value :: foldSignsAfter operators after :=
  foldSignsAfterFrom_append none before after rfl

theorem foldSignsAfter_operator {token : Token} (before after : List Token)
    (isOperator : token.isOperatorIn operators = true)
    (noSign : token.isSign = false) :
    foldSignsAfter operators (before ++ token :: after) =
      foldSignsAfter operators before ++ token :: foldSignsAfterFrom operators (some false) after := by
  unfold foldSignsAfter
  rw [foldSignsAfterFrom_append none before after noSign, if_pos isOperator]

theorem mem_foldSignsAfterFrom {pending : Option Bool} {tokens : List Token} {token : Token}
    (member : token ∈ foldSignsAfterFrom operators pending tokens) : token ∈ tokens ∨ token = .operator .minus := by
  have ofSign : ∀ {negative}, token ∈ operandSign negative → token = .operator .minus := by
    intro negative inSign
    cases negative with
    | false => exact nomatch inSign
    | true => exact List.mem_singleton.1 inSign
  induction tokens generalizing pending with
  | nil =>
    rcases pending with _ | negative
    · exact nomatch member
    · exact Or.inr (ofSign member)
  | cons first rest ih =>
    have later : ∀ {pending}, token ∈ foldSignsAfterFrom operators pending rest →
        token ∈ first :: rest ∨ token = .operator .minus :=
      fun inRest => (ih inRest).imp_left (List.mem_cons_of_mem first)
    rcases pending with _ | negative
    · rcases List.mem_cons.1 member with rfl | inRest
      · exact Or.inl List.mem_cons_self
      · exact later inRest
    · rw [foldSignsAfterFrom] at member
      split at member
      · exact later member
      · rcases List.mem_append.1 member with inSign | inRest
        · exact Or.inr (ofSign inSign)
        · rcases List.mem_cons.1 inRest with rfl | inRest
          · exact Or.inl List.mem_cons_self
          · exact later inRest

theorem foldSignsAfter_of_clean {tokens : List Token} (clean : ∀ token ∈ tokens, token.isOperatorIn operators = false) :
    foldSignsAfter operators tokens = tokens := by
  unfold foldSignsAfter
  induction tokens with
  | nil => rfl
  | cons token rest ih =>
    rw [foldSignsAfterFrom, if_neg (by simp [clean token List.mem_cons_self]),
      ih fun other member => clean other (List.mem_cons_of_mem token member)]

/-- A minus left by folding is the sign that folding again finds. -/
theorem foldSignsAfterFrom_idem (pending : Option Bool) (tokens : List Token) :
    foldSignsAfterFrom operators (pending.map fun _ => false) (foldSignsAfterFrom operators pending tokens) =
      foldSignsAfterFrom operators pending tokens := by
  have behind : ∀ negative token rest, token.isSign = false →
      foldSignsAfterFrom operators (some false) (operandSign negative ++ token :: rest) =
        operandSign negative ++ token ::
          foldSignsAfterFrom operators (if token.isOperatorIn operators then some false else none) rest := by
    intro negative token rest noSign
    have same := @foldSignsAfterFrom_append operators (some false) (operandSign negative) rest token noSign
    cases negative <;> exact same
  induction tokens generalizing pending with
  | nil => rcases pending with _ | _ | _ <;> rfl
  | cons token rest ih =>
    have next : ∀ isOperator : Bool, foldSignsAfterFrom operators (if isOperator then some false else none)
        (foldSignsAfterFrom operators (if isOperator then some false else none) rest) =
          foldSignsAfterFrom operators (if isOperator then some false else none) rest := by
      intro isOperator
      cases isOperator
      · exact ih none
      · exact ih (some false)
    rcases pending with _ | negative
    · simp only [Option.map_none, foldSignsAfterFrom, next]
    · by_cases sign : token.isSign = true
      · rw [foldSignsAfterFrom, if_pos sign]
        exact ih (some (negative ^^ token.isMinus))
      · rw [foldSignsAfterFrom, if_neg sign, Option.map_some, behind _ _ _ (eq_false_of_ne_true sign), next]

theorem foldSignsAfter_idem (tokens : List Token) :
    foldSignsAfter operators (foldSignsAfter operators tokens) = foldSignsAfter operators tokens :=
  foldSignsAfterFrom_idem none tokens

/-- The number at the start of a list, behind any run of signs, and what follows it. -/
def signedOperand? (tokens : List Token) : Option (Float × List Token) :=
  match readSigns false tokens with
  | (negative, .number _ value :: after) => some ((if negative then -1.0 else 1.0) * value, after)
  | _ => none

/-- The operands of an operator whose right one may stand behind a run of signs. -/
def signedOperands (before : List Token) (op : Operator) (after : List Token) : Except Failure Operands :=
  match leftOperand? before with
  | none => .error (.missingLeftOperand op)
  | some (before, left) =>
    match signedOperand? after with
    | none => .error (.missingRightOperand op)
    | some (right, after) => .ok ⟨before, left, right, after⟩

/-- Folds the operator between two lists, with the whole run of signs behind it. -/
def foldSigned (before : List Token) (op : Operator) (after : List Token) : Traced (List Token) := do
  let found ← Traced.ofFailing (signedOperands before op after)
  let value ← Traced.ofFailing (compute found.left op found.right)
  Traced.note (.operation found.left op found.right value)
  return found.before ++ Token.ofValue value :: found.after

theorem leftOperand?_append (before : List Token) (token : Token) :
    leftOperand? (before ++ [token]) =
      match token with
      | .number _ value => some (before, value)
      | _ => none := by
  unfold leftOperand?
  rw [List.getLast?_concat, List.dropLast_concat]
  cases token <;> rfl

theorem exists_operator_of_isOperatorIn {token : Token} (isOperator : token.isOperatorIn operators = true) :
    ∃ op, token = .operator op := by
  cases token with
  | operator op => exact ⟨op, rfl⟩
  | _ => exact nomatch isOperator

theorem isOperatorIn_eq_false {token : Token} (noOperator : ∀ op, token ≠ .operator op) :
    token.isOperatorIn operators = false := by
  refine Bool.eq_false_iff.2 fun isOperator => ?_
  obtain ⟨op, rfl⟩ := exists_operator_of_isOperatorIn isOperator
  exact noOperator op rfl

/-- A list that ends with a sign still ends with an operator when its signs are folded, unless nothing is left. -/
theorem foldSignsAfterFrom_concat_sign (pending : Option Bool) (before : List Token) {sign : Token}
    (isSign : sign.isSign = true) :
    (pending ≠ none ∧ foldSignsAfterFrom operators pending (before ++ [sign]) = []) ∨
      ∃ init last, foldSignsAfterFrom operators pending (before ++ [sign]) = init ++ [.operator last] := by
  induction before generalizing pending with
  | nil =>
    obtain ⟨op, rfl⟩ := exists_operator_of_isOperatorIn isSign
    rcases pending with _ | negative
    · refine Or.inr ⟨[], op, ?_⟩
      rw [List.nil_append, foldSignsAfterFrom]
      split <;> rfl
    · have folded : foldSignsAfterFrom operators (some negative) [.operator op] =
          operandSign (negative ^^ (Token.operator op).isMinus) := if_pos isSign
      rw [List.nil_append, folded]
      cases negative ^^ (Token.operator op).isMinus
      · exact Or.inl ⟨nofun, rfl⟩
      · exact Or.inr ⟨[], .minus, rfl⟩
  | cons first before ih =>
    have behind : ∀ lead, ∃ init last, lead ++ first :: foldSignsAfterFrom operators
        (if first.isOperatorIn operators then some false else none) (before ++ [sign]) = init ++ [.operator last] := by
      intro lead
      rcases ih (if first.isOperatorIn operators then some false else none) with ⟨started, empty⟩ | ⟨init, last, ends⟩
      · by_cases isOperator : first.isOperatorIn operators = true
        · obtain ⟨op, rfl⟩ := exists_operator_of_isOperatorIn isOperator
          exact ⟨lead, op, by rw [empty]⟩
        · exact (started (if_neg isOperator)).elim
      · exact ⟨lead ++ first :: init, last, by rw [ends, List.append_assoc, List.cons_append]⟩
    rcases pending with _ | negative
    · exact Or.inr (behind [])
    · rw [List.cons_append, foldSignsAfterFrom]
      split
      · rcases ih (some (negative ^^ first.isMinus)) with ⟨_, empty⟩ | ends
        · exact Or.inl ⟨nofun, empty⟩
        · exact Or.inr ends
      · exact Or.inr (behind (operandSign negative))

theorem leftOperand?_foldSignsAfter (before : List Token) :
    leftOperand? (foldSignsAfter operators before) =
      (leftOperand? before).map fun (init, value) => (foldSignsAfter operators init, value) := by
  rcases List.eq_nil_or_concat before with rfl | ⟨init, token, rfl⟩
  · rfl
  · rw [List.concat_eq_append]
    by_cases sign : token.isSign = true
    · obtain ⟨op, rfl⟩ := exists_operator_of_isOperatorIn sign
      rcases foldSignsAfterFrom_concat_sign none init sign with ⟨started, _⟩ | ⟨init', last, ends⟩
      · exact (started rfl).elim
      · rw [foldSignsAfter, ends, leftOperand?_append, leftOperand?_append]
        rfl
    · have split := @foldSignsAfterFrom_append operators none init [] token (eq_false_of_ne_true sign)
      have ended :
        foldSignsAfterFrom operators (if token.isOperatorIn operators then some false else none) [] = [] := by
        cases token.isOperatorIn operators <;> rfl
      rw [foldSignsAfter, split, ended, leftOperand?_append, leftOperand?_append]
      cases token <;> rfl

theorem rightOperand?_operator {op : Operator} (noSign : op.isAmong Operator.signs = false) (rest : List Token) :
    rightOperand? (.operator op :: rest) = none := by
  rcases rest with _ | ⟨token, rest⟩
  · rfl
  · cases token <;> simp [rightOperand?, noSign]

theorem rightOperand?_foldSignsAfter (after : List Token) :
    rightOperand? (foldSignsAfterFrom operators (some false) after) =
      (signedOperand? after).map fun (value, rest) => (value, foldSignsAfter operators rest) := by
  rw [foldSignsAfterFrom_some, signedOperand?]
  have noSign := head_readSigns false after
  rcases parts : readSigns false after with ⟨negative, _ | ⟨token, rest⟩⟩
  · cases negative <;> rfl
  · have first := noSign token (parts ▸ rfl)
    cases token with
    | number text value =>
      have split := @foldSignsAfter_number operators [] rest text value
      rw [List.nil_append] at split
      rw [split]
      cases negative <;> rfl
    | operator op =>
      have noSignOp : op.isAmong Operator.signs = false := first
      cases negative with
      | false => exact rightOperand?_operator noSignOp _
      | true => rfl
    | _ => cases negative <;> rfl

theorem operands_foldSignsAfter (before : List Token) (op : Operator) (after : List Token) :
    operands (foldSignsAfter operators before) op (foldSignsAfterFrom operators (some false) after) =
      (signedOperands before op after).map fun found =>
        { found with
          before := foldSignsAfter operators found.before
          after := foldSignsAfter operators found.after } := by
  rw [operands, signedOperands, leftOperand?_foldSignsAfter, rightOperand?_foldSignsAfter]
  rcases leftOperand? before with _ | ⟨init, left⟩
  · rfl
  · rcases signedOperand? after with _ | ⟨right, rest⟩ <;> rfl

/-- Folding an operator in a list of folded signs is folding it with the run of signs behind it. -/
theorem foldBinary_foldSignsAfter (before : List Token) (op : Operator) (after : List Token) :
    foldBinary (foldSignsAfter operators before) op (foldSignsAfterFrom operators (some false) after) =
      foldSignsAfter operators <$> foldSigned before op after := by
  rw [foldBinary, foldSigned, operands_foldSignsAfter]
  rcases signedOperands before op after with cause | found
  · rfl
  · simp only [Except.map, Traced.ofFailing, pure_bind, map_eq_pure_bind, bind_assoc, Token.ofValue,
      foldSignsAfter_number]

end Reckoner.Evaluation
