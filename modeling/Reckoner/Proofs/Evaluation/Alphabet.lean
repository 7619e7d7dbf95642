import Mathlib
import Reckoner.Proofs.Evaluation.Closed
import Reckoner.Proofs.Token.Lexeme

namespace Reckoner

namespace Token

variable {bound : String → Bool} {names : List String}

/-- Whether a character can stand in an expression. -/
def isLegible (c : Char) : Bool :=
  isNumeric c || isWordChar c || isOperatorChar c || c = '(' || c = ')'

theorem isLegible_of_isNumeric {c : Char} (numeric : isNumeric c = true) : isLegible c = true := by
  simp [isLegible, numeric]

theorem isLegible_of_isWordChar {c : Char} (word : isWordChar c = true) : isLegible c = true := by
  simp [isLegible, word]

theorem isLegible_of_isOperatorChar {c : Char} (operator : isOperatorChar c = true) : isLegible c = true := by
  simp [isLegible, operator]

theorem isLegible_of_mark? {c : Char} {token : Token} (isMark : mark? c = some token) : isLegible c = true := by
  rcases mark?_cases isMark with ⟨rfl, _⟩ | ⟨rfl, _⟩ | ⟨op, operator, _⟩
  · rfl
  · rfl
  · exact isLegible_of_isOperatorChar (by rw [isOperatorChar, operator]; rfl)

/-- The characters that a token takes are legible. -/
theorem ReadsAs.isLegible {before : Option Char} {text : List Char} {token : Token}
    (reads : ReadsAs bound names before text token) : ∀ c ∈ token.text.toList, isLegible c = true := by
  intro c member
  cases reads with
  | number value starts =>
    rw [Token.text, String.toList_ofList, literal_cons (isNumeric_of_starts starts)] at member
    rcases List.mem_cons.1 member with rfl | later
    · exact isLegible_of_isNumeric (isNumeric_of_starts starts)
    · exact isLegible_of_isNumeric (isNumeric_of_mem_literalAfter later)
  | mark isMark =>
    rw [toList_text_of_mark? isMark] at member
    exact List.mem_singleton.1 member ▸ isLegible_of_mark? isMark
  | name starts =>
    rw [Token.text, String.toList_ofList] at member
    exact isLegible_of_isWordChar (List.mem_takeWhile_imp member)
  | function starts longest unbound =>
    have within := (longestStart?_some longest).2.subset member
    exact isLegible_of_isWordChar (List.mem_takeWhile_imp within)

/-- The characters that a token takes are legible, and the first one in any case. -/
theorem lexeme_legible (position : Nat) (before : Option Char) (c : Char) (rest : List Char) :
    Settles (fun _ => True) (fun found => isLegible c = true ∧ ∀ d ∈ (c :: rest).take found.2, isLegible d = true)
      (lexeme bound names position before c rest) := by
  refine (lexeme_reads position before c rest).mono (fun _ _ => trivial) fun found spec => ?_
  obtain ⟨reads, taken⟩ := spec
  have first : c ∈ found.1.text.toList := by
    obtain ⟨d, others, begins⟩ := List.exists_cons_of_ne_nil reads.toList_ne_nil
    have starts := reads.toList_prefix
    rw [begins] at starts ⊢
    exact (List.cons_prefix_cons.1 starts).1 ▸ List.mem_cons_self
  rw [taken, ← List.prefix_iff_eq_take.1 reads.toList_prefix]
  exact ⟨reads.isLegible c first, reads.isLegible⟩

/-- A text that can be scanned is legible behind the characters that are passed over. -/
theorem isLegible_of_scanFrom {text : List Char} {skip position : Nat} {before : Option Char} {tokens : List Token}
    (scanned : scanFrom bound names skip position before text = .ok tokens)
    (passed : ∀ c ∈ text.take skip, isLegible c = true) : ∀ c ∈ text, isLegible c = true := by
  induction text generalizing skip position before tokens with
  | nil => exact List.forall_mem_nil _
  | cons c rest ih =>
    cases skip with
    | succ skip =>
      obtain ⟨first, later⟩ := List.forall_mem_cons.1 passed
      exact List.forall_mem_cons.2 ⟨first, ih scanned later⟩
    | zero =>
      rw [scanFrom] at scanned
      obtain ⟨⟨token, length⟩, read, scanned⟩ := bind_eq_ok.1 scanned
      obtain ⟨others, later, _⟩ := bind_eq_ok.1 scanned
      obtain ⟨first, taken⟩ := (lexeme_legible position before c rest).of_ok read
      refine List.forall_mem_cons.2 ⟨first, ih later ?_⟩
      cases length with
      | zero => exact List.forall_mem_nil _
      | succ length => exact (List.forall_mem_cons.1 taken).2

end Token

/-- An expression with a value is legible, apart from an equals sign at its end. -/
theorem isLegible_of_evaluate {bindings : Bindings} {functions : FunctionTable} {expression : String} {value : Float}
    (evaluated : (evaluate expression bindings functions).result = .ok value) :
    ∀ c ∈ Token.dropEquals expression.toList, Token.isLegible c = true := by
  obtain ⟨tokens, scanned, _⟩ := evaluate_eq_ok.1 evaluated
  exact Token.isLegible_of_scanFrom scanned (List.forall_mem_nil _)

/-- A foreign character in the middle leaves an expression without a value. -/
theorem not_evaluate_of_foreign {bindings : Bindings} {functions : FunctionTable} {expression : String} {value : Float}
    {before rest : List Char} {mark : Char} (foreign : Token.isLegible mark = false) (more : rest ≠ [])
    (same : expression.toList = before ++ mark :: rest) :
    (evaluate expression bindings functions).result ≠ .ok value := by
  intro evaluated
  have kept : mark ∈ Token.dropEquals expression.toList := by
    rw [same, Token.dropEquals]
    split
    · rw [List.dropLast_append_of_ne_nil (List.cons_ne_nil mark rest), List.dropLast_cons_of_ne_nil more]
      exact List.mem_append_right _ List.mem_cons_self
    · exact List.mem_append_right _ List.mem_cons_self
  exact Bool.eq_false_iff.1 foreign (isLegible_of_evaluate evaluated mark kept)

end Reckoner
