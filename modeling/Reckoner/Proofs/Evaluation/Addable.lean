import Mathlib
import Reckoner.Proofs.Evaluation.Ending
import Reckoner.Proofs.Evaluation.SignRuns

namespace Reckoner.Evaluation

variable {functions : FunctionTable} {operators : List Operator}
  {tokens taken next reduced : List Token} {property : Token → Prop}

section Sums

/-- A list to add up: numbers and single signs, with a number at the end. -/
structure Addable (tokens : List Token) : Prop where
  terms : ∀ token ∈ tokens, isNumber token = true ∨ token = .operator .plus ∨ token = .operator .minus
  apart : tokens.IsChain fun first second => ¬ (first.isSign = true ∧ second.isSign = true)
  ends : ∃ last ∈ tokens.getLast?, isNumber last = true

/-- A list in which no two numbers stand next to each other. -/
def Separated (tokens : List Token) : Prop :=
  tokens.IsChain fun first second => ¬ (isNumber first = true ∧ isNumber second = true)

/-- What a sum may come to: there is nothing to add up, or there is a total, or the first two numbers without a sign
between them stop it, and the second of them is blamed. -/
inductive Adds : List Token → Except Failure Float → Prop
  | nothing : Adds [] (.error .noValue)
  | total {tokens : List Token} (value : Float) : tokens ≠ [] → Separated tokens → Adds tokens (.ok value)
  | unseparated {front rest : List Token} {first : Token} {text : String} {value : Float} :
      Separated (front ++ [first]) → isNumber first = true →
      Adds (front ++ first :: .number text value :: rest) (.error (.missingOperator text))

/-- A sum that has read a list without stopping. -/
structure Reads (front : List Token) (sum : RunningSum) : Prop where
  separated : Separated front
  awaiting : sum.awaiting = false ↔ ∃ last ∈ front.getLast?, isNumber last = true
  atStart : front = [] → sum.atStart = true

def RunningSum.close (sum : RunningSum) : Except Failure Float :=
  if sum.awaiting then .error (.missingRightOperand sum.sign) else return sum.total

theorem reads_start : Reads [] .start where
  separated := .nil
  awaiting := by simp [RunningSum.start]
  atStart _ := rfl

theorem separated_concat {front : List Token} {token : Token} (separated : Separated front)
    (apart : ∀ last ∈ front.getLast?, ¬ (isNumber last = true ∧ isNumber token = true)) :
    Separated (front ++ [token]) :=
  List.isChain_append.2 ⟨separated, .singleton token, fun last atEnd first atStart => by
    cases atStart
    exact apart last atEnd⟩

/-- A sum that awaits a number takes it. -/
theorem Reads.number {front : List Token} {sum : RunningSum} (reads : Reads front sum) (awaiting : sum.awaiting = true)
    (text : String) (value : Float) :
    ∃ next, sum.take (.number text value) = .ok next ∧ Reads (front ++ [.number text value]) next := by
  refine ⟨_, if_pos awaiting, separated_concat reads.separated fun last atEnd both => ?_, ?_, ?_⟩
  · have notAwaiting := reads.awaiting.2 ⟨last, atEnd, both.1⟩
    exact Bool.noConfusion (awaiting.symm.trans notAwaiting)
  · simp [isNumber]
  · exact fun empty => absurd empty (List.append_ne_nil_of_right_ne_nil front (List.cons_ne_nil _ _))

/-- A sum takes a sign at its start and behind a number. -/
theorem Reads.sign {front : List Token} {sum : RunningSum} {op : Operator} (reads : Reads front sum)
    (sign : op.isAmong Operator.signs = true) (allowed : ∀ last ∈ front.getLast?, isNumber last = true) :
    ∃ next, sum.take (.operator op) = .ok next ∧ Reads (front ++ [.operator op]) next := by
  have opens : sum.atStart = true ∨ (!sum.awaiting) = true := by
    cases atEnd : front.getLast? with
    | none => exact Or.inl (reads.atStart (List.getLast?_eq_none_iff.1 atEnd))
    | some last => exact Or.inr (by simp [reads.awaiting.2 ⟨last, atEnd, allowed last atEnd⟩])
  refine ⟨_, if_pos ⟨sign, opens⟩, separated_concat reads.separated fun last _ both => Bool.noConfusion both.2, ?_, ?_⟩
  · simp [isNumber]
  · exact fun empty => absurd empty (List.append_ne_nil_of_right_ne_nil front (List.cons_ne_nil _ _))

/-- What a sum comes to from where it is. The list as a whole stays the same while the sum moves on in it. -/
theorem adds_of_reads {front rest : List Token} {sum : RunningSum} (reads : Reads front sum)
    (addable : Addable (front ++ rest)) :
    Adds (front ++ rest) (rest.foldlM RunningSum.take sum >>= RunningSum.close) := by
  induction rest generalizing front sum with
  | nil =>
    rw [List.append_nil] at addable ⊢
    obtain ⟨last, atEnd, isLast⟩ := addable.ends
    have notAwaiting := reads.awaiting.2 ⟨last, atEnd, isLast⟩
    have closed : ([].foldlM RunningSum.take sum >>= RunningSum.close) = .ok sum.total :=
      if_neg (ne_true_of_eq_false notAwaiting)
    rw [closed]
    exact .total _ (by rintro rfl; cases atEnd) reads.separated
  | cons token rest ih =>
    have goesOn {next : RunningSum} (taken : sum.take token = .ok next) (reads : Reads (front ++ [token]) next) :
        Adds (front ++ token :: rest) ((token :: rest).foldlM RunningSum.take sum >>= RunningSum.close) := by
      rw [List.foldlM_cons, taken]
      rw [List.append_cons] at addable ⊢
      exact ih reads addable
    rcases addable.terms token (List.mem_append_right _ List.mem_cons_self) with number | isSign
    · obtain ⟨text, value, rfl⟩ : ∃ text value, token = .number text value := by
        cases token with
        | number text value => exact ⟨text, value, rfl⟩
        | _ => exact Bool.noConfusion number
      cases awaiting : sum.awaiting with
      | true =>
        obtain ⟨next, taken, readsNext⟩ := reads.number awaiting text value
        exact goesOn taken readsNext
      | false =>
        obtain ⟨last, atEnd, isLast⟩ := reads.awaiting.1 awaiting
        obtain ⟨front, rfl⟩ := List.getLast?_eq_some_iff.1 atEnd
        have stopped : sum.take (.number text value) = .error (.missingOperator text) :=
          if_neg (ne_true_of_eq_false awaiting)
        rw [List.foldlM_cons, stopped, List.append_assoc]
        exact .unseparated reads.separated isLast
    · obtain ⟨op, rfl, sign⟩ : ∃ op, token = .operator op ∧ op.isAmong Operator.signs = true := by
        rcases isSign with rfl | rfl
        · exact ⟨_, rfl, rfl⟩
        · exact ⟨_, rfl, rfl⟩
      obtain ⟨next, taken, readsNext⟩ := reads.sign sign fun last atEnd => by
        have apart := (List.isChain_append.1 addable.apart).2.2 last atEnd _ rfl
        rcases addable.terms last (List.mem_append_left _ (List.mem_of_getLast? atEnd)) with number | rfl | rfl
        · exact number
        · exact (apart ⟨rfl, sign⟩).elim
        · exact (apart ⟨rfl, sign⟩).elim
      exact goesOn taken readsNext

theorem adds_of_addable (addable : tokens = [] ∨ Addable tokens) : Adds tokens (sumTerms tokens) := by
  rcases addable with rfl | addable
  · exact .nothing
  · have nonempty : tokens.isEmpty = false := by
      obtain ⟨last, atEnd, _⟩ := addable.ends
      cases tokens with
      | nil => cases atEnd
      | cons => rfl
    rw [sumTerms, nonempty]
    exact adds_of_reads reads_start addable

end Sums

section Last

/-- A property of the last token of a list, if there is one. -/
def LastIs (property : Token → Prop) (tokens : List Token) : Prop :=
  ∀ last ∈ tokens.getLast?, property last

theorem lastIs_concat {front : List Token} {token : Token} (holds : property token) :
    LastIs property (front ++ [token]) := by
  intro last atEnd
  rw [List.getLast?_concat] at atEnd
  cases atEnd
  exact holds

theorem lastIs_append {front : List Token} (nonempty : tokens ≠ []) :
    LastIs property (front ++ tokens) ↔ LastIs property tokens := by
  unfold LastIs
  rw [List.getLast?_append_of_ne_nil front nonempty]

theorem LastIs.of_replaces (last : LastIs property tokens) (number : ∀ text value, property (.number text value))
    (replaces : Replaces tokens taken next) : LastIs property next := by
  obtain ⟨front, taken, back, value⟩ := replaces
  cases back with
  | nil => exact lastIs_concat (number _ value)
  | cons token back =>
    have ends := (lastIs_append (List.cons_ne_nil token back)).1
      ((lastIs_append (List.append_ne_nil_of_right_ne_nil taken (List.cons_ne_nil token back))).1 last)
    rw [List.append_cons]
    exact (lastIs_append (List.cons_ne_nil token back)).2 ends

theorem LastIs.foldSignsAfter (last : LastIs property tokens)
    (noSign : ∀ token, property token → token.isSign = false) :
    LastIs property (foldSignsAfter operators tokens) := by
  rcases List.eq_nil_or_concat tokens with rfl | ⟨front, token, rfl⟩
  · exact nofun
  · rw [List.concat_eq_append] at last ⊢
    have holds := last token (List.getLast?_concat ..)
    rw [Evaluation.foldSignsAfter, foldSignsAfterFrom_append none front [] (noSign token holds)]
    cases token.isOperatorIn operators <;> exact lastIs_concat holds

theorem LastIs.foldSigns (last : LastIs property tokens) (noSign : ∀ token, property token → token.isSign = false) :
    LastIs property (foldSigns tokens) := by
  rcases List.eq_nil_or_concat tokens with rfl | ⟨front, token, rfl⟩
  · exact nofun
  · rw [List.concat_eq_append] at last ⊢
    have holds := last token (List.getLast?_concat ..)
    rw [Evaluation.foldSigns, foldSignsFrom_append none front [] (noSign token holds)]
    exact lastIs_concat holds

end Last

section Stages

/-- A loop that folds operators keeps the last token, or leaves a number in its place. -/
theorem lastIs_of_rounds {pick : List Token → Option (List Token × Token × List Token)} {count : Nat}
    (picks : Picks operators pick) (last : LastIs property tokens)
    (number : ∀ text value, property (.number text value)) (noSign : ∀ token, property token → token.isSign = false)
    (result : (rounds (foldedRound operators pick) count tokens).result = .ok next) : LastIs property next := by
  have settles :
    Settles (fun _ => True) (LastIs property) (rounds (foldedRound operators pick) count tokens).result := by
    refine Traced.settles_rounds last (fun state taken last round => ?_) count
    cases result : taken.result with
    | error stop => trivial
    | ok following =>
      obtain ⟨_, _, _, _, replaces⟩ := replaces_of_foldedRound picks ⟨taken, round, result⟩
      exact (last.foldSignsAfter noSign).of_replaces number replaces
  exact settles.of_ok result

theorem lastIs_of_reducePrecedence (last : LastIs property tokens)
    (number : ∀ text value, property (.number text value)) (noSign : ∀ token, property token → token.isSign = false)
    (result : (reducePrecedence tokens).result = .ok reduced) : LastIs property reduced := by
  obtain ⟨powered, multiplied, powers, products, rfl⟩ := reducePrecedence_eq_ok.1 result
  have lastPowered := lastIs_of_rounds (picks_last unsigned_power) last number noSign powers
  exact (lastIs_of_rounds (picks_first unsigned_products) lastPowered number noSign products).foldSigns noSign

/-- A reduction leaves numbers and signs of its own, and what it comes to that is neither a power nor a product. -/
theorem forall_reducePrecedence (number : ∀ text value, property (.number text value))
    (sign : ∀ negative, property (signToken negative))
    (unread : ∀ token ∈ tokens, isPower token = false → isProduct token = false → property token)
    (result : (reducePrecedence tokens).result = .ok reduced) : ∀ token ∈ reduced, property token := by
  obtain ⟨powered, multiplied, combined, multiplies, rfl⟩ := eq_foldSigns_of_reducePrecedence result
  have afterPowers : ∀ token ∈ powered, isProduct token = false → property token := by
    refine forall_combinePowers (fun text value _ => number text value) (List.forall_mem_nil _)
      (fun token member noPower noProduct => ?_) combined
    rcases mem_foldSignsAfterFrom (List.mem_reverse.1 member) with old | rfl
    · exact unread token old noPower noProduct
    · exact sign true
  have afterProducts : ∀ token ∈ multiplied, property token := by
    refine forall_combineProducts number (List.forall_mem_nil _) (fun token member noProduct => ?_) multiplies
    rcases mem_foldSignsAfterFrom member with old | rfl
    · exact afterPowers token old noProduct
    · exact sign true
  exact forall_foldSignsFrom sign nofun afterProducts

/-- Tokens that no valid list ends with. -/
def endings : List Operator := [.times, .divide, .plus, .minus]

/-- A text counts as a sign if it is a stretch of `+-`, and so it is a stretch of the endings. -/
theorem isSign_eq_false_of_ending (token : Token) (noEnding : token.isOperatorIn endings = false) :
    token.isSign = false := by
  cases sign : token.isSign with
  | false => rfl
  | true =>
    obtain ⟨op, rfl⟩ := exists_operator_of_isOperatorIn sign
    cases op with
    | unknown symbol other =>
      have stretch :=
        (Operator.isStretch_iff_isInfix.1 sign).trans (show ['+', '-'] <:+: ['*', '/', '+', '-'] by decide)
      exact (Operator.isStretch_iff_isInfix.2 stretch).symm.trans noEnding
    | power => exact Bool.noConfusion sign
    | _ => exact Bool.noConfusion noEnding

theorem checkEnd_eq_ok : checkEnd tokens = .ok () ↔ LastIs (fun last => last.isOperatorIn endings = false) tokens := by
  unfold checkEnd LastIs
  cases tokens.getLast? with
  | none => exact ⟨fun _ => nofun, fun _ => rfl⟩
  | some last => cases isEnding : last.isOperatorIn endings <;> simp_all [endings]

/-- A list without parentheses and variables passes the checks on its form, and its calls, powers, products and
quotients leave their values. -/
def Reduces (functions : FunctionTable) (tokens reduced : List Token) : Prop :=
  validate tokens = .ok () ∧ ∃ applied, (applyFunctions functions tokens).result = .ok applied ∧
    (reducePrecedence applied).result = .ok reduced

theorem lastIs_of_reduces (reduces : Reduces functions tokens reduced) :
    LastIs (fun last => last.isOperatorIn endings = false) reduced := by
  obtain ⟨valid, applied, applies, result⟩ := reduces
  have start := checkEnd_eq_ok.1 (validate_eq_ok.1 valid).2.2.2
  have afterCalls :=
    holds_of_applyFunctions (fun last replaces => last.of_replaces (fun _ _ => rfl) replaces) start applies
  exact lastIs_of_reducePrecedence afterCalls (fun _ _ => rfl) isSign_eq_false_of_ending result

/-- A token that no stage before the sum reads. -/
theorem term_of_unread {token : Token} (known : token.IsKnown) (flat : token.IsFlat)
    (noFunction : token.isFunction = false) (noPower : isPower token = false) (noProduct : isProduct token = false) :
    isNumber token = true ∨ token = .operator .plus ∨ token = .operator .minus := by
  cases token with
  | number => exact Or.inl rfl
  | operator op =>
    cases op with
    | plus => exact Or.inr (Or.inl rfl)
    | minus => exact Or.inr (Or.inr rfl)
    | unknown symbol other => simp [Token.IsKnown, Operator.all] at known
    | power => exact Bool.noConfusion noPower
    | _ => exact Bool.noConfusion noProduct
  | function => exact Bool.noConfusion noFunction
  | _ => exact flat.elim

theorem terms_of_reduces (known : AllKnown tokens) (flat : ∀ token ∈ tokens, token.IsFlat)
    (reduces : Reduces functions tokens reduced) :
    ∀ token ∈ reduced, isNumber token = true ∨ token = .operator .plus ∨ token = .operator .minus := by
  obtain ⟨_, applied, applies, result⟩ := reduces
  have knownApplied : AllKnown applied := isKnown_of_applyFunctions known applies
  have keepsFlat {state taken following : List Token} (flat : ∀ token ∈ state, token.IsFlat)
      (replaces : Replaces state taken following) : ∀ token ∈ following, token.IsFlat :=
    replaces.forall_mem (fun _ _ => trivial) flat
  have flatApplied := holds_of_applyFunctions keepsFlat flat applies
  have noFunction := (applyFunctions_eq_ok.1 applies).2
  refine forall_reducePrecedence (fun _ _ => Or.inl rfl) (fun negative => ?_) (fun token member noPower noProduct => ?_)
    result
  · cases negative
    · exact Or.inr (Or.inl rfl)
    · exact Or.inr (Or.inr rfl)
  · exact term_of_unread (knownApplied token member) (flatApplied token member) (noFunction token member) noPower
      noProduct

theorem addable_of_reduces (known : AllKnown tokens) (flat : ∀ token ∈ tokens, token.IsFlat)
    (reduces : Reduces functions tokens reduced) : reduced = [] ∨ Addable reduced := by
  have terms := terms_of_reduces known flat reduces
  have apart : reduced.IsChain fun first second => ¬ (first.isSign = true ∧ second.isSign = true) := by
    obtain ⟨_, _, _, result⟩ := reduces
    obtain ⟨_, multiplied, _, _, rfl⟩ := reducePrecedence_eq_ok.1 result
    exact isChain_foldSignsFrom none multiplied
  cases atEnd : reduced.getLast? with
  | none => exact Or.inl (List.getLast?_eq_none_iff.1 atEnd)
  | some last =>
    have noEnding := lastIs_of_reduces reduces last atEnd
    refine Or.inr ⟨terms, apart, last, atEnd, ?_⟩
    rcases terms last (List.mem_of_getLast? atEnd) with number | rfl | rfl
    · exact number
    · exact Bool.noConfusion noEnding
    · exact Bool.noConfusion noEnding

end Stages

end Reckoner.Evaluation
