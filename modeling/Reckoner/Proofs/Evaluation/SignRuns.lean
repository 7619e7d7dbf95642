import Mathlib
import Reckoner.Proofs.Evaluation.TwoSweeps

namespace Reckoner.Evaluation

def IsSignRun (run : List Token) : Prop :=
  ∀ sign ∈ run, sign.isSign = true

/-- A list cut apart at its tokens other than signs: the runs of signs between them and at both ends, any of them
perhaps empty. -/
inductive SignLayout where
  | last (run : List Token) (signs : IsSignRun run)
  | cons (run : List Token) (signs : IsSignRun run) (token : Token) (noSign : token.isSign = false) (rest : SignLayout)

namespace SignLayout

/-- The list with something else in the place of each run, where `before` is the token that stands before the list. -/
def withRunsFrom (replace : Option Token → List Token → List Token) (before : Option Token) : SignLayout → List Token
  | last run _ => replace before run
  | cons run _ token _ rest => replace before run ++ token :: rest.withRunsFrom replace (some token)

/-- The list with something else in the place of each run. What that is depends on the run and on the token before it,
if there is one. -/
def withRuns (layout : SignLayout) (replace : Option Token → List Token → List Token) : List Token :=
  layout.withRunsFrom replace none

def tokens (layout : SignLayout) : List Token :=
  layout.withRuns fun _ run => run

/-- The tokens other than signs. -/
def others : SignLayout → List Token
  | last _ _ => []
  | cons _ _ token _ rest => token :: rest.others

end SignLayout

variable {operators : List Operator} {run tokens : List Token} {replace : Option Token → List Token → List Token}

theorem exists_layout_from (before : Option Token) (tokens : List Token) :
    ∃ layout : SignLayout, layout.withRunsFrom (fun _ run => run) before = tokens := by
  induction tokens generalizing before with
  | nil => exact ⟨.last [] (List.forall_mem_nil _), rfl⟩
  | cons token rest ih =>
    cases sign : token.isSign with
    | true =>
      obtain ⟨layout, rfl⟩ := ih before
      cases layout with
      | last run signs => exact ⟨.last (token :: run) (List.forall_mem_cons.2 ⟨sign, signs⟩), rfl⟩
      | cons run signs other noSign rest =>
        exact ⟨.cons (token :: run) (List.forall_mem_cons.2 ⟨sign, signs⟩) other noSign rest, rfl⟩
    | false =>
      obtain ⟨layout, rfl⟩ := ih (some token)
      exact ⟨.cons [] (List.forall_mem_nil _) token sign layout, rfl⟩

/-- With signs in the places of the runs, the other tokens are the same and in the same order. -/
theorem filter_withRunsFrom (keeps : ∀ before run, IsSignRun run → IsSignRun (replace before run))
    (before : Option Token) (layout : SignLayout) :
    (layout.withRunsFrom replace before).filter (fun token => !token.isSign) = layout.others := by
  have none {run : List Token} (signs : IsSignRun run) : run.filter (fun token => !token.isSign) = [] :=
    List.filter_eq_nil_iff.2 fun sign member => by simp [signs sign member]
  induction layout generalizing before with
  | last run signs => exact none (keeps before run signs)
  | cons run signs token noSign rest ih =>
    rw [SignLayout.withRunsFrom, List.filter_append, none (keeps before run signs), List.nil_append,
      List.filter_cons_of_pos (by simp [noSign]), ih]
    rfl

section Parity

/-- Whether a run of signs is negative as a whole. -/
def oddMinuses (run : List Token) : Bool :=
  decide (Odd (run.countP Token.isMinus))

theorem oddMinuses_cons (sign : Token) (run : List Token) :
    oddMinuses (sign :: run) = (sign.isMinus ^^ oddMinuses run) := by
  unfold oddMinuses
  cases minus : sign.isMinus with
  | true => simp [minus, Nat.odd_add_one, -Nat.not_odd_iff_even]
  | false => simp [minus]

/-- What a run of signs is folded into. A single sign stays as it is. -/
def oneSign : List Token → List Token
  | [] => []
  | [sign] => [sign]
  | run => [signToken (oddMinuses run)]

theorem isMinus_iff {token : Token} : token.isMinus = true ↔ token = .operator .minus := by
  cases token with
  | operator op => simp [Token.isMinus]
  | _ => simp [Token.isMinus]

theorem exists_oneSign (signs : IsSignRun run) (nonempty : run ≠ []) :
    ∃ sign, oneSign run = [sign] ∧ sign.isSign = true ∧
      (sign = .operator .minus ↔ Odd (run.countP Token.isMinus)) := by
  rcases run with _ | ⟨sign, _ | ⟨next, run⟩⟩
  · exact (nonempty rfl).elim
  · refine ⟨sign, rfl, signs sign List.mem_cons_self, isMinus_iff.symm.trans ?_⟩
    cases minus : sign.isMinus <;> simp [minus]
  · refine ⟨_, rfl, isSign_signToken _, isMinus_iff.symm.trans ?_⟩
    rw [isMinus_signToken, oddMinuses, decide_eq_true_iff]

theorem oneSign_oneSign (run : List Token) : oneSign (oneSign run) = oneSign run := by
  rcases run with _ | ⟨sign, _ | ⟨next, run⟩⟩ <;> rfl

theorem oneSign_operandSign (negative : Bool) : oneSign (operandSign negative) = operandSign negative := by
  cases negative <;> rfl

theorem isSignRun_oneSign (signs : IsSignRun run) : IsSignRun (oneSign run) := by
  rcases run with _ | ⟨sign, _ | ⟨next, run⟩⟩
  · exact signs
  · exact signs
  · exact List.forall_mem_singleton.2 (isSign_signToken _)

theorem isSignRun_operandSign (negative : Bool) : IsSignRun (operandSign negative) := by
  cases negative
  · exact List.forall_mem_nil _
  · exact List.forall_mem_singleton.2 rfl

end Parity

section Everywhere

/-- What stands before and behind a token other than a sign is folded by itself. -/
theorem foldSignsFrom_append (pending : Option Token) (before after : List Token) {token : Token}
    (noSign : token.isSign = false) :
    foldSignsFrom pending (before ++ token :: after) = foldSignsFrom pending before ++ token :: foldSigns after := by
  fun_induction foldSignsFrom pending before with
  | case1 => exact if_neg (ne_true_of_eq_false noSign)
  | case2 sign => exact if_neg (ne_true_of_eq_false noSign)
  | case3 first rest isSign ih => rwa [List.cons_append, foldSignsFrom, if_pos isSign]
  | case4 first rest isOther ih => rw [List.cons_append, foldSignsFrom, if_neg isOther, ih, List.cons_append]
  | case5 sign first rest isSign ih => rwa [List.cons_append, foldSignsFrom, if_pos isSign]
  | case6 sign first rest isOther ih =>
    rw [List.cons_append, foldSignsFrom, if_neg isOther, ih, List.cons_append, List.cons_append]

theorem foldSignsFrom_some_signs (negative : Bool) (signs : IsSignRun run) :
    foldSignsFrom (some (signToken negative)) run = [signToken (negative ^^ oddMinuses run)] := by
  induction run generalizing negative with
  | nil => rw [foldSignsFrom, show oddMinuses [] = false from rfl, Bool.xor_false]
  | cons sign run ih =>
    obtain ⟨isSign, others⟩ := List.forall_mem_cons.1 signs
    rw [foldSignsFrom, if_pos isSign, isMinus_signToken, ih _ others, oddMinuses_cons, Bool.xor_assoc]

theorem foldSigns_signs (signs : IsSignRun run) : foldSigns run = oneSign run := by
  rcases run with _ | ⟨sign, _ | ⟨next, run⟩⟩
  · rfl
  · exact if_pos (signs sign List.mem_cons_self)
  · obtain ⟨isSign, others⟩ := List.forall_mem_cons.1 signs
    obtain ⟨isNext, later⟩ := List.forall_mem_cons.1 others
    have joined : oneSign (sign :: next :: run) = [signToken (oddMinuses (sign :: next :: run))] := rfl
    rw [foldSigns, foldSignsFrom, if_pos isSign, foldSignsFrom, if_pos isNext, foldSignsFrom_some_signs _ later, joined,
      oddMinuses_cons, oddMinuses_cons, Bool.xor_assoc]

/-- Folding signs folds each run by itself. -/
theorem foldSigns_withRunsFrom (keeps : ∀ before run, IsSignRun run → IsSignRun (replace before run))
    (before : Option Token) (layout : SignLayout) :
    foldSigns (layout.withRunsFrom replace before) =
      layout.withRunsFrom (fun before run => oneSign (replace before run)) before := by
  induction layout generalizing before with
  | last run signs => exact foldSigns_signs (keeps before run signs)
  | cons run signs token noSign rest ih =>
    rw [SignLayout.withRunsFrom, foldSigns, foldSignsFrom_append none _ _ noSign, ih, ← foldSigns,
      foldSigns_signs (keeps before run signs)]
    rfl

end Everywhere

section Behind

/-- What is left of a run when signs are folded behind operators. -/
def operandRun (operators : List Operator) (before : Option Token) (run : List Token) : List Token :=
  if before.any (Token.isOperatorIn operators) then operandSign (oddMinuses run) else run

theorem isSignRun_operandRun (before : Option Token) (run : List Token) (signs : IsSignRun run) :
    IsSignRun (operandRun operators before run) := by
  unfold operandRun
  split
  · exact isSignRun_operandSign _
  · exact signs

theorem foldSignsAfterFrom_some_signs (negative : Bool) (signs : IsSignRun run) :
    foldSignsAfterFrom operators (some negative) run = operandSign (negative ^^ oddMinuses run) := by
  induction run generalizing negative with
  | nil => rw [foldSignsAfterFrom, show oddMinuses [] = false from rfl, Bool.xor_false]
  | cons sign run ih =>
    obtain ⟨isSign, others⟩ := List.forall_mem_cons.1 signs
    rw [foldSignsAfterFrom, if_pos isSign, ih _ others, oddMinuses_cons, Bool.xor_assoc]

theorem foldSignsAfterFrom_signs (signs : IsSignRun run)
    (apart : ∀ sign ∈ run, sign.isOperatorIn operators = false) (before : Option Token) :
    foldSignsAfterFrom operators (if before.any (Token.isOperatorIn operators) then some false else none) run =
      operandRun operators before run := by
  unfold operandRun
  split
  · rw [foldSignsAfterFrom_some_signs false signs, Bool.false_xor]
  · exact foldSignsAfter_of_clean apart

/-- Folding signs behind operators folds the runs directly behind them, each by itself. -/
theorem foldSignsAfterFrom_withRunsFrom (before : Option Token) (layout : SignLayout)
    (apart : ∀ sign ∈ layout.withRunsFrom (fun _ run => run) before,
      sign.isSign = true → sign.isOperatorIn operators = false) :
    foldSignsAfterFrom operators (if before.any (Token.isOperatorIn operators) then some false else none)
        (layout.withRunsFrom (fun _ run => run) before) =
      layout.withRunsFrom (operandRun operators) before := by
  induction layout generalizing before with
  | last run signs =>
    exact foldSignsAfterFrom_signs signs (fun sign member => apart sign member (signs sign member)) before
  | cons run signs token noSign rest ih =>
    have apartRun : ∀ sign ∈ run, sign.isOperatorIn operators = false :=
      fun sign member => apart sign (List.mem_append_left _ member) (signs sign member)
    have behind := ih (some token) fun sign member =>
      apart sign (List.mem_append_right _ (List.mem_cons_of_mem token member))
    rw [SignLayout.withRunsFrom, foldSignsAfterFrom_append _ _ _ noSign, foldSignsAfterFrom_signs signs apartRun,
      SignLayout.withRunsFrom, ← behind]
    rfl

end Behind

section Dropping

def isPlus : Token → Bool
  | .operator op => op = .plus
  | _ => false

/-- Leaves out each plus directly behind one of the operators, where `before` is the token that
stands before the list. -/
def dropPlusesFrom (operators : List Operator) : Option Token → List Token → List Token
  | _, [] => []
  | before, token :: rest =>
    if before.any (Token.isOperatorIn operators) ∧ isPlus token then dropPlusesFrom operators (some token) rest
    else token :: dropPlusesFrom operators (some token) rest

/-- Leaves out each plus directly behind one of the operators. -/
def dropPluses (operators : List Operator) (tokens : List Token) : List Token :=
  dropPlusesFrom operators none tokens

theorem isPlus_eq_false {token : Token} (noSign : token.isSign = false) : isPlus token = false := by
  cases token with
  | operator op =>
    cases op with
    | plus => exact Bool.noConfusion noSign
    | _ => rfl
  | _ => rfl

theorem dropPlusesFrom_append (before : Option Token) (front back : List Token) {token : Token}
    (noSign : token.isSign = false) :
    dropPlusesFrom operators before (front ++ token :: back) =
      dropPlusesFrom operators before front ++ token :: dropPlusesFrom operators (some token) back := by
  induction front generalizing before with
  | nil => exact if_neg fun both => ne_true_of_eq_false (isPlus_eq_false noSign) both.2
  | cons first front ih =>
    rw [List.cons_append, dropPlusesFrom, dropPlusesFrom, ih]
    split <;> rfl

/-- Signs that are plus or minus. An operator with a text of its own may count as a sign too. -/
def ArePlain (tokens : List Token) : Prop :=
  ∀ sign ∈ tokens, sign.isSign = true → sign = .operator .plus ∨ sign = .operator .minus

theorem arePlain_of_isKnown (known : ∀ token ∈ tokens, token.IsKnown) : ArePlain tokens := by
  intro sign member isSign
  rw [eq_signToken (known sign member) isSign]
  cases sign.isMinus
  · exact Or.inl rfl
  · exact Or.inr rfl

theorem oneSign_of_plain (signs : IsSignRun run) (plain : ArePlain run) (nonempty : run ≠ []) :
    oneSign run = [signToken (oddMinuses run)] := by
  rcases run with _ | ⟨sign, _ | ⟨next, run⟩⟩
  · exact (nonempty rfl).elim
  · rcases plain sign List.mem_cons_self (signs sign List.mem_cons_self) with rfl | rfl <;> rfl
  · rfl

theorem dropPlusesFrom_oneSign (signs : IsSignRun run) (plain : ArePlain run) (before : Option Token) :
    dropPlusesFrom operators before (oneSign run) = oneSign (operandRun operators before run) := by
  by_cases nonempty : run = []
  · subst nonempty
    cases behind : before.any (Token.isOperatorIn operators) <;> rw [operandRun, behind] <;> rfl
  · have one := oneSign_of_plain signs plain nonempty
    rw [one, dropPlusesFrom, operandRun]
    cases behind : before.any (Token.isOperatorIn operators) with
    | true =>
      rw [if_pos rfl, oneSign_operandSign]
      cases oddMinuses run <;> rfl
    | false =>
      rw [if_neg fun both => Bool.noConfusion both.1, if_neg Bool.false_ne_true, one]
      rfl

/-- Leaving out pluses behind operators changes the folded runs directly behind them. -/
theorem dropPlusesFrom_withRunsFrom (before : Option Token) (layout : SignLayout)
    (plain : ArePlain (layout.withRunsFrom (fun _ run => run) before)) :
    dropPlusesFrom operators before (layout.withRunsFrom (fun _ run => oneSign run) before) =
      layout.withRunsFrom (fun before run => oneSign (operandRun operators before run)) before := by
  induction layout generalizing before with
  | last run signs => exact dropPlusesFrom_oneSign signs plain before
  | cons run signs token noSign rest ih =>
    have plainRun : ArePlain run := fun sign member => plain sign (List.mem_append_left _ member)
    have behind := ih (some token) fun sign member =>
      plain sign (List.mem_append_right _ (List.mem_cons_of_mem token member))
    rw [SignLayout.withRunsFrom, dropPlusesFrom_append _ _ _ noSign, dropPlusesFrom_oneSign signs plainRun, behind]
    rfl

end Dropping

/-- Folding signs puts one sign in the place of each run, a minus exactly if the run has an odd number of them, and
leaves the other tokens as they are. Folding them behind operators other than signs puts a minus or nothing in the place
of the runs directly behind such operators, and leaves everything else. Neither changes its own result. Folding signs
behind operators first makes a difference only to the pluses that are left behind these operators. -/
theorem foldSigns_by_runs (tokens : List Token) :
    ∃ layout : SignLayout, layout.tokens = tokens ∧
      (foldSigns tokens = layout.withRuns (fun _ run => oneSign run) ∧
        (∀ run, IsSignRun run → run ≠ [] → ∃ sign, oneSign run = [sign] ∧ sign.isSign = true ∧
          (sign = .operator .minus ↔ Odd (run.countP Token.isMinus))) ∧
        ((foldSigns tokens).IsChain fun first second => ¬ (first.isSign = true ∧ second.isSign = true)) ∧
        (foldSigns tokens).filter (fun token => !token.isSign) = tokens.filter (fun token => !token.isSign) ∧
        foldSigns (foldSigns tokens) = foldSigns tokens) ∧
      ∀ operators : List Operator,
        foldSignsAfter operators (foldSignsAfter operators tokens) = foldSignsAfter operators tokens ∧
          (.plus ∉ operators → .minus ∉ operators → ArePlain tokens →
            foldSignsAfter operators tokens = layout.withRuns (operandRun operators) ∧
              foldSigns (foldSignsAfter operators tokens) = dropPluses operators (foldSigns tokens)) := by
  obtain ⟨layout, rfl⟩ := exists_layout_from none tokens
  have folded : foldSigns (layout.withRunsFrom (fun _ run => run) none) =
      layout.withRunsFrom (fun _ run => oneSign run) none :=
    foldSigns_withRunsFrom (fun _ _ signs => signs) none layout
  have others := filter_withRunsFrom (fun _ _ signs => signs) none layout
  have othersFolded := filter_withRunsFrom (fun _ _ signs => isSignRun_oneSign signs) none layout
  have twice := foldSigns_withRunsFrom (fun _ _ signs => isSignRun_oneSign signs) none layout
  simp only [oneSign_oneSign] at twice
  refine ⟨layout, rfl, ⟨folded, fun _ => exists_oneSign, isChain_foldSignsFrom none _, ?_, ?_⟩,
    fun operators => ⟨foldSignsAfter_idem _, fun noPlus noMinus plain => ?_⟩⟩
  · rw [folded, othersFolded, others]
  · rw [folded, twice]
  · have apart : ∀ sign ∈ layout.withRunsFrom (fun _ run => run) none, sign.isSign = true →
        sign.isOperatorIn operators = false := by
      intro sign member isSign
      rcases plain sign member isSign with rfl | rfl
      · exact Bool.eq_false_iff.2 fun among => noPlus (List.contains_iff_mem.1 among)
      · exact Bool.eq_false_iff.2 fun among => noMinus (List.contains_iff_mem.1 among)
    have behind : foldSignsAfter operators (layout.withRunsFrom (fun _ run => run) none) =
        layout.withRunsFrom (operandRun operators) none :=
      foldSignsAfterFrom_withRunsFrom none layout apart
    refine ⟨behind, ?_⟩
    rw [behind, folded, foldSigns_withRunsFrom isSignRun_operandRun, dropPluses,
      dropPlusesFrom_withRunsFrom none layout plain]

/-- Runs at both ends, behind a power and behind a product. -/
theorem runs_around_power :
    let operators : List Operator := [.power, .times]
    let tokens := [Token.operator .plus, .operator .minus, .number "2" 2.0, .operator .power, .operator .minus,
      .operator .minus, .number "3" 3.0, .operator .times, .operator .minus, .operator .plus, .number "4" 4.0,
      .operator .minus, .operator .minus]
    .plus ∉ operators ∧ .minus ∉ operators ∧ ArePlain tokens ∧
      foldSigns tokens = [.operator .minus, .number "2" 2.0, .operator .power, .operator .plus, .number "3" 3.0,
        .operator .times, .operator .minus, .number "4" 4.0, .operator .plus] ∧
      foldSigns (foldSignsAfter operators tokens) = [.operator .minus, .number "2" 2.0, .operator .power,
        .number "3" 3.0, .operator .times, .operator .minus, .number "4" 4.0, .operator .plus] := by
  intro operators tokens
  have noPlus : .plus ∉ operators := by decide
  have noMinus : .minus ∉ operators := by decide
  have plain : ArePlain tokens := arePlain_of_isKnown (by decide)
  obtain ⟨_, _, _, behind⟩ := foldSigns_by_runs tokens
  exact ⟨noPlus, noMinus, plain, rfl, ((behind operators).2 noPlus noMinus plain).2⟩

end Reckoner.Evaluation
