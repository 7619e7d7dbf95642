import Mathlib
import Reckoner.Proofs.Evaluation.Grammar
import Reckoner.Proofs.Evaluation.Precedence

namespace Reckoner.Evaluation

variable {bindings : Bindings} {functions : FunctionTable}

theorem eq_signToken {token : Token} (known : token.IsKnown) (sign : token.isSign = true) :
    token = signToken token.isMinus := by
  obtain ⟨op, rfl⟩ := exists_operator_of_isOperatorIn sign
  cases op with
  | unknown symbol other => simp [Token.IsKnown, Operator.all] at known
  | plus | minus => rfl
  | _ => exact Bool.noConfusion sign

@[simp] theorem isSign_signToken (sign : Bool) : (signToken sign).isSign = true := by
  cases sign <;> rfl

@[simp] theorem isMinus_signToken (sign : Bool) : (signToken sign).isMinus = sign := by
  cases sign <;> rfl

theorem runNegative_append (run : List Bool) (sign : Bool) :
    runNegative (run ++ [sign]) = (runNegative run ^^ sign) := by
  simp [runNegative]

theorem foldSignsFrom_some_run (run : List Bool) (before : Bool) (token : Token) (rest : List Token)
    (noSign : token.isSign = false) :
    foldSignsFrom (some (signToken before)) (run.map signToken ++ token :: rest) =
      signToken (run.foldl (· ^^ ·) before) :: token :: foldSignsFrom none rest := by
  induction run generalizing before with
  | nil => simp [foldSignsFrom, noSign]
  | cons sign run ih => simp [foldSignsFrom, ih]

theorem foldSignsFrom_run {run : List Bool} (signed : run ≠ []) (token : Token) (rest : List Token)
    (noSign : token.isSign = false) :
    foldSignsFrom none (run.map signToken ++ token :: rest) =
      signToken (runNegative run) :: token :: foldSignsFrom none rest := by
  cases run with
  | nil => exact (signed rfl).elim
  | cons sign run =>
    have folded := foldSignsFrom_some_run run sign token rest noSign
    simpa [foldSignsFrom, runNegative] using folded

/-- A sum that has just taken a number or has not begun. -/
def Ready (bindings : Bindings) (functions : FunctionTable) (before : List Token) (sum : RunningSum) : Prop :=
  sum = .start ∧ before = [] ∨
    sum.awaiting = false ∧ sum.atStart = false ∧ Means bindings functions .sum before sum.total

theorem take_signToken {sum next : RunningSum} {sign : Bool} (taken : sum.take (signToken sign) = .ok next) :
    next = ⟨sum.total, if sign then .minus else .plus, true, false⟩ := by
  rw [signToken, RunningSum.take] at taken
  by_cases opens : (if sign then Operator.minus else .plus).isAmong Operator.signs = true ∧
      (sum.atStart = true ∨ (!sum.awaiting) = true)
  · rw [if_pos opens] at taken
    exact (Except.ok.inj taken).symm
  · rw [if_neg opens] at taken
    exact nomatch taken

theorem exists_number_of_take {sum next : RunningSum} {token : Token} (noSign : token.isSign = false)
    (taken : sum.take token = .ok next) : ∃ text value, token = .number text value ∧ sum.awaiting = true ∧
      next = ⟨if sum.sign = .plus then sum.total + value else sum.total - value, sum.sign, false, false⟩ := by
  cases token with
  | number text value =>
    rw [RunningSum.take] at taken
    split at taken
    · rename_i awaiting
      exact ⟨text, value, rfl, awaiting, (Except.ok.inj taken).symm⟩
    · exact nomatch taken
  | operator op =>
    have noSignOp : op.isAmong Operator.signs = false := noSign
    simp [RunningSum.take, noSignOp] at taken
  | _ => exact nomatch taken

/-- A number without a sign can only begin a sum. -/
theorem Ready.take_number {before : List Token} {sum next : RunningSum} {token : Token}
    (ready : Ready bindings functions before sum) (noSign : token.isSign = false) (taken : sum.take token = .ok next) :
    Phrase.term.Leaves token ∧ Ready bindings functions (before ++ [token]) next := by
  obtain ⟨text, value, rfl, awaiting, rfl⟩ := exists_number_of_take noSign taken
  rcases ready with ⟨rfl, rfl⟩ | ⟨notAwaiting, _⟩
  · exact ⟨trivial, Or.inr ⟨rfl, rfl, .firstTerm [] (.ofPower (.ofPrimary (.number text value)))⟩⟩
  · rw [notAwaiting] at awaiting
    exact nomatch awaiting

/-- A number behind the sign that a run of signs is folded to is the next term. -/
theorem Ready.take_signed {before : List Token} {sum signedSum next : RunningSum} {run : List Bool} {token : Token}
    (ready : Ready bindings functions before sum) (signed : run ≠ [])
    (takenSign : sum.take (signToken (runNegative run)) = .ok signedSum) (noSign : token.isSign = false)
    (taken : signedSum.take token = .ok next) :
    Phrase.term.Leaves token ∧ Ready bindings functions (before ++ (run.map signToken ++ [token])) next := by
  obtain ⟨text, value, rfl, _, rfl⟩ := exists_number_of_take noSign taken
  obtain rfl := take_signToken takenSign
  have term : Means bindings functions .term [.number text value] value := .ofPower (.ofPrimary (.number text value))
  have means : Means bindings functions .sum (before ++ (run.map signToken ++ [.number text value]))
      (addSigned sum.total run value) := by
    rcases ready with ⟨rfl, rfl⟩ | ⟨_, _, means⟩
    · exact .firstTerm run term
    · exact .nextTerm means signed term
  have total : (if (if runNegative run then Operator.minus else Operator.plus) = .plus then sum.total + value
      else sum.total - value) = addSigned sum.total run value := by
    unfold addSigned
    cases runNegative run <;> rfl
  exact ⟨trivial, Or.inr ⟨rfl, rfl, total ▸ means⟩⟩

theorem foldSignsFrom_pending {pending : Option (List Bool)} {token : Token} (rest : List Token)
    (known : token.IsKnown) (sign : token.isSign = true) :
    foldSignsFrom (pending.map fun run => signToken (runNegative run)) (token :: rest) =
      foldSignsFrom (some (signToken (runNegative (pending.getD [] ++ [token.isMinus])))) rest := by
  rcases pending with _ | run
  · have alone : token = signToken (runNegative [token.isMinus]) :=
      (eq_signToken known sign).trans (by simp [runNegative])
    rw [Option.map_none, foldSignsFrom, if_pos sign]
    exact congrArg (fun sign => foldSignsFrom (some sign) rest) alone
  · rw [Option.map_some, foldSignsFrom, if_pos sign, isMinus_signToken]
    exact congrArg (fun sign => foldSignsFrom (some (signToken sign)) rest) (runNegative_append run _).symm

/-- What a chain adds to what is there. The run of signs read last is pending. -/
theorem sum_of_foldlM_take {tokens before : List Token} {sum final : RunningSum} {pending : Option (List Bool)}
    (known : ∀ token ∈ tokens, token.IsKnown) (signed : ∀ run ∈ pending, run ≠ [])
    (ready : Ready bindings functions before sum)
    (taken : (foldSignsFrom (pending.map fun run => signToken (runNegative run)) tokens).foldlM RunningSum.take sum =
      .ok final) (complete : final.awaiting = false) :
    Means bindings functions .sum (before ++ ((pending.getD []).map signToken ++ tokens)) final.total ∧
      ∀ token ∈ tokens, Phrase.term.Leaves token := by
  induction tokens generalizing before sum pending with
  | nil =>
    rcases pending with _ | run
    · cases taken
      rcases ready with ⟨rfl, _⟩ | ⟨_, _, means⟩
      · exact nomatch complete
      · exact ⟨by simpa using means, nofun⟩
    · obtain ⟨next, takenSign, same⟩ := bind_eq_ok.1 taken
      cases same
      rw [take_signToken takenSign] at complete
      exact nomatch complete
  | cons token rest ih =>
    obtain ⟨knownToken, knownRest⟩ := List.forall_mem_cons.1 known
    cases sign : token.isSign with
    | true =>
      have same := eq_signToken knownToken sign
      rw [foldSignsFrom_pending rest knownToken sign] at taken
      obtain ⟨means, leaves⟩ :=
        @ih before sum (some (pending.getD [] ++ [token.isMinus])) knownRest (by simp) ready taken
      refine ⟨?_, List.forall_mem_cons.2 ⟨same ▸ Phrase.leaves_sign (by decide) _, leaves⟩⟩
      simp only [Option.getD_some, List.map_append, List.map_cons, List.map_nil, ← same, List.append_assoc,
        List.singleton_append] at means
      exact means
    | false =>
      rcases pending with _ | run
      · rw [Option.map_none, foldSignsFrom, if_neg (ne_true_of_eq_false sign), List.foldlM_cons] at taken
        obtain ⟨next, takenToken, takenRest⟩ := bind_eq_ok.1 taken
        obtain ⟨leaf, readyNext⟩ := ready.take_number sign takenToken
        obtain ⟨means, leaves⟩ := @ih _ _ none knownRest nofun readyNext takenRest
        exact ⟨by simpa using means, List.forall_mem_cons.2 ⟨leaf, leaves⟩⟩
      · rw [Option.map_some, foldSignsFrom, if_neg (ne_true_of_eq_false sign), List.foldlM_cons] at taken
        obtain ⟨signedSum, takenSign, takenBoth⟩ := bind_eq_ok.1 taken
        obtain ⟨next, takenToken, takenRest⟩ := bind_eq_ok.1 takenBoth
        obtain ⟨leaf, readyNext⟩ := ready.take_signed (signed run rfl) takenSign sign takenToken
        obtain ⟨means, leaves⟩ := @ih _ _ none knownRest nofun readyNext takenRest
        exact ⟨by simpa using means, List.forall_mem_cons.2 ⟨leaf, leaves⟩⟩

/-- A sum that comes to a value has it as its meaning, and consists of numbers and signs. -/
theorem means_of_sumTerms {tokens : List Token} {value : Float} (known : ∀ token ∈ tokens, token.IsKnown)
    (result : sumTerms (foldSigns tokens) = .ok value) :
    Means bindings functions .sum tokens value ∧ ∀ token ∈ tokens, Phrase.term.Leaves token := by
  unfold sumTerms at result
  split at result
  · exact nomatch result
  · obtain ⟨final, taken, closed⟩ := bind_eq_ok.1 result
    split at closed
    · exact nomatch closed
    · rename_i complete
      cases closed
      exact @sum_of_foldlM_take _ _ _ _ _ _ none known nofun (Or.inl ⟨rfl, rfl⟩) taken (eq_false_of_ne_true complete)

/-- Signs in front of a number are one step of the sum. -/
theorem foldlM_take_run (sum : RunningSum) (run : List Bool) (text : String) (value : Float) (rest : List Token)
    (ready : sum = .start ∨ sum.awaiting = false ∧ run ≠ []) :
    ∃ op, (foldSignsFrom none (run.map signToken ++ .number text value :: rest)).foldlM RunningSum.take sum =
      (foldSignsFrom none rest).foldlM RunningSum.take ⟨addSigned sum.total run value, op, false, false⟩ := by
  by_cases signed : run = []
  · subst signed
    obtain rfl := ready.resolve_right fun other => other.2 rfl
    exact ⟨.plus, rfl⟩
  · rw [foldSignsFrom_run signed (.number text value) rest rfl]
    have open_or : sum.atStart = true ∨ (!sum.awaiting) = true := by
      rcases ready with rfl | ⟨notAwaiting, _⟩
      · exact Or.inl rfl
      · exact Or.inr (by rw [notAwaiting]; rfl)
    refine ⟨if runNegative run then .minus else .plus, ?_⟩
    rw [List.foldlM_cons, addSigned]
    cases runNegative run <;>
    · simp only [signToken, RunningSum.take]
      rw [if_pos ⟨rfl, open_or⟩]
      rfl

/-- The meaning of a sum of numbers is what it comes to. -/
theorem foldlM_take_of_means {tokens : List Token} {value : Float} (means : Means bindings functions .sum tokens value)
    (leaves : ∀ token ∈ tokens, Phrase.term.Leaves token) (rest : List Token) :
    ∃ op, (foldSignsFrom none (tokens ++ rest)).foldlM RunningSum.take .start =
      (foldSignsFrom none rest).foldlM RunningSum.take ⟨value, op, false, false⟩ := by
  generalize isSum : Phrase.sum = phrase at means
  induction means generalizing rest with
  | firstTerm run term =>
    obtain ⟨text, rfl⟩ := term.eq_number le_rfl le_rfl (List.forall_mem_append.1 leaves).2
    rw [List.append_assoc]
    exact foldlM_take_run _ run text _ rest (Or.inl rfl)
  | @nextTerm before tokens total value run _ signed term ih _ =>
    obtain ⟨leavesSum, leavesRest⟩ := List.forall_mem_append.1 leaves
    obtain ⟨text, rfl⟩ := term.eq_number le_rfl le_rfl (List.forall_mem_append.1 leavesRest).2
    obtain ⟨op, taken⟩ := ih leavesSum (run.map signToken ++ .number text value :: rest) rfl
    have step := foldlM_take_run ⟨total, op, false, false⟩ run text value rest (Or.inr ⟨rfl, signed⟩)
    rw [List.append_assoc, List.append_assoc, List.singleton_append, taken]
    exact step
  | _ => exact nomatch isSum

theorem sumTerms_of_means {tokens : List Token} {value : Float} (means : Means bindings functions .sum tokens value)
    (leaves : ∀ token ∈ tokens, Phrase.term.Leaves token) : sumTerms (foldSigns tokens) = .ok value := by
  obtain ⟨op, taken⟩ := foldlM_take_of_means means leaves []
  rw [List.append_nil] at taken
  have nonempty : (foldSigns tokens).isEmpty = false := by
    cases folded : foldSigns tokens with
    | nil =>
      rw [← foldSigns, folded] at taken
      exact nomatch taken
    | cons => rfl
  rw [sumTerms, nonempty, foldSigns, taken]
  rfl

end Reckoner.Evaluation
