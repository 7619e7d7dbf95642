import Mathlib
import Reckoner.Rounds
import Reckoner.Traced

namespace Reckoner

variable {α : Type} {round : α → Option (Traced α)} {step : α → α → Prop}

/-- What a loop comes to that takes rounds as long as there are any. Each round that goes on leads to a state in the
given relation to the one before. -/
inductive Ends (round : α → Option (Traced α)) (step : α → α → Prop) : α → Except Stop α → Prop
  | idle {state : α} : round state = none → Ends round step state (.ok state)
  | stopped {state : α} {taken : Traced α} {stop : Stop} :
      round state = some taken → taken.result = .error stop → Ends round step state (.error stop)
  | next {state following : α} {taken : Traced α} {outcome : Except Stop α} :
      round state = some taken → taken.result = .ok following → step state following →
      Ends round step following outcome → Ends round step state outcome

/-- A round that goes on, from one state to the next. -/
def Leads (round : α → Option (Traced α)) (state following : α) : Prop :=
  ∃ taken, round state = some taken ∧ taken.result = .ok following

/-- A loop that uses something up in each of its rounds ends within as many rounds as there is of it at the start. The
budget does not cut it short. -/
theorem ends_rounds {holds : α → Prop} {size : α → Nat}
    (turns : ∀ {state following}, holds state → Leads round state following → step state following ∧ holds following)
    (shrinks : ∀ {state following}, step state following → size following < size state)
    (quits : ∀ {state}, holds state → size state = 0 → round state = none) {state : α} (start : holds state)
    {count : Nat} (enough : size state ≤ count) : Ends round step state (rounds round count state).result := by
  induction count generalizing state with
  | zero => exact .idle (quits start (Nat.le_zero.1 enough))
  | succ count ih =>
    cases turn : round state with
    | none =>
      rw [rounds_of_none turn]
      exact .idle turn
    | some taken =>
      rw [rounds_succ_of_some turn, Traced.result_bind]
      cases result : taken.result with
      | error stop => exact .stopped turn result
      | ok following =>
        obtain ⟨progress, kept⟩ := turns start ⟨taken, turn, result⟩
        have smaller := shrinks progress
        exact .next turn result progress (ih kept (by omega))

/-- What holds at the start of a loop and is kept by its rounds holds of all its states. -/
theorem holds_of_leads {holds : α → Prop} (keeps : ∀ {state following}, holds state → Leads round state following →
    holds following) {state later : α} (leads : Relation.ReflTransGen (Leads round) state later) (start : holds state) :
    holds later := by
  induction leads with
  | refl => exact start
  | tail _ turn ih => exact keeps ih turn

/-- A loop that ends with a state has come to it by its rounds, and has none left there. -/
theorem Ends.leads {state last : α} (ends : Ends round step state (.ok last)) :
    Relation.ReflTransGen (Leads round) state last ∧ round last = none := by
  generalize isLast : Except.ok last = outcome at ends
  induction ends with
  | idle none =>
    cases isLast
    exact ⟨.refl, none⟩
  | stopped => cases isLast
  | next turn result _ _ ih =>
    obtain ⟨later, none⟩ := ih isLast
    exact ⟨.head ⟨_, turn, result⟩ later, none⟩

end Reckoner
