namespace Reckoner

variable {α : Type} {m : Type → Type} [Monad m]

/-- Replaces a state by what a round makes of it, at most `count` times. A round is `none`
when nothing is left to do. -/
def rounds (round : α → Option (m α)) : Nat → α → m α
  | 0, state => pure state
  | count + 1, state =>
    match round state with
    | none => pure state
    | some next => next >>= rounds round count

/-- Without a round to take, the state stays as it is. -/
theorem rounds_of_none {round : α → Option (m α)} {state : α} (h : round state = none) (count : Nat) :
    rounds round count state = pure state := by
  cases count with
  | zero => rfl
  | succ count => simp [rounds, h]

theorem rounds_succ_of_some {round : α → Option (m α)} {state : α} {next : m α} (h : round state = some next)
    (count : Nat) : rounds round (count + 1) state = next >>= rounds round count := by
  simp [rounds, h]

end Reckoner
