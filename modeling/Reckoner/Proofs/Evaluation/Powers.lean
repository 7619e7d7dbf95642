import Mathlib
import Reckoner.Proofs.Evaluation.Precedence

namespace Reckoner.Evaluation

/-- Takes one token in front of a list without powers, or in front of a power operator held back before such a
list. -/
def takePower : Token → Option Operator × List Token → Traced (Option Operator × List Token)
  | token, (some op, swept) => (none, ·) <$> foldSigned [token] op swept
  | .operator op, (none, swept) =>
    if op.isAmong [.power] then return (some op, swept) else return (none, .operator op :: swept)
  | token, (none, swept) => return (none, token :: swept)

/-- Evaluates the powers of a list from its end, with the operator that still waits for its left operand. -/
def sweepPowersFrom : List Token → Traced (Option Operator × List Token)
  | [] => return (none, [])
  | token :: rest => sweepPowersFrom rest >>= takePower token

/-- Evaluates the powers of a list from its end. -/
def sweepPowers (tokens : List Token) : Traced (List Token) := do
  match ← sweepPowersFrom tokens with
  | (none, swept) => return swept
  | (some op, _) => Traced.fail (.missingLeftOperand op)

def powerTokens (state : Option Operator × List Token) : List Token :=
  (state.1.map Token.operator).toList ++ state.2

theorem foldSigned_append (before : List Token) (token : Token) (op : Operator) (after : List Token) :
    foldSigned (before ++ [token]) op after = (before ++ ·) <$> foldSigned [token] op after := by
  have one := leftOperand?_append [] token
  rw [List.nil_append] at one
  unfold foldSigned signedOperands
  rw [leftOperand?_append, one]
  cases token with
  | number text value =>
    rcases signedOperand? after with _ | ⟨right, rest⟩
    · rfl
    · simp only [Traced.ofFailing, pure_bind, map_eq_pure_bind, bind_assoc, List.nil_append]
  | _ => rfl

/-- A state of the sweep is a list without powers, perhaps behind one power operator. -/
def PowersSwept (state : Option Operator × List Token) : Prop :=
  (∀ op ∈ state.1, op.isAmong [.power] = true) ∧ ∀ token ∈ state.2, isPower token = false

theorem powersSwept_of_foldSigned {token : Token} {op : Operator} {swept folded : List Token}
    (clean : ∀ token ∈ swept, isPower token = false)
    (result : (foldSigned [token] op swept).result = .ok folded) : ∀ token ∈ folded, isPower token = false := by
  intro other member
  have isNumber : isPower token = false := by
    cases token with
    | number text value => rfl
    | _ => exact nomatch result
  rcases mem_of_foldSigned result member with first | later | ⟨value, rfl⟩
  · rw [List.mem_singleton.1 first]
    exact isNumber
  · exact clean other later
  · rfl

theorem takePower_swept {token : Token} {state next : Option Operator × List Token} (swept : PowersSwept state)
    (result : (takePower token state).result = .ok next) : PowersSwept next := by
  rcases state with ⟨_ | op, list⟩
  · have clean := swept.2
    cases token with
    | operator op =>
      rw [takePower] at result
      split at result
      · rename_i power
        cases result
        exact ⟨fun _ same => Option.some.inj same ▸ power, clean⟩
      · rename_i noPower
        cases result
        exact ⟨nofun, List.forall_mem_cons.2 ⟨eq_false_of_ne_true noPower, clean⟩⟩
    | _ =>
      cases result
      exact ⟨nofun, List.forall_mem_cons.2 ⟨rfl, clean⟩⟩
  · rw [takePower, map_eq_pure_bind] at result
    obtain ⟨folded, isFolded, same⟩ := Traced.result_bind_eq_ok.1 result
    cases same
    exact ⟨nofun, powersSwept_of_foldSigned swept.2 isFolded⟩

theorem sweepPowersFrom_swept {tokens : List Token} {state : Option Operator × List Token}
    (result : (sweepPowersFrom tokens).result = .ok state) : PowersSwept state := by
  induction tokens generalizing state with
  | nil =>
    cases result
    exact ⟨nofun, nofun⟩
  | cons token rest ih =>
    obtain ⟨before, resultRest, taken⟩ := Traced.result_bind_eq_ok.1 result
    exact takePower_swept (ih resultRest) taken

theorem countP_powerTokens {state : Option Operator × List Token} (swept : PowersSwept state) :
    (powerTokens state).countP isPower = if state.1.isSome then 1 else 0 := by
  rcases state with ⟨_ | op, list⟩
  · have none : list.countP isPower = 0 := List.countP_eq_zero.2 fun token member => by simp [swept.2 token member]
    exact none
  · have none : list.countP isPower = 0 := List.countP_eq_zero.2 fun token member => by simp [swept.2 token member]
    have power : isPower (.operator op) = true := swept.1 op rfl
    simp [powerTokens, power, none]

theorem rounds_takePower (before : List Token) (token : Token) {state : Option Operator × List Token}
    (swept : PowersSwept state) (count : Nat) :
    rounds (signedRound (breakLast? isPower)) (count + ([token] ++ powerTokens state).countP isPower)
        (before ++ ([token] ++ powerTokens state)) =
      takePower token state >>= fun next =>
        rounds (signedRound (breakLast? isPower)) (count + (powerTokens next).countP isPower)
          (before ++ powerTokens next) := by
  rcases state with ⟨_ | op, list⟩
  · cases token with
    | operator op =>
      rw [takePower]
      split <;> simp [powerTokens, List.countP_cons, Nat.add_comm]
    | _ => simp [takePower, powerTokens]
  · have power : isPower (.operator op) = true := swept.1 op rfl
    have round : signedRound (breakLast? isPower) (before ++ ([token] ++ powerTokens (some op, list))) =
        some ((before ++ ·) <$> foldSigned [token] op list) := by
      have split :
        before ++ ([token] ++ powerTokens (some op, list)) = (before ++ [token]) ++ .operator op :: list := by
        simp [powerTokens]
      rw [split, signedRound, breakLast?_append _ swept.2 power, Option.map_some, foldSignedAt, foldSigned_append]
    have counts : count + ([token] ++ powerTokens (some op, list)).countP isPower =
        count + [token].countP isPower + 1 := by
      rw [List.countP_append, countP_powerTokens swept, ← Nat.add_assoc]
      rfl
    rw [counts, rounds_succ_of_some round, takePower]
    simp only [map_eq_pure_bind, bind_assoc, pure_bind]
    refine Traced.bind_congr_of_ok fun folded result => ?_
    have clean := powersSwept_of_foldSigned swept.2 result
    have none : folded.countP isPower = 0 := List.countP_eq_zero.2 fun token member => by simp [clean token member]
    have first : [token].countP isPower = 0 := by
      cases token with
      | number text value => rfl
      | _ => cases result
    rw [first]
    simp [powerTokens, none]

theorem rounds_sweepPowersFrom (before tokens : List Token) (count : Nat) :
    rounds (signedRound (breakLast? isPower)) (count + tokens.countP isPower) (before ++ tokens) =
      sweepPowersFrom tokens >>= fun state =>
        rounds (signedRound (breakLast? isPower)) (count + (powerTokens state).countP isPower)
          (before ++ powerTokens state) := by
  induction tokens generalizing before count with
  | nil => simp [sweepPowersFrom, powerTokens]
  | cons token rest ih =>
    have step := ih (before ++ [token]) (count + [token].countP isPower)
    have counts : count + (token :: rest).countP isPower = count + [token].countP isPower + rest.countP isPower := by
      rw [← List.singleton_append, List.countP_append, Nat.add_assoc]
    rw [List.append_assoc, List.singleton_append] at step
    rw [counts, step, sweepPowersFrom, bind_assoc]
    refine Traced.bind_congr_of_ok fun state result => ?_
    rw [List.append_assoc, Nat.add_assoc, ← List.countP_append,
      rounds_takePower before token (sweepPowersFrom_swept result)]

theorem rounds_signed_power (tokens : List Token) :
    rounds (signedRound (breakLast? isPower)) (tokens.countP isPower) tokens = sweepPowers tokens := by
  have all := rounds_sweepPowersFrom [] tokens 0
  rw [Nat.zero_add, List.nil_append] at all
  rw [all, sweepPowers]
  refine Traced.bind_congr_of_ok fun state result => ?_
  have swept := sweepPowersFrom_swept result
  rw [countP_powerTokens swept]
  rcases state with ⟨_ | op, list⟩
  · rfl
  · have power : isPower (.operator op) = true := swept.1 op rfl
    have round : signedRound (breakLast? isPower) ([] ++ powerTokens (some op, list)) =
        some (Traced.fail (.missingLeftOperand op)) := by
      rw [signedRound, show powerTokens (some op, list) = .operator op :: list from rfl,
        breakLast?_append [] swept.2 power]
      rfl
    exact rounds_succ_of_some round 0

theorem sweepPowers_clean {tokens swept : List Token} (result : (sweepPowers tokens).result = .ok swept) :
    ∀ token ∈ swept, isPower token = false := by
  obtain ⟨⟨_ | op, list⟩, swept', closed⟩ := Traced.result_bind_eq_ok.1 result
  · cases closed
    exact (sweepPowersFrom_swept swept').2
  · exact nomatch closed

/-- Folding the last power again and again is one sweep from the end. -/
theorem rounds_powerRound {tokens : List Token} (known : ∀ token ∈ tokens, token.IsKnown) :
    rounds powerRound (tokens.countP isPower) tokens = sweepPowers tokens := by
  have cleared : ∀ left, (rounds (signedRound (breakLast? isPower)) (tokens.countP isPower) tokens).result = .ok left →
      ∀ token ∈ left, isPower token = false := by
    intro left result
    rw [rounds_signed_power] at result
    exact sweepPowers_clean result
  rw [← rounds_signed_power]
  exact rounds_foldedRound (picks_last unsigned_power) known cleared

end Reckoner.Evaluation
