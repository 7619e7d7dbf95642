import Mathlib
import Reckoner.Token.Basic

namespace Reckoner

/-- A left parenthesis and its partner, by their positions in a list. -/
structure Group where
  start : Nat
  finish : Nat
deriving DecidableEq

/-- How the parentheses of a list match: the pairs in the order in which they close, the left parentheses without a
partner from the last to the first, and the right ones without a partner from the first to the last. -/
structure Matching where
  groups : List Group
  opens : List Nat
  strays : List Nat
deriving DecidableEq

namespace Matching

/-- Matches the tokens that stand at a position and behind it. A left parenthesis goes on the stack, and a right one
takes the last left one from it. -/
def run : (stack : List Nat) → (position : Nat) → List Token → Matching
  | stack, _, [] => ⟨[], stack, []⟩
  | stack, position, token :: rest =>
    if token.isOpen then run (position :: stack) (position + 1) rest
    else if token.isClose then
      match stack with
      | start :: stack =>
        let behind := run stack (position + 1) rest
        { behind with groups := ⟨start, position⟩ :: behind.groups }
      | [] =>
        let behind := run [] (position + 1) rest
        { behind with strays := position :: behind.strays }
    else run stack (position + 1) rest

def of (tokens : List Token) : Matching := run [] 0 tokens

def Balanced (m : Matching) : Prop := m.opens = [] ∧ m.strays = []

instance (m : Matching) : Decidable m.Balanced := inferInstanceAs (Decidable (_ ∧ _))

/-- The groups that open behind every left parenthesis without a partner, the one that opens last first. -/
def order (m : Matching) : List Group :=
  (m.groups.filter fun group => m.opens.all (· < group.start)).mergeSort fun g h => h.start ≤ g.start

theorem isClose_of_isOpen {token : Token} (opens : token.isOpen = true) : token.isClose = false := by
  cases token <;> first | rfl | exact nomatch opens

section Run

variable {stack : List Nat} {position : Nat} {token : Token} {rest : List Token}

theorem run_open (opens : token.isOpen = true) :
    run stack position (token :: rest) = run (position :: stack) (position + 1) rest := by
  simp only [run, opens, if_true]

theorem run_pop {start : Nat} (closes : token.isClose = true) :
    run (start :: stack) position (token :: rest) =
      ⟨⟨start, position⟩ :: (run stack (position + 1) rest).groups, (run stack (position + 1) rest).opens,
        (run stack (position + 1) rest).strays⟩ := by
  have noOpen : token.isOpen = false := Bool.eq_false_iff.2 fun opens =>
    Bool.eq_false_iff.1 (isClose_of_isOpen opens) closes
  simp only [run, noOpen, closes, Bool.false_eq_true, if_false, if_true]

theorem run_stray (closes : token.isClose = true) :
    run [] position (token :: rest) =
      ⟨(run [] (position + 1) rest).groups, (run [] (position + 1) rest).opens,
        position :: (run [] (position + 1) rest).strays⟩ := by
  have noOpen : token.isOpen = false := Bool.eq_false_iff.2 fun opens =>
    Bool.eq_false_iff.1 (isClose_of_isOpen opens) closes
  simp only [run, noOpen, closes, Bool.false_eq_true, if_false, if_true]

theorem run_other (noOpen : token.isOpen = false) (noClose : token.isClose = false) :
    run stack position (token :: rest) = run stack (position + 1) rest := by
  simp only [run, noOpen, noClose, Bool.false_eq_true, if_false]

end Run

/-- A stack takes the right parentheses that have no partner otherwise, and changes nothing else. -/
theorem run_stack (stack : List Nat) (position : Nat) (tokens : List Token) :
    (run stack position tokens).groups.Perm
        ((run [] position tokens).groups ++ List.zipWith Group.mk stack (run [] position tokens).strays) ∧
      (run stack position tokens).opens =
        (run [] position tokens).opens ++ stack.drop (run [] position tokens).strays.length ∧
      (run stack position tokens).strays = (run [] position tokens).strays.drop stack.length := by
  induction tokens generalizing stack position with
  | nil => simp [run]
  | cons token rest ih =>
    cases opens : token.isOpen with
    | true =>
      obtain ⟨groups, left, strays⟩ := ih (position :: stack) (position + 1)
      obtain ⟨groupsOne, leftOne, straysOne⟩ := ih [position] (position + 1)
      rw [run_open opens, run_open opens, left, strays, leftOne, straysOne]
      cases behind : (run [] (position + 1) rest).strays with
      | nil =>
        rw [behind] at groups groupsOne
        simp only [List.zipWith_nil_right, List.append_nil] at groups groupsOne
        refine ⟨?_, ?_, ?_⟩
        · simpa using groups.trans groupsOne.symm
        · simp
        · simp
      | cons stray others =>
        rw [behind] at groups groupsOne
        simp only [List.zipWith_cons_cons, List.zipWith_nil_left] at groups groupsOne
        refine ⟨?_, ?_, ?_⟩
        · rw [List.append_cons] at groups
          simpa using groups.trans (groupsOne.symm.append_right _)
        · simp
        · simp
    | false =>
      cases closes : token.isClose with
      | false =>
        rw [run_other opens closes, run_other opens closes]
        exact ih stack (position + 1)
      | true =>
        cases stack with
        | nil => simp
        | cons start stack =>
          obtain ⟨groups, left, strays⟩ := ih stack (position + 1)
          rw [run_pop closes, run_stray closes]
          refine ⟨?_, ?_, ?_⟩
          · exact (groups.cons _).trans List.perm_middle.symm
          · simpa using left
          · simpa using strays

/-- Where the parentheses of a matching lie. -/
structure Sound (stack : List Nat) (position : Nat) (tokens : List Token) (m : Matching) : Prop where
  start : ∀ group ∈ m.groups, group.start ∈ stack ∨ position ≤ group.start
  finish : ∀ group ∈ m.groups, position ≤ group.finish ∧ group.start < group.finish
  distinct : m.groups.Pairwise fun g h => g.start ≠ h.start
  opens : ∀ start ∈ m.opens, start ∈ stack ∨ position ≤ start
  strays : ∀ stray ∈ m.strays, ∃ front token back, tokens = front ++ token :: back ∧ stray = position + front.length ∧
    token.isClose = true
  sorted : m.strays.Pairwise (· < ·)
  apart : ∀ group ∈ m.groups, ∀ stray ∈ m.strays, stray < group.start ∨ group.finish < stray
  closes : ∀ front token back, tokens = front ++ token :: back → token.isClose = true →
    position + front.length ∈ m.strays ∨ ∃ group ∈ m.groups, group.finish = position + front.length

namespace Sound

variable {stack other : List Nat} {position : Nat} {token : Token} {tokens rest : List Token} {m : Matching}

theorem le_stray (sound : Sound stack position tokens m) {stray : Nat} (member : stray ∈ m.strays) :
    position ≤ stray := by
  obtain ⟨front, _, _, _, same, _⟩ := sound.strays stray member
  omega

theorem strays_cons (sound : Sound stack (position + 1) rest m) (token : Token) {stray : Nat}
    (member : stray ∈ m.strays) : ∃ front closing back, token :: rest = front ++ closing :: back ∧
      stray = position + front.length ∧ closing.isClose = true := by
  obtain ⟨front, closing, back, rfl, rfl, closes⟩ := sound.strays stray member
  exact ⟨token :: front, closing, back, rfl, by rw [List.length_cons]; omega, closes⟩

/-- A right parenthesis is the first token, or one of those behind it. -/
theorem closes_cons (sound : Sound stack (position + 1) rest m) {front back : List Token} {closing : Token}
    (split : token :: rest = front ++ closing :: back) (closes : closing.isClose = true) :
    front = [] ∧ closing = token ∨ position + front.length ∈ m.strays ∨
      ∃ group ∈ m.groups, group.finish = position + front.length := by
  cases front with
  | nil => exact Or.inl ⟨rfl, (List.cons.inj split).1.symm⟩
  | cons first front =>
    have found := sound.closes front closing back (List.cons.inj split).2 closes
    rw [Nat.add_right_comm position 1, Nat.add_assoc] at found
    exact Or.inr found

theorem keep (sound : Sound other (position + 1) rest m) (within : ∀ start ∈ other, start ∈ stack ∨ start = position)
    (noClose : token.isClose = false) : Sound stack position (token :: rest) m where
  start group member := by
    rcases sound.start group member with old | later
    · exact (within group.start old).imp_right fun same => same.ge
    · exact Or.inr (Nat.le_of_succ_le later)
  finish group member := ⟨Nat.le_of_succ_le (sound.finish group member).1, (sound.finish group member).2⟩
  distinct := sound.distinct
  opens start member := by
    rcases sound.opens start member with old | later
    · exact (within start old).imp_right fun same => same.ge
    · exact Or.inr (Nat.le_of_succ_le later)
  strays _ := sound.strays_cons token
  sorted := sound.sorted
  apart := sound.apart
  closes front closing back split closes := by
    refine (sound.closes_cons split closes).resolve_left ?_
    rintro ⟨_, rfl⟩
    exact absurd closes (Bool.eq_false_iff.1 noClose)

theorem pop {start : Nat} (sound : Sound stack (position + 1) rest m) (below : start < position)
    (fresh : start ∉ stack) :
    Sound (start :: stack) position (token :: rest) ⟨⟨start, position⟩ :: m.groups, m.opens, m.strays⟩ where
  start := List.forall_mem_cons.2 ⟨Or.inl List.mem_cons_self, fun group member =>
    (sound.start group member).imp (List.mem_cons_of_mem start) Nat.le_of_succ_le⟩
  finish := List.forall_mem_cons.2 ⟨⟨le_rfl, below⟩, fun group member =>
    ⟨Nat.le_of_succ_le (sound.finish group member).1, (sound.finish group member).2⟩⟩
  distinct := by
    refine List.pairwise_cons.2 ⟨fun group member same => ?_, sound.distinct⟩
    change start = group.start at same
    rcases sound.start group member with old | later
    · exact fresh (same ▸ old)
    · omega
  opens start member := (sound.opens start member).imp (List.mem_cons_of_mem _) Nat.le_of_succ_le
  strays _ := sound.strays_cons token
  sorted := sound.sorted
  apart := List.forall_mem_cons.2 ⟨fun stray member => Or.inr (Nat.lt_of_succ_le (sound.le_stray member)), sound.apart⟩
  closes front closing back split closes := by
    rcases sound.closes_cons split closes with ⟨rfl, _⟩ | stray | ⟨group, member, same⟩
    · exact Or.inr ⟨_, List.mem_cons_self, rfl⟩
    · exact Or.inl stray
    · exact Or.inr ⟨group, List.mem_cons_of_mem _ member, same⟩

theorem stray (sound : Sound [] (position + 1) rest m) (closes : token.isClose = true) :
    Sound [] position (token :: rest) ⟨m.groups, m.opens, position :: m.strays⟩ where
  start group member := (sound.start group member).imp_right Nat.le_of_succ_le
  finish group member := ⟨Nat.le_of_succ_le (sound.finish group member).1, (sound.finish group member).2⟩
  distinct := sound.distinct
  opens start member := (sound.opens start member).imp_right Nat.le_of_succ_le
  strays := List.forall_mem_cons.2 ⟨⟨[], token, rest, rfl, rfl, closes⟩, fun _ => sound.strays_cons token⟩
  sorted := List.pairwise_cons.2 ⟨fun _ member => Nat.lt_of_succ_le (sound.le_stray member), sound.sorted⟩
  apart group member := List.forall_mem_cons.2
    ⟨Or.inl (Nat.lt_of_succ_le ((sound.start group member).resolve_left List.not_mem_nil)), sound.apart group member⟩
  closes front closing back split isClose := by
    rcases sound.closes_cons split isClose with ⟨rfl, _⟩ | found | found
    · exact Or.inl List.mem_cons_self
    · exact Or.inl (List.mem_cons_of_mem _ found)
    · exact Or.inr found

end Sound

theorem sound_run (stack : List Nat) (position : Nat) (tokens : List Token) (below : ∀ start ∈ stack, start < position)
    (distinct : stack.Nodup) : Sound stack position tokens (run stack position tokens) := by
  induction tokens generalizing stack position with
  | nil =>
    refine ⟨nofun, nofun, .nil, fun start member => Or.inl member, nofun, .nil, nofun, ?_⟩
    exact fun front token back split => absurd split.symm (by simp)
  | cons token rest ih =>
    have later : ∀ start ∈ stack, start < position + 1 := fun start member =>
      (below start member).trans (Nat.lt_succ_self _)
    cases opens : token.isOpen with
    | true =>
      have fresh : position ∉ stack := fun member => Nat.lt_irrefl _ (below position member)
      rw [run_open opens]
      refine (ih (position :: stack) (position + 1) (List.forall_mem_cons.2 ⟨Nat.lt_succ_self _, later⟩)
        (List.nodup_cons.2 ⟨fresh, distinct⟩)).keep ?_ (isClose_of_isOpen opens)
      exact fun start member => (List.mem_cons.1 member).symm
    | false =>
      cases closes : token.isClose with
      | false =>
        rw [run_other opens closes]
        exact (ih stack (position + 1) later distinct).keep (fun start => Or.inl) closes
      | true =>
        cases stack with
        | nil =>
          rw [run_stray closes]
          exact (ih [] (position + 1) later distinct).stray closes
        | cons start stack =>
          obtain ⟨fresh, distinct⟩ := List.nodup_cons.1 distinct
          obtain ⟨first, later⟩ := List.forall_mem_cons.1 later
          rw [run_pop closes]
          exact (ih stack (position + 1) later distinct).pop (below start List.mem_cons_self) fresh

/-- The groups that are evaluated, in a matching of distinct groups. -/
theorem order_perm (m : Matching) :
    m.order.Perm (m.groups.filter fun group => m.opens.all (· < group.start)) :=
  List.mergeSort_perm _ _

theorem order_sorted {m : Matching} (distinct : m.groups.Pairwise fun g h => g.start ≠ h.start) :
    m.order.Pairwise fun g h => h.start < g.start := by
  have apart : m.order.Pairwise fun g h => g.start ≠ h.start :=
    (m.order_perm.pairwise_iff fun apart => apart.symm).2 (distinct.filter _)
  have falling : m.order.Pairwise fun g h => h.start ≤ g.start := by
    refine (List.pairwise_mergeSort ?_ ?_ _).imp of_decide_eq_true
    · exact fun f g h first second => decide_eq_true ((of_decide_eq_true second).trans (of_decide_eq_true first))
    · exact fun g h => by simpa using Nat.le_total h.start g.start
  exact (falling.and apart).imp fun both => Nat.lt_of_le_of_ne both.1 both.2.symm

theorem order_eq {m : Matching} {list : List Group} (distinct : m.groups.Pairwise fun g h => g.start ≠ h.start)
    (falling : list.Pairwise fun g h => h.start < g.start)
    (same : list.Perm (m.groups.filter fun group => m.opens.all (· < group.start))) : m.order = list :=
  List.Perm.eq_of_pairwise (fun _ _ _ _ first second => absurd first second.le.not_gt) (order_sorted distinct) falling
    (m.order_perm.trans same.symm)

theorem mem_order {m : Matching} {group : Group} :
    group ∈ m.order ↔ group ∈ m.groups ∧ ∀ start ∈ m.opens, start < group.start := by
  rw [m.order_perm.mem_iff, List.mem_filter, List.all_eq_true]
  simp only [decide_eq_true_eq]

section Head

variable {position : Nat} {token : Token} {rest : List Token}

theorem sound_of_nil (position : Nat) (tokens : List Token) : Sound [] position tokens (run [] position tokens) :=
  sound_run [] position tokens nofun .nil

theorem start_of_nil {tokens : List Token} {group : Group} (member : group ∈ (run [] position tokens).groups) :
    position ≤ group.start :=
  ((sound_of_nil position tokens).start group member).resolve_left List.not_mem_nil

theorem order_run_of_not_open (noOpen : token.isOpen = false) :
    (run [] position (token :: rest)).order = (run [] (position + 1) rest).order ∧
      (run [] position (token :: rest)).opens = (run [] (position + 1) rest).opens := by
  cases closes : token.isClose with
  | true =>
    rw [run_stray closes]
    exact ⟨rfl, rfl⟩
  | false =>
    rw [run_other noOpen closes]
    exact ⟨rfl, rfl⟩

/-- A left parenthesis that has no partner, or stands before another without one, adds no group to be evaluated. -/
theorem order_run_of_unmatched (opens : token.isOpen = true)
    (unmatched : (run [] (position + 1) rest).opens ≠ [] ∨ (run [] (position + 1) rest).strays = []) :
    (run [] position (token :: rest)).order = (run [] (position + 1) rest).order ∧
      (run [] position (token :: rest)).opens ≠ [] := by
  obtain ⟨groups, left, -⟩ := run_stack [position] (position + 1) rest
  have distinct := (sound_of_nil position (token :: rest)).distinct
  rw [run_open opens] at distinct ⊢
  constructor
  · refine order_eq distinct (order_sorted (sound_of_nil (position + 1) rest).distinct) ?_
    refine (order_perm _).trans (.trans ?_ (groups.filter _).symm)
    have same : (run [] (position + 1) rest).groups.filter
          (fun group => (run [position] (position + 1) rest).opens.all (· < group.start)) =
        (run [] (position + 1) rest).groups.filter
          (fun group => (run [] (position + 1) rest).opens.all (· < group.start)) := by
      refine List.filter_congr fun group member => ?_
      have behind : position < group.start := start_of_nil member
      have passes : (List.drop (run [] (position + 1) rest).strays.length [position]).all (· < group.start) = true :=
        List.all_eq_true.2 fun start member => decide_eq_true
          ((List.mem_singleton.1 (List.mem_of_mem_drop member)).symm ▸ behind)
      rw [left, List.all_append, passes, Bool.and_true]
    have none : (List.zipWith Group.mk [position] (run [] (position + 1) rest).strays).filter
        (fun group => (run [position] (position + 1) rest).opens.all (· < group.start)) = [] := by
      cases strays : (run [] (position + 1) rest).strays with
      | nil => rfl
      | cons stray others =>
        obtain ⟨start, member⟩ := List.exists_mem_of_ne_nil _ (unmatched.resolve_right (by rw [strays]; exact nofun))
        have behind := ((sound_of_nil (position + 1) rest).opens start member).resolve_left List.not_mem_nil
        refine List.filter_eq_nil_iff.2 fun group isGroup passes => ?_
        obtain rfl : group = ⟨position, stray⟩ := List.mem_singleton.1 isGroup
        have before := of_decide_eq_true
          (List.all_eq_true.1 passes start (left ▸ List.mem_append_left _ member))
        exact Nat.lt_irrefl _ (behind.trans before.le)
    rw [List.filter_append, none, List.append_nil, same]
  · rw [left]
    rcases unmatched with others | strays
    · exact List.append_ne_nil_of_left_ne_nil others _
    · rw [strays]
      exact List.append_ne_nil_of_right_ne_nil _ (List.cons_ne_nil _ _)

/-- A left parenthesis with a partner makes the group that is evaluated last. -/
theorem order_run_of_matched {stray : Nat} {others : List Nat} (opens : token.isOpen = true)
    (left : (run [] (position + 1) rest).opens = []) (strays : (run [] (position + 1) rest).strays = stray :: others) :
    (run [] position (token :: rest)).order = (run [] (position + 1) rest).order ++ [⟨position, stray⟩] ∧
      (run [] position (token :: rest)).opens = [] := by
  obtain ⟨groups, leftOne, -⟩ := run_stack [position] (position + 1) rest
  have distinct := (sound_of_nil position (token :: rest)).distinct
  rw [run_open opens] at distinct ⊢
  rw [left, strays, List.length_cons, List.drop_succ_cons, List.drop_nil, List.append_nil] at leftOne
  rw [strays] at groups
  refine ⟨order_eq distinct ?_ ?_, leftOne⟩
  · refine List.pairwise_append.2
      ⟨order_sorted (sound_of_nil (position + 1) rest).distinct, List.pairwise_singleton _ _,
      fun group member last isLast => ?_⟩
    rw [List.mem_singleton.1 isLast]
    exact start_of_nil (mem_order.1 member).1
  · have whole (m : Matching) (none : m.opens = []) :
        (m.groups.filter fun group => m.opens.all (· < group.start)) = m.groups := by
      rw [none]
      exact List.filter_eq_self.2 fun _ _ => rfl
    rw [whole _ leftOne]
    refine .trans (.append_right _ ?_) groups.symm
    rw [← whole _ left]
    exact order_perm _

end Head

end Matching

end Reckoner
