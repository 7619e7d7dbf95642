import Mathlib
import Reckoner.Json.Limits
import Reckoner.Proofs.Settling

namespace Reckoner

namespace Value

/-- What holds of every value whose parts it holds of, holds of every value. -/
theorem of_parts {holds : Value → Prop} (null : holds .null) (flag : ∀ value, holds (.flag value))
    (whole : ∀ value, holds (.whole value)) (real : ∀ value, holds (.real value)) (text : ∀ value, holds (.text value))
    (list : ∀ items, (∀ item ∈ items, holds item) → holds (.list items))
    (mapping : ∀ entries, (∀ entry ∈ entries, holds entry.2) → holds (.mapping entries)) (value : Value) :
    holds value :=
  @Value.rec holds (fun items => ∀ item ∈ items, holds item) (fun entries => ∀ entry ∈ entries, holds entry.2)
    (fun entry => holds entry.2) null flag whole real text list mapping (List.forall_mem_nil _)
    (fun _ _ first others => List.forall_mem_cons.2 ⟨first, others⟩) (List.forall_mem_nil _)
    (fun _ _ first others => List.forall_mem_cons.2 ⟨first, others⟩) (fun _ _ inner => inner) value

mutual

/-- How many lists and mappings stand inside each other in a value, itself among them. -/
def depth : Value → Nat
  | .list items => depthOfItems items + 1
  | .mapping entries => depthOfEntries entries + 1
  | .null | .flag _ | .whole _ | .real _ | .text _ => 0

def depthOfItems : List Value → Nat
  | [] => 0
  | item :: rest => max (depth item) (depthOfItems rest)

def depthOfEntries : List (CodePoints × Value) → Nat
  | [] => 0
  | (_, value) :: rest => max (depth value) (depthOfEntries rest)

end

theorem depthOfItems_le {items : List Value} {bound : Nat} :
    depthOfItems items ≤ bound ↔ ∀ item ∈ items, item.depth ≤ bound := by
  induction items with
  | nil => exact ⟨fun _ => List.forall_mem_nil _, fun _ => Nat.zero_le _⟩
  | cons item rest ih => rw [depthOfItems, Nat.max_le, List.forall_mem_cons, ih]

theorem depthOfEntries_le {entries : List (CodePoints × Value)} {bound : Nat} :
    depthOfEntries entries ≤ bound ↔ ∀ entry ∈ entries, entry.2.depth ≤ bound := by
  induction entries with
  | nil => exact ⟨fun _ => List.forall_mem_nil _, fun _ => Nat.zero_le _⟩
  | cons entry rest ih => rw [depthOfEntries, Nat.max_le, List.forall_mem_cons, ih]

theorem depth_list_le {items : List Value} {bound : Nat} :
    depth (.list items) ≤ bound + 1 ↔ ∀ item ∈ items, item.depth ≤ bound := by
  rw [depth, Nat.add_le_add_iff_right, depthOfItems_le]

theorem depth_mapping_le {entries : List (CodePoints × Value)} {bound : Nat} :
    depth (.mapping entries) ≤ bound + 1 ↔ ∀ entry ∈ entries, entry.2.depth ≤ bound := by
  rw [depth, Nat.add_le_add_iff_right, depthOfEntries_le]

/-- A value whose whole numbers have no more digits than are converted. -/
inductive Brief : Value → Prop
  | null : Brief .null
  | flag (value : Bool) : Brief (.flag value)
  | whole {value : Int} (few : (Nat.toDigits 10 value.natAbs).length ≤ digitLimit) : Brief (.whole value)
  | real (value : Float) : Brief (.real value)
  | text (value : CodePoints) : Brief (.text value)
  | list {items : List Value} (each : ∀ item ∈ items, Brief item) : Brief (.list items)
  | mapping {entries : List (CodePoints × Value)} (each : ∀ entry ∈ entries, Brief entry.2) : Brief (.mapping entries)

section Follow

variable {need : Value → Nat} {room : Nat}

theorem followItems_eq_ok {items : List Value} :
    followItems need room items = .ok () ↔ ∀ item ∈ items, follow need room item = .ok () := by
  induction items with
  | nil => exact ⟨fun _ => List.forall_mem_nil _, fun _ => rfl⟩
  | cons item rest ih => rw [followItems, check_bind_eq_ok, List.forall_mem_cons, ih]

theorem followEntries_eq_ok {entries : List (CodePoints × Value)} :
    followEntries need room entries = .ok () ↔ ∀ entry ∈ entries, follow need room entry.2 = .ok () := by
  induction entries with
  | nil => exact ⟨fun _ => List.forall_mem_nil _, fun _ => rfl⟩
  | cons entry rest ih => rw [followEntries, check_bind_eq_ok, List.forall_mem_cons, ih]

theorem follow_list_eq_ok {items : List Value} : follow need room (.list items) = .ok () ↔
    need (.list items) ≤ room ∧ ∀ item ∈ items, follow need (room - 1) item = .ok () := by
  rw [follow]
  split_ifs with short
  · exact ⟨nofun, fun both => absurd short (Nat.not_lt.2 both.1)⟩
  · rw [followItems_eq_ok]
    exact ⟨fun each => ⟨Nat.le_of_not_lt short, each⟩, And.right⟩

theorem follow_mapping_eq_ok {entries : List (CodePoints × Value)} : follow need room (.mapping entries) = .ok () ↔
    need (.mapping entries) ≤ room ∧ ∀ entry ∈ entries, follow need (room - 1) entry.2 = .ok () := by
  rw [follow]
  split_ifs with short
  · exact ⟨nofun, fun both => absurd short (Nat.not_lt.2 both.1)⟩
  · rw [followEntries_eq_ok]
    exact ⟨fun each => ⟨Nat.le_of_not_lt short, each⟩, And.right⟩

theorem follow_whole_eq_ok {number : Int} : follow need room (.whole number) = .ok () ↔
    need (.whole number) ≤ room ∧ (Nat.toDigits 10 number.natAbs).length ≤ digitLimit := by
  rw [follow]
  split_ifs with short many
  · exact ⟨nofun, fun both => absurd short (Nat.not_lt.2 both.1)⟩
  · exact ⟨nofun, fun both => absurd many (Nat.not_lt.2 both.2)⟩
  · exact ⟨fun _ => ⟨Nat.le_of_not_lt short, Nat.le_of_not_lt many⟩, fun _ => rfl⟩

end Follow

end Value

namespace Json

theorem one_le_writingNeed (value : Value) : 1 ≤ writingNeed value := by
  unfold writingNeed
  split <;> omega

theorem writingNeed_le_add_two (value : Value) (room : Nat) : writingNeed value ≤ room + 2 := by
  unfold writingNeed
  split <;> omega

/-- What is followed in writing has few digits, and is no deeper than there is room. -/
theorem brief_and_depth_of_follow {value : Value} {room : Nat} (follows : value.follow writingNeed room = .ok ()) :
    value.Brief ∧ value.depth ≤ room := by
  induction value using Value.of_parts generalizing room with
  | null => exact ⟨.null, Nat.zero_le _⟩
  | flag value => exact ⟨.flag value, Nat.zero_le _⟩
  | whole value => exact ⟨.whole (Value.follow_whole_eq_ok.1 follows).2, Nat.zero_le _⟩
  | real value => exact ⟨.real value, Nat.zero_le _⟩
  | text value => exact ⟨.text value, Nat.zero_le _⟩
  | list items ih =>
    obtain ⟨fits, each⟩ := Value.follow_list_eq_ok.1 follows
    obtain ⟨room, rfl⟩ := Nat.exists_eq_add_of_le' ((one_le_writingNeed _).trans fits)
    exact ⟨.list fun item member => (ih item member (each item member)).1,
      Value.depth_list_le.2 fun item member => (ih item member (each item member)).2⟩
  | mapping entries ih =>
    obtain ⟨fits, each⟩ := Value.follow_mapping_eq_ok.1 follows
    obtain ⟨room, rfl⟩ := Nat.exists_eq_add_of_le' ((one_le_writingNeed _).trans fits)
    exact ⟨.mapping fun entry member => (ih entry member (each entry member)).1,
      Value.depth_mapping_le.2 fun entry member => (ih entry member (each entry member)).2⟩

/-- Two levels more than a value has are room enough to write it. -/
theorem follow_of_brief {value : Value} (brief : value.Brief) {room : Nat} (within : value.depth ≤ room) :
    value.follow writingNeed (room + 2) = .ok () := by
  induction brief generalizing room with
  | null | flag | real | text => rw [Value.follow.eq_def, if_neg (Nat.not_lt.2 (writingNeed_le_add_two _ room))]
  | whole few => exact Value.follow_whole_eq_ok.2 ⟨writingNeed_le_add_two _ room, few⟩
  | list _ ih =>
    cases room with
    | zero => exact absurd within (Nat.not_succ_le_zero _)
    | succ room =>
      exact Value.follow_list_eq_ok.2
        ⟨writingNeed_le_add_two _ (room + 1), fun item member =>
          ih item member (Value.depth_list_le.1 within item member)⟩
  | mapping _ ih =>
    cases room with
    | zero => exact absurd within (Nat.not_succ_le_zero _)
    | succ room =>
      exact Value.follow_mapping_eq_ok.2
        ⟨writingNeed_le_add_two _ (room + 1), fun entry member =>
          ih entry member (Value.depth_mapping_le.1 within entry member)⟩

end Json

end Reckoner
