import Mathlib
import Reckoner.OrderedMap

namespace Reckoner.OrderedMap

variable {κ β : Type} [BEq κ] {property : β → Prop}

/-- An entry after putting a pair was there before, or has the value and a key that was there before or is put. -/
theorem mem_putEntry {key : κ} {value : β} {entries : List (κ × β)} {entry : κ × β}
    (member : entry ∈ putEntry key value entries) :
    entry ∈ entries ∨ entry.2 = value ∧ (entry.1 = key ∨ ∃ old ∈ entries, old.1 = entry.1) := by
  induction entries with
  | nil =>
    rw [List.mem_singleton.1 member]
    exact Or.inr ⟨rfl, Or.inl rfl⟩
  | cons first rest ih =>
    unfold putEntry at member
    split at member
    · rcases List.mem_cons.1 member with rfl | behind
      · exact Or.inr ⟨rfl, Or.inr ⟨_, List.mem_cons_self, rfl⟩⟩
      · exact Or.inl (List.mem_cons_of_mem _ behind)
    · rcases List.mem_cons.1 member with rfl | behind
      · exact Or.inl List.mem_cons_self
      · rcases ih behind with old | ⟨same, new | ⟨old, among, names⟩⟩
        · exact Or.inl (List.mem_cons_of_mem _ old)
        · exact Or.inr ⟨same, Or.inl new⟩
        · exact Or.inr ⟨same, Or.inr ⟨old, List.mem_cons_of_mem _ among, names⟩⟩

/-- What holds of all values that are put holds of all values that are there. -/
theorem forall_putAll {m : OrderedMap κ β} {pairs : List (κ × β)} (start : ∀ entry ∈ m.entries, property entry.2)
    (new : ∀ pair ∈ pairs, property pair.2) : ∀ entry ∈ (m.putAll pairs).entries, property entry.2 := by
  induction pairs generalizing m with
  | nil => exact start
  | cons pair rest ih =>
    refine ih (fun entry member => ?_) fun other member => new other (List.mem_cons_of_mem pair member)
    rcases mem_putEntry member with old | ⟨same, _⟩
    · exact start entry old
    · rw [same]
      exact new pair List.mem_cons_self

/-- What holds of all keys that are put holds of all keys that are there. -/
theorem forall_keys_putAll {holds : κ → Prop} {m : OrderedMap κ β} {pairs : List (κ × β)}
    (start : ∀ entry ∈ m.entries, holds entry.1) (new : ∀ pair ∈ pairs, holds pair.1) :
    ∀ entry ∈ (m.putAll pairs).entries, holds entry.1 := by
  induction pairs generalizing m with
  | nil => exact start
  | cons pair rest ih =>
    refine ih (fun entry member => ?_) fun other member => new other (List.mem_cons_of_mem pair member)
    rcases mem_putEntry member with old | ⟨_, same | ⟨old, among, same⟩⟩
    · exact start entry old
    · rw [same]
      exact new pair List.mem_cons_self
    · rw [← same]
      exact start old among

/-- No key stands in two of the pairs. -/
def Distinct (pairs : List (κ × β)) : Prop :=
  pairs.Pairwise fun first second => (second.1 == first.1) = false

theorem distinct_putEntry {key : κ} {value : β} {entries : List (κ × β)} (distinct : Distinct entries) :
    Distinct (putEntry key value entries) := by
  induction entries with
  | nil => exact List.pairwise_singleton _ _
  | cons first rest ih =>
    obtain ⟨apart, others⟩ := List.pairwise_cons.1 distinct
    unfold putEntry
    split
    · exact List.pairwise_cons.2 ⟨apart, others⟩
    · rename_i other
      refine List.pairwise_cons.2 ⟨fun entry member => ?_, ih others⟩
      rcases mem_putEntry member with old | ⟨_, new | ⟨old, among, names⟩⟩
      · exact apart entry old
      · rw [new]
        exact Bool.eq_false_iff.2 other
      · rw [← names]
        exact apart old among

/-- Putting pairs keeps the keys distinct. -/
theorem distinct_putAll {m : OrderedMap κ β} (distinct : Distinct m.entries) (pairs : List (κ × β)) :
    Distinct (m.putAll pairs).entries := by
  induction pairs generalizing m with
  | nil => exact distinct
  | cons pair rest ih => exact ih (distinct_putEntry distinct)

theorem putEntry_of_new {key : κ} {value : β} {entries : List (κ × β)}
    (new : ∀ entry ∈ entries, (key == entry.1) = false) :
    putEntry key value entries = entries ++ [(key, value)] := by
  induction entries with
  | nil => rfl
  | cons first rest ih =>
    rw [putEntry, if_neg (Bool.eq_false_iff.1 (new first List.mem_cons_self)),
      ih fun entry member => new entry (List.mem_cons_of_mem first member)]
    rfl

/-- Pairs with distinct keys, all of them new, stand behind the entries that were there. -/
theorem entries_putAll {m : OrderedMap κ β} {pairs : List (κ × β)} (distinct : Distinct (m.entries ++ pairs)) :
    (m.putAll pairs).entries = m.entries ++ pairs := by
  induction pairs generalizing m with
  | nil => exact (List.append_nil _).symm
  | cons pair rest ih =>
    have placed : (m.put pair.1 pair.2).entries = m.entries ++ [pair] :=
      putEntry_of_new fun entry member =>
        (List.pairwise_append.1 distinct).2.2 entry member pair List.mem_cons_self
    have same : m.entries ++ pair :: rest = (m.put pair.1 pair.2).entries ++ rest := by
      rw [placed, List.append_assoc, List.singleton_append]
    rw [same] at distinct ⊢
    exact ih distinct

theorem entries_ofList {pairs : List (κ × β)} (distinct : Distinct pairs) : (ofList pairs).entries = pairs :=
  @entries_putAll _ _ _ .empty pairs distinct

theorem lookup_eq_none_of_forall [PartialEquivBEq κ] {key other : κ} {pairs : List (κ × β)}
    (same : (other == key) = true)
    (new : ∀ pair ∈ pairs, (pair.1 == key) = false) : pairs.lookup other = none := by
  rw [List.lookup_eq_none_iff]
  intro pair member
  have apart := Bool.eq_false_iff.1 (new pair member)
  rw [bne, Bool.not_eq_true', Bool.eq_false_iff]
  exact fun found => apart (PartialEquivBEq.trans (PartialEquivBEq.symm found) same)

theorem lookup_map {γ : Type} (f : β → γ) (entries : List (κ × β)) (key : κ) :
    (entries.map fun (key, value) => (key, f value)).lookup key = (entries.lookup key).map f := by
  induction entries with
  | nil => rfl
  | cons entry rest ih =>
    rw [List.map_cons, List.lookup_cons, List.lookup_cons, ih]
    cases key == entry.1 <;> rfl

/-- After pairs with distinct keys are put, a key gives what it has among them, or else what it gave before. -/
theorem get?_putAll [PartialEquivBEq κ] {m : OrderedMap κ β} {pairs : List (κ × β)} (distinct : Distinct pairs)
    (key : κ) : (m.putAll pairs).get? key = (pairs.lookup key).or (m.get? key) := by
  induction pairs generalizing m with
  | nil => rfl
  | cons pair rest ih =>
    obtain ⟨new, distinct⟩ := List.pairwise_cons.1 distinct
    change ((m.put pair.1 pair.2).putAll rest).get? key = _
    rw [ih distinct, get?_put, List.lookup_cons]
    cases same : key == pair.1 with
    | true =>
      rw [lookup_eq_none_of_forall same new]
      rfl
    | false => rfl

/-- After pairs are put, a key gives the last value that it has among them, or else what it gave before. -/
theorem get?_putAll_last [PartialEquivBEq κ] (m : OrderedMap κ β) (pairs : List (κ × β)) (key : κ) :
    (m.putAll pairs).get? key = (pairs.reverse.lookup key).or (m.get? key) := by
  induction pairs generalizing m with
  | nil => rfl
  | cons pair rest ih =>
    change ((m.put pair.1 pair.2).putAll rest).get? key = _
    rw [ih, get?_put, List.reverse_cons, List.lookup_append, Option.or_assoc, List.lookup_cons]
    cases key == pair.1 <;> rfl

/-- Putting what a list of pairs comes to is as good as putting the pairs. -/
theorem get?_putAll_ofList [EquivBEq κ] (m : OrderedMap κ β) (pairs : List (κ × β)) (key : κ) :
    (m.putAll (ofList pairs).entries).get? key = (pairs.reverse.lookup key).or (m.get? key) := by
  have last : (ofList pairs).get? key = (pairs.reverse.lookup key).or none := get?_putAll_last .empty pairs key
  have distinct : Distinct (ofList pairs).entries := distinct_putAll List.Pairwise.nil pairs
  rw [Option.or_none] at last
  rw [get?_putAll distinct, ← last]
  rfl

end Reckoner.OrderedMap
