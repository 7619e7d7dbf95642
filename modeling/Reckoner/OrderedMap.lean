namespace Reckoner

/-- A map from keys to values as a list of entries. Operations keep the keys distinct. -/
structure OrderedMap (κ : Type) (β : Type) where
  entries : List (κ × β)

namespace OrderedMap

variable {κ β : Type}

def empty : OrderedMap κ β := ⟨[]⟩

def get? [BEq κ] (m : OrderedMap κ β) (key : κ) : Option β :=
  m.entries.lookup key

def contains [BEq κ] (m : OrderedMap κ β) (key : κ) : Bool :=
  (m.get? key).isSome

/-- The keys, in the order in which they arrived. -/
def keys (m : OrderedMap κ β) : List κ :=
  m.entries.map (·.1)

/-- Replaces the value of a key where it stands, or adds the key behind all others. -/
def putEntry [BEq κ] (key : κ) (value : β) : List (κ × β) → List (κ × β)
  | [] => [(key, value)]
  | (k, v) :: rest => if key == k then (k, value) :: rest else (k, v) :: putEntry key value rest

/-- Gives a key a value; a key that is already there keeps its place. -/
def put [BEq κ] (m : OrderedMap κ β) (key : κ) (value : β) : OrderedMap κ β :=
  ⟨putEntry key value m.entries⟩

/-- Puts all pairs in turn, so the last value of a key wins. -/
def putAll [BEq κ] (m : OrderedMap κ β) (pairs : List (κ × β)) : OrderedMap κ β :=
  pairs.foldl (fun acc (key, value) => acc.put key value) m

/-- The map of a list of pairs; the last value of a key wins. -/
def ofList [BEq κ] (pairs : List (κ × β)) : OrderedMap κ β :=
  empty.putAll pairs

theorem lookup_putEntry [BEq κ] [PartialEquivBEq κ] (key other : κ) (value : β) (entries : List (κ × β)) :
    (putEntry key value entries).lookup other = if other == key then some value else entries.lookup other := by
  induction entries with
  | nil => cases h : other == key <;> simp [putEntry, List.lookup_cons, h]
  | cons entry rest ih =>
    obtain ⟨k, v⟩ := entry
    cases hk : key == k with
    | true =>
      have same : (other == k) = (other == key) := by
        rw [Bool.eq_iff_iff]
        exact ⟨fun h => PartialEquivBEq.trans h (PartialEquivBEq.symm hk), fun h => PartialEquivBEq.trans h hk⟩
      cases h : other == key <;> simp [putEntry, List.lookup_cons, hk, same, h]
    | false =>
      cases ho : other == k with
      | true =>
        have apart : (other == key) = false := by
          rw [Bool.eq_false_iff]
          intro h
          rw [PartialEquivBEq.trans (PartialEquivBEq.symm h) ho] at hk
          exact Bool.noConfusion hk
        simp [putEntry, List.lookup_cons, hk, ho, apart]
      | false => simp [putEntry, List.lookup_cons, hk, ho, ih]

/-- Putting a key changes what that key gives and nothing else. -/
theorem get?_put [BEq κ] [PartialEquivBEq κ] (m : OrderedMap κ β) (key other : κ) (value : β) :
    (m.put key value).get? other = if other == key then some value else m.get? other :=
  lookup_putEntry key other value m.entries

end OrderedMap

end Reckoner
