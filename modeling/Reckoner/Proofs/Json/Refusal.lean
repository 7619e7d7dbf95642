import Mathlib
import Reckoner.Proofs.Json.RoundTrip

namespace Reckoner

/-- The problem that the reader has with an excess. -/
def Excess.problem : Excess → Json.Problem
  | digits => .tooManyDigits
  | depth => .tooDeep

namespace Json

variable {failing : Flaw → Prop} {problem : Problem} {level outer room steps : Nat} {rest : List Char}

section Steps

variable {text tail more : List Char}

theorem rejects_readItems_first (first : Rejects failing (readValue steps room text)) :
    Rejects failing (readItems (steps + 1) room text) := by
  rw [readItems]
  exact first.bind

theorem rejects_readItems_more {item : Value} (first : readValue steps room text = .ok (item, tail))
    (comma : skipSpace tail = ',' :: more) (later : Rejects failing (readItems steps room (skipSpace more))) :
    Rejects failing (readItems (steps + 1) room text) := by
  rw [readItems]
  refine .bind_of_ok first ?_
  dsimp only
  rw [comma]
  exact later.bind

theorem rejects_readEntries_first {name : CodePoints} (named : readName text = .ok (name, more))
    (first : Rejects failing (readValue steps room more)) : Rejects failing (readEntries (steps + 1) room text) := by
  rw [readEntries, named]
  exact first.bind

theorem rejects_readEntries_more {name : CodePoints} {value : Value} {others : List Char}
    (named : readName text = .ok (name, more)) (first : readValue steps room more = .ok (value, tail))
    (comma : skipSpace tail = ',' :: others) (later : Rejects failing (readEntries steps room (skipSpace others))) :
    Rejects failing (readEntries (steps + 1) room text) := by
  rw [readEntries]
  refine .bind_of_ok named (.bind_of_ok first ?_)
  dsimp only
  rw [comma]
  exact later.bind

theorem rejects_readValue_list (begins : ∀ others, skipSpace text ≠ ']' :: others)
    (inner : Rejects failing (readItems steps room (skipSpace text))) :
    Rejects failing (readValue (steps + 1) (room + 1) ('[' :: text)) := by
  rw [readValue]
  split
  · rename_i others closes
    exact absurd closes (begins others)
  · exact inner.bind

theorem rejects_readValue_mapping (begins : ∀ others, skipSpace text ≠ '\x7d' :: others)
    (inner : Rejects failing (readEntries steps room (skipSpace text))) :
    Rejects failing (readValue (steps + 1) (room + 1) ('\x7b' :: text)) := by
  rw [readValue]
  split
  · rename_i others closes
    exact absurd closes (begins others)
  · exact inner.bind

end Steps

/-- That a printed value cannot be read back because of a problem, wherever it stands, with enough steps. -/
def Refused (problem : Problem) (level room : Nat) (value : Value) : Prop :=
  ∀ {steps : Nat} {rest : List Char}, Stops rest → 2 * (print level value ++ rest).length < steps →
    Rejects (·.problem = problem) (readValue steps room (print level value ++ rest))

/-- Items are read up to the first one that cannot be read back. -/
theorem rejects_readItems_print {item : Value} {items : List Value}
    (each : ∀ value ∈ item :: items, ReadBack level room value ∨ Refused problem level room value)
    (stuck : ∃ value ∈ item :: items, Refused problem level room value)
    (enough : 2 * (itemsText level outer item items rest).length + 1 < steps) :
    Rejects (·.problem = problem) (readItems steps room (itemsText level outer item items rest)) := by
  obtain ⟨steps, rfl⟩ := Nat.exists_eq_add_one_of_ne_zero (by omega : steps ≠ 0)
  obtain ⟨value, member, refused⟩ := stuck
  induction items generalizing item steps with
  | nil =>
    rw [List.mem_singleton.1 member] at refused
    rw [itemsText_nil] at enough ⊢
    exact rejects_readItems_first (refused (stops_newline outer _) (by omega))
  | cons next items ih =>
    rw [itemsText_cons] at enough ⊢
    by_cases first : Refused problem level room item
    · exact rejects_readItems_first (first stops_comma (by omega))
    · have back : ReadBack level room item := (each item List.mem_cons_self).resolve_right first
      refine rejects_readItems_more (back stops_comma (by omega)) rfl ?_
      rw [skipSpace_line starts_itemsText]
      simp only [List.length_append, List.length_cons] at enough
      obtain ⟨steps, rfl⟩ := Nat.exists_eq_add_one_of_ne_zero (by omega : steps ≠ 0)
      have later := (List.mem_cons.1 member).resolve_left fun same => first (same ▸ refused)
      exact ih (fun value member => each value (List.mem_cons_of_mem item member)) steps (by omega) later

/-- Entries are read up to the first one whose value cannot be read back. -/
theorem rejects_readEntries_print {name : CodePoints} {value : Value} {entries : List (CodePoints × Value)}
    (names : ∀ entry ∈ (name, value) :: entries, entry.1.Apart)
    (each : ∀ entry ∈ (name, value) :: entries, ReadBack level room entry.2 ∨ Refused problem level room entry.2)
    (stuck : ∃ entry ∈ (name, value) :: entries, Refused problem level room entry.2)
    (enough : 2 * (entriesText level outer name value entries rest).length + 1 < steps) :
    Rejects (·.problem = problem) (readEntries steps room (entriesText level outer name value entries rest)) := by
  obtain ⟨steps, rfl⟩ := Nat.exists_eq_add_one_of_ne_zero (by omega : steps ≠ 0)
  obtain ⟨entry, member, refused⟩ := stuck
  have named {behind : List Char} := readName_printText (names _ List.mem_cons_self)
    ((starts_print level value).append behind)
  induction entries generalizing name value steps with
  | nil =>
    rw [List.mem_singleton.1 member] at refused
    rw [entriesText_nil] at enough ⊢
    simp only [List.length_append, List.length_cons] at enough
    exact rejects_readEntries_first named (refused (stops_newline outer _) (by
      simp only [List.length_append, List.length_cons]
      omega))
  | cons next entries ih =>
    obtain ⟨other, inner⟩ := next
    rw [entriesText_cons] at enough ⊢
    simp only [List.length_append, List.length_cons] at enough
    have within : 2 * (print level value ++
        ',' :: (newline level ++ entriesText level outer other inner entries rest)).length < steps := by
      simp only [List.length_append, List.length_cons]
      omega
    by_cases first : Refused problem level room value
    · exact rejects_readEntries_first named (first stops_comma within)
    · have back : ReadBack level room value := (each _ List.mem_cons_self).resolve_right first
      refine rejects_readEntries_more named (back stops_comma within) rfl ?_
      rw [skipSpace_line starts_entriesText]
      obtain ⟨steps, rfl⟩ := Nat.exists_eq_add_one_of_ne_zero (by omega : steps ≠ 0)
      have later := (List.mem_cons.1 member).resolve_left fun same => first (by rwa [same] at refused)
      have others := fun entry member => names entry (List.mem_cons_of_mem (name, value) member)
      exact ih others (fun entry member => each entry (List.mem_cons_of_mem (name, value) member)) steps (by omega)
        later
        (readName_printText (others _ List.mem_cons_self) ((starts_print level inner).append _))

/-- A list needs room of its own, and as much again as its items do. -/
theorem refused_list {items : List Value}
    (each : ∀ item ∈ items, ReadBack (level + 1) room item ∨ Refused problem (level + 1) room item)
    (stuck : ∃ item ∈ items, Refused problem (level + 1) room item) :
    Refused problem level (room + 1) (.list items) := by
  intro steps rest _ enough
  obtain ⟨steps, rfl⟩ := Nat.exists_eq_add_one_of_ne_zero (by omega : steps ≠ 0)
  cases items with
  | nil => exact absurd stuck nofun
  | cons item items =>
    rw [print_list_append] at enough ⊢
    refine rejects_readValue_list (fun others => ?_) ?_
    · rw [skipSpace_line starts_itemsText]
      exact starts_itemsText.ne_bracket others
    · rw [skipSpace_line starts_itemsText]
      refine rejects_readItems_print each stuck ?_
      simp only [List.length_append, List.length_cons] at enough
      omega

theorem refused_mapping {entries : List (CodePoints × Value)} (names : ∀ entry ∈ entries, entry.1.Apart)
    (each : ∀ entry ∈ entries, ReadBack (level + 1) room entry.2 ∨ Refused problem (level + 1) room entry.2)
    (stuck : ∃ entry ∈ entries, Refused problem (level + 1) room entry.2) :
    Refused problem level (room + 1) (.mapping entries) := by
  intro steps rest _ enough
  obtain ⟨steps, rfl⟩ := Nat.exists_eq_add_one_of_ne_zero (by omega : steps ≠ 0)
  rcases entries with _ | ⟨⟨name, value⟩, entries⟩
  · exact absurd stuck nofun
  · rw [print_mapping_append] at enough ⊢
    refine rejects_readValue_mapping (fun others => ?_) ?_
    · rw [skipSpace_line starts_entriesText]
      exact starts_entriesText.ne_brace others
    · rw [skipSpace_line starts_entriesText]
      refine rejects_readEntries_print names each stuck ?_
      simp only [List.length_append, List.length_cons] at enough
      omega

theorem refused_of_no_room {value : Value} (inside : 0 < value.depth) : Refused .tooDeep level 0 value := by
  intro steps rest _ enough
  obtain ⟨steps, rfl⟩ := Nat.exists_eq_add_one_of_ne_zero (by omega : steps ≠ 0)
  cases value with
  | list items =>
    cases items <;> exact rfl
  | mapping entries =>
    rcases entries with _ | ⟨⟨name, value⟩, entries⟩ <;> exact rfl
  | _ => exact absurd inside (Nat.lt_irrefl 0)

/-- A value deeper than the room that there is cannot be read back. -/
theorem Readable.refused {value : Value} (readable : Readable value) (brief : value.Brief)
    (deep : room < value.depth) : Refused .tooDeep level room value := by
  induction readable generalizing level room with
  | null | flag | whole | real | text => exact absurd deep (Nat.not_lt_zero room)
  | @list items each ih =>
    cases room with
    | zero => exact refused_of_no_room deep
    | succ room =>
      cases brief with
      | list brief =>
        refine refused_list (fun item member => ?_) ?_
        · rcases Nat.lt_or_ge room item.depth with beyond | within
          · exact Or.inr (ih item member (brief item member) beyond)
          · exact Or.inl ((each item member).readBack (brief item member) within)
        · have stuck := mt Value.depth_list_le.2 (Nat.not_le.2 deep)
          push Not at stuck
          obtain ⟨item, member, beyond⟩ := stuck
          exact ⟨item, member, ih item member (brief item member) beyond⟩
  | @mapping entries distinct names values ih =>
    cases room with
    | zero => exact refused_of_no_room deep
    | succ room =>
      cases brief with
      | mapping brief =>
        refine refused_mapping names (fun entry member => ?_) ?_
        · rcases Nat.lt_or_ge room entry.2.depth with beyond | within
          · exact Or.inr (ih entry member (brief entry member) beyond)
          · exact Or.inl ((values entry member).readBack (brief entry member) within)
        · have stuck := mt Value.depth_mapping_le.2 (Nat.not_le.2 deep)
          push Not at stuck
          obtain ⟨entry, member, beyond⟩ := stuck
          exact ⟨entry, member, ih entry member (brief entry member) beyond⟩

/-- A whole number with more digits than are converted cannot be read back, whatever the room. -/
theorem refused_whole {value : Int} (many : digitLimit < (Nat.toDigits 10 value.natAbs).length) :
    Refused .tooManyDigits level room (.whole value) := by
  intro steps rest stops enough
  obtain ⟨steps, rfl⟩ := Nat.exists_eq_add_one_of_ne_zero (by omega : steps ≠ 0)
  obtain ⟨left, reads⟩ := readScalar_whole value stops
  rw [if_pos many] at reads
  have scalar : IsScalar (.whole value) := trivial
  have stuck : readValue (steps + 1) room (print level (.whole value) ++ rest) = .error ⟨.tooManyDigits, left⟩ :=
    (readValue_eq_readScalar scalar).trans reads
  rw [stuck]
  exact rfl

theorem Refused.read_print {value : Value} (refused : Refused problem 0 depthLimit value) :
    ∃ flaw, read (print 0 value) = .error flaw ∧ flaw.problem = problem := by
  have stuck := @refused (2 * (print 0 value).length + 1) [] nofun (by
    rw [List.append_nil]
    exact Nat.lt_succ_self _)
  rw [List.append_nil] at stuck
  rw [read_of_starts (starts_print 0 value)]
  exact Rejects.exists_error stuck.bind

end Json

end Reckoner
