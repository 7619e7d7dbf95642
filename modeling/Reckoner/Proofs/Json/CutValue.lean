import Mathlib
import Reckoner.Proofs.Json.Cut
import Reckoner.Proofs.Json.Refusal

namespace Reckoner.Json

variable {level outer room steps : Nat} {text part : List Char}

/-- That what is printed for a value and breaks off is read as nothing that a list or a mapping goes on behind. -/
def CutsOff (level room : Nat) (value : Value) : Prop :=
  ∀ {steps : Nat} {part : List Char}, Cut (print level value) part → 2 * part.length < steps →
    Settles Ordinary (Open ·.2) (readValue steps room part)

theorem open_of_blank {rest : List Char} (blank : ∀ c ∈ rest, isSpace c = true) : Open rest := by
  rw [Open, skipSpace_of_blank blank]
  exact open_nil

theorem isSpace_of_mem_newline {c : Char} (member : c ∈ newline level) : isSpace c = true := by
  rcases List.mem_cons.1 member with rfl | filler
  · rfl
  · rw [(List.mem_replicate.1 filler).2]
    rfl

theorem rejects_readItems_open (first : Settles Ordinary (Open ·.2) (readValue steps room text)) :
    Rejects Ordinary (readItems (steps + 1) room text) := by
  rw [readItems]
  refine first.bind fun found isOpen => ?_
  dsimp only
  split
  · rename_i same
    exact absurd rfl (isOpen ']' (by rw [same]; rfl)).2.1
  · rename_i same
    exact absurd rfl (isOpen ',' (by rw [same]; rfl)).1
  · exact ordinary_of_not_mem (by decide) _

theorem rejects_readEntries_open {name : CodePoints} {inner : List Char} (named : readName text = .ok (name, inner))
    (first : Settles Ordinary (Open ·.2) (readValue steps room inner)) :
    Rejects Ordinary (readEntries (steps + 1) room text) := by
  rw [readEntries, named]
  refine first.bind fun found isOpen => ?_
  dsimp only
  split
  · rename_i same
    exact absurd rfl (isOpen '\x7d' (by rw [same]; rfl)).2.2
  · rename_i same
    exact absurd rfl (isOpen ',' (by rw [same]; rfl)).1
  · exact ordinary_of_not_mem (by decide) _

theorem rejects_readEntries_name (named : Rejects Ordinary (readName text)) :
    Rejects Ordinary (readEntries (steps + 1) room text) := by
  rw [readEntries]
  exact named.bind

/-- Behind a value that was read, a list breaks off before its bracket. -/
theorem open_of_cut_end {mark : Char} (cut : Cut (newline outer ++ [mark]) part) : Open part := by
  rcases cut.append with within | ⟨more, rfl, behind⟩
  · exact open_of_blank fun c member => isSpace_of_mem_newline (within.subset member)
  · rcases behind.cons with rfl | ⟨_, rfl, _, _, none⟩
    · rw [List.append_nil]
      exact open_of_blank fun c => isSpace_of_mem_newline
    · exact absurd none.symm (List.append_ne_nil_of_right_ne_nil _ (List.cons_ne_nil _ _))

/-- The last value of a list or a mapping, and what follows it, breaks off. -/
theorem settles_cut_last {value : Value} {mark : Char} (back : ReadBack level room value)
    (cutsOff : CutsOff level room value) (cut : Cut (print level value ++ (newline outer ++ [mark])) part)
    (enough : 2 * part.length < steps) : Settles Ordinary (Open ·.2) (readValue steps room part) := by
  rcases cut.append with within | ⟨more, rfl, behind⟩
  · exact cutsOff within enough
  · rw [back ((stops_newline outer [mark]).cut behind) enough]
    exact open_of_cut_end behind

/-- A value that others follow breaks off, or they do. -/
theorem settles_cut_or_more {value : Value} (back : ReadBack level room value) (cutsOff : CutsOff level room value)
    (starts : Starts text) (cut : Cut (print level value ++ ',' :: (newline level ++ text)) part)
    (enough : 2 * part.length < steps) : Settles Ordinary (Open ·.2) (readValue steps room part) ∨
      ∃ more, readValue steps room part = .ok (value, ',' :: more) ∧ Cut text (skipSpace more) ∧
        (skipSpace more).length < part.length := by
  rcases cut.append with within | ⟨more, rfl, behind⟩
  · exact Or.inl (cutsOff within enough)
  · have read := back (stops_comma.cut behind) enough
    rcases behind.cons with rfl | ⟨more, rfl, line⟩
    · rw [read]
      exact Or.inl open_nil
    · obtain ⟨others, length⟩ := line.skipSpace_eq (fun c => isSpace_of_mem_newline) starts
      refine Or.inr ⟨more, read, others, ?_⟩
      rw [List.length_append, List.length_cons]
      omega

/-- Items that break off are no items. -/
theorem rejects_readItems_cut {item : Value} {items : List Value}
    (each : ∀ value ∈ item :: items, ReadBack level room value ∧ CutsOff level room value)
    (cut : Cut (itemsText level outer item items []) part) (enough : 2 * part.length + 1 < steps) :
    Rejects Ordinary (readItems steps room part) := by
  obtain ⟨steps, rfl⟩ := Nat.exists_eq_add_one_of_ne_zero (by omega : steps ≠ 0)
  obtain ⟨⟨back, cutsOff⟩, others⟩ := List.forall_mem_cons.1 each
  induction items generalizing item part steps with
  | nil => exact rejects_readItems_open (settles_cut_last back cutsOff cut (by omega))
  | cons next items ih =>
    rw [itemsText_cons] at cut
    rcases settles_cut_or_more back cutsOff starts_itemsText cut
      (by omega : 2 * part.length < steps) with ends | ⟨more, first, later, length⟩
    · exact rejects_readItems_open ends
    · refine rejects_readItems_more first rfl ?_
      obtain ⟨steps, rfl⟩ := Nat.exists_eq_add_one_of_ne_zero (by omega : steps ≠ 0)
      obtain ⟨⟨back, cutsOff⟩, behind⟩ := List.forall_mem_cons.1 others
      exact ih others later steps (by omega) behind back cutsOff

/-- A name that breaks off is no name. -/
theorem rejects_readName_cut {name : CodePoints} (apart : name.Apart) (cut : Cut (printText name) part) :
    Rejects Ordinary (readName part) := by
  rcases cut.cons with rfl | ⟨more, rfl, inside⟩
  · exact ordinary_of_not_mem (by decide) _
  · exact (rejects_readText_cut apart inside).bind

/-- What follows a name breaks off, perhaps before the value begins. -/
theorem readName_cut {name : CodePoints} {behind more : List Char} (apart : name.Apart) (starts : Starts behind)
    (cut : Cut (':' :: ' ' :: behind) more) : Rejects Ordinary (readName (printText name ++ more)) ∨
      ∃ inner, readName (printText name ++ more) = .ok (name, inner) ∧ Cut behind inner ∧
        inner.length < more.length := by
  rw [printText, List.cons_append, List.append_assoc, readName, List.singleton_append,
    readText_flatMap_escapePoint apart]
  rcases cut.cons with rfl | ⟨rest, rfl, value⟩
  · exact Or.inl (ordinary_of_not_mem (by decide) _)
  · obtain ⟨inner, length⟩ := @Cut.skipSpace_eq [' '] behind rest (List.forall_mem_singleton.2 rfl) value starts
    exact Or.inr ⟨skipSpace rest, rfl, inner, Nat.lt_succ_of_le length⟩

/-- Entries that break off are no entries. -/
theorem rejects_readEntries_cut {name : CodePoints} {value : Value} {entries : List (CodePoints × Value)}
    (each : ∀ entry ∈ (name, value) :: entries,
      entry.1.Apart ∧ ReadBack level room entry.2 ∧ CutsOff level room entry.2)
    (cut : Cut (entriesText level outer name value entries []) part) (enough : 2 * part.length + 1 < steps) :
    Rejects Ordinary (readEntries steps room part) := by
  obtain ⟨steps, rfl⟩ := Nat.exists_eq_add_one_of_ne_zero (by omega : steps ≠ 0)
  obtain ⟨⟨apart, back, cutsOff⟩, others⟩ := List.forall_mem_cons.1 each
  induction entries generalizing name value part steps with
  | nil =>
    rw [entriesText_nil] at cut
    rcases cut.append with within | ⟨more, rfl, behind⟩
    · exact rejects_readEntries_name (rejects_readName_cut apart within)
    · rcases readName_cut apart ((starts_print level value).append _) behind with none | ⟨inner, named, valued, length⟩
      · exact rejects_readEntries_name none
      · rw [List.length_append] at enough
        exact rejects_readEntries_open named (settles_cut_last back cutsOff valued (by omega))
  | cons next entries ih =>
    obtain ⟨other, following⟩ := next
    rw [entriesText_cons] at cut
    rcases cut.append with within | ⟨more, rfl, behind⟩
    · exact rejects_readEntries_name (rejects_readName_cut apart within)
    · rcases readName_cut apart ((starts_print level value).append _) behind with none | ⟨inner, named, valued, length⟩
      · exact rejects_readEntries_name none
      · rw [List.length_append] at enough
        rcases settles_cut_or_more back cutsOff starts_entriesText valued (by omega : 2 * inner.length < steps) with
          ends | ⟨more, first, later, shorter⟩
        · exact rejects_readEntries_open named ends
        · refine rejects_readEntries_more named first rfl ?_
          obtain ⟨steps, rfl⟩ := Nat.exists_eq_add_one_of_ne_zero (by omega : steps ≠ 0)
          obtain ⟨⟨apart, back, cutsOff⟩, behind⟩ := List.forall_mem_cons.1 others
          exact ih others later steps (by omega) behind apart back cutsOff

theorem rejects_readValue_nil : Rejects Ordinary (readValue steps room []) := by
  cases steps <;> exact ordinary_of_not_mem (by decide) _

theorem rejects_readItems_nil : Rejects Ordinary (readItems steps room []) := by
  cases steps with
  | zero => exact ordinary_of_not_mem (by decide) _
  | succ steps => exact rejects_readItems_first rejects_readValue_nil

theorem rejects_readEntries_nil : Rejects Ordinary (readEntries steps room []) := by
  cases steps with
  | zero => exact ordinary_of_not_mem (by decide) _
  | succ steps => exact rejects_readEntries_name (ordinary_of_not_mem (by decide) _)

/-- A list that breaks off is no value. -/
theorem rejects_readValue_cut_list {items : List Value}
    (each : ∀ item ∈ items, ReadBack (level + 1) room item ∧ CutsOff (level + 1) room item)
    (cut : Cut (print level (.list items)) part) (enough : 2 * part.length < steps) :
    Rejects Ordinary (readValue steps (room + 1) part) := by
  obtain ⟨steps, rfl⟩ := Nat.exists_eq_add_one_of_ne_zero (by omega : steps ≠ 0)
  cases items with
  | nil =>
    rcases cut.cons with rfl | ⟨more, rfl, closing⟩
    · exact rejects_readValue_nil
    · rcases closing.cons with rfl | ⟨_, _, _, _, none⟩
      · exact rejects_readValue_list nofun rejects_readItems_nil
      · exact absurd none.symm (List.append_ne_nil_of_right_ne_nil _ (List.cons_ne_nil _ _))
  | cons item items =>
    rw [← List.append_nil (print level (.list (item :: items))), print_list_append] at cut
    rcases cut.cons with rfl | ⟨more, rfl, line⟩
    · exact rejects_readValue_nil
    · obtain ⟨inside, length⟩ := line.skipSpace_eq (fun c => isSpace_of_mem_newline) starts_itemsText
      rw [List.length_cons] at enough
      refine rejects_readValue_list (fun others closes => ?_) (rejects_readItems_cut each inside (by omega))
      rcases starts_itemsText.cut inside with none | starts
      · exact nomatch none.symm.trans closes
      · exact starts.ne_bracket others closes

/-- A mapping that breaks off is no value. -/
theorem rejects_readValue_cut_mapping {entries : List (CodePoints × Value)}
    (each : ∀ entry ∈ entries,
      entry.1.Apart ∧ ReadBack (level + 1) room entry.2 ∧ CutsOff (level + 1) room entry.2)
    (cut : Cut (print level (.mapping entries)) part) (enough : 2 * part.length < steps) :
    Rejects Ordinary (readValue steps (room + 1) part) := by
  obtain ⟨steps, rfl⟩ := Nat.exists_eq_add_one_of_ne_zero (by omega : steps ≠ 0)
  rcases entries with _ | ⟨⟨name, value⟩, entries⟩
  · rcases cut.cons with rfl | ⟨more, rfl, closing⟩
    · exact rejects_readValue_nil
    · rcases closing.cons with rfl | ⟨_, _, _, _, none⟩
      · exact rejects_readValue_mapping nofun rejects_readEntries_nil
      · exact absurd none.symm (List.append_ne_nil_of_right_ne_nil _ (List.cons_ne_nil _ _))
  · rw [← List.append_nil (print level (.mapping ((name, value) :: entries))), print_mapping_append] at cut
    rcases cut.cons with rfl | ⟨more, rfl, line⟩
    · exact rejects_readValue_nil
    · obtain ⟨inside, length⟩ := line.skipSpace_eq (fun c => isSpace_of_mem_newline) starts_entriesText
      rw [List.length_cons] at enough
      refine rejects_readValue_mapping (fun others closes => ?_) (rejects_readEntries_cut each inside (by omega))
      rcases starts_entriesText.cut inside with none | starts
      · exact nomatch none.symm.trans closes
      · exact starts.ne_brace others closes

theorem cutsOff_of_scalar {value : Value} (scalar : IsScalar value) (brief : value.Brief) :
    CutsOff level room value :=
  fun cut _ => ((isScalarText_print scalar brief level).cut cut).readValue _ _

/-- A printed value within the limits that breaks off is read as nothing that a list or a mapping goes on behind. -/
theorem cutsOff_of_printable {value : Value} (printable : Printable room value) : CutsOff level room value := by
  induction value using Value.of_parts generalizing level room with
  | null | flag | whole | real => exact cutsOff_of_scalar (by trivial) printable.brief
  | text text =>
    intro steps part cut enough
    obtain ⟨steps, rfl⟩ := Nat.exists_eq_add_one_of_ne_zero (by omega : steps ≠ 0)
    rcases cut.cons with rfl | ⟨more, rfl, inside⟩
    · exact rejects_readValue_nil.settles
    · cases printable.readable with
      | text apart => exact (rejects_readText_cut apart inside).bind
  | list items ih =>
    intro steps part cut enough
    obtain ⟨inner, rfl, each⟩ := printable.items
    exact (rejects_readValue_cut_list
      (fun item member => ⟨(each item member).readBack, ih item member (each item member)⟩)
      cut enough).settles
  | mapping entries ih =>
    intro steps part cut enough
    obtain ⟨inner, rfl, each⟩ := printable.entries
    exact (rejects_readValue_cut_mapping (fun entry member =>
      ⟨(each entry member).1, (each entry member).2.readBack, ih entry member (each entry member).2⟩) cut
        enough).settles

/-- A printed mapping within the limits that breaks off is not read. -/
theorem read_cut_mapping {entries : List (CodePoints × Value)} (printable : Printable depthLimit (.mapping entries))
    (cut : Cut (print 0 (.mapping entries)) part) : ∃ flaw, read part = .error flaw ∧ Ordinary flaw := by
  rcases (starts_print 0 _).cut cut with rfl | starts
  · exact ⟨_, rfl, nofun, nofun⟩
  · obtain ⟨inner, room, each⟩ := printable.entries
    have rejects : Rejects Ordinary (readValue (2 * part.length + 1) depthLimit part) := by
      rw [room]
      exact rejects_readValue_cut_mapping (fun entry member =>
        ⟨(each entry member).1, (each entry member).2.readBack, cutsOff_of_printable (each entry member).2⟩) cut
        (Nat.lt_succ_self _)
    rw [read_of_starts starts]
    exact Rejects.exists_error rejects.bind

end Reckoner.Json
