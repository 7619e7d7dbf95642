import Mathlib
import Reckoner.Proofs.Assignment
import Reckoner.Proofs.Double.Text

namespace Reckoner.Assignment

/-- A list with fillers put in anywhere. -/
inductive Padded {α : Type} (filler : α → Bool) : List α → List α → Prop
  | nil : Padded filler [] []
  | keep {a : α} {plain padded : List α} : Padded filler plain padded → Padded filler (a :: plain) (a :: padded)
  | fill {a : α} {plain padded : List α} :
      filler a = true → Padded filler plain padded → Padded filler plain (a :: padded)

namespace Padded

variable {α : Type} {filler : α → Bool} {plain padded : List α}

/-- The fillers can be told from what they are put between. -/
theorem filter_eq (list : Padded filler plain padded) (clean : ∀ a ∈ plain, filler a = false) :
    padded.filter (fun a => !filler a) = plain := by
  induction list with
  | nil => rfl
  | keep _ ih =>
    obtain ⟨here, later⟩ := List.forall_mem_cons.1 clean
    rw [List.filter_cons_of_pos (by rw [here]; rfl), ih later]
  | fill isFiller _ ih => rw [List.filter_cons_of_neg (by rw [isFiller]; exact Bool.false_ne_true), ih clean]

theorem of_filter_eq (kept : padded.filter (fun a => !filler a) = plain) : Padded filler plain padded := by
  subst kept
  induction padded with
  | nil => exact .nil
  | cons a rest ih =>
    cases isFiller : filler a with
    | true =>
      rw [List.filter_cons_of_neg (by rw [isFiller]; exact Bool.false_ne_true)]
      exact .fill isFiller ih
    | false =>
      rw [List.filter_cons_of_pos (by rw [isFiller]; rfl)]
      exact .keep ih

theorem mem_of_mem (list : Padded filler plain padded) {a : α} (member : a ∈ plain) : a ∈ padded := by
  induction list with
  | nil => exact member
  | keep _ ih => exact (List.mem_cons.1 member).elim (· ▸ List.mem_cons_self) fun later =>
    List.mem_cons_of_mem _ (ih later)
  | fill _ _ ih => exact List.mem_cons_of_mem _ (ih member)

theorem filler_or_mem (list : Padded filler plain padded) {a : α} (member : a ∈ padded) :
    filler a = true ∨ a ∈ plain := by
  induction list with
  | nil => exact nomatch member
  | keep _ ih =>
    rcases List.mem_cons.1 member with rfl | later
    · exact Or.inr List.mem_cons_self
    · exact (ih later).imp id (List.mem_cons_of_mem _)
  | fill isFiller _ ih =>
    rcases List.mem_cons.1 member with rfl | later
    · exact Or.inl isFiller
    · exact ih later

end Padded

/-- A name that assignments can give: some text without blanks and without the marks of assignments. -/
def IsAssignable (name : String) : Prop :=
  name ≠ "" ∧ ∀ c ∈ name.toList, Text.isBlank c = false ∧ c ≠ '=' ∧ c ≠ ';' ∧ c ≠ ','

/-- The text of a value with the given decimal mark. -/
def marked (mark : Char) (value : Float) : List Char :=
  (Double.chars value).map fun c => if c = '.' then mark else c

/-- The ways to write a pair as an assignment: the value has a point or a decimal comma, and blanks stand anywhere. -/
def Writes (pair : String × Float) (text : String) : Prop :=
  ∃ mark, (mark = '.' ∨ mark = ',') ∧ Padded Text.isBlank (pair.1.toList ++ '=' :: marked mark pair.2) text.toList

variable {pair : String × Float} {text : String} {mark : Char}

theorem clean_of_mem_marked {value : Float} (finite : value.isFinite = true) (isMark : mark = '.' ∨ mark = ',')
    {c : Char}
    (member : c ∈ marked mark value) : Text.isBlank c = false ∧ c ≠ ';' := by
  obtain ⟨d, digit, rfl⟩ := List.mem_map.1 member
  obtain ⟨clean, -, noSemicolon⟩ := Double.clean_of_mem_chars finite digit
  split
  · rcases isMark with rfl | rfl <;> decide
  · exact ⟨clean, noSemicolon⟩

/-- Both decimal marks are points once a text is normalized. -/
theorem map_point_marked {value : Float} (finite : value.isFinite = true) (isMark : mark = '.' ∨ mark = ',') :
    (marked mark value).map (fun c => if c = ',' then '.' else c) = Double.chars value := by
  rw [marked, List.map_map]
  refine (List.map_congr_left fun c member => ?_).trans (List.map_id _)
  obtain ⟨-, noComma, -⟩ := Double.clean_of_mem_chars finite member
  have back : (if mark = ',' then '.' else mark) = '.' := by rcases isMark with rfl | rfl <;> rfl
  rw [Function.comp_apply, id_eq]
  by_cases point : c = '.'
  · rw [if_pos point, back, point]
  · rw [if_neg point, if_neg noComma]

namespace Writes

/-- The characters of an assignment before blanks are put in. -/
theorem clean (assignable : IsAssignable pair.1) (finite : pair.2.isFinite = true) (isMark : mark = '.' ∨ mark = ',') :
    ∀ c ∈ pair.1.toList ++ '=' :: marked mark pair.2, Text.isBlank c = false ∧ c ≠ ';' := by
  refine List.forall_mem_append.2 ⟨fun c member => ?_, List.forall_mem_cons.2 ⟨by decide, fun c member => ?_⟩⟩
  · obtain ⟨noBlank, -, noSemicolon, -⟩ := assignable.2 c member
    exact ⟨noBlank, noSemicolon⟩
  · exact clean_of_mem_marked finite isMark member

theorem normalize_eq (writes : Writes pair text) (assignable : IsAssignable pair.1) (finite : pair.2.isFinite = true) :
    normalize text.toList = pair.1.toList ++ '=' :: Double.chars pair.2 := by
  obtain ⟨mark, isMark, padded⟩ := writes
  have kept := padded.filter_eq fun c member => (clean assignable finite isMark c member).1
  have name : pair.1.toList.map (fun c => if c = ',' then '.' else c) = pair.1.toList :=
    (List.map_congr_left fun c member => if_neg (assignable.2 c member).2.2.2).trans (List.map_id _)
  rw [normalize, kept, List.map_append, List.map_cons, name, map_point_marked finite isMark]
  rfl

/-- Every way to write a pair is read as the pair. -/
theorem read_eq (writes : Writes pair text) (assignable : IsAssignable pair.1) (finite : pair.2.isFinite = true) :
    read text = .ok pair := by
  have begun : pair.1.toList ≠ [] := fun none => assignable.1 (String.toList_eq_nil_iff.1 none)
  have noEquals : '=' ∉ pair.1.toList := fun member => (assignable.2 '=' member).2.1 rfl
  rw [read_of_normalize (writes.normalize_eq assignable finite) begun noEquals (Double.read?_chars finite) finite,
    String.ofList_toList]

/-- No way to write a pair is blank or has a semicolon. -/
theorem isPart (writes : Writes pair text) (assignable : IsAssignable pair.1) (finite : pair.2.isFinite = true) :
    Text.allBlank text.toList = false ∧ ';' ∉ text.toList := by
  obtain ⟨mark, isMark, padded⟩ := writes
  have plain := clean assignable finite isMark
  constructor
  · refine List.all_eq_false.2 ⟨'=', padded.mem_of_mem (List.mem_append_right _ List.mem_cons_self), ?_⟩
    decide
  · intro member
    rcases padded.filler_or_mem member with blank | kept
    · exact absurd blank (by decide)
    · exact (plain ';' kept).2 rfl

end Writes

variable {pairs : List (String × Float)} {texts parts : List String}

theorem readAll_written (assignable : ∀ pair ∈ pairs, IsAssignable pair.1 ∧ pair.2.isFinite = true)
    (written : List.Forall₂ Writes pairs texts) : readAll texts = .ok (.ofList pairs) := by
  have reads : texts.mapM read = .ok pairs := by
    induction written with
    | nil => rfl
    | cons writes _ ih =>
      obtain ⟨⟨first, finite⟩, rest⟩ := List.forall_mem_cons.1 assignable
      rw [List.mapM_cons, writes.read_eq first finite, ih rest]
      rfl
  rw [readAll, reads]
  rfl

theorem isPart_of_mem (assignable : ∀ pair ∈ pairs, IsAssignable pair.1 ∧ pair.2.isFinite = true)
    (written : List.Forall₂ Writes pairs texts) :
    ∀ text ∈ texts, Text.allBlank text.toList = false ∧ ';' ∉ text.toList := by
  induction written with
  | nil => exact List.forall_mem_nil _
  | cons writes _ ih =>
    obtain ⟨⟨first, finite⟩, rest⟩ := List.forall_mem_cons.1 assignable
    exact List.forall_mem_cons.2 ⟨writes.isPart first finite, ih rest⟩

/-- However pairs of names and finite values are written and laid out, the line and the written pairs by themselves are
read as the map in which each name has the value of its last pair. -/
theorem readLine_written (assignable : ∀ pair ∈ pairs, IsAssignable pair.1 ∧ pair.2.isFinite = true)
    (written : List.Forall₂ Writes pairs texts)
    (laidOut : Padded (fun part => Text.allBlank part.toList) texts parts) :
    readLine (";".intercalate parts) = .ok (.ofList pairs) ∧ readAll texts = .ok (.ofList pairs) ∧
      ∀ name, (OrderedMap.ofList pairs).get? name = pairs.reverse.lookup name := by
  have isPart := isPart_of_mem assignable written
  have noSemicolon : ∀ part ∈ parts, ';' ∉ part.toList := by
    intro part among
    rcases laidOut.filler_or_mem among with blank | kept
    · exact fun member => absurd (List.all_eq_true.1 blank ';' member) (by decide)
    · exact (isPart part kept).2
  have reads := readAll_written assignable written
  refine ⟨?_, reads, fun name => ?_⟩
  · rw [readLine_intercalate_filter noSemicolon, laidOut.filter_eq fun text member => (isPart text member).1, reads]
  · exact (OrderedMap.get?_putAll_last .empty pairs name).trans (Option.or_none)

/-- A name that is assigned twice, a value with an exponent, decimal commas, and blanks inside names and numbers. -/
theorem readLine_written_twice :
    readLine " ;ra te=2 ,5;\t; x=- 1.5e-\u00a007;rate = 1,25;" =
        .ok (.ofList [("rate", 2.5), ("x", -1.5e-7), ("rate", 1.25)]) ∧
      (OrderedMap.ofList [("rate", 2.5), ("x", -1.5e-7), ("rate", (1.25 : Float))]).get? "rate" = some 1.25 := by
  have assignable : ∀ pair ∈ [("rate", 2.5), ("x", -1.5e-7), ("rate", (1.25 : Float))],
      IsAssignable pair.1 ∧ pair.2.isFinite = true := by
    have rate : IsAssignable "rate" := ⟨by decide, List.forall_iff_forall_mem.1 (by decide)⟩
    have x : IsAssignable "x" := ⟨by decide, List.forall_iff_forall_mem.1 (by decide)⟩
    rintro pair (_ | ⟨_, _ | ⟨_, _ | ⟨_, ⟨⟩⟩⟩⟩)
    · exact ⟨rate, by decide +kernel⟩
    · exact ⟨x, by decide +kernel⟩
    · exact ⟨rate, by decide +kernel⟩
  have written : List.Forall₂ Writes [("rate", 2.5), ("x", -1.5e-7), ("rate", 1.25)]
      ["ra te=2 ,5", " x=- 1.5e-\u00a007", "rate = 1,25"] :=
    .cons ⟨',', Or.inr rfl, .of_filter_eq (by decide +kernel)⟩ <|
      .cons ⟨'.', Or.inl rfl, .of_filter_eq (by decide +kernel)⟩ <|
        .cons ⟨',', Or.inr rfl, .of_filter_eq (by decide +kernel)⟩ .nil
  have laidOut : Padded (fun part => Text.allBlank part.toList) ["ra te=2 ,5", " x=- 1.5e-\u00a007", "rate = 1,25"]
      [" ", "ra te=2 ,5", "\t", " x=- 1.5e-\u00a007", "rate = 1,25", ""] := .of_filter_eq (by decide +kernel)
  obtain ⟨reads, -, last⟩ := readLine_written assignable written laidOut
  exact ⟨reads, last "rate"⟩

end Reckoner.Assignment
