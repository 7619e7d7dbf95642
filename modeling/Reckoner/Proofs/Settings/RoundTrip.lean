import Mathlib
import Reckoner.Proofs.Json.Refusal
import Reckoner.Proofs.Json.Plain
import Reckoner.Proofs.Json.Writer
import Reckoner.Settings.File

namespace Reckoner

namespace FileContent

theorem plainLines_of_plain {text : List Char} (plain : Json.Plain text) : plainLines text = text := by
  induction text with
  | nil => rfl
  | cons c rest ih =>
    have shown : c ≠ '\r' := by
      rintro rfl
      exact absurd (plain.of_mem List.mem_cons_self) (by decide)
    have others : plainLines rest = rest := ih (.of_forall fun _ member => plain.of_mem (List.mem_cons_of_mem c member))
    rw [plainLines, if_neg shown, others]
    exact fun _ same _ => shown same

theorem fromUTF8?_toUTF8 (s : String) : String.fromUTF8? s.toUTF8 = some s := by
  rw [String.fromUTF8?, String.toUTF8_eq_toByteArray, dif_pos s.isValidUTF8]
  rfl

/-- A file of plain text is taken as that text. -/
theorem decode_of_plain {text : List Char} (plain : Json.Plain text) :
    decode (String.ofList text).toUTF8 = .ok text := by
  rw [decode, fromUTF8?_toUTF8]
  change Except.ok (plainLines (String.ofList text).toList) = _
  rw [String.toList_ofList, plainLines_of_plain plain]

/-- A file with a printed value holds that value. -/
theorem readJson_print {value : Value} (readable : Json.Readable value) (brief : value.Brief)
    (within : value.depth ≤ Json.depthLimit) :
    readJson (some (String.ofList (Json.print 0 value)).toUTF8) = .ok (.ok value) := by
  rw [readJson, bind_eq_ok]
  refine ⟨_, decode_of_plain (Json.plain_print 0 value), ?_⟩
  rw [Json.read_print readable brief within]
  rfl

/-- A file with the printed text of a value that goes beyond a limit of the reader cannot be read. -/
theorem readJson_print_of_refused {excess : Excess} {value : Value}
    (refused : Json.Refused excess.problem 0 Json.depthLimit value) :
    readJson (some (String.ofList (Json.print 0 value)).toUTF8) = .error excess.fault := by
  obtain ⟨⟨_, left⟩, flawed, rfl⟩ := refused.read_print
  rw [readJson, decode_of_plain (Json.plain_print 0 value)]
  simp only [bind, Except.bind, flawed]
  cases excess <;> rfl

end FileContent

namespace Settings

variable {settings : Settings} {text : String}

/-- Settings that can be told from their file: every key is a name, no key stands twice, and the names and values can
be told from their printed text. -/
structure Savable (settings : Settings) : Prop where
  named : ∀ entry ∈ settings.entries, ∃ name, entry.1 = .name name ∧ name.Apart
  distinct : OrderedMap.Distinct settings.entries
  readable : ∀ entry ∈ settings.entries, Json.Readable entry.2

namespace Savable

theorem name_keyName (savable : Savable settings) {entry : Key × Value} (member : entry ∈ settings.entries) :
    Key.name (keyName entry.1) = entry.1 := by
  obtain ⟨name, same, _⟩ := savable.named entry member
  rw [same]
  rfl

theorem apart_keyName (savable : Savable settings) {entry : Key × Value} (member : entry ∈ settings.entries) :
    (keyName entry.1).Apart := by
  obtain ⟨name, same, apart⟩ := savable.named entry member
  rw [same]
  exact apart

theorem readable_toValue (savable : Savable settings) : Json.Readable settings.toValue := by
  refine .mapping ?_ (List.forall_mem_map.2 fun _ member => savable.apart_keyName member)
    (List.forall_mem_map.2 fun _ member => savable.readable _ member)
  refine List.pairwise_map.2 (savable.distinct.imp_of_mem fun {first second} before behind apart => ?_)
  rw [beq_eq_false_iff_ne]
  intro (same : keyName second.1 = keyName first.1)
  rw [← savable.name_keyName before, ← savable.name_keyName behind, same, BEq.rfl] at apart
  exact nomatch apart

/-- The named values that were written are put over other settings as they were. -/
theorem overlay_toValue (savable : Savable settings) (under : Settings) :
    under.overlay settings.toValue = .ok (under.putAll settings.entries) := by
  have back (entry : Key × Value) (member : entry ∈ settings.entries) : (Key.name (keyName entry.1), entry.2) = entry :=
    congrArg (·, entry.2) (savable.name_keyName member)
  rw [toValue, overlay, List.map_map]
  exact congrArg (Except.ok ∘ under.putAll) ((List.map_congr_left back).trans (List.map_id _))

end Savable

/-- Whether nothing stops the writing of an entry. -/
def Writes (entry : Key × Value) : Prop :=
  entry.1.toValue.follow Json.writingNeed (Json.writingRoom - 1) = .ok () ∧
    entry.2.follow Json.writingNeed (Json.writingRoom - 1) = .ok ()

theorem result_writeEntries_cons_eq_ok {before chars : List Char} {key : Key} {value : Value}
    {rest : List (Key × Value)} : (writeEntries before ((key, value) :: rest)).result = .ok chars ↔
      Writes (key, value) ∧ ∃ more, (writeEntries (',' :: Json.newline 1) rest).result = .ok more ∧
        before ++ (Json.printText (keyName key) ++ ':' :: ' ' :: (Json.print 1 value ++ more)) = chars := by
  have written := Json.writesAsPrinted value (Json.writingRoom - 1) 1 []
  rw [writeEntries, Writes]
  cases key.toValue.follow Json.writingNeed (Json.writingRoom - 1) with
  | error excess => exact ⟨nofun, fun both => nomatch both.1.1⟩
  | ok _ =>
    dsimp only
    rw [Json.Draft.result_append, Json.Draft.result_append, Json.Draft.result_of, written]
    cases value.follow Json.writingNeed (Json.writingRoom - 1) with
    | error excess => exact ⟨nofun, fun both => nomatch both.1.2⟩
    | ok _ =>
      cases (writeEntries (',' :: Json.newline 1) rest).result with
      | error excess => exact ⟨nofun, fun ⟨_, _, more, _⟩ => nomatch more⟩
      | ok more => simp [Except.map, bind, Except.bind, pure, Except.pure]

/-- Further entries are written as they are printed, if nothing stops the writing of any of them. -/
theorem result_writeEntries_eq_ok {entries : List (Key × Value)} {chars : List Char} :
    (writeEntries (',' :: Json.newline 1) entries).result = .ok chars ↔ (∀ entry ∈ entries, Writes entry) ∧
      Json.printEntries 1 (entries.map fun (key, value) => (keyName key, value)) = chars := by
  induction entries generalizing chars with
  | nil => exact ⟨fun same => ⟨List.forall_mem_nil _, Except.ok.inj same⟩, fun both => congrArg _ both.2⟩
  | cons entry rest ih =>
    obtain ⟨key, value⟩ := entry
    rw [result_writeEntries_cons_eq_ok, List.forall_mem_cons]
    constructor
    · rintro ⟨first, more, written, rfl⟩
      obtain ⟨each, rfl⟩ := ih.1 written
      exact ⟨⟨first, each⟩, by simp [Json.printEntries]⟩
    · rintro ⟨⟨first, each⟩, rfl⟩
      exact ⟨first, _, ih.2 ⟨each, rfl⟩, by simp [Json.printEntries]⟩

/-- Settings are written as they are printed, if nothing stops the writing of any of their entries. -/
theorem result_write_eq_ok {chars : List Char} : settings.write.result = .ok chars ↔
    (∀ entry ∈ settings.entries, Writes entry) ∧ Json.print 0 settings.toValue = chars := by
  obtain ⟨entries⟩ := settings
  rcases entries with _ | ⟨⟨key, value⟩, rest⟩
  · exact ⟨fun same => ⟨List.forall_mem_nil _, Except.ok.inj same⟩, fun both => congrArg _ both.2⟩
  · change (Json.Draft.of _ ++ writeEntries [] ((key, value) :: rest) ++ Json.Draft.of _).result = _ ↔ _
    rw [Json.Draft.result_append_eq_ok, List.forall_mem_cons]
    constructor
    · rintro ⟨_, _, opened, ⟨⟩, rfl⟩
      obtain ⟨_, _, ⟨⟩, inside, rfl⟩ := Json.Draft.result_append_eq_ok.1 opened
      obtain ⟨first, more, written, rfl⟩ := result_writeEntries_cons_eq_ok.1 inside
      obtain ⟨each, rfl⟩ := result_writeEntries_eq_ok.1 written
      exact ⟨⟨first, each⟩, by simp [toValue, Json.print]⟩
    · rintro ⟨⟨first, each⟩, rfl⟩
      have inside : (writeEntries [] ((key, value) :: rest)).result = .ok _ :=
        result_writeEntries_cons_eq_ok.2 ⟨first, _, result_writeEntries_eq_ok.2 ⟨each, rfl⟩, rfl⟩
      refine ⟨_, _, Json.Draft.result_append_eq_ok.2 ⟨_, _, rfl, inside, rfl⟩, rfl, ?_⟩
      simp [toValue, Json.print]

/-- Settings are saved exactly if nothing stops the writing of any of their entries. -/
theorem save_eq_ok : settings.save = .ok text ↔
    (∀ entry ∈ settings.entries, Writes entry) ∧ settings.written = text := by
  have saves : settings.save = .ok text ↔ ∃ chars, settings.write.result = .ok chars ∧ String.ofList chars = text := by
    unfold save Json.Draft.result
    obtain ⟨chars, excess⟩ := settings.write
    cases excess <;> simp
  rw [saves]
  constructor
  · rintro ⟨chars, written, rfl⟩
    obtain ⟨each, rfl⟩ := result_write_eq_ok.1 written
    exact ⟨each, rfl⟩
  · rintro ⟨each, rfl⟩
    exact ⟨_, result_write_eq_ok.2 ⟨each, rfl⟩, rfl⟩

theorem brief_and_depth_of_save (saved : settings.save = .ok text) :
    settings.toValue.Brief ∧ settings.toValue.depth ≤ Json.depthLimit + 2 := by
  have each (entry : Key × Value) (member : entry ∈ settings.entries) :=
    Json.brief_and_depth_of_follow ((save_eq_ok.1 saved).1 entry member).2
  exact ⟨.mapping (List.forall_mem_map.2 fun entry member => (each entry member).1),
    Value.depth_mapping_le.2 (List.forall_mem_map.2 fun entry member => (each entry member).2)⟩

theorem distinct_defaults : OrderedMap.Distinct defaults.entries :=
  OrderedMap.distinct_putAll List.Pairwise.nil _

/-- The file of saved settings is loaded as those settings over the defaults. -/
theorem load_written (savable : Savable settings) (saved : settings.save = .ok text)
    (within : settings.toValue.depth ≤ Json.depthLimit) :
    load (some text.toUTF8) = .ok (defaults.putAll settings.entries, none) := by
  have held : FileContent.readJson (some text.toUTF8) = .ok (.ok settings.toValue) := by
    rw [← (save_eq_ok.1 saved).2]
    exact FileContent.readJson_print savable.readable_toValue (brief_and_depth_of_save saved).1 within
  rw [load, held]
  change (defaults.overlay settings.toValue >>= fun loaded => Except.ok (loaded, none)) = _
  rw [savable.overlay_toValue]
  rfl

theorem length_written_pos (settings : Settings) : 0 < settings.written.length := by
  obtain ⟨c, rest, begins, _⟩ := Json.starts_print 0 settings.toValue
  rw [written, begins, String.length_ofList]
  exact Nat.zero_lt_succ _

/-- A file with settings that go beyond a limit of the reader is not loaded. -/
theorem load_written_of_refused {excess : Excess}
    (refused : Json.Refused excess.problem 0 Json.depthLimit settings.toValue) :
    load (some settings.written.toUTF8) = .error excess.fault := by
  rw [load, written, FileContent.readJson_print_of_refused refused]
  rfl

/-- Lists inside each other, as many as are asked for in one. -/
def nest : Nat → Value
  | 0 => .list []
  | count + 1 => .list [nest count]

/-- Settings two levels deeper than is followed in reading. -/
def deep : Settings :=
  ⟨[(.named "degrees", .flag true), (.named "deep", nest Json.depthLimit)]⟩

end Settings

end Reckoner
