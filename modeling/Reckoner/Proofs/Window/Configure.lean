import Mathlib
import Reckoner.Proofs.Settings.Form
import Reckoner.Proofs.Window.Change

namespace Reckoner.Window

open Settings (HoldsObject)

variable {w : Window}

/-- A window after a visit to the form, with the settings that are in the file. -/
def revised (w : Window) (file : FileContent) (settings : Settings) : Window :=
  { w with file, settings, replaced := w.readings }

/-- A visit that comes through all of its steps, as a reaction. -/
theorem react_configure {edits : List (String × Value)} {closing : Closing} {before after : Settings}
    {opened changed : Form} {file : FileContent} {notices : Notices} {accepted : Option Bool} {unread : Option Unread}
    (loads : Settings.load w.file = .ok (before, none)) (fills : Form.fill before = .ok opened)
    (sets : opened.setAll edits = .ok changed)
    (closes : w.close changed closing = ({ w with file }, .ok (notices, accepted)))
    (reloads : Settings.load file = .ok (after, unread)) :
    w.react (.configure edits closing) =
      ⟨w.revised file after, notices ++ ⟨[], Settings.readLog unread⟩, some ⟨opened, accepted⟩, none⟩ := by
  have rereads : reload { w with file } = .ok (w.revised file after, ⟨[], Settings.readLog unread⟩) :=
    bind_eq_ok.2 ⟨_, reloads, rfl⟩
  rw [react, configure, loads]
  dsimp only
  rw [fills]
  dsimp only
  rw [sets]
  dsimp only
  rw [leave, closes]
  dsimp only
  rw [rereads]
  rfl

/-- A write that breaks off leaves what arrived in the file, and shows one box. -/
theorem close_brokenOff {form : Form} {arrived : Nat} {arrives : String}
    (part : String.ofList (form.result.write.text.take arrived) = arrives) (w : Window) (reason : String) :
    w.close form (.failing (.brokenOff arrived reason)) = ({ w with file := some arrives.toUTF8 },
      .ok (⟨[⟨"Error", unsavedText, none⟩],
        [Settings.unsavedWarning (.brokenOff arrived reason), unsavedText]⟩, none)) := by
  rw [close, Settings.stored, part]

/-- The settings form edits what it shows and nothing else. On a file that is an object whose decimal places, if it has
any, are a whole number, the form has a box for every flag and for nothing else, and however its fields are set, its
number stays within the bounds. Closing with OK is accepted, and the file is then loaded as the settings before with the
number and the flags of the form. Closing without OK leaves the file. So does OK when the file cannot be opened for
writing; when the writing breaks off later, the file holds what arrived until then, and unless that is everything, it is
loaded as the defaults. Either failure shows one box, and the form is not accepted. The window always has the settings
that are then in the file. -/
theorem configure_object (w : Window) (edits : List (String × Value)) (closing : Closing)
    {entries : List (CodePoints × Value)} (object : HoldsObject w.file entries)
    (whole : ∀ value, (entries.map Settings.named).reverse.lookup (.named "decimal_places") = some value →
      ∃ n, value = .whole n) (takes : Form.Takes edits) :
    ∃ before opened changed, Settings.load w.file = .ok (before, none) ∧ Form.fill before = .ok opened ∧
      opened.setAll edits = .ok changed ∧ 2 ≤ changed.places ∧ changed.places ≤ 100 ∧
      (∀ key, opened.boxes.get? key = (before.get? key).bind Form.flag?) ∧
      (∀ key, changed.boxes.contains key = true ↔ ∃ checked, before.get? key = some (.flag checked)) ∧
      ∃ file after unread dialogs log accepted, w.react (.configure edits closing) =
          ⟨w.revised file after, ⟨dialogs, log⟩, some ⟨opened, accepted⟩, none⟩ ∧
        Settings.load file = .ok (after, unread) ∧
        match closing with
        | .ok => accepted = some true ∧ dialogs = [] ∧ unread = none ∧ ∀ key, after.get? key = changed.taken before key
        | .cancel => accepted = some false ∧ dialogs = [] ∧ file = w.file ∧ after = before
        | .failing failure => accepted = none ∧ dialogs = [⟨"Error", unsavedText, none⟩] ∧
          match failure with
          | .unopened _ => file = w.file ∧ after = before
          | .brokenOff arrived _ =>
            file = some (String.ofList (changed.result.written.toList.take arrived)).toUTF8 ∧
              (arrived < changed.result.written.length → after = Settings.defaults) ∧
              (changed.result.written.length ≤ arrived → ∀ key, after.get? key = changed.taken before key) := by
  obtain ⟨before, loads, storable, complete, fillable⟩ := Form.load_object object whole
  obtain ⟨opened, fills, rfl, shows, fresh⟩ := Form.fill_edited storable.distinct fillable
  obtain ⟨changed, sets, edited⟩ := fresh.setAll takes
  have saves := edited.storable_result storable shows
  obtain ⟨after, reloads, gives⟩ := edited.load_result storable shows fillable complete
  have printed : changed.result.write.text = changed.result.written.toList := by
    rw [saves.write_eq, Settings.written, String.toList_ofList]
    rfl
  refine ⟨_, opened, changed, loads, fills, sets, edited.places.1, edited.places.2, shows, edited.contains_iff shows,
    ?_⟩
  cases closing with
  | ok =>
    have closes : w.close changed .ok =
        ({ w with file := some changed.result.written.toUTF8 }, .ok (.none, some true)) := by
      rw [close, Settings.stored, saves.save.1, printed, String.ofList_toList]
      rfl
    exact ⟨_, after, none, _, _, _, react_configure loads fills sets closes reloads, reloads, rfl, rfl, rfl, gives⟩
  | cancel =>
    exact ⟨w.file, _, none, _, _, _, react_configure loads fills sets rfl loads, loads, rfl, rfl, rfl, rfl⟩
  | failing failure =>
    cases failure with
    | unopened reason =>
      exact ⟨w.file, _, none, _, _, _, react_configure loads fills sets rfl loads, loads, rfl, rfl, rfl, rfl⟩
    | brokenOff arrived reason =>
      have part : String.ofList (changed.result.write.text.take arrived) =
          String.ofList (changed.result.written.toList.take arrived) := by
        rw [printed]
      rcases Nat.lt_or_ge arrived changed.result.written.length with less | all
      · obtain ⟨unread, broken⟩ := saves.load_cut less
        exact ⟨_, _, _, _, _, _, react_configure loads fills sets (close_brokenOff part w reason) broken, broken, rfl,
          rfl, rfl, fun _ => rfl, fun all => absurd less (Nat.not_lt.2 all)⟩
      · have everything : String.ofList (changed.result.written.toList.take arrived) = changed.result.written := by
          rw [List.take_of_length_le (by rwa [String.length_toList]), String.ofList_toList]
        have closes := close_brokenOff (part.trans everything) w reason
        exact ⟨_, after, none, _, _, _, react_configure loads fills sets closes reloads, reloads, rfl, rfl,
          congrArg (fun text : String => some text.toUTF8) everything.symm, fun less => absurd all (Nat.not_le.2 less),
          fun _ => gives⟩

/-- A file with too many decimal places, and a flag that the program does not know. -/
def noted : FileContent := some "\x7b\"decimal_places\":1000,\"note\":true\x7d".toUTF8

theorem holds_noted : HoldsObject noted
    [(.ofString "decimal_places", .whole 1000), (.ofString "note", .flag true)] := by
  have decoded : FileContent.decode "\x7b\"decimal_places\":1000,\"note\":true\x7d".toUTF8 =
    .ok "\x7b\"decimal_places\":1000,\"note\":true\x7d".toList := by decide +kernel
  have named : Json.readName "\"decimal_places\":1000,\"note\":true\x7d".toList =
    .ok (.ofString "decimal_places", "1000,\"note\":true\x7d".toList) := by decide +kernel
  have namedToo : Json.readName "\"note\":true\x7d".toList = .ok (.ofString "note", "true\x7d".toList) := by
    decide +kernel
  have many (steps room : Nat) : Json.readValue (steps + 1) room "1000,\"note\":true\x7d".toList =
      .ok (.whole 1000, ",\"note\":true\x7d".toList) := by
    rw [Json.readValue.eq_def]
    rfl
  have yes (steps room : Nat) :
    Json.readValue (steps + 1) room "true\x7d".toList = .ok (.flag true, "\x7d".toList) := by
    rw [Json.readValue.eq_def]
    rfl
  exact .of_text decoded (.pair (by decide) rfl named many rfl namedToo yes rfl rfl)

theorem whole_noted {value : Value} (held : ([(CodePoints.ofString "decimal_places", Value.whole 1000),
    (.ofString "note", .flag true)].map Settings.named).reverse.lookup (.named "decimal_places") = some value) :
    ∃ n, value = .whole n :=
  ⟨1000, (Option.some.inj held).symm⟩

/-- The number is brought within the bounds, and the flag can be cleared. -/
theorem configure_unknown_flag :
    HoldsObject noted [(.ofString "decimal_places", .whole 1000), (.ofString "note", .flag true)] ∧
    ∃ file after, Settings.load file = .ok (after, none) ∧
      ((fresh .empty noted).react (.configure [("note", .flag false)] .ok)).window.file = file ∧
      after.value? "decimal_places" = some (.whole 100) ∧ after.value? "note" = some (.flag false) ∧
      after.value? "show_equation" = some (.flag true) := by
  have takes : Form.Takes [("note", .flag false)] :=
    List.forall_mem_singleton.2 fun number => absurd number (by decide)
  obtain ⟨before, opened, changed, loads, fills, sets, _, _, _, _, file, after, unread, dialogs, log, accepted, visit,
    reloads, _, _, rfl, gives⟩ :=
    configure_object (fresh .empty noted) [("note", .flag false)] .ok holds_noted (fun _ => whole_noted) takes
  cases loads.symm.trans holds_noted.load_eq
  cases fills
  cases sets
  refine ⟨holds_noted, file, after, reloads, ?_, gives _, gives _, gives _⟩
  rw [visit]
  rfl

/-- Settings with a number that has one digit more than can be read. -/
def lengthy : Settings := ⟨[(.named "note", .whole (10 ^ digitLimit))]⟩

theorem lt_length_toDigits (count : Nat) : count < (Nat.toDigits 10 ((10 : Int) ^ count).natAbs).length := by
  rcases Nat.eq_zero_or_pos count with rfl | some
  · decide
  · rw [Int.natAbs_pow, ← Nat.not_le, Nat.length_toDigits_le_iff (by decide) some]
    exact Nat.lt_irrefl _

theorem load_lengthy : Settings.load (some lengthy.written.toUTF8) = .error Excess.digits.fault := by
  have many := lt_length_toDigits digitLimit
  refine Settings.load_written_of_refused (Json.refused_mapping (List.forall_mem_singleton.2 ?_) ?_ ?_)
  · exact CodePoints.apart_ofString "note"
  · exact List.forall_mem_singleton.2 (Or.inr (Json.refused_whole many))
  · exact ⟨_, List.mem_singleton_self _, Json.refused_whole many⟩

/-- A write that breaks off at once leaves an empty file, and the window with the defaults; and an object with a number
that is too long is not loaded. -/
theorem broken_write_loses_settings :
    HoldsObject noted [(.ofString "decimal_places", .whole 1000), (.ofString "note", .flag true)] ∧
    (∃ before next, Settings.load noted = .ok (before, none) ∧ before.value? "note" = some (.flag true) ∧
      ((fresh before noted).react
        (.configure [] (.failing (.brokenOff 0 "[Errno 28] No space left on device")))).window = next ∧
      next.file ≠ noted ∧ next.settings = Settings.defaults ∧ next.settings.value? "note" = none) ∧
    Settings.load (some lengthy.written.toUTF8) = .error Excess.digits.fault := by
  obtain ⟨before, loads, storable, _, fillable⟩ := Form.load_object holds_noted fun _ => whole_noted
  obtain ⟨opened, fills, rfl, shows, edited⟩ := Form.fill_edited storable.distinct fillable
  have kept := loads.symm.trans holds_noted.load_eq
  have nothing (chars : List Char) : String.ofList (chars.take 0) = "" := by
    rw [List.take_zero]
  obtain ⟨unread, broken⟩ :=
    (edited.storable_result storable shows).load_cut (Settings.length_written_pos opened.result)
  rw [nothing] at broken
  have sets : opened.setAll [] = .ok opened := rfl
  have visit :=
    @react_configure (fresh opened.settings noted) [] (.failing (.brokenOff 0 "[Errno 28] No space left on device"))
    _ _ _ _ _ _ _ _ loads fills sets (close_brokenOff (nothing _) _ _) broken
  refine ⟨holds_noted, ⟨opened.settings, _, loads, ?_, congrArg Reaction.window visit, ?_, rfl, rfl⟩, load_lengthy⟩
  · rw [(Prod.mk.inj (Except.ok.inj kept)).1]
    rfl
  · change some "".toUTF8 ≠ noted
    unfold noted
    decide +kernel

end Reckoner.Window
