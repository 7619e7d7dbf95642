import Mathlib
import Reckoner.Proofs.Json.CutValue
import Reckoner.Proofs.Settings.RoundTrip
import Reckoner.Window.Form

namespace Reckoner

theorem Key.eq_name_of_beq {key : Key} {text : CodePoints} (same : (key == .name text) = true) : key = .name text := by
  have identity := Key.beq_iff.1 same
  cases key with
  | name other => exact congrArg Key.name (Key.Identity.text.inj identity)
  | null | flag | whole => cases identity
  | real value =>
    unfold Key.identity at identity
    dsimp only at identity
    split at identity <;> cases identity

/-- The keys of a JSON object: names that can be told from their printed text. -/
def Key.IsName (key : Key) : Prop :=
  ∃ name, key = .name name ∧ name.Apart

theorem Key.isName_named (name : String) : (Key.named name).IsName :=
  ⟨_, rfl, CodePoints.apart_ofString name⟩

namespace Settings

variable {settings : Settings}

/-- Settings that can be saved and told from their file. -/
structure Storable (settings : Settings) : Prop where
  distinct : OrderedMap.Distinct settings.entries
  names : ∀ entry ∈ settings.entries, entry.1.IsName
  values : ∀ entry ∈ settings.entries, Json.Printable (Json.depthLimit - 1) entry.2

namespace Storable

theorem putAll (storable : Storable settings) {pairs : List (Key × Value)} (names : ∀ pair ∈ pairs, pair.1.IsName)
    (values : ∀ pair ∈ pairs, Json.Printable (Json.depthLimit - 1) pair.2) : Storable (settings.putAll pairs) where
  distinct := OrderedMap.distinct_putAll storable.distinct pairs
  names := OrderedMap.forall_keys_putAll storable.names names
  values := OrderedMap.forall_putAll storable.values values

theorem savable (storable : Storable settings) : Savable settings :=
  ⟨storable.names, storable.distinct, fun entry member => (storable.values entry member).readable⟩

theorem printable (storable : Storable settings) : Json.Printable Json.depthLimit settings.toValue where
  readable := storable.savable.readable_toValue
  brief := .mapping (List.forall_mem_map.2 fun entry member => (storable.values entry member).brief)
  depth_le :=
    Value.depth_mapping_le.2 (List.forall_mem_map.2 fun entry member => (storable.values entry member).depth_le)

theorem writes (storable : Storable settings) : ∀ entry ∈ settings.entries, Writes entry := by
  intro entry member
  obtain ⟨name, same, _⟩ := storable.names entry member
  obtain ⟨_, brief, within⟩ := storable.values entry member
  refine ⟨?_, Json.follow_of_brief brief within⟩
  rw [same]
  rfl

/-- Storable settings are saved, and their file is loaded as those settings over the defaults. -/
theorem save (storable : Storable settings) : settings.save = .ok settings.written ∧
    load (some settings.written.toUTF8) = .ok (defaults.putAll settings.entries, none) := by
  have saved : settings.save = .ok settings.written := save_eq_ok.2 ⟨storable.writes, rfl⟩
  exact ⟨saved, load_written storable.savable saved storable.printable.depth_le⟩

theorem write_eq (storable : Storable settings) : settings.write = .of (Json.print 0 settings.toValue) :=
  Json.Draft.eq_of_result (result_write_eq_ok.2 ⟨storable.writes, rfl⟩)

/-- A file in which the text of storable settings breaks off leaves the defaults. -/
theorem load_cut (storable : Storable settings) {arrived : Nat} (less : arrived < settings.written.length) :
    ∃ unread, load (some (String.ofList (settings.written.toList.take arrived)).toUTF8) =
      .ok (defaults, some unread) := by
  rw [written, String.toList_ofList]
  rw [written, String.length_ofList] at less
  have cut : Json.Cut (Json.print 0 settings.toValue) ((Json.print 0 settings.toValue).take arrived) := by
    refine ⟨(Json.print 0 settings.toValue)[arrived], (Json.print 0 settings.toValue).drop (arrived + 1), ?_⟩
    rw [List.cons_getElem_drop_succ, List.take_append_drop]
  obtain ⟨flaw, flawed, ordinary⟩ := Json.read_cut_mapping storable.printable cut
  have plain : Json.Plain ((Json.print 0 settings.toValue).take arrived) :=
    .of_forall fun c member => (Json.plain_print 0 settings.toValue).of_mem (List.mem_of_mem_take member)
  exact ⟨_, Lacks.load_eq (.malformed (FileContent.decode_of_plain plain) flawed ordinary)⟩

end Storable

theorem storable_defaults : Storable defaults where
  distinct := distinct_defaults
  names := OrderedMap.forall_keys_putAll (List.forall_mem_nil _) (List.forall_mem_map.2 fun _ _ => Key.isName_named _)
  values := by
    have flag (value : Bool) : Json.Printable (Json.depthLimit - 1) (.flag value) := .flag value
    refine OrderedMap.forall_putAll (List.forall_mem_nil _) (List.forall_mem_map.2 fun pair member => ?_)
    fin_cases member
    exacts [⟨.whole _, .whole (by decide), Nat.zero_le _⟩, flag _, flag _, flag _, flag _, flag _]

/-- The settings that an object is loaded as can be saved. -/
theorem HoldsObject.storable {content : FileContent} {entries : List (CodePoints × Value)}
    (object : HoldsObject content entries) :
    Storable (defaults.putAll (OrderedMap.ofList (entries.map named)).entries) := by
  cases object with
  | of_text _ holds =>
    have each := holds.printable
    refine storable_defaults.putAll ?_ ?_
    · exact OrderedMap.forall_keys_putAll (List.forall_mem_nil _)
        (List.forall_mem_map.2 fun entry member => ⟨_, rfl, (each entry member).1⟩)
    · exact OrderedMap.forall_putAll (List.forall_mem_nil _)
        (List.forall_mem_map.2 fun entry member => (each entry member).2)

end Settings

namespace Form

variable {settings : Settings} {opened form : Form}

/-- The flag that a value is, if it is one. -/
def flag? : Value → Option Bool
  | .flag value => some value
  | _ => none

theorem flag?_eq_some {value : Value} {checked : Bool} : flag? value = some checked ↔ value = .flag checked := by
  cases value <;> simp [flag?]

theorem flags_cons (key : Key) (value : Value) (rest : List (Key × Value)) :
    flags ⟨(key, value) :: rest⟩ = ((flag? value).map (key, ·)).toList ++ flags ⟨rest⟩ := by
  cases value <;> rfl

theorem mem_flags {key : Key} {checked : Bool} :
    (key, checked) ∈ flags settings ↔ (key, .flag checked) ∈ settings.entries := by
  obtain ⟨entries⟩ := settings
  induction entries with
  | nil => exact ⟨nofun, nofun⟩
  | cons entry rest ih =>
    obtain ⟨name, value⟩ := entry
    rw [flags_cons, List.mem_append, ih]
    cases value <;> simp [flag?]

theorem distinct_flags (distinct : OrderedMap.Distinct settings.entries) : OrderedMap.Distinct (flags settings) := by
  obtain ⟨entries⟩ := settings
  induction entries with
  | nil => exact .nil
  | cons entry rest ih =>
    obtain ⟨name, value⟩ := entry
    obtain ⟨apart, distinct⟩ := List.pairwise_cons.1 distinct
    rw [flags_cons]
    cases shown : flag? value with
    | none => exact ih distinct
    | some checked => exact List.pairwise_cons.2 ⟨fun other member => apart _ (mem_flags.1 member), ih distinct⟩

/-- A key has a box exactly if its value is a flag, and the box shows the flag. -/
theorem lookup_flags (distinct : OrderedMap.Distinct settings.entries) (key : Key) :
    (flags settings).lookup key = (settings.get? key).bind flag? := by
  obtain ⟨entries⟩ := settings
  change _ = (entries.lookup key).bind flag?
  induction entries with
  | nil => rfl
  | cons entry rest ih =>
    obtain ⟨name, value⟩ := entry
    obtain ⟨apart, distinct⟩ := List.pairwise_cons.1 distinct
    rw [flags_cons, List.lookup_append, List.lookup_cons, ih distinct]
    cases same : key == name with
    | false => cases flag? value <;> simp [List.lookup_cons, same]
    | true =>
      rw [OrderedMap.lookup_eq_none_of_forall same apart]
      cases shown : flag? value <;> simp [List.lookup_cons, same, shown]

theorem clamp_bounds (n : Int) :
    (Settings.leastDecimalPlaces : Int) ≤ clamp n ∧ clamp n ≤ (Settings.mostDecimalPlaces : Int) := by
  unfold clamp Settings.leastDecimalPlaces Settings.mostDecimalPlaces
  omega

/-- Edits that the form takes: its number box takes whole numbers. -/
def Takes (edits : List (String × Value)) : Prop :=
  ∀ edit ∈ edits, edit.1 = "decimal_places" → ∃ n, edit.2 = .whole n

/-- A form that was opened as another one, and had fields set: it has the same boxes and keeps the same settings, and
its number is within the bounds. -/
structure Edited (opened form : Form) : Prop where
  settings : form.settings = opened.settings
  places : (Settings.leastDecimalPlaces : Int) ≤ form.places ∧ form.places ≤ (Settings.mostDecimalPlaces : Int)
  boxes : ∀ key, form.boxes.contains key = opened.boxes.contains key
  distinct : OrderedMap.Distinct form.boxes.entries

namespace Edited

/-- Setting a field edits the form further. -/
theorem set (edited : Edited opened form) {name : String} {value : Value}
    (takes : name = "decimal_places" → ∃ n, value = .whole n) :
    ∃ next, form.set name value = .ok next ∧ Edited opened next := by
  unfold Form.set
  split_ifs with number shown
  · obtain ⟨n, rfl⟩ := takes number
    exact ⟨_, rfl, { edited with places := clamp_bounds n }⟩
  · refine ⟨_, rfl, { edited with boxes := fun key => ?_, distinct := OrderedMap.distinct_putEntry edited.distinct }⟩
    rw [← edited.boxes key, OrderedMap.contains, OrderedMap.contains, OrderedMap.get?_put]
    split_ifs with same
    · rw [Key.eq_name_of_beq same]
      exact shown.symm
    · rfl
  · exact ⟨_, rfl, edited⟩

/-- Setting fields one after another edits the form further. -/
theorem setAll (edited : Edited opened form) {edits : List (String × Value)} (takes : Takes edits) :
    ∃ changed, form.setAll edits = .ok changed ∧ Edited opened changed := by
  induction edits generalizing form with
  | nil => exact ⟨form, rfl, edited⟩
  | cons edit rest ih =>
    obtain ⟨first, others⟩ := List.forall_mem_cons.1 takes
    obtain ⟨next, set, edited⟩ := edited.set first
    obtain ⟨changed, sets, edited⟩ := ih edited others
    refine ⟨changed, ?_, edited⟩
    rw [Form.setAll, List.foldlM_cons, bind_eq_ok]
    exact ⟨next, set, sets⟩

end Edited

/-- Settings whose decimal places, if they are there, are a whole number. -/
def Fillable (settings : Settings) : Prop :=
  ∀ value, settings.value? "decimal_places" = some value → ∃ n, value = .whole n

/-- What an object is loaded as can be saved, has all default keys, and fits the form if the object does. -/
theorem load_object {content : FileContent} {entries : List (CodePoints × Value)}
    (object : Settings.HoldsObject content entries)
    (whole : ∀ value, (entries.map Settings.named).reverse.lookup (.named "decimal_places") = some value →
      ∃ n, value = .whole n) :
    ∃ before, Settings.load content = .ok (before, none) ∧ Settings.Storable before ∧
      (∀ key, Settings.defaults.contains key = true → before.contains key = true) ∧ Fillable before := by
  refine ⟨_, object.load_eq, object.storable, fun key known => Settings.contains_putAll _ known, fun value held => ?_⟩
  rw [Settings.value?, OrderedMap.get?_putAll_ofList] at held
  rcases Option.or_eq_some_iff.1 held with given | ⟨_, default⟩
  · exact whole value given
  · exact ⟨_, (Option.some.inj default).symm⟩

/-- The form can be opened on settings that fit it. It shows every flag as it is. -/
theorem fill_edited (distinct : OrderedMap.Distinct settings.entries) (fillable : Fillable settings) :
    ∃ opened, fill settings = .ok opened ∧ opened.settings = settings ∧
      (∀ key, opened.boxes.get? key = (settings.get? key).bind flag?) ∧ Edited opened opened := by
  obtain ⟨n, shown⟩ :
      ∃ n, (settings.value? "decimal_places").getD (.whole Settings.defaultDecimalPlaces) = .whole n := by
    cases held : settings.value? "decimal_places" with
    | none => exact ⟨_, rfl⟩
    | some value => exact fillable value held
  refine ⟨⟨settings, clamp n, ⟨flags settings⟩⟩, ?_, rfl, lookup_flags distinct, rfl, clamp_bounds n, fun _ => rfl,
    distinct_flags distinct⟩
  rw [fill, shown]
  rfl

/-- What a setting is after a form was closed with OK, from what it was before: the number of the form, the flag of its
box, or, without a field, what it was. -/
def taken (form : Form) (before : Settings) (key : Key) : Option Value :=
  if key == .named "decimal_places" then some (.whole form.places)
  else ((form.boxes.get? key).map .flag).or (before.get? key)

/-- What the boxes of a form say, as settings. -/
def marked (form : Form) : List (Key × Value) :=
  form.boxes.entries.map fun (key, checked) => (key, .flag checked)

theorem get?_result (distinct : OrderedMap.Distinct form.boxes.entries)
    (noBox : form.boxes.contains (.named "decimal_places") = false) (key : Key) :
    form.result.get? key = form.taken form.settings key := by
  have distinctMarked : OrderedMap.Distinct form.marked := List.pairwise_map.2 distinct
  have looked : form.marked.lookup key = (form.boxes.get? key).map .flag := OrderedMap.lookup_map Value.flag _ key
  change ((form.settings.put (.named "decimal_places") (.whole form.places)).putAll form.marked).get? key = _
  rw [OrderedMap.get?_putAll distinctMarked, looked, OrderedMap.get?_put, taken]
  split_ifs with same
  · rw [Key.eq_name_of_beq same]
    rw [OrderedMap.contains, Option.isSome_eq_false_iff, Option.isNone_iff_eq_none] at noBox
    change ((form.boxes.get? (.named "decimal_places")).map _).or _ = _
    rw [noBox]
    rfl
  · rfl

/-- Every box that a form has stands for a flag of its settings. -/
theorem Edited.contains_iff (edited : Edited opened form)
    (shows : ∀ key, opened.boxes.get? key = (opened.settings.get? key).bind flag?) (key : Key) :
    form.boxes.contains key = true ↔ ∃ checked, opened.settings.get? key = some (.flag checked) := by
  rw [edited.boxes, OrderedMap.contains, shows, Option.isSome_iff_exists]
  simp only [Option.bind_eq_some_iff, flag?_eq_some]
  exact exists_congr fun checked => by simp

theorem printable_places {n : Int}
    (bounds : (Settings.leastDecimalPlaces : Int) ≤ n ∧ n ≤ (Settings.mostDecimalPlaces : Int)) :
    Json.Printable (Json.depthLimit - 1) (.whole n) := by
  have size : n.natAbs < 10 ^ 3 := by
    unfold Settings.leastDecimalPlaces Settings.mostDecimalPlaces at bounds
    omega
  have short := (Nat.length_toDigits_le_iff (by decide : 1 < 10) (by decide : 0 < 3)).2 size
  exact ⟨.whole n, .whole (short.trans (by decide)), Nat.zero_le _⟩

/-- What an edited form makes of storable settings can be saved. -/
theorem Edited.storable_result (edited : Edited opened form) (storable : Settings.Storable opened.settings)
    (shows : ∀ key, opened.boxes.get? key = (opened.settings.get? key).bind flag?) : Settings.Storable form.result := by
  have boxed (box : Key × Bool) (member : box ∈ form.boxes.entries) : box.1.IsName := by
    have held : form.boxes.contains box.1 = true := by
      rw [OrderedMap.contains, OrderedMap.get?, List.lookup_isSome_iff]
      exact ⟨box, member, BEq.rfl⟩
    obtain ⟨checked, found⟩ := (edited.contains_iff shows box.1).1 held
    obtain ⟨entry, among, same⟩ := List.lookup_isSome_iff.1 (Option.isSome_of_eq_some found)
    obtain ⟨name, named, apart⟩ := storable.names entry among
    rw [named] at same
    exact ⟨name, Key.eq_name_of_beq same, apart⟩
  rw [← edited.settings] at storable
  refine @Settings.Storable.putAll _ storable ((.named "decimal_places", .whole form.places) :: form.marked) ?_ ?_
  · exact List.forall_mem_cons.2 ⟨Key.isName_named _, List.forall_mem_map.2 boxed⟩
  · exact List.forall_mem_cons.2 ⟨printable_places edited.places, List.forall_mem_map.2 fun _ _ => .flag _⟩

/-- What an edited form makes of storable settings is what is loaded after it was saved. -/
theorem Edited.load_result (edited : Edited opened form) (storable : Settings.Storable opened.settings)
    (shows : ∀ key, opened.boxes.get? key = (opened.settings.get? key).bind flag?) (fillable : Fillable opened.settings)
    (complete : ∀ key, Settings.defaults.contains key = true → opened.settings.contains key = true) :
    ∃ after, Settings.load (some form.result.written.toUTF8) = .ok (after, none) ∧
      ∀ key, after.get? key = form.taken opened.settings key := by
  have saves := edited.storable_result storable shows
  have noBox : form.boxes.contains (.named "decimal_places") = false := by
    rw [Bool.eq_false_iff, Ne, edited.contains_iff shows]
    rintro ⟨checked, held⟩
    obtain ⟨_, whole⟩ := fillable _ held
    exact nomatch whole
  refine ⟨_, saves.save.2, fun key => ?_⟩
  have taken := get?_result edited.distinct noBox key
  rw [edited.settings] at taken
  rw [OrderedMap.get?_putAll saves.distinct]
  change (form.result.get? key).or _ = _
  rw [taken]
  cases known : form.taken opened.settings key with
  | some value => rfl
  | none =>
    have unset : opened.settings.get? key = none := by
      unfold Form.taken at known
      split_ifs at known
      exact (Option.or_eq_none_iff.1 known).2
    have missing := mt (complete key)
    rw [OrderedMap.contains, OrderedMap.contains, unset] at missing
    exact Option.not_isSome_iff_eq_none.1 (missing (by decide))

end Form

end Reckoner
