import Mathlib
import Reckoner.Proofs.OrderedMap
import Reckoner.Proofs.Json.RoundTrip
import Reckoner.Settings.File

namespace Reckoner

namespace Json

variable {text behind : List Char}

theorem readNumber_settles (text : List Char) :
    Settles (fun _ => True) (fun found => IsScalar found.1) (readNumber text) := by
  unfold readNumber
  dsimp only
  split <;> split_ifs
  all_goals first | trivial | (split <;> trivial)

theorem isScalar_of_readScalar {value : Value} (reads : readScalar text = .ok (value, behind)) : IsScalar value := by
  have table : ∀ entry ∈ words, IsScalar entry.2 := by
    intro entry member
    fin_cases member <;> trivial
  unfold readScalar at reads
  split at reads
  · rename_i word _ found
    cases reads
    exact table _ (List.mem_of_find?_eq_some found)
  · exact (readNumber_settles text).of_ok reads

/-- A mapping is read from a text that begins with a brace, from the entries in it or from none. -/
theorem readValue_eq_mapping {steps room : Nat} {entries : List (CodePoints × Value)} :
    readValue (steps + 1) (room + 1) text = .ok (.mapping entries, behind) ↔
      ∃ inside, text = '\x7b' :: inside ∧ (skipSpace inside = '\x7d' :: behind ∧ entries = [] ∨
        ∃ raw, readEntries steps room (skipSpace inside) = .ok (raw, behind) ∧
          (OrderedMap.ofList raw).entries = entries) := by
  constructor
  · intro reads
    rw [readValue.eq_def] at reads
    dsimp only at reads
    split at reads
    · obtain ⟨_, _, same⟩ := bind_eq_ok.1 reads
      cases same
    · split at reads
      · cases reads
      · obtain ⟨_, _, same⟩ := bind_eq_ok.1 reads
        cases same
    · rename_i inside
      refine ⟨inside, rfl, ?_⟩
      split at reads
      · rename_i closes
        cases reads
        exact Or.inl ⟨closes, rfl⟩
      · obtain ⟨⟨raw, rest⟩, inner, same⟩ := bind_eq_ok.1 reads
        cases same
        exact Or.inr ⟨raw, inner, rfl⟩
    · exact absurd (isScalar_of_readScalar reads) id
  · rintro ⟨inside, rfl, ⟨closes, rfl⟩ | ⟨raw, inner, rfl⟩⟩
    · rw [readValue, closes]
      rfl
    · refine readValue_mapping (fun others closes => ?_) inner
      rw [closes] at inner
      cases steps with
      | zero => cases inner
      | succ steps => cases inner

/-- The entries of the object that a JSON text is, in their order and with every repetition of a name. -/
inductive HoldsEntries (text : List Char) : List (CodePoints × Value) → Prop
  | none {inside behind : List Char} (opens : skipSpace text = '\x7b' :: inside)
      (closes : skipSpace inside = '\x7d' :: behind) (ends : skipSpace behind = []) : HoldsEntries text []
  | some {inside behind : List Char} {entries : List (CodePoints × Value)} (opens : skipSpace text = '\x7b' :: inside)
      (inner : readEntries (2 * text.length) (depthLimit - 1) (skipSpace inside) = .ok (entries, behind))
      (ends : skipSpace behind = []) : HoldsEntries text entries

theorem read_eq_ok {value : Value} : read text = .ok value ↔ text.head? ≠ some '\uFEFF' ∧
    ∃ behind, readValue (2 * text.length + 1) depthLimit (skipSpace text) = .ok (value, behind) ∧
      skipSpace behind = [] := by
  unfold read
  split_ifs with marked
  · exact ⟨nofun, fun both => absurd marked both.1⟩
  · rw [bind_eq_ok]
    constructor
    · rintro ⟨⟨found, behind⟩, reads, ends⟩
      dsimp only at ends
      split at ends
      · cases ends
        exact ⟨marked, behind, reads, ‹_›⟩
      · exact nomatch ends
    · rintro ⟨_, behind, reads, ends⟩
      refine ⟨_, reads, ?_⟩
      dsimp only
      rw [ends]
      rfl

theorem head?_ne_of_skipSpace {c mark : Char} {inside : List Char} (opens : skipSpace text = c :: inside)
    (other : c ≠ mark) (noSpace : isSpace mark = false) : text.head? ≠ some mark := by
  cases text with
  | nil => exact nofun
  | cons d rest =>
    rintro ⟨⟩
    rw [skipSpace, List.dropWhile_cons_of_neg (by simp [noSpace])] at opens
    exact other (List.head_eq_of_cons_eq opens).symm

/-- A text is read as a mapping exactly if it is an object, and then the last value of a repeated name counts. -/
theorem read_eq_mapping {entries : List (CodePoints × Value)} : read text = .ok (.mapping entries) ↔
    ∃ raw, HoldsEntries text raw ∧ (OrderedMap.ofList raw).entries = entries := by
  rw [read_eq_ok]
  constructor
  · rintro ⟨_, behind, reads, ends⟩
    obtain ⟨inside, opens, ⟨closes, rfl⟩ | ⟨raw, inner, rfl⟩⟩ := readValue_eq_mapping.1 reads
    · exact ⟨[], .none opens closes ends, rfl⟩
    · exact ⟨raw, .some opens inner ends, rfl⟩
  · rintro ⟨raw, holds, rfl⟩
    cases holds with
    | none opens closes ends =>
      exact ⟨head?_ne_of_skipSpace opens (by decide) rfl, _,
        readValue_eq_mapping.2 ⟨_, opens, Or.inl ⟨closes, rfl⟩⟩, ends⟩
    | some opens inner ends =>
      exact ⟨head?_ne_of_skipSpace opens (by decide) rfl, _,
        readValue_eq_mapping.2 ⟨_, opens, Or.inr ⟨_, inner, rfl⟩⟩, ends⟩

/-- A text with two entries is an object with these entries, in this order. -/
theorem HoldsEntries.pair {first second : CodePoints × Value}
    {inside afterName afterFirst others afterOther afterSecond : List Char} (long : 2 ≤ text.length)
    (opens : skipSpace text = '\x7b' :: inside) (named : readName (skipSpace inside) = .ok (first.1, afterName))
    (reads : ∀ steps room, readValue (steps + 1) room afterName = .ok (first.2, afterFirst))
    (goesOn : skipSpace afterFirst = ',' :: others)
    (namedToo : readName (skipSpace others) = .ok (second.1, afterOther))
    (readsToo : ∀ steps room, readValue (steps + 1) room afterOther = .ok (second.2, afterSecond))
    (closes : skipSpace afterSecond = '\x7d' :: behind) (ends : skipSpace behind = []) :
    HoldsEntries text [first, second] := by
  obtain ⟨steps, enough⟩ := Nat.exists_eq_add_of_le long
  refine .some opens ?_ ends
  have length : 2 * text.length = 2 * steps + 1 + 1 + 1 + 1 := by omega
  rw [length]
  exact readEntries_more named (reads _ _) goesOn (readEntries_last namedToo (readsToo _ _) closes)

end Json

namespace Settings

/-- The key and the value of a pair, if a value is one. -/
def pairOf? (pair : Value) : Option (Key × Value) :=
  match parts? pair with
  | some [key, value] => (Key.ofValue? key).map (·, value)
  | _ => none

/-- An entry of a JSON object as an entry of settings. -/
def named : CodePoints × Value → Key × Value := fun (name, value) => (.name name, value)

/-- The keys and values that a value brings to settings, if it can be laid over them. -/
def pairsOf? : Value → Option (List (Key × Value))
  | .mapping entries => some (entries.map named)
  | value => (parts? value).bind (List.mapM pairOf?)

theorem toOption_putPair (settings : Settings) (pair : Value) :
    (settings.putPair pair).toOption = (pairOf? pair).map fun (key, value) => settings.put key value := by
  unfold putPair pairOf?
  rcases parts? pair with _ | _ | ⟨key, _ | ⟨value, _ | ⟨other, rest⟩⟩⟩ <;> try rfl
  dsimp only
  cases Key.ofValue? key <;> rfl

theorem toOption_foldlM_putPair (settings : Settings) (parts : List Value) :
    (parts.foldlM putPair settings).toOption = (parts.mapM pairOf?).map settings.putAll := by
  induction parts generalizing settings with
  | nil => rfl
  | cons pair rest ih =>
    have first := toOption_putPair settings pair
    rw [List.foldlM_cons, List.mapM_cons]
    cases put : settings.putPair pair with
    | error fault =>
      rw [put] at first
      rw [Option.map_eq_none_iff.1 first.symm]
      rfl
    | ok next =>
      rw [put] at first
      obtain ⟨entry, isPair, rfl⟩ := Option.map_eq_some_iff.1 first.symm
      rw [isPair]
      change (rest.foldlM putPair (settings.put entry.1 entry.2)).toOption = _
      rw [ih]
      cases rest.mapM pairOf? <;> rfl

/-- Laying a value over settings puts what the value brings. -/
theorem toOption_overlay (settings : Settings) (value : Value) :
    (settings.overlay value).toOption = (pairsOf? value).map settings.putAll := by
  cases value with
  | list items => exact toOption_foldlM_putPair settings items
  | text text => exact toOption_foldlM_putPair settings _
  | _ => rfl

theorem overlay_of_some {settings : Settings} {value : Value} {pairs : List (Key × Value)}
    (brings : pairsOf? value = some pairs) : settings.overlay value = .ok (settings.putAll pairs) := by
  have laid := toOption_overlay settings value
  rw [brings] at laid
  cases result : settings.overlay value with
  | ok loaded =>
    rw [result] at laid
    exact congrArg _ (Option.some.inj laid)
  | error fault =>
    rw [result] at laid
    exact nomatch laid

theorem overlay_of_none {settings : Settings} {value : Value} (brings : pairsOf? value = none) :
    ∃ fault, settings.overlay value = .error fault := by
  have laid := toOption_overlay settings value
  rw [brings] at laid
  cases result : settings.overlay value with
  | ok loaded =>
    rw [result] at laid
    exact nomatch laid
  | error fault => exact ⟨fault, rfl⟩

theorem map_named_putEntry (name : CodePoints) (value : Value) (entries : List (CodePoints × Value)) :
    (OrderedMap.putEntry name value entries).map named =
      OrderedMap.putEntry (.name name) value (entries.map named) := by
  induction entries with
  | nil => rfl
  | cons entry rest ih =>
    have keys : (Key.name name == (named entry).1) = (name == entry.1) := by
      rw [Bool.eq_iff_iff, Key.beq_iff, beq_iff_eq]
      exact ⟨Key.Identity.text.inj, congrArg _⟩
    rw [List.map_cons, OrderedMap.putEntry, OrderedMap.putEntry, keys]
    split
    · rfl
    · rw [List.map_cons, ih]

theorem map_named_ofList (raw : List (CodePoints × Value)) :
    (OrderedMap.ofList raw).entries.map named = (OrderedMap.ofList (raw.map named)).entries := by
  have run (m : OrderedMap CodePoints Value) :
      (m.putAll raw).entries.map named = (OrderedMap.putAll ⟨m.entries.map named⟩ (raw.map named)).entries := by
    induction raw generalizing m with
    | nil => rfl
    | cons entry rest ih =>
      refine (ih (m.put entry.1 entry.2)).trans ?_
      rw [OrderedMap.put, map_named_putEntry]
      rfl
  exact run .empty

/-- The settings file is an object with these entries, repetitions of a name included. -/
inductive HoldsObject : FileContent → List (CodePoints × Value) → Prop
  | of_text {bytes : ByteArray} {text : List Char} {entries : List (CodePoints × Value)}
      (decoded : FileContent.decode bytes = .ok text) (object : Json.HoldsEntries text entries) :
      HoldsObject (some bytes) entries

/-- The settings file is a list or a text that brings these pairs. -/
inductive HoldsRow : FileContent → List (Key × Value) → Prop
  | of_text {bytes : ByteArray} {text : List Char} {value : Value} {pairs : List (Key × Value)}
      (decoded : FileContent.decode bytes = .ok text) (reads : Json.read text = .ok value)
      (noObject : ∀ entries, value ≠ .mapping entries) (row : pairsOf? value = some pairs) : HoldsRow (some bytes) pairs

/-- There is no settings file, or its text is no JSON. -/
inductive Lacks : FileContent → Unread → Prop
  | missing : Lacks none .missing
  | malformed {bytes : ByteArray} {text : List Char} {flaw : Json.Flaw} (decoded : FileContent.decode bytes = .ok text)
      (flawed : Json.read text = .error flaw) (ordinary : flaw.problem ≠ .tooManyDigits ∧ flaw.problem ≠ .tooDeep) :
      Lacks (some bytes) (.malformed text flaw)

/-- The settings file stops the program: it is no text, goes beyond a limit, or is JSON that is neither an object nor a
row of pairs. -/
inductive Stops : FileContent → Prop
  | noText {bytes : ByteArray} (invalid : String.fromUTF8? bytes = none) : Stops (some bytes)
  | beyond {bytes : ByteArray} {text : List Char} {flaw : Json.Flaw} (decoded : FileContent.decode bytes = .ok text)
      (flawed : Json.read text = .error flaw) (limit : flaw.problem = .tooManyDigits ∨ flaw.problem = .tooDeep) :
      Stops (some bytes)
  | noPairs {bytes : ByteArray} {text : List Char} {value : Value} (decoded : FileContent.decode bytes = .ok text)
      (reads : Json.read text = .ok value) (none : pairsOf? value = none) : Stops (some bytes)

theorem holds_or_stops (content : FileContent) :
    Stops content ∨ (∃ unread, Lacks content unread) ∨ (∃ entries, HoldsObject content entries) ∨
      ∃ pairs, HoldsRow content pairs := by
  cases content with
  | none => exact Or.inr (Or.inl ⟨_, .missing⟩)
  | some bytes =>
    cases valid : String.fromUTF8? bytes with
    | none => exact Or.inl (.noText valid)
    | some decodedText =>
      have decoded : FileContent.decode bytes = .ok (FileContent.plainLines decodedText.toList) := by
        rw [FileContent.decode, valid]
      cases reads : Json.read (FileContent.plainLines decodedText.toList) with
      | error flaw =>
        by_cases limit : flaw.problem = .tooManyDigits ∨ flaw.problem = .tooDeep
        · exact Or.inl (.beyond decoded reads limit)
        · exact Or.inr (Or.inl ⟨_, .malformed decoded reads (not_or.1 limit)⟩)
      | ok value =>
        by_cases object : ∃ entries, value = .mapping entries
        · obtain ⟨entries, rfl⟩ := object
          obtain ⟨raw, holds, _⟩ := Json.read_eq_mapping.1 reads
          exact Or.inr (Or.inr (Or.inl ⟨raw, .of_text decoded holds⟩))
        · cases brings : pairsOf? value with
          | none => exact Or.inl (.noPairs decoded reads brings)
          | some pairs =>
            have noObject (entries : _) (same : value = .mapping entries) := object ⟨entries, same⟩
            exact Or.inr (Or.inr (Or.inr ⟨pairs, .of_text decoded reads noObject brings⟩))

section Load

variable {content : FileContent} {bytes : ByteArray} {text : List Char}

theorem load_of_value {value : Value} (decoded : FileContent.decode bytes = .ok text)
    (reads : Json.read text = .ok value) : load (some bytes) = (defaults.overlay value).map (·, none) := by
  have held : FileContent.readJson (some bytes) = .ok (.ok value) := by
    refine bind_eq_ok.2 ⟨text, decoded, ?_⟩
    rw [reads]
    rfl
  rw [load, held]
  change (defaults.overlay value >>= fun loaded => Except.ok (loaded, none)) = _
  cases defaults.overlay value <;> rfl

theorem Lacks.load_eq {unread : Unread} (lacks : Lacks content unread) :
    load content = .ok (defaults, some unread) := by
  cases lacks with
  | missing => rfl
  | @malformed bytes text flaw decoded flawed ordinary =>
    have held : FileContent.readJson (some bytes) = .ok (.error (.malformed text flaw)) := by
      refine bind_eq_ok.2 ⟨text, decoded, ?_⟩
      rw [flawed]
      dsimp only
      rw [if_neg ordinary.1, if_neg ordinary.2]
      rfl
    rw [load, held]
    rfl

theorem Stops.load_eq (stops : Stops content) : ∃ fault, load content = .error fault := by
  cases stops with
  | noText invalid =>
    rw [load, FileContent.readJson, FileContent.decode, invalid]
    exact ⟨_, rfl⟩
  | @beyond bytes text flaw decoded flawed limit =>
    have stops : ∃ fault, FileContent.readJson (some bytes) = .error fault := by
      unfold FileContent.readJson
      dsimp only
      rw [decoded]
      simp only [bind, Except.bind, flawed]
      split_ifs with digits depth
      · exact ⟨_, rfl⟩
      · exact ⟨_, rfl⟩
      · exact absurd limit (not_or.2 ⟨digits, depth⟩)
    obtain ⟨fault, stops⟩ := stops
    rw [load, stops]
    exact ⟨fault, rfl⟩
  | noPairs decoded reads none =>
    obtain ⟨fault, stops⟩ := @overlay_of_none defaults _ none
    rw [load_of_value decoded reads, stops]
    exact ⟨fault, rfl⟩

theorem HoldsRow.load_eq {pairs : List (Key × Value)} (holds : HoldsRow content pairs) :
    load content = .ok (defaults.putAll pairs, none) := by
  cases holds with
  | of_text decoded reads _ row =>
    rw [load_of_value decoded reads, overlay_of_some row]
    rfl

theorem HoldsObject.load_eq {entries : List (CodePoints × Value)} (holds : HoldsObject content entries) :
    load content = .ok (defaults.putAll (OrderedMap.ofList (entries.map named)).entries, none) := by
  cases holds with
  | of_text decoded object =>
    have reads := Json.read_eq_mapping.2 ⟨_, object, rfl⟩
    have brings : pairsOf? (.mapping (OrderedMap.ofList entries).entries) = some _ := rfl
    rw [load_of_value decoded reads, overlay_of_some brings, ← map_named_ofList]
    rfl

theorem contains_putAll {settings : Settings} (pairs : List (Key × Value)) {key : Key}
    (known : settings.contains key = true) : OrderedMap.contains (settings.putAll pairs) key = true := by
  rw [OrderedMap.contains] at known ⊢
  rw [OrderedMap.get?_putAll_last]
  cases pairs.reverse.lookup key with
  | none => exact known
  | some value => rfl

end Load

/-- What every settings file is loaded as. An object gives every name the last value that it has for it, over the
defaults; a row of pairs is put over the defaults; without a file, or with a text that is no JSON, the settings are the
defaults. Every other file is a fault: it is no text, goes beyond a limit, or is JSON that is no row of pairs. What is
loaded always has all default keys. -/
theorem load_content (content : FileContent) :
    (Stops content ∨ (∃ unread, Lacks content unread) ∨ (∃ entries, HoldsObject content entries) ∨
      ∃ pairs, HoldsRow content pairs) ∧
    ((∃ fault, load content = .error fault) ↔ Stops content) ∧
    (∀ unread, Lacks content unread → load content = .ok (defaults, some unread)) ∧
    (∀ entries, HoldsObject content entries → ∃ loaded, load content = .ok (loaded, none) ∧
      ∀ key, loaded.get? key = ((entries.map named).reverse.lookup key).or (defaults.get? key)) ∧
    (∀ pairs, HoldsRow content pairs → load content = .ok (defaults.putAll pairs, none)) ∧
    ∀ loaded unread, load content = .ok (loaded, unread) →
      loaded.lookup "all" = .all loaded ∧ ∀ key, defaults.contains key = true → loaded.contains key = true := by
  have cases := holds_or_stops content
  refine ⟨cases, ⟨?_, Stops.load_eq⟩, fun _ => Lacks.load_eq, fun entries holds => ⟨_, holds.load_eq, fun key => ?_⟩,
    fun _ => HoldsRow.load_eq, fun loaded unread result => ⟨rfl, fun key known => ?_⟩⟩
  · rintro ⟨fault, stopped⟩
    rcases cases with stops | ⟨unread, lacks⟩ | ⟨entries, holds⟩ | ⟨pairs, holds⟩
    · exact stops
    · exact nomatch stopped.symm.trans lacks.load_eq
    · exact nomatch stopped.symm.trans holds.load_eq
    · exact nomatch stopped.symm.trans holds.load_eq
  · exact OrderedMap.get?_putAll_ofList defaults (entries.map named) key
  · rcases cases with stops | ⟨unread, lacks⟩ | ⟨entries, holds⟩ | ⟨pairs, holds⟩
    · obtain ⟨fault, stopped⟩ := stops.load_eq
      exact nomatch result.symm.trans stopped
    · cases result.symm.trans lacks.load_eq
      exact known
    · cases result.symm.trans holds.load_eq
      exact contains_putAll _ known
    · cases result.symm.trans holds.load_eq
      exact contains_putAll _ known

/-- An object that has a name twice. -/
theorem load_repeated_name :
    HoldsObject (some "\x7b\"degrees\":5,\"degrees\":true\x7d".toUTF8)
      [(.ofString "degrees", .whole 5), (.ofString "degrees", .flag true)] ∧
    ∃ loaded, load (some "\x7b\"degrees\":5,\"degrees\":true\x7d".toUTF8) = .ok (loaded, none) ∧
      loaded.get? (.named "degrees") = some (.flag true) ∧ loaded.get? (.named "debug") = some (.flag false) := by
  have object : HoldsObject (some "\x7b\"degrees\":5,\"degrees\":true\x7d".toUTF8)
      [(.ofString "degrees", .whole 5), (.ofString "degrees", .flag true)] := by
    have decoded : FileContent.decode "\x7b\"degrees\":5,\"degrees\":true\x7d".toUTF8 =
      .ok "\x7b\"degrees\":5,\"degrees\":true\x7d".toList := by decide +kernel
    have named : Json.readName "\"degrees\":5,\"degrees\":true\x7d".toList =
      .ok (.ofString "degrees", "5,\"degrees\":true\x7d".toList) := by decide +kernel
    have namedToo : Json.readName "\"degrees\":true\x7d".toList = .ok (.ofString "degrees", "true\x7d".toList) := by
      decide +kernel
    have five (steps room : Nat) : Json.readValue (steps + 1) room "5,\"degrees\":true\x7d".toList =
        .ok (.whole 5, ",\"degrees\":true\x7d".toList) := by
      rw [Json.readValue.eq_def]
      rfl
    have yes (steps room : Nat) : Json.readValue (steps + 1) room "true\x7d".toList =
        .ok (.flag true, "\x7d".toList) := by
      rw [Json.readValue.eq_def]
      rfl
    exact .of_text decoded (.pair (by decide) rfl named five rfl namedToo yes rfl rfl)
  obtain ⟨_, _, _, laid, _⟩ := load_content (some "\x7b\"degrees\":5,\"degrees\":true\x7d".toUTF8)
  obtain ⟨loaded, result, gives⟩ := laid _ object
  exact ⟨object, loaded, result, gives _, gives _⟩

/-- A number stops the loading, and so do bytes that are no text; a list of pairs is no object, but does not leave the
defaults. -/
theorem load_without_object :
    (∃ fault, load (some "5".toUTF8) = .error fault) ∧ (∃ fault, load (some ⟨#[0xFF]⟩) = .error fault) ∧
      ∃ loaded, load (some "[[\"degrees\",true]]".toUTF8) = .ok (loaded, none) ∧
        defaults.get? (.named "degrees") = some (.flag false) ∧ loaded.get? (.named "degrees") = some (.flag true) := by
  have number : FileContent.decode "5".toUTF8 = .ok ['5'] := by decide +kernel
  have invalid : String.fromUTF8? ⟨#[0xFF]⟩ = none := by decide +kernel
  have row : FileContent.decode "[[\"degrees\",true]]".toUTF8 = .ok ('[' :: '[' :: "\"degrees\",true]]".toList) := by
    decide +kernel
  have readsNumber : Json.read ['5'] = .ok (.whole 5) := by
    refine Json.read_eq_ok.2 ⟨by decide, [], ?_, rfl⟩
    rw [Json.readValue.eq_def]
    rfl
  have inner (steps room : Nat) : Json.readValue (steps + 6) (room + 2) ('[' :: '[' :: "\"degrees\",true]]".toList) =
      .ok (.list [.list [.ofString "degrees", .flag true]], []) := by
    have name : Json.readValue (steps + 2) room "\"degrees\",true]]".toList =
        .ok (.ofString "degrees", ",true]]".toList) := by
      rw [Json.readValue.eq_def]
      rfl
    have yes : Json.readValue (steps + 1) room "true]]".toList = .ok (.flag true, "]]".toList) := by
      rw [Json.readValue.eq_def]
      rfl
    have pair : Json.readValue (steps + 4) (room + 1) ('[' :: "\"degrees\",true]]".toList) =
        .ok (.list [.ofString "degrees", .flag true], "]".toList) :=
      Json.readValue_list (fun _ closes => absurd (List.cons.inj closes).1 (by decide))
        (Json.readItems_more name rfl (Json.readItems_last yes rfl))
    exact Json.readValue_list (fun _ closes => absurd (List.cons.inj closes).1 (by decide))
      (Json.readItems_last pair rfl)
  have readsRow : Json.read ('[' :: '[' :: "\"degrees\",true]]".toList) =
      .ok (.list [.list [.ofString "degrees", .flag true]]) := by
    have length : 2 * ('[' :: '[' :: "\"degrees\",true]]".toList).length + 1 = 31 + 6 := by decide
    refine Json.read_eq_ok.2 ⟨by decide, [], ?_, rfl⟩
    rw [length]
    exact inner 31 987
  have holds : HoldsRow (some "[[\"degrees\",true]]".toUTF8) [(.named "degrees", .flag true)] :=
    .of_text row readsRow (fun _ same => by cases same) rfl
  exact ⟨(Stops.noPairs number readsNumber rfl).load_eq, (Stops.noText invalid).load_eq, _, holds.load_eq, rfl, rfl⟩

end Settings

end Reckoner
