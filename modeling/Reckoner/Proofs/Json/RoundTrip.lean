import Mathlib
import Reckoner.Proofs.Json.Limits
import Reckoner.Proofs.Json.Number
import Reckoner.Proofs.Json.Text
import Reckoner.Proofs.OrderedMap
import Reckoner.Proofs.Settling

namespace Reckoner.Json

/-- The values that can be told from their printed text. -/
inductive Readable : Value → Prop
  | null : Readable .null
  | flag (value : Bool) : Readable (.flag value)
  | whole (value : Int) : Readable (.whole value)
  | real (value : Float) : Readable (.real value)
  | text {value : CodePoints} (apart : value.Apart) : Readable (.text value)
  | list {items : List Value} (each : ∀ item ∈ items, Readable item) : Readable (.list items)
  | mapping {entries : List (CodePoints × Value)} (distinct : OrderedMap.Distinct entries)
      (names : ∀ entry ∈ entries, entry.1.Apart) (values : ∀ entry ∈ entries, Readable entry.2) :
      Readable (.mapping entries)

/-- What a value starts with is no space, does not end a list or mapping, and is no byte order mark. -/
def Starts (text : List Char) : Prop :=
  ∃ c rest, text = c :: rest ∧ isSpace c = false ∧ c ≠ ']' ∧ c ≠ '\x7d' ∧ c ≠ '\uFEFF'

/-- The values that hold no other values and are no texts. -/
def IsScalar : Value → Prop
  | .null | .flag _ | .whole _ | .real _ => True
  | .text _ | .list _ | .mapping _ => False

/-- The characters that words and numbers start with. -/
def scalarMarks : List Char := ['n', 't', 'f', 'N', 'I', '-', '0', '1', '2', '3', '4', '5', '6', '7', '8', '9']

theorem mem_scalarMarks_of_isDigit {c : Char} (digit : c.isDigit = true) : c ∈ scalarMarks := by
  have table : ∀ n < 10, Char.ofNat (n + 48) ∈ scalarMarks := by decide
  obtain ⟨n, small, rfl⟩ := Double.exists_ofNat_of_isDigit digit
  exact table n small

theorem exists_signed_eq_cons (negative : Bool) {text : List Char}
    (begins : ∃ lead rest, text = lead :: rest ∧ lead.isDigit = true) :
    ∃ c ∈ scalarMarks, ∃ rest, (if negative then ['-'] else []) ++ text = c :: rest := by
  obtain ⟨lead, rest, rfl, digit⟩ := begins
  cases negative with
  | true => exact ⟨'-', by decide, _, rfl⟩
  | false => exact ⟨lead, mem_scalarMarks_of_isDigit digit, rest, rfl⟩

theorem exists_scalar_eq_cons {value : Value} (scalar : IsScalar value) (level : Nat) :
    ∃ c ∈ scalarMarks, ∃ rest, print level value = c :: rest := by
  cases value with
  | null => exact ⟨'n', by decide, _, rfl⟩
  | flag value =>
    cases value with
    | true => exact ⟨'t', by decide, _, rfl⟩
    | false => exact ⟨'f', by decide, _, rfl⟩
  | whole value =>
    rw [print, toList_toString]
    exact exists_signed_eq_cons _ (Double.exists_toDigits_eq_cons value.natAbs)
  | real value =>
    rw [print]
    cases finite : value.isFinite with
    | true =>
      rw [printReal, Double.not_isNaN_of_isFinite finite, finite, if_neg Bool.false_ne_true, if_pos rfl,
        Double.chars_of_isFinite finite]
      exact exists_signed_eq_cons _ (Double.exists_unsignedText_eq_cons _ _)
    | false =>
      rcases Double.eq_of_not_isFinite finite with rfl | rfl | rfl
      · exact ⟨'N', by decide, "aN".toList, by decide +kernel⟩
      · exact ⟨'I', by decide, "nfinity".toList, by decide +kernel⟩
      · exact ⟨'-', by decide, "Infinity".toList, by decide +kernel⟩
  | text | list | mapping => exact scalar.elim

theorem Starts.append {text : List Char} (starts : Starts text) (rest : List Char) : Starts (text ++ rest) := by
  obtain ⟨c, others, rfl, marks⟩ := starts
  exact ⟨c, others ++ rest, rfl, marks⟩

theorem Starts.ne_bracket {text : List Char} (starts : Starts text) (others : List Char) : text ≠ ']' :: others := by
  obtain ⟨c, rest, rfl, _, noBracket, _⟩ := starts
  exact fun closes => noBracket (List.cons.inj closes).1

theorem Starts.ne_brace {text : List Char} (starts : Starts text) (others : List Char) : text ≠ '\x7d' :: others := by
  obtain ⟨c, rest, rfl, _, _, noBrace, _⟩ := starts
  exact fun closes => noBrace (List.cons.inj closes).1

theorem starts_print (level : Nat) (value : Value) : Starts (print level value) := by
  have scalarStarts (scalar : IsScalar value) : Starts (print level value) := by
    have table : (scalarMarks.all fun c => isSpace c = false ∧ c ≠ ']' ∧ c ≠ '\x7d' ∧ c ≠ '\uFEFF') = true := by decide
    obtain ⟨c, mark, rest, begins⟩ := exists_scalar_eq_cons scalar level
    exact ⟨c, rest, begins, of_decide_eq_true (List.all_eq_true.1 table c mark)⟩
  cases value with
  | null | flag | whole | real => exact scalarStarts trivial
  | text text => exact ⟨'"', _, rfl, by decide⟩
  | list items => cases items <;> exact ⟨'[', _, rfl, by decide⟩
  | mapping entries =>
    rcases entries with _ | ⟨⟨name, value⟩, rest⟩ <;> exact ⟨'\x7b', _, rfl, by decide⟩

theorem skipSpace_of_starts {text : List Char} (starts : Starts text) : skipSpace text = text := by
  obtain ⟨c, rest, rfl, shown, _⟩ := starts
  exact List.dropWhile_cons_of_neg (Bool.eq_false_iff.1 shown)

/-- The indentation before a line is skipped. -/
theorem skipSpace_newline (level : Nat) (rest : List Char) : skipSpace (newline level ++ rest) = skipSpace rest := by
  have blank : ∀ c ∈ newline level, isSpace c = true := by
    intro c member
    rcases List.mem_cons.1 member with rfl | filler
    · rfl
    · rw [(List.mem_replicate.1 filler).2]
      rfl
  exact List.dropWhile_append_of_pos blank

theorem stops_newline (level : Nat) (rest : List Char) : Stops (newline level ++ rest) := by
  rintro c ⟨⟩
  exact Or.inr rfl

/-- A printed name and the colon behind it are read up to the value. -/
theorem readName_printText {name : CodePoints} (apart : name.Apart) {rest : List Char} (starts : Starts rest) :
    readName (printText name ++ ':' :: ' ' :: rest) = .ok (name, rest) := by
  have blank : skipSpace (' ' :: rest) = rest := skipSpace_of_starts starts
  rw [printText, List.cons_append, List.append_assoc, readName, List.singleton_append,
    readText_flatMap_escapePoint apart]
  change Except.ok (name, skipSpace (' ' :: rest)) = _
  rw [blank]

variable {level room steps : Nat} {rest : List Char}

theorem readScalar_print {value : Value} (scalar : IsScalar value) (brief : value.Brief)
    (stops : Stops rest) : readScalar (print level value ++ rest) = .ok (value, rest) := by
  cases value with
  | null => exact readScalar_word (List.mem_of_getElem? (rfl : words[0]? = _)) rest
  | flag value =>
    cases value with
    | true => exact readScalar_word (List.mem_of_getElem? (rfl : words[1]? = _)) rest
    | false => exact readScalar_word (List.mem_of_getElem? (rfl : words[2]? = _)) rest
  | whole value =>
    cases brief with
    | whole few =>
      obtain ⟨left, reads⟩ := readScalar_whole value stops
      rwa [if_neg (Nat.not_lt.2 few)] at reads
  | real value => exact readScalar_printReal value stops
  | text | list | mapping => exact scalar.elim

/-- What is printed for a scalar is neither a text nor a list nor a mapping. -/
theorem readValue_eq_readScalar {value : Value} (scalar : IsScalar value) :
    readValue (steps + 1) room (print level value ++ rest) = readScalar (print level value ++ rest) := by
  have table : (scalarMarks.all fun c => c ≠ '"' ∧ c ≠ '[' ∧ c ≠ '\x7b') = true := by decide
  obtain ⟨c, mark, others, begins⟩ := exists_scalar_eq_cons scalar level
  obtain ⟨noQuote, noBracket, noBrace⟩ := of_decide_eq_true (List.all_eq_true.1 table c mark)
  rw [begins, List.cons_append, readValue.eq_def]
  split <;> grind

theorem readValue_scalar {value : Value} (scalar : IsScalar value) (brief : value.Brief)
    (stops : Stops rest) : readValue (steps + 1) room (print level value ++ rest) = .ok (value, rest) :=
  (readValue_eq_readScalar scalar).trans (readScalar_print scalar brief stops)

theorem readValue_text {text : CodePoints} (apart : text.Apart) :
    readValue (steps + 1) room (printText text ++ rest) = .ok (.text text, rest) := by
  rw [printText, List.cons_append, List.append_assoc, readValue, List.singleton_append,
    readText_flatMap_escapePoint apart]
  rfl

section Steps

variable {text tail more : List Char}

theorem readItems_last {item : Value} (first : readValue steps room text = .ok (item, tail))
    (ends : skipSpace tail = ']' :: rest) : readItems (steps + 1) room text = .ok ([item], rest) := by
  rw [readItems, bind_eq_ok]
  refine ⟨_, first, ?_⟩
  dsimp only
  rw [ends]
  rfl

theorem readItems_more {item : Value} {items : List Value} (first : readValue steps room text = .ok (item, tail))
    (comma : skipSpace tail = ',' :: more) (later : readItems steps room (skipSpace more) = .ok (items, rest)) :
    readItems (steps + 1) room text = .ok (item :: items, rest) := by
  rw [readItems, bind_eq_ok]
  refine ⟨_, first, ?_⟩
  dsimp only
  rw [comma]
  exact bind_eq_ok.2 ⟨_, later, rfl⟩

theorem readEntries_last {name : CodePoints} {value : Value} (named : readName text = .ok (name, more))
    (first : readValue steps room more = .ok (value, tail)) (ends : skipSpace tail = '\x7d' :: rest) :
    readEntries (steps + 1) room text = .ok ([(name, value)], rest) := by
  rw [readEntries, bind_eq_ok]
  refine ⟨_, named, bind_eq_ok.2 ⟨_, first, ?_⟩⟩
  dsimp only
  rw [ends]
  rfl

theorem readEntries_more {name : CodePoints} {value : Value} {entries : List (CodePoints × Value)} {others : List Char}
    (named : readName text = .ok (name, more)) (first : readValue steps room more = .ok (value, tail))
    (comma : skipSpace tail = ',' :: others) (later : readEntries steps room (skipSpace others) = .ok (entries, rest)) :
    readEntries (steps + 1) room text = .ok ((name, value) :: entries, rest) := by
  rw [readEntries, bind_eq_ok]
  refine ⟨_, named, bind_eq_ok.2 ⟨_, first, ?_⟩⟩
  dsimp only
  rw [comma]
  exact bind_eq_ok.2 ⟨_, later, rfl⟩

theorem readValue_list {items : List Value} (begins : ∀ others, skipSpace text ≠ ']' :: others)
    (inner : readItems steps room (skipSpace text) = .ok (items, rest)) :
    readValue (steps + 1) (room + 1) ('[' :: text) = .ok (.list items, rest) := by
  rw [readValue]
  split
  · rename_i others closes
    exact absurd closes (begins others)
  · rw [inner]
    rfl

theorem readValue_mapping {entries : List (CodePoints × Value)} (begins : ∀ others, skipSpace text ≠ '\x7d' :: others)
    (inner : readEntries steps room (skipSpace text) = .ok (entries, rest)) :
    readValue (steps + 1) (room + 1) ('\x7b' :: text) = .ok (.mapping (OrderedMap.ofList entries).entries, rest) := by
  rw [readValue]
  split
  · rename_i others closes
    exact absurd closes (begins others)
  · rw [inner]
    rfl

end Steps

/-- The items of a list as they are printed, with the bracket behind them and what follows it. -/
def itemsText (level outer : Nat) (item : Value) (items : List Value) (rest : List Char) : List Char :=
  print level item ++ (printItems level items ++ (newline outer ++ ']' :: rest))

/-- The entries of a mapping as they are printed, with the brace behind them and what follows it. -/
def entriesText (level outer : Nat) (name : CodePoints) (value : Value) (entries : List (CodePoints × Value))
    (rest : List Char) : List Char :=
  printText name ++ ':' :: ' ' ::
    (print level value ++ (printEntries level entries ++ (newline outer ++ '\x7d' :: rest)))

section Texts

variable {item next value inner : Value} {items : List Value} {name other : CodePoints}
  {entries : List (CodePoints × Value)} {outer : Nat}

theorem print_list_append : print level (.list (item :: items)) ++ rest =
    '[' :: (newline (level + 1) ++ itemsText (level + 1) level item items rest) := by
  simp only [print, itemsText, List.cons_append, List.append_assoc, List.nil_append]

theorem print_mapping_append : print level (.mapping ((name, value) :: entries)) ++ rest =
    '\x7b' :: (newline (level + 1) ++ entriesText (level + 1) level name value entries rest) := by
  simp only [print, entriesText, List.cons_append, List.append_assoc, List.nil_append]

theorem itemsText_nil : itemsText level outer item [] rest = print level item ++ (newline outer ++ ']' :: rest) := rfl

theorem itemsText_cons : itemsText level outer item (next :: items) rest =
    print level item ++ ',' :: (newline level ++ itemsText level outer next items rest) := by
  simp only [itemsText, printItems, List.cons_append, List.append_assoc]

theorem entriesText_nil : entriesText level outer name value [] rest =
    printText name ++ ':' :: ' ' :: (print level value ++ (newline outer ++ '\x7d' :: rest)) := rfl

theorem entriesText_cons : entriesText level outer name value ((other, inner) :: entries) rest =
    printText name ++ ':' :: ' ' :: (print level value ++
      ',' :: (newline level ++ entriesText level outer other inner entries rest)) := by
  simp only [entriesText, printEntries, List.cons_append, List.append_assoc]

theorem starts_itemsText : Starts (itemsText level outer item items rest) := (starts_print level item).append _

theorem starts_entriesText : Starts (entriesText level outer name value entries rest) := ⟨'"', _, rfl, by decide⟩

/-- A printed line is read from its first character on. -/
theorem skipSpace_line {text : List Char} (starts : Starts text) : skipSpace (newline level ++ text) = text := by
  rw [skipSpace_newline, skipSpace_of_starts starts]

theorem stops_comma : Stops (',' :: rest) := by
  rintro c ⟨⟩
  exact Or.inl rfl

end Texts

/-- That a value is read back wherever it stands, with enough steps. -/
def ReadBack (level room : Nat) (value : Value) : Prop :=
  ∀ {steps : Nat} {rest : List Char}, Stops rest → 2 * (print level value ++ rest).length < steps →
    readValue steps room (print level value ++ rest) = .ok (value, rest)

/-- Items that are read back are read up to the bracket behind them. -/
theorem readItems_print {item : Value} {items : List Value} {outer : Nat}
    (each : ∀ value ∈ item :: items, ReadBack level room value)
    (enough : 2 * (itemsText level outer item items rest).length + 1 < steps) :
    readItems steps room (itemsText level outer item items rest) = .ok (item :: items, rest) := by
  obtain ⟨steps, rfl⟩ := Nat.exists_eq_add_one_of_ne_zero (by omega : steps ≠ 0)
  induction items generalizing item steps with
  | nil =>
    rw [itemsText_nil] at enough ⊢
    exact readItems_last (each item List.mem_cons_self (stops_newline outer _) (by omega))
      (skipSpace_newline outer (']' :: rest))
  | cons next items ih =>
    rw [itemsText_cons] at enough ⊢
    refine readItems_more (each item List.mem_cons_self stops_comma (by omega)) rfl ?_
    rw [skipSpace_line starts_itemsText]
    simp only [List.length_append, List.length_cons] at enough
    obtain ⟨steps, rfl⟩ := Nat.exists_eq_add_one_of_ne_zero (by omega : steps ≠ 0)
    exact ih (fun value member => each value (List.mem_cons_of_mem item member)) steps (by omega)

/-- Entries that are read back are read up to the brace behind them. -/
theorem readEntries_print {name : CodePoints} {value : Value} {entries : List (CodePoints × Value)} {outer : Nat}
    (names : ∀ entry ∈ (name, value) :: entries, entry.1.Apart)
    (each : ∀ entry ∈ (name, value) :: entries, ReadBack level room entry.2)
    (enough : 2 * (entriesText level outer name value entries rest).length + 1 < steps) :
    readEntries steps room (entriesText level outer name value entries rest) =
      .ok ((name, value) :: entries, rest) := by
  obtain ⟨steps, rfl⟩ := Nat.exists_eq_add_one_of_ne_zero (by omega : steps ≠ 0)
  have named {behind : List Char} := readName_printText (names _ List.mem_cons_self)
    ((starts_print level value).append behind)
  induction entries generalizing name value steps with
  | nil =>
    rw [entriesText_nil] at enough ⊢
    simp only [List.length_append, List.length_cons] at enough
    exact readEntries_last named (each _ List.mem_cons_self (stops_newline outer _) (by
      simp only [List.length_append, List.length_cons]
      omega)) (skipSpace_newline outer ('\x7d' :: rest))
  | cons next entries ih =>
    obtain ⟨other, inner⟩ := next
    rw [entriesText_cons] at enough ⊢
    simp only [List.length_append, List.length_cons] at enough
    refine readEntries_more named (each _ List.mem_cons_self stops_comma (by
      simp only [List.length_append, List.length_cons]
      omega)) rfl ?_
    rw [skipSpace_line starts_entriesText]
    obtain ⟨steps, rfl⟩ := Nat.exists_eq_add_one_of_ne_zero (by omega : steps ≠ 0)
    have later := fun entry member => names entry (List.mem_cons_of_mem (name, value) member)
    exact ih later (fun entry member => each entry (List.mem_cons_of_mem (name, value) member)) steps (by omega)
      (readName_printText (later _ List.mem_cons_self) ((starts_print level inner).append _))

theorem readBack_list {items : List Value} (each : ∀ item ∈ items, ReadBack (level + 1) room item) :
    ReadBack level (room + 1) (.list items) := by
  intro steps rest _ enough
  obtain ⟨steps, rfl⟩ := Nat.exists_eq_add_one_of_ne_zero (by omega : steps ≠ 0)
  cases items with
  | nil =>
    change readValue (steps + 1) (room + 1) ('[' :: ']' :: rest) = _
    rw [readValue]
    rfl
  | cons item items =>
    rw [print_list_append] at enough ⊢
    refine readValue_list (fun others => ?_) ?_
    · rw [skipSpace_line starts_itemsText]
      exact starts_itemsText.ne_bracket others
    · rw [skipSpace_line starts_itemsText]
      refine readItems_print each ?_
      simp only [List.length_append, List.length_cons] at enough
      omega

theorem readBack_mapping {entries : List (CodePoints × Value)} (distinct : OrderedMap.Distinct entries)
    (names : ∀ entry ∈ entries, entry.1.Apart) (each : ∀ entry ∈ entries, ReadBack (level + 1) room entry.2) :
    ReadBack level (room + 1) (.mapping entries) := by
  intro steps rest _ enough
  obtain ⟨steps, rfl⟩ := Nat.exists_eq_add_one_of_ne_zero (by omega : steps ≠ 0)
  rcases entries with _ | ⟨⟨name, value⟩, entries⟩
  · change readValue (steps + 1) (room + 1) ('\x7b' :: '\x7d' :: rest) = _
    rw [readValue]
    rfl
  · rw [print_mapping_append] at enough ⊢
    have inner : readEntries steps room (skipSpace (newline (level + 1) ++
        entriesText (level + 1) level name value entries rest)) = .ok ((name, value) :: entries, rest) := by
      rw [skipSpace_line starts_entriesText]
      refine readEntries_print names each ?_
      simp only [List.length_append, List.length_cons] at enough
      omega
    have reads := readValue_mapping (fun others => ?_) inner
    · rw [OrderedMap.entries_ofList distinct] at reads
      exact reads
    · rw [skipSpace_line starts_entriesText]
      exact starts_entriesText.ne_brace others

/-- A value within the limits that can be told from its printed text is read back. -/
theorem Readable.readBack {value : Value} (readable : Readable value) {level room : Nat} (brief : value.Brief)
    (within : value.depth ≤ room) : ReadBack level room value := by
  induction readable generalizing level room with
  | null | flag | whole | real =>
    intro steps rest stops enough
    obtain ⟨steps, rfl⟩ := Nat.exists_eq_add_one_of_ne_zero (by omega : steps ≠ 0)
    exact readValue_scalar trivial brief stops
  | text apart =>
    intro steps rest _ enough
    obtain ⟨steps, rfl⟩ := Nat.exists_eq_add_one_of_ne_zero (by omega : steps ≠ 0)
    exact readValue_text apart
  | list _ ih =>
    cases room with
    | zero => exact absurd within (Nat.not_succ_le_zero _)
    | succ room =>
      cases brief with
      | list brief =>
        exact readBack_list fun item member =>
          ih item member (brief item member) (Value.depth_list_le.1 within item member)
  | mapping distinct names _ ih =>
    cases room with
    | zero => exact absurd within (Nat.not_succ_le_zero _)
    | succ room =>
      cases brief with
      | mapping brief =>
        exact readBack_mapping distinct names fun entry member =>
          ih entry member (brief entry member) (Value.depth_mapping_le.1 within entry member)

/-- A text that starts with a value is read from its first character on. -/
theorem read_of_starts {text : List Char} (starts : Starts text) : read text = (do
    let (value, rest) ← readValue (2 * text.length + 1) depthLimit text
    match skipSpace rest with
    | [] => return value
    | rest => .error ⟨.extraData, rest.length⟩) := by
  have noMark : text.head? ≠ some '\uFEFF' := by
    obtain ⟨c, rest, rfl, _, _, _, noMark⟩ := starts
    exact fun mark => noMark (Option.some.inj mark)
  rewrite [read, if_neg noMark, skipSpace_of_starts starts]
  rfl

/-- What is printed for a value is read as the value. -/
theorem read_print {value : Value} (readable : Readable value) (brief : value.Brief)
    (within : value.depth ≤ depthLimit) : read (print 0 value) = .ok value := by
  have back : readValue (2 * (print 0 value).length + 1) depthLimit (print 0 value) = .ok (value, []) := by
    have reads : readValue (2 * (print 0 value).length + 1) depthLimit (print 0 value ++ []) = .ok (value, []) :=
      readable.readBack brief within nofun (by
        rw [List.append_nil]
        exact Nat.lt_succ_self _)
    rwa [List.append_nil] at reads
  rw [read_of_starts (starts_print 0 value), back]
  rfl

end Reckoner.Json
