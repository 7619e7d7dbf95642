import Mathlib
import Reckoner.Proofs.Settings.Loading

namespace Reckoner.Json

variable {text rest : List Char}

theorem prepend_eq_ok {point : CodePoint} {result : Except Flaw (CodePoints × List Char)} {points : CodePoints} :
    prepend point result = .ok (points, rest) ↔ ∃ others, result = .ok (others, rest) ∧ points = point :: others := by
  cases result with
  | error flaw => exact ⟨nofun, nofun⟩
  | ok found =>
    constructor
    · intro same
      cases same
      exact ⟨_, rfl, rfl⟩
    · rintro ⟨others, same, rfl⟩
      cases same
      rfl

/-- A text that starts with the escape of a second half, and has a character behind it. -/
def StartsLow (text : List Char) : Prop :=
  ∃ e f g h next more unit, text = '\\' :: 'u' :: e :: f :: g :: h :: next :: more ∧
    hexValue4? e f g h = some unit ∧ isLowSurrogate unit = true

/-- What is known of the text that is read from characters: its halves are apart, and it only starts with a second half
if the characters do. -/
def ReadsApart (text : List Char) (points : CodePoints) : Prop :=
  points.Apart ∧ ∀ point ∈ points.head?, point.isSecondHalf = true → StartsLow text

namespace ReadsApart

variable {points : CodePoints} {tail : List Char}

theorem char (c : Char) (apart : ReadsApart tail points) : ReadsApart text (.char c :: points) := by
  refine ⟨List.isChain_cons.2 ⟨fun _ _ both => Bool.noConfusion both.1, apart.1⟩, ?_⟩
  rintro _ ⟨⟩ isSecond
  exact nomatch isSecond

theorem unit {unit : Nat} (apart : ReadsApart tail points) (single : isHighSurrogate unit = true → ¬ StartsLow tail)
    (escape : isLowSurrogate unit = true → StartsLow text) : ReadsApart text (.ofUnit unit :: points) := by
  constructor
  · refine List.isChain_cons.2 ⟨fun next first both => ?_, apart.1⟩
    rw [CodePoint.isFirstHalf_ofUnit] at both
    exact single both.1 (apart.2 next first both.2)
  · rintro _ ⟨⟩ isSecond
    rw [CodePoint.isSecondHalf_ofUnit] at isSecond
    exact escape isSecond

end ReadsApart

theorem readsApart_of_readText {left : Nat} {points : CodePoints} (reads : readText left text = .ok (points, rest)) :
    ReadsApart text points := by
  fun_induction readText left text generalizing points with
  | case2 =>
    cases reads
    exact ⟨.nil, nofun⟩
  | case5 a b c d e f g h next more high first isHigh low second isLow ih =>
    obtain ⟨others, later, rfl⟩ := prepend_eq_ok.1 reads
    exact (ih later).char _
  | case6 a b c d e f g h next more unit first isHigh other second noLow ih =>
    obtain ⟨others, later, rfl⟩ := prepend_eq_ok.1 reads
    refine (ih later).unit (fun _ low => ?_) fun isLow => ⟨a, b, c, d, _, _, unit, rfl, first, isLow⟩
    obtain ⟨_, _, _, _, _, _, unit, same, value, isLow⟩ := low
    cases same
    cases second.symm.trans value
    exact noLow isLow
  | case7 a b c d e f g h next more unit first noHigh ih =>
    obtain ⟨others, later, rfl⟩ := prepend_eq_ok.1 reads
    exact (ih later).unit (fun isHigh => absurd isHigh noHigh) fun isLow => ⟨a, b, c, d, _, _, unit, rfl, first, isLow⟩
  | case9 a b c d next more alone unit value ih =>
    obtain ⟨others, later, rfl⟩ := prepend_eq_ok.1 reads
    refine (ih later).unit (fun _ low => ?_) fun isLow => ⟨a, b, c, d, _, _, unit, rfl, value, isLow⟩
    obtain ⟨e, f, g, h, behind, others, _, same, _⟩ := low
    obtain ⟨mark, escape⟩ := List.cons.inj same
    exact alone e f g h behind others mark escape
  | case12 more c noPair noUnit noMark escaped known ih =>
    obtain ⟨others, later, rfl⟩ := prepend_eq_ok.1 reads
    exact (ih later).char _
  | case15 =>
    rename_i ih
    obtain ⟨others, later, rfl⟩ := prepend_eq_ok.1 reads
    exact (ih later).char _
  | _ => exact nomatch reads

theorem apart_of_readText {left : Nat} {points : CodePoints} (reads : readText left text = .ok (points, rest)) :
    points.Apart :=
  (readsApart_of_readText reads).1

theorem apart_of_readName {name : CodePoints} (reads : readName text = .ok (name, rest)) : name.Apart := by
  unfold readName at reads
  split at reads
  · obtain ⟨⟨found, behind⟩, inner, reads⟩ := bind_eq_ok.1 reads
    dsimp only at reads
    split at reads
    · cases reads
      exact apart_of_readText inner
    · exact nomatch reads
  · exact nomatch reads

/-- A value that can be told from its printed text, and is read within the room that there is. -/
structure Printable (room : Nat) (value : Value) : Prop where
  readable : Readable value
  brief : value.Brief
  depth_le : value.depth ≤ room

namespace Printable

variable {room : Nat}

theorem flag (value : Bool) : Printable room (.flag value) := ⟨.flag value, .flag value, Nat.zero_le _⟩

theorem real (value : Float) : Printable room (.real value) := ⟨.real value, .real value, Nat.zero_le _⟩

theorem readBack {value : Value} (printable : Printable room value) {level : Nat} : ReadBack level room value :=
  printable.readable.readBack printable.brief printable.depth_le

theorem items {items : List Value} (printable : Printable room (.list items)) :
    ∃ inner, room = inner + 1 ∧ ∀ item ∈ items, Printable inner item := by
  obtain ⟨readable, brief, within⟩ := printable
  cases room with
  | zero => exact absurd within (Nat.not_succ_le_zero _)
  | succ inner =>
    cases readable with
    | list readable =>
      cases brief with
      | list brief =>
        exact ⟨inner, rfl, fun item member =>
          ⟨readable item member, brief item member, Value.depth_list_le.1 within item member⟩⟩

theorem entries {entries : List (CodePoints × Value)} (printable : Printable room (.mapping entries)) :
    ∃ inner, room = inner + 1 ∧ ∀ entry ∈ entries, entry.1.Apart ∧ Printable inner entry.2 := by
  obtain ⟨readable, brief, within⟩ := printable
  cases room with
  | zero => exact absurd within (Nat.not_succ_le_zero _)
  | succ inner =>
    cases readable with
    | mapping _ names readable =>
      cases brief with
      | mapping brief =>
        exact ⟨inner, rfl, fun entry member =>
          ⟨names entry member, readable entry member, brief entry member, Value.depth_mapping_le.1 within entry member⟩⟩

end Printable

theorem isDigit_of_mem_wholeDigits {c : Char} (member : c ∈ wholeDigits text) : c.isDigit = true := by
  unfold wholeDigits at member
  split at member
  · exact nomatch member
  · split_ifs at member with zero digit
    · rw [List.mem_singleton.1 member, zero]
      rfl
    · rcases List.mem_cons.1 member with rfl | behind
      · exact digit
      · exact List.all_eq_true.1 List.all_takeWhile _ behind
    · exact nomatch member

theorem ofDigitChars_lt {digits : List Char} (isDigit : ∀ c ∈ digits, c.isDigit = true) (n : Nat) :
    Nat.ofDigitChars 10 digits n < (n + 1) * 10 ^ digits.length := by
  induction digits generalizing n with
  | nil => simp [Nat.ofDigitChars_nil]
  | cons c rest ih =>
    obtain ⟨digit, others⟩ := List.forall_mem_cons.1 isDigit
    obtain ⟨low, high⟩ := Char.isDigit_iff_toNat.1 digit
    have one : 10 * n + (c.toNat - '0'.toNat) + 1 ≤ 10 * (n + 1) := by
      change c.toNat ≤ 57 at high
      change 10 * n + (c.toNat - 48) + 1 ≤ _
      omega
    rw [Nat.ofDigitChars_cons]
    calc Nat.ofDigitChars 10 rest (10 * n + (c.toNat - '0'.toNat))
        < (10 * n + (c.toNat - '0'.toNat) + 1) * 10 ^ rest.length := ih others _
      _ ≤ 10 * (n + 1) * 10 ^ rest.length := Nat.mul_le_mul_right _ one
      _ = (n + 1) * 10 ^ (c :: rest).length := by rw [List.length_cons, pow_succ]; ring

/-- A number with few digits is written with few digits again. -/
theorem brief_whole {digits : List Char} (negative : Bool) (isDigit : ∀ c ∈ digits, c.isDigit = true)
    (begun : digits ≠ []) (few : digits.length ≤ digitLimit) :
    Value.Brief
      (.whole (if negative then -(Nat.ofDigitChars 10 digits 0 : Int) else Nat.ofDigitChars 10 digits 0)) := by
  have size := ofDigitChars_lt isDigit 0
  rw [Nat.zero_add, Nat.one_mul] at size
  have short := (Nat.length_toDigits_le_iff (by decide : 1 < 10) (List.length_pos_iff.2 begun)).2 size
  have magnitude : (if negative then -(Nat.ofDigitChars 10 digits 0 : Int) else Nat.ofDigitChars 10 digits 0).natAbs =
      Nat.ofDigitChars 10 digits 0 := by cases negative <;> simp
  rw [← magnitude] at short
  exact .whole (short.trans few)

theorem printable_of_readNumber {value : Value} (room : Nat) (reads : readNumber text = .ok (value, rest)) :
    Printable room value := by
  unfold readNumber at reads
  split at reads
  rename_i negative body _
  dsimp only at reads
  split at reads
  · exact nomatch reads
  · rename_i begun
    split at reads
    · split at reads
      · exact nomatch reads
      · rename_i few
        cases reads
        have brief := brief_whole negative (fun c => isDigit_of_mem_wholeDigits)
          (fun none => begun (List.isEmpty_iff.2 none)) (Nat.le_of_not_lt few)
        exact ⟨.whole _, brief, Nat.zero_le _⟩
    · split at reads
      · cases reads
        exact .real _
      · exact nomatch reads

theorem printable_of_readScalar {value : Value} (room : Nat) (reads : readScalar text = .ok (value, rest)) :
    Printable room value := by
  have table : ∀ entry ∈ words, Printable room entry.2 := by
    intro entry member
    fin_cases member
    exacts [⟨.null, .null, Nat.zero_le _⟩, .flag _, .flag _, .real _, .real _, .real _]
  unfold readScalar at reads
  split at reads
  · rename_i found
    cases reads
    exact table _ (List.mem_of_find?_eq_some found)
  · exact printable_of_readNumber room reads

theorem printable_list {items : List Value} {room : Nat} (each : ∀ item ∈ items, Printable room item) :
    Printable (room + 1) (.list items) :=
  ⟨.list fun item member => (each item member).readable, .list fun item member => (each item member).brief,
    Value.depth_list_le.2 fun item member => (each item member).depth_le⟩

/-- The entries of a mapping that is read are what its raw entries come to. -/
theorem printable_ofList {raw : List (CodePoints × Value)} {room : Nat}
    (each : ∀ entry ∈ raw, entry.1.Apart ∧ Printable room entry.2) :
    OrderedMap.Distinct (OrderedMap.ofList raw).entries ∧
      ∀ entry ∈ (OrderedMap.ofList raw).entries, entry.1.Apart ∧ Printable room entry.2 := by
  have names : ∀ entry ∈ (OrderedMap.ofList raw).entries, entry.1.Apart :=
    OrderedMap.forall_keys_putAll (List.forall_mem_nil _) fun entry member => (each entry member).1
  have values : ∀ entry ∈ (OrderedMap.ofList raw).entries, Printable room entry.2 :=
    OrderedMap.forall_putAll (List.forall_mem_nil _) fun entry member => (each entry member).2
  exact ⟨OrderedMap.distinct_putAll .nil raw, fun entry member => ⟨names entry member, values entry member⟩⟩

theorem printable_mapping {raw : List (CodePoints × Value)} {room : Nat}
    (each : ∀ entry ∈ raw, entry.1.Apart ∧ Printable room entry.2) :
    Printable (room + 1) (.mapping (OrderedMap.ofList raw).entries) := by
  obtain ⟨distinct, entries⟩ := printable_ofList each
  exact ⟨.mapping distinct (fun entry member => (entries entry member).1)
    fun entry member => (entries entry member).2.readable, .mapping fun entry member => (entries entry member).2.brief,
    Value.depth_mapping_le.2 fun entry member => (entries entry member).2.depth_le⟩

/-- What the readers of values, items and entries come to with some steps. -/
structure ReadersPrintable (steps : Nat) : Prop where
  value : ∀ {room text rest value}, readValue steps room text = .ok (value, rest) → Printable room value
  items : ∀ {room text rest items}, readItems steps room text = .ok (items, rest) →
    ∀ item ∈ items, Printable room item
  entries : ∀ {room text rest entries}, readEntries steps room text = .ok (entries, rest) →
    ∀ entry ∈ entries, entry.1.Apart ∧ Printable room entry.2

namespace ReadersPrintable

variable {steps room : Nat}

theorem value_succ {value : Value} (ih : ReadersPrintable steps)
    (reads : readValue (steps + 1) room text = .ok (value, rest)) : Printable room value := by
  rw [readValue.eq_def] at reads
  dsimp only at reads
  split at reads
  · obtain ⟨⟨points, behind⟩, inner, same⟩ := bind_eq_ok.1 reads
    cases same
    exact ⟨.text (apart_of_readText inner), .text _, Nat.zero_le _⟩
  · split at reads
    · cases reads
    · split at reads
      · cases reads
        exact printable_list (List.forall_mem_nil _)
      · obtain ⟨⟨items, behind⟩, inner, same⟩ := bind_eq_ok.1 reads
        cases same
        exact printable_list (ih.items inner)
  · split at reads
    · cases reads
    · split at reads
      · cases reads
        exact @printable_mapping [] _ (List.forall_mem_nil _)
      · obtain ⟨⟨raw, behind⟩, inner, same⟩ := bind_eq_ok.1 reads
        cases same
        exact printable_mapping (ih.entries inner)
  · exact printable_of_readScalar room reads

theorem items_succ {items : List Value} (ih : ReadersPrintable steps)
    (reads : readItems (steps + 1) room text = .ok (items, rest)) : ∀ item ∈ items, Printable room item := by
  rw [readItems] at reads
  obtain ⟨⟨item, tail⟩, first, reads⟩ := bind_eq_ok.1 reads
  dsimp only at reads
  split at reads
  · cases reads
    exact List.forall_mem_singleton.2 (ih.value first)
  · obtain ⟨⟨others, behind⟩, later, same⟩ := bind_eq_ok.1 reads
    cases same
    exact List.forall_mem_cons.2 ⟨ih.value first, ih.items later⟩
  · cases reads

theorem entries_succ {entries : List (CodePoints × Value)} (ih : ReadersPrintable steps)
    (reads : readEntries (steps + 1) room text = .ok (entries, rest)) :
    ∀ entry ∈ entries, entry.1.Apart ∧ Printable room entry.2 := by
  rw [readEntries] at reads
  obtain ⟨⟨name, behind⟩, named, reads⟩ := bind_eq_ok.1 reads
  obtain ⟨⟨value, tail⟩, first, reads⟩ := bind_eq_ok.1 reads
  dsimp only at reads
  have entry := And.intro (apart_of_readName named) (ih.value first)
  split at reads
  · cases reads
    exact List.forall_mem_singleton.2 entry
  · obtain ⟨⟨others, behind⟩, later, same⟩ := bind_eq_ok.1 reads
    cases same
    exact List.forall_mem_cons.2 ⟨entry, ih.entries later⟩
  · cases reads

end ReadersPrintable

theorem readersPrintable (steps : Nat) : ReadersPrintable steps := by
  induction steps with
  | zero =>
    refine ⟨fun reads => ?_, fun reads => ?_, fun reads => ?_⟩
    · rw [readValue] at reads
      cases reads
    · rw [readItems] at reads
      cases reads
    · rw [readEntries] at reads
      cases reads
  | succ steps ih => exact ⟨ih.value_succ, ih.items_succ, ih.entries_succ⟩

/-- The entries of an object have names and values that can be printed, and told from their printed text. -/
theorem HoldsEntries.printable {raw : List (CodePoints × Value)} (holds : HoldsEntries text raw) :
    ∀ entry ∈ raw, entry.1.Apart ∧ Printable (depthLimit - 1) entry.2 := by
  cases holds with
  | none => exact nofun
  | some _ inner _ => exact (readersPrintable _).entries inner

end Reckoner.Json
