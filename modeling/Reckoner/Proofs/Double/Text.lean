import Mathlib
import Reckoner.Proofs.Double.Numeral

namespace Reckoner.Double

/-- The shape of a written decimal without its sign: the digits of a number, then a fraction, an exponent, or both. -/
structure IsWritten (text whole fraction exponent : List Char) : Prop where
  parts : text = whole ++ (fraction ++ exponent)
  whole_digits : ∃ n, whole = Nat.toDigits 10 n
  fraction_places : fraction = [] ∨ ∃ places, fraction = '.' :: places ∧ places ≠ [] ∧ ∀ c ∈ places, c.isDigit = true
  exponent_size : exponent = [] ∨ ∃ width size, exponent = 'e' :: exponentText width size
  not_whole : fraction ≠ [] ∨ exponent ≠ []

/-- A digit is one of ten characters that stand in a row. -/
theorem exists_ofNat_of_isDigit {c : Char} (digit : c.isDigit = true) : ∃ n < 10, c = Char.ofNat (n + 48) := by
  obtain ⟨low, high⟩ := Char.isDigit_iff_toNat.1 digit
  change 48 ≤ c.toNat at low
  change c.toNat ≤ 57 at high
  refine ⟨c.toNat - 48, by omega, ?_⟩
  rw [Nat.sub_add_cancel low, Char.ofNat_toNat]

theorem exists_toDigits_eq_singleton {c : Char} (digit : c.isDigit = true) : ∃ n, [c] = Nat.toDigits 10 n := by
  have table : ∀ n < 10, Nat.digitChar n = Char.ofNat (n + 48) := by decide
  obtain ⟨n, small, rfl⟩ := exists_ofNat_of_isDigit digit
  exact ⟨n, by rw [Nat.toDigits_of_lt_base small, table n small]⟩

theorem exists_toDigits_eq_cons (n : Nat) : ∃ lead rest, Nat.toDigits 10 n = lead :: rest ∧ lead.isDigit = true := by
  obtain ⟨lead, rest, all⟩ := List.exists_cons_of_ne_nil (@Nat.toDigits_ne_nil n 10)
  exact ⟨lead, rest, all, Nat.isDigit_of_mem_toDigits (by decide) (by decide) (all ▸ List.mem_cons_self)⟩

theorem head?_toDigits_ne_zero {n : Nat} (positive : 0 < n) : (Nat.toDigits 10 n).head? ≠ some '0' := by
  induction n using Nat.strongRecOn with
  | ind n ih =>
    by_cases small : n < 10
    · have table : ∀ n < 10, 0 < n → Nat.digitChar n ≠ '0' := by decide
      rw [Nat.toDigits_of_lt_base small]
      exact fun zero => table n small positive (Option.some.inj zero)
    · rw [Nat.toDigits_of_base_le (by decide) (Nat.le_of_not_lt small),
        List.head?_append_of_ne_nil _ Nat.toDigits_ne_nil]
      exact ih (n / 10) (by omega) (by omega)

theorem getLast?_toDigits (n : Nat) : (Nat.toDigits 10 n).getLast? = some (Nat.digitChar (n % 10)) := by
  by_cases small : n < 10
  · rw [Nat.toDigits_of_lt_base small, Nat.mod_eq_of_lt small, List.getLast?_singleton]
  · rw [Nat.toDigits_of_base_le (by decide) (Nat.le_of_not_lt small), List.getLast?_append, List.getLast?_singleton,
      Option.some_or]

/-- Only the digits of zero start with a zero. -/
theorem toDigits_of_head?_eq_zero {n : Nat} (zero : (Nat.toDigits 10 n).head? = some '0') :
    Nat.toDigits 10 n = ['0'] := by
  rcases Nat.eq_zero_or_pos n with rfl | positive
  · rfl
  · exact absurd zero (head?_toDigits_ne_zero positive)

theorem exists_positional_eq_toDigits (digits : Nat) (exponent : Int) :
    ∃ n, (Decimal.positional digits exponent).1 = Nat.toDigits 10 n := by
  unfold Decimal.positional
  split_ifs <;> exact ⟨_, rfl⟩

/-- The whole part of a positional text is no longer than the place of the leading digit asks for. -/
theorem length_positional_le {digits bound : Nat} {exponent : Int} (positive : 0 < bound)
    (low : exponent + (Nat.toDigits 10 digits).length ≤ bound) :
    (Decimal.positional digits exponent).1.length ≤ bound := by
  have some : 0 < (Nat.toDigits 10 digits).length := List.length_pos_iff.2 Nat.toDigits_ne_nil
  have size : digits < 10 ^ (Nat.toDigits 10 digits).length :=
    (Nat.length_toDigits_le_iff (by decide) some).1 (Nat.le_refl _)
  unfold Decimal.positional
  split_ifs with whole
  · refine (Nat.length_toDigits_le_iff (by decide) positive).2 ?_
    calc digits * 10 ^ exponent.toNat
        < 10 ^ (Nat.toDigits 10 digits).length * 10 ^ exponent.toNat :=
          Nat.mul_lt_mul_of_pos_right size (Nat.pow_pos (by decide))
      _ = 10 ^ ((Nat.toDigits 10 digits).length + exponent.toNat) := (pow_add 10 _ _).symm
      _ ≤ 10 ^ bound := Nat.pow_le_pow_right (by decide) (by omega)
  · refine (Nat.length_toDigits_le_iff (by decide) positive).2 (Nat.div_lt_of_lt_mul ?_)
    calc digits
        < 10 ^ (Nat.toDigits 10 digits).length := size
      _ ≤ 10 ^ ((-exponent).toNat + bound) := Nat.pow_le_pow_right (by decide) (by omega)
      _ = 10 ^ (-exponent).toNat * 10 ^ bound := pow_add 10 _ _

/-- The text of a decimal starts with few digits: it is positional up to sixteen of them. -/
theorem length_takeWhile_unsignedText_le (d : Decimal) :
    ((unsignedText layout d).takeWhile Char.isDigit).length ≤ 16 := by
  have short {whole : List Char} {mark : Char} {rest : List Char} (digits : ∀ c ∈ whole, c.isDigit = true)
      (few : whole.length ≤ 16) (noDigit : mark.isDigit = false) :
      ((whole ++ mark :: rest).takeWhile Char.isDigit).length ≤ 16 := by
    rwa [(takeWhile_dropWhile_append (mark :: rest) digits (by rintro c ⟨⟩; exact noDigit)).1]
  unfold unsignedText
  dsimp only
  split_ifs with positional
  · obtain ⟨n, whole⟩ := exists_positional_eq_toDigits d.digits d.exponent
    have digits : ∀ c ∈ (Decimal.positional d.digits d.exponent).1, c.isDigit = true := by
      rw [whole]
      exact fun c => Nat.isDigit_of_mem_toDigits (by decide) (by decide)
    have low : d.leadingExponent < 16 := positional.2
    have few :=
      @length_positional_le d.digits 16 d.exponent (by decide) (by unfold Decimal.leadingExponent at low; omega)
    split
    · rename_i same
      rw [same] at digits few
      exact short digits few rfl
    · rename_i same
      rw [same] at digits few
      exact short digits few rfl
  · have isDigit : ∀ c ∈ Nat.toDigits 10 d.digits, c.isDigit = true :=
      fun c => Nat.isDigit_of_mem_toDigits (by decide) (by decide)
    split
    · exact Nat.zero_le 16
    · rename_i same
      rw [same] at isDigit
      exact @short [_] 'e' _ isDigit (by simp) rfl
    · rename_i same
      rw [same] at isDigit
      exact @short [_] '.' _ (List.forall_mem_singleton.2 (isDigit _ List.mem_cons_self)) (by simp) rfl

theorem isWritten_unsignedText (l : Layout) (d : Decimal) :
    ∃ whole fraction exponent, IsWritten (unsignedText l d) whole fraction exponent := by
  unfold unsignedText
  dsimp only
  have isDigit (n : Nat) : ∀ c ∈ Nat.toDigits 10 n, c.isDigit = true :=
    fun c => Nat.isDigit_of_mem_toDigits (by decide) (by decide)
  split_ifs with positional
  · obtain ⟨_, places, _⟩ := positional_spec d.digits d.exponent
    have whole := exists_positional_eq_toDigits d.digits d.exponent
    generalize Decimal.positional d.digits d.exponent = parts at *
    obtain ⟨before, behind⟩ := parts
    cases behind with
    | nil =>
      have zero : ∀ c ∈ ['0'], c.isDigit = true := fun c member => by rw [List.mem_singleton.1 member]; rfl
      exact ⟨before, ['.', '0'], [], rfl, whole, Or.inr ⟨['0'], rfl, nofun, zero⟩, Or.inl rfl, Or.inl nofun⟩
    | cons c rest =>
      exact ⟨before, '.' :: c :: rest, [], by rw [List.append_nil], whole, Or.inr ⟨_, rfl, nofun, places⟩, Or.inl rfl,
        Or.inl nofun⟩
  · have digits := isDigit d.digits
    generalize atDigits : Nat.toDigits 10 d.digits = run at *
    cases run with
    | nil => exact absurd atDigits Nat.toDigits_ne_nil
    | cons lead rest =>
      have whole := exists_toDigits_eq_singleton (digits lead List.mem_cons_self)
      cases rest with
      | nil => exact ⟨[lead], [], _, rfl, whole, Or.inl rfl, Or.inr ⟨_, _, rfl⟩, Or.inr nofun⟩
      | cons c rest =>
        exact ⟨[lead], '.' :: c :: rest, _, rfl, whole,
          Or.inr ⟨_, rfl, nofun, fun d member => digits d (List.mem_cons_of_mem lead member)⟩,
          Or.inr ⟨_, _, rfl⟩, Or.inr nofun⟩

namespace IsWritten

variable {text whole fraction exponent : List Char}

theorem whole_isDigit (written : IsWritten text whole fraction exponent) : ∀ c ∈ whole, c.isDigit = true := by
  obtain ⟨n, rfl⟩ := written.whole_digits
  exact fun c => Nat.isDigit_of_mem_toDigits (by decide) (by decide)

theorem whole_ne_nil (written : IsWritten text whole fraction exponent) : whole ≠ [] := by
  obtain ⟨n, rfl⟩ := written.whole_digits
  exact Nat.toDigits_ne_nil

/-- Capitals make no difference to what is read. -/
theorem readDecimal?_map_toUpper (written : IsWritten text whole fraction exponent) :
    readDecimal? (text.map Char.toUpper) = readDecimal? text := by
  have wholeDigits := written.whole_isDigit
  have begun := written.whole_ne_nil
  have capital : readExponent? (exponent.map Char.toUpper) = readExponent? exponent ∧
      (∀ c ∈ exponent.head?, c.isDigit = false ∧ c ≠ '.') ∧
      ∀ c ∈ (exponent.map Char.toUpper).head?, c.isDigit = false ∧ c ≠ '.' := by
    rcases written.exponent_size with rfl | ⟨width, size, rfl⟩
    · exact ⟨rfl, nofun, nofun⟩
    · rw [List.map_cons, map_toUpper_exponentText]
      refine ⟨rfl, ?_, ?_⟩
      · rintro c ⟨⟩
        decide
      · rintro c ⟨⟩
        decide
  obtain ⟨reads, stop, stopCapital⟩ := capital
  rw [written.parts, List.map_append, List.map_append, map_toUpper_of_digits wholeDigits]
  rcases written.fraction_places with rfl | ⟨places, rfl, _, placeDigits⟩
  · rw [List.map_nil, List.nil_append, List.nil_append, readDecimal?_whole _ wholeDigits begun stopCapital,
      readDecimal?_whole _ wholeDigits begun stop, reads]
  · rw [List.map_cons, map_toUpper_of_digits placeDigits]
    change readDecimal? (whole ++ '.' :: (places ++ _)) = readDecimal? (whole ++ '.' :: (places ++ _))
    rw [readDecimal?_fraction _ wholeDigits placeDigits (Or.inl begun) fun c first => (stopCapital c first).1,
      readDecimal?_fraction _ wholeDigits placeDigits (Or.inl begun) fun c first => (stop c first).1, reads]

end IsWritten

/-- The text of a decimal is read as that decimal, perhaps with further zeros. -/
theorem exists_readDecimal?_unsignedText (l : Layout) (d : Decimal) :
    ∃ zeros : Nat, readDecimal? (unsignedText l d) = some (d.digits * 10 ^ zeros, d.exponent - zeros) := by
  obtain ⟨_, _, _, written⟩ := isWritten_unsignedText l d
  rw [← written.readDecimal?_map_toUpper]
  exact (spells_unsignedText l d).2

/-- The text of a decimal is read as the double closest to it. -/
theorem readDecimal?_unsignedText (l : Layout) (d : Decimal) :
    ∃ value shift, readDecimal? (unsignedText l d) = some (value, shift) ∧
      nearestDecimal value shift = nearestDecimal d.digits d.exponent := by
  obtain ⟨zeros, read⟩ := exists_readDecimal?_unsignedText l d
  refine ⟨_, _, read, ?_⟩
  rw [nearestDecimal_mul_pow, Int.sub_add_cancel]

theorem exists_unsignedText_eq_cons (l : Layout) (d : Decimal) :
    ∃ lead rest, unsignedText l d = lead :: rest ∧ lead.isDigit = true := by
  obtain ⟨whole, fraction, exponent, written⟩ := isWritten_unsignedText l d
  obtain ⟨n, rfl⟩ := written.whole_digits
  obtain ⟨lead, others, begins, digit⟩ := exists_toDigits_eq_cons n
  rw [written.parts, begins]
  exact ⟨lead, _, rfl, digit⟩

theorem chars_of_isFinite {x : Float} (finite : x.isFinite = true) :
    chars x = (if isNegative x then ['-'] else []) ++ unsignedText layout (toDecimal x) := by
  rw [chars, not_isNaN_of_isFinite finite, finite]
  rfl

theorem isDigit_or_mark_of_mem_exponentText {width : Nat} {size : Int} {c : Char}
    (member : c ∈ exponentText width size) : c.isDigit = true ∨ c ∈ ['.', 'e', '+', '-'] := by
  rcases List.mem_cons.1 member with rfl | filled
  · split <;> exact Or.inr (by decide)
  · exact Or.inl (isDigit_of_mem_filled filled)

/-- The characters in the written form of a finite double. -/
theorem isDigit_or_mark_of_mem_chars {x : Float} {c : Char} (finite : x.isFinite = true) (member : c ∈ chars x) :
    c.isDigit = true ∨ c ∈ ['.', 'e', '+', '-'] := by
  obtain ⟨whole, fraction, exponent, written⟩ := isWritten_unsignedText layout (toDecimal x)
  rw [chars_of_isFinite finite, written.parts] at member
  simp only [List.mem_append] at member
  rcases member with sign | begun | places | size
  · split at sign
    · rw [List.mem_singleton.1 sign]
      exact Or.inr (by decide)
    · exact nomatch sign
  · exact Or.inl (written.whole_isDigit c begun)
  · rcases written.fraction_places with rfl | ⟨digits, rfl, _, isDigit⟩
    · exact nomatch places
    · rcases List.mem_cons.1 places with rfl | behind
      · exact Or.inr (by decide)
      · exact Or.inl (isDigit c behind)
  · rcases written.exponent_size with rfl | ⟨width, value, rfl⟩
    · exact nomatch size
    · rcases List.mem_cons.1 size with rfl | behind
      · exact Or.inr (by decide)
      · exact isDigit_or_mark_of_mem_exponentText behind

theorem isPlain_chars {x : Float} (finite : x.isFinite = true) : ∀ c ∈ chars x, IsPlain c := by
  intro c member
  rcases isDigit_or_mark_of_mem_chars finite member with digit | mark
  · exact isPlain_of_isNumeric (isNumeric_of_isDigit digit)
  · simp only [List.mem_cons, List.not_mem_nil, or_false] at mark
    rcases mark with rfl | rfl | rfl | rfl <;> exact ⟨by decide, by decide, by decide⟩

/-- The written form of a finite double has no blank and no mark of assignments. -/
theorem clean_of_mem_chars {x : Float} {c : Char} (finite : x.isFinite = true) (member : c ∈ chars x) :
    Text.isBlank c = false ∧ c ≠ ',' ∧ c ≠ ';' := by
  refine ⟨(isPlain_chars finite c member).isBlank, ?_, ?_⟩
  all_goals
    rintro rfl
    exact absurd (isDigit_or_mark_of_mem_chars finite member) (by decide)

/-- The written form of a finite double is read as the double. -/
theorem read?_chars {x : Float} (finite : x.isFinite = true) : read? (chars x) = some x := by
  obtain ⟨lead, rest, begins, digit⟩ := exists_unsignedText_eq_cons layout (toDecimal x)
  obtain ⟨value, shift, reads, size⟩ := readDecimal?_unsignedText layout (toDecimal x)
  have same := ofMagnitude_self x
  rw [nearestDecimal_toDecimal finite] at size
  rw [read?_of_plain (isPlain_chars finite), chars_of_isFinite finite, begins]
  rw [begins] at reads
  cases negative : isNegative x with
  | false =>
    rw [negative, ← size] at same
    change readSigned? (lead :: rest) = some x
    rw [readSigned?_of_numeric (Or.inl digit), reads]
    exact congrArg some same
  | true =>
    rw [negative, ← size] at same
    change (readUnsigned? (lead :: rest)).map _ = some x
    rw [readUnsigned?_of_numeric (Or.inl digit), reads]
    exact congrArg some same

/-- A sign before a text that does not start with one can be told from the text. -/
theorem sign_append_inj {p q : Bool} {first second : List Char} (plain : first.head? ≠ some '-')
    (other : second.head? ≠ some '-')
    (same : (if p then ['-'] else []) ++ first = (if q then ['-'] else []) ++ second) : p = q ∧ first = second := by
  cases p with
  | true =>
    cases q with
    | true => exact ⟨rfl, List.tail_eq_of_cons_eq same⟩
    | false => exact absurd (congrArg List.head? same).symm other
  | false =>
    cases q with
    | true => exact absurd (congrArg List.head? same) plain
    | false => exact ⟨rfl, same⟩

/-- No two doubles share a written form, if one of them is finite. -/
theorem chars_inj {x y : Float} (finite : x.isFinite = true) (same : chars x = chars y) : x = y := by
  obtain ⟨lead, rest, begins, digit⟩ := exists_unsignedText_eq_cons layout (toDecimal x)
  have apart {c : Char} (noDigit : c.isDigit = false) : (unsignedText layout (toDecimal x)).head? ≠ some c := by
    rw [begins]
    rintro ⟨⟩
    exact Bool.noConfusion (digit.symm.trans noDigit)
  rw [chars_of_isFinite finite] at same
  cases missing : y.isNaN with
  | true =>
    rw [chars, missing] at same
    obtain ⟨_, named⟩ := sign_append_inj (q := false) (apart rfl) (by decide) same
    exact absurd (congrArg List.head? named) (apart rfl)
  | false =>
    cases finite' : y.isFinite with
    | true =>
      obtain ⟨lead', rest', begins', digit'⟩ := exists_unsignedText_eq_cons layout (toDecimal y)
      have plain : (unsignedText layout (toDecimal y)).head? ≠ some '-' := by
        rw [begins']
        rintro ⟨⟩
        exact Bool.noConfusion digit'
      rw [chars_of_isFinite finite'] at same
      obtain ⟨sign, shown⟩ := sign_append_inj (apart rfl) plain same
      obtain ⟨value, shift, reads, size⟩ := readDecimal?_unsignedText layout (toDecimal x)
      obtain ⟨value', shift', reads', size'⟩ := readDecimal?_unsignedText layout (toDecimal y)
      rw [shown, reads'] at reads
      cases reads
      have magnitudes : magnitude x = magnitude y := by
        rw [← nearestDecimal_toDecimal finite, ← nearestDecimal_toDecimal finite', ← size, size']
      rw [← ofMagnitude_self x, sign, magnitudes, ofMagnitude_self]
    | false =>
      rw [chars, missing, finite'] at same
      obtain ⟨_, named⟩ := sign_append_inj (q := isNegative y) (apart rfl) (by decide) same
      exact absurd (congrArg List.head? named) (apart rfl)

open Float.Model in
/-- There are three doubles that are not finite. -/
theorem eq_of_not_isFinite {x : Float} (special : x.isFinite = false) :
    x = 0.0 / 0.0 ∨ x = 1.0 / 0.0 ∨ x = -1.0 / 0.0 := by
  have word : x.toBits.toBitVec = UnpackedFloat.pack Format.binary64 x.toModel.unpack :=
    (pack_unpack x.toModel.valid).symm
  have known {y : Float} (same : x.toBits.toBitVec = y.toBits.toBitVec) : x = y := by
    rw [← ofBits_toBits x, UInt64.toBitVec_inj.1 same, ofBits_toBits]
  change x.toModel.unpack.isFinite = false at special
  cases fields : x.toModel.unpack with
  | notANumber =>
    rw [fields] at word
    exact Or.inl (known (word.trans (by decide +kernel)))
  | infinity sign =>
    rw [fields] at word
    cases sign with
    | positive => exact Or.inr (Or.inl (known (word.trans (by decide +kernel))))
    | negative => exact Or.inr (Or.inr (known (word.trans (by decide +kernel))))
  | zero | finite =>
    rw [fields] at special
    exact nomatch special

end Reckoner.Double
