import Mathlib
import Reckoner.Double.Text
import Reckoner.Proofs.Double.Shortest
import Reckoner.Token.Literal

namespace Reckoner.Double

open Token (isNumeric)

theorem toNat_of_isNumeric {c : Char} (numeric : isNumeric c = true) : 43 ≤ c.toNat ∧ c.toNat ≤ 69 := by
  simp only [isNumeric, Bool.or_eq_true, decide_eq_true_eq, Char.isDigit_iff_toNat] at numeric
  rcases numeric with (((⟨low, high⟩ | rfl) | rfl) | rfl) | rfl
  · change 48 ≤ _ at low
    change _ ≤ 57 at high
    omega
  all_goals decide

theorem isNumeric_of_isDigit {c : Char} (digit : c.isDigit = true) : isNumeric c = true := by
  simp only [isNumeric, digit, Bool.true_or]

/-- A printable character of ASCII that is neither a blank nor an underscore. It is read as it stands. -/
def IsPlain (c : Char) : Prop :=
  33 ≤ c.toNat ∧ c.toNat ≤ 126 ∧ c ≠ '_'

theorem isPlain_of_isNumeric {c : Char} (numeric : isNumeric c = true) : IsPlain c := by
  obtain ⟨low, high⟩ := toNat_of_isNumeric numeric
  refine ⟨by omega, by omega, ?_⟩
  rintro rfl
  exact absurd high (by decide)

theorem IsPlain.isBlank {c : Char} (plain : IsPlain c) : Text.isBlank c = false := by
  obtain ⟨low, high, _⟩ := plain
  simp only [Text.isBlank, Text.blankRanges, List.any_cons, List.any_nil, Bool.or_false, Bool.or_eq_false_iff,
    Bool.and_eq_false_iff, decide_eq_false_iff_not]
  omega

theorem IsPlain.isMargin {c : Char} (plain : IsPlain c) : isMargin c = false := by
  obtain ⟨low, _, _⟩ := plain
  have other : c ≠ ' ' := by
    rintro rfl
    exact absurd low (by decide)
  have outside : ¬ (9 ≤ c.toNat ∧ c.toNat ≤ 13) := by omega
  simp only [Double.isMargin, other, decide_false, Bool.false_or, Bool.and_eq_false_iff, decide_eq_false_iff_not]
  omega

theorem dropWhile_isMargin {text : List Char} (plain : ∀ c ∈ text, IsPlain c) : text.dropWhile isMargin = text := by
  cases text with
  | nil => rfl
  | cons c rest => rw [List.dropWhile_cons_of_neg (by simp only [(plain c List.mem_cons_self).isMargin,
      Bool.false_eq_true, not_false_eq_true])]

theorem stripMargins_of_plain {text : List Char} (plain : ∀ c ∈ text, IsPlain c) : stripMargins text = text := by
  rw [stripMargins, dropWhile_isMargin plain,
    dropWhile_isMargin (fun c member => plain c (List.mem_reverse.1 member)), List.reverse_reverse]

theorem joinDigits?_of_plain {text : List Char} (plain : ∀ c ∈ text, IsPlain c) {before : Char}
    (apart : before ≠ '_') : joinDigits? before text = some text := by
  induction text generalizing before with
  | nil => rw [joinDigits?, if_neg apart]
  | cons c rest ih =>
    obtain ⟨_, _, other⟩ := plain c List.mem_cons_self
    rw [joinDigits?, if_neg other, if_neg (fun both => apart both.1),
      ih (fun d member => plain d (List.mem_cons_of_mem c member)) other, Option.map_some]

theorem read?_of_plain {text : List Char} (plain : ∀ c ∈ text, IsPlain c) : read? text = readSigned? text := by
  have folded : text.map foldChar = text :=
    (List.map_congr_left fun c member => if_pos (Nat.lt_succ_of_le (plain c member).2.1)).trans (List.map_id' _)
  rw [read?, folded, stripMargins_of_plain plain, joinDigits?_of_plain plain (by decide), Option.bind_some]

theorem readUnsigned?_of_numeric {c : Char} {rest : List Char} (first : c.isDigit = true ∨ c = '.') :
    readUnsigned? (c :: rest) =
      (readDecimal? (c :: rest)).map fun (digits, exponent) => some (nearestDecimal digits exponent) := by
  have small : c.toLower = c := by
    rw [Char.toLower, dif_neg]
    rcases first with digit | rfl
    · obtain ⟨_, high⟩ := Char.isDigit_iff_toNat.1 digit
      rintro ⟨low, _⟩
      have low' : 65 ≤ c.toNat := low
      change _ ≤ 57 at high
      omega
    · decide
  have noWord : c ≠ 'i' ∧ c ≠ 'n' := by
    rcases first with digit | rfl
    · constructor <;> rintro rfl <;> exact absurd digit (by decide)
    · decide
  simp only [readUnsigned?, List.map_cons, small, List.cons.injEq, noWord.1, noWord.2, false_and, or_self, if_false]

/-- A text that starts with a digit or a point has no sign. -/
theorem readSigned?_of_numeric {c : Char} {rest : List Char} (first : c.isDigit = true ∨ c = '.') :
    readSigned? (c :: rest) =
      (readDecimal? (c :: rest)).map fun (digits, exponent) => ofMagnitude false (nearestDecimal digits exponent) := by
  have noSign : c ≠ '-' ∧ c ≠ '+' := by
    rcases first with digit | rfl
    · constructor <;> rintro rfl <;> exact absurd digit (by decide)
    · decide
  unfold readSigned?
  split
  rename_i negative body same
  split at same
  · rename_i minus
    exact absurd (List.cons.inj minus).1 noSign.1
  · rename_i plus
    exact absurd (List.cons.inj plus).1 noSign.2
  · obtain ⟨rfl, rfl⟩ := Prod.mk.inj same
    rw [readUnsigned?_of_numeric first, Option.map_map]
    rfl

theorem read?_of_numeric {c : Char} {rest : List Char} (first : c.isDigit = true ∨ c = '.')
    (numeric : ∀ d ∈ rest, isNumeric d = true) :
    read? (c :: rest) =
      (readDecimal? (c :: rest)).map fun (digits, exponent) => ofMagnitude false (nearestDecimal digits exponent) := by
  have all : ∀ d ∈ c :: rest, isNumeric d = true := by
    intro d member
    rcases List.mem_cons.1 member with rfl | later
    · rcases first with digit | rfl
      · exact isNumeric_of_isDigit digit
      · rfl
    · exact numeric d later
  rw [read?_of_plain fun d member => isPlain_of_isNumeric (all d member), readSigned?_of_numeric first]

theorem takeWhile_dropWhile_append {test : Char → Bool} {run : List Char} (rest : List Char)
    (all : ∀ c ∈ run, test c = true)
    (stop : ∀ c ∈ rest.head?, test c = false) :
    (run ++ rest).takeWhile test = run ∧ (run ++ rest).dropWhile test = rest := by
  rw [List.takeWhile_append_of_pos all, List.dropWhile_append_of_pos all]
  cases rest with
  | nil => simp
  | cons c rest => simp [stop c rfl]

theorem readDecimal?_whole {whole : List Char} (rest : List Char) (digits : ∀ c ∈ whole, c.isDigit = true)
    (begun : whole ≠ [])
    (stop : ∀ c ∈ rest.head?, c.isDigit = false ∧ c ≠ '.') :
    readDecimal? (whole ++ rest) = (readExponent? rest).map fun exponent =>
      (Nat.ofDigitChars 10 whole 0, exponent) := by
  obtain ⟨taken, left⟩ := takeWhile_dropWhile_append rest digits (fun c first => (stop c first).1)
  have nonempty : whole.isEmpty = false := by
    cases whole with
    | nil => exact absurd rfl begun
    | cons => rfl
  unfold readDecimal?
  simp only [taken, left]
  split
  · exact absurd rfl (stop '.' rfl).2
  · simp only [nonempty, Bool.false_eq_true, false_and, if_false, List.append_nil, List.length_nil, Int.natCast_zero,
      Int.sub_zero]

theorem readDecimal?_fraction {whole fraction : List Char} (rest : List Char) (digits : ∀ c ∈ whole, c.isDigit = true)
    (places : ∀ c ∈ fraction, c.isDigit = true) (begun : whole ≠ [] ∨ fraction ≠ [])
    (stop : ∀ c ∈ rest.head?, c.isDigit = false) :
    readDecimal? (whole ++ '.' :: (fraction ++ rest)) = (readExponent? rest).map fun exponent =>
      (Nat.ofDigitChars 10 (whole ++ fraction) 0, exponent - (fraction.length : Int)) := by
  obtain ⟨taken, left⟩ := takeWhile_dropWhile_append ('.' :: (fraction ++ rest)) digits
    (fun c first => by cases first; rfl)
  obtain ⟨takenPlaces, leftPlaces⟩ := takeWhile_dropWhile_append rest places stop
  have nonempty : ¬ (whole.isEmpty = true ∧ fraction.isEmpty = true) := by
    rw [List.isEmpty_iff, List.isEmpty_iff]
    exact fun none => begun.elim (· none.1) (· none.2)
  simp only [readDecimal?, taken, left, takenPlaces, leftPlaces, nonempty, if_false]

/-- An exponent that cannot be read alone cannot be read behind other characters, because its mark is no digit. -/
theorem readExponent?_of_unfinished {back : List Char} (unfinished : readExponent? ('E' :: back) = none)
    (front : List Char) : readExponent? (front ++ 'E' :: back) = none := by
  have noDigits (digits : List Char) :
      (digits ++ 'E' :: back).isEmpty = true ∨ (!(digits ++ 'E' :: back).all Char.isDigit) = true := by
    simp
  cases front with
  | nil => exact unfinished
  | cons mark rest =>
    unfold readExponent?
    simp only [List.cons_append]
    split
    · cases rest with
      | nil => exact if_pos (noDigits [])
      | cons sign rest =>
        rw [List.cons_append]
        split
        · rename_i digits same
          rw [← (List.cons.inj same).2]
          exact if_pos (noDigits rest)
        · rename_i digits same
          rw [← (List.cons.inj same).2]
          exact if_pos (noDigits rest)
        · exact if_pos (noDigits (sign :: rest))
    · rfl

theorem dropWhile_isDigit_mark (text back : List Char) :
    (text ++ 'E' :: back).dropWhile Char.isDigit = text.dropWhile Char.isDigit ++ 'E' :: back := by
  rw [List.dropWhile_append]
  cases text.dropWhile Char.isDigit <;> rfl

/-- No numeral ends in an exponent that cannot be read. -/
theorem readDecimal?_of_unfinished {back : List Char} (unfinished : readExponent? ('E' :: back) = none)
    (front : List Char) : readDecimal? (front ++ 'E' :: back) = none := by
  unfold readDecimal?
  simp only [dropWhile_isDigit_mark]
  split
  · rename_i rest same
    obtain ⟨more, rfl⟩ : ∃ more, rest = more ++ 'E' :: back := by
      cases left : front.dropWhile Char.isDigit with
      | nil =>
        rw [left] at same
        exact absurd (List.cons.inj same).1 (by decide)
      | cons c more =>
        rw [left] at same
        exact ⟨more, (List.cons.inj same).2.symm⟩
    simp only [dropWhile_isDigit_mark, readExponent?_of_unfinished unfinished, Option.map_none, ite_self]
  · simp only [readExponent?_of_unfinished unfinished, Option.map_none, ite_self]

/-- A sign without a digit behind it leaves an exponent unfinished. -/
theorem readExponent?_sign {sign : Char} {rest : List Char} (isSign : sign = '+' ∨ sign = '-')
    (stop : ∀ c ∈ rest.head?, c.isDigit = false) : readExponent? ('E' :: sign :: rest) = none := by
  have noDigits : rest.isEmpty = true ∨ (!rest.all Char.isDigit) = true := by
    cases rest with
    | nil => exact Or.inl rfl
    | cons c rest => exact Or.inr (by rw [List.all_cons, stop c rfl]; rfl)
  rcases isSign with rfl | rfl <;> exact if_pos noDigits

theorem isDigit_of_mem_filled {width n : Nat} {c : Char}
    (member : c ∈ List.replicate width '0' ++ Nat.toDigits 10 n) : c.isDigit = true := by
  rcases List.mem_append.1 member with filler | digit
  · rw [(List.mem_replicate.1 filler).2]
    rfl
  · exact Nat.isDigit_of_mem_toDigits (by decide) (by decide) digit

theorem ofDigitChars_filled (width n : Nat) :
    Nat.ofDigitChars 10 (List.replicate width '0' ++ Nat.toDigits 10 n) 0 = n := by
  rw [Nat.ofDigitChars_append, Nat.ofDigitChars_replicate_zero, Nat.mul_zero, Nat.ofDigitChars_ten_toDigits]

theorem readExponent?_exponentText (width : Nat) (exponent : Int) :
    readExponent? ('E' :: exponentText width exponent) = some exponent := by
  have filled : (List.replicate (width - (Nat.toDigits 10 exponent.natAbs).length) '0' ++
      Nat.toDigits 10 exponent.natAbs).isEmpty = false := by
    rw [List.isEmpty_eq_false_iff, ne_eq, List.append_eq_nil_iff]
    exact fun both => Nat.toDigits_ne_nil both.2
  have digits : (List.replicate (width - (Nat.toDigits 10 exponent.natAbs).length) '0' ++
      Nat.toDigits 10 exponent.natAbs).all Char.isDigit = true :=
    List.all_eq_true.2 fun c member => isDigit_of_mem_filled member
  by_cases negative : exponent < 0
  · simp only [readExponent?, exponentText, negative, if_true, or_true, filled, digits, Bool.not_true,
      Bool.false_eq_true, or_self, if_false, ofDigitChars_filled]
    congr 1
    omega
  · simp only [readExponent?, exponentText, negative, if_true, or_true, filled, digits, Bool.not_true,
      Bool.false_eq_true, or_self, if_false, ofDigitChars_filled]
    congr 1
    omega

theorem length_filled {places n : Nat} (positive : 0 < places) (fits : n < 10 ^ places) :
    (List.replicate (places - (Nat.toDigits 10 n).length) '0' ++ Nat.toDigits 10 n).length = places := by
  have short := (Nat.length_toDigits_le_iff (by decide : 1 < 10) positive).2 fits
  rw [List.length_append, List.length_replicate]
  omega

/-- The digits of a positional form, the number that they make up, and how many of them are places. -/
theorem positional_spec (digits : Nat) (exponent : Int) :
    (∀ c ∈ (Decimal.positional digits exponent).1, c.isDigit = true) ∧
      (∀ c ∈ (Decimal.positional digits exponent).2, c.isDigit = true) ∧
      (Decimal.positional digits exponent).1 ≠ [] ∧
      Nat.ofDigitChars 10 ((Decimal.positional digits exponent).1 ++ (Decimal.positional digits exponent).2) 0 =
        digits * 10 ^ exponent.toNat ∧
      -((Decimal.positional digits exponent).2.length : Int) = exponent - exponent.toNat := by
  unfold Decimal.positional
  simp only [Nat.pow_eq]
  split_ifs with whole
  · refine ⟨fun c => Nat.isDigit_of_mem_toDigits (by decide) (by decide), nofun, Nat.toDigits_ne_nil, ?_, ?_⟩
    · rw [List.append_nil, Nat.ofDigitChars_ten_toDigits]
    · rw [List.length_nil]
      omega
  · have positive : 0 < (-exponent).toNat := by omega
    have none : exponent.toNat = 0 := by omega
    generalize atPlaces : (-exponent).toNat = places at *
    have fits : digits % 10 ^ places < 10 ^ places := Nat.mod_lt _ (by positivity)
    have length := length_filled positive fits
    refine ⟨fun c => Nat.isDigit_of_mem_toDigits (by decide) (by decide), fun c => isDigit_of_mem_filled,
      Nat.toDigits_ne_nil, ?_, ?_⟩
    · rw [Nat.ofDigitChars_append, Nat.ofDigitChars_ten_toDigits, Nat.ofDigitChars_eq_ofDigitChars_zero,
        ofDigitChars_filled, length, Nat.div_add_mod, none, pow_zero, Nat.mul_one]
    · rw [length]
      omega

/-- A decimal in positional form reads back, whether its fraction is shown or not. -/
theorem readDecimal?_positional (digits : Nat) (exponent : Int) :
    readDecimal? ((Decimal.positional digits exponent).1 ++
        (if (Decimal.positional digits exponent).2.isEmpty then []
          else '.' :: (Decimal.positional digits exponent).2)) =
      some (digits * 10 ^ exponent.toNat, exponent - exponent.toNat) := by
  obtain ⟨whole, places, begun, value, shift⟩ := positional_spec digits exponent
  rw [← value, ← shift]
  generalize Decimal.positional digits exponent = parts at *
  cases fraction : parts.2 with
  | nil =>
    have read := readDecimal?_whole [] whole begun nofun
    simpa only [List.isEmpty_nil, if_true, List.append_nil, List.length_nil, readExponent?, Option.map_some,
      Int.natCast_zero, Int.neg_zero] using read
  | cons c rest =>
    rw [fraction] at places
    have read := readDecimal?_fraction [] whole places (Or.inl begun) nofun
    simpa only [List.isEmpty_cons, Bool.false_eq_true, if_false, List.append_nil, readExponent?, Option.map_some,
      Int.zero_sub] using read

theorem toUpper_of_isDigit {c : Char} (digit : c.isDigit = true) : c.toUpper = c := by
  obtain ⟨_, high⟩ := Char.isDigit_iff_toNat.1 digit
  rw [Char.toUpper, dif_neg]
  rintro ⟨low, _⟩
  have low' : 97 ≤ c.toNat := low
  change _ ≤ 57 at high
  omega

theorem map_toUpper_of_digits {run : List Char} (digits : ∀ c ∈ run, c.isDigit = true) :
    run.map Char.toUpper = run :=
  (List.map_congr_left fun c member => toUpper_of_isDigit (digits c member)).trans (List.map_id' _)

theorem map_toUpper_exponentText (width : Nat) (exponent : Int) :
    (exponentText width exponent).map Char.toUpper = exponentText width exponent := by
  rw [exponentText, List.map_cons, map_toUpper_of_digits fun c => isDigit_of_mem_filled]
  congr 1
  split <;> decide

/-- The shape of a numeral without sign: digits, perhaps a point with digits behind it, and perhaps an exponent. -/
def IsNumeral (text : List Char) : Prop :=
  ∃ whole fraction exponent, text = whole ++ (fraction ++ exponent) ∧ whole ≠ [] ∧ (∀ c ∈ whole, c.isDigit = true) ∧
    (fraction = [] ∨ ∃ places, fraction = '.' :: places ∧ ∀ c ∈ places, c.isDigit = true) ∧
    (exponent = [] ∨ ∃ width size, exponent = 'E' :: exponentText width size)

/-- What the text of a numeral has to be for it to be read as the magnitude of a decimal. -/
def Denotes (text : List Char) (digits : Nat) (exponent : Int) : Prop :=
  IsNumeral text ∧ ∃ value shift, readDecimal? text = some (value, shift) ∧
    nearestDecimal value shift = nearestDecimal digits exponent

/-- What the text of a numeral has to be for it to be read as a decimal, perhaps with further zeros. -/
def Spells (text : List Char) (digits : Nat) (exponent : Int) : Prop :=
  IsNumeral text ∧ ∃ zeros : Nat, readDecimal? text = some (digits * 10 ^ zeros, exponent - zeros)

theorem Spells.denotes {text : List Char} {digits : Nat} {exponent : Int} (spells : Spells text digits exponent) :
    Denotes text digits exponent := by
  obtain ⟨numeral, zeros, read⟩ := spells
  refine ⟨numeral, _, _, read, ?_⟩
  rw [nearestDecimal_mul_pow, Int.sub_add_cancel]

theorem spells_positional (digits : Nat) (exponent : Int) :
    Spells ((Decimal.positional digits exponent).1 ++ (if (Decimal.positional digits exponent).2.isEmpty then []
      else '.' :: (Decimal.positional digits exponent).2)) digits exponent := by
  obtain ⟨whole, places, begun, _⟩ := positional_spec digits exponent
  refine ⟨⟨_, _, [], by rw [List.append_nil], begun, whole, ?_, Or.inl rfl⟩, _, readDecimal?_positional digits exponent⟩
  split_ifs
  · exact Or.inl rfl
  · exact Or.inr ⟨_, rfl, places⟩

theorem denotes_positional (digits : Nat) (exponent : Int) :
    Denotes ((Decimal.positional digits exponent).1 ++ (if (Decimal.positional digits exponent).2.isEmpty then []
      else '.' :: (Decimal.positional digits exponent).2)) digits exponent :=
  (spells_positional digits exponent).denotes

theorem spells_point_zero {digits : Nat} {exponent : Int} (whole : (Decimal.positional digits exponent).2 = []) :
    Spells ((Decimal.positional digits exponent).1 ++ ['.', '0']) digits exponent := by
  obtain ⟨all, _, begun, value, shift⟩ := positional_spec digits exponent
  rw [whole, List.append_nil] at value
  rw [whole, List.length_nil] at shift
  have zero : ∀ c ∈ ['0'], c.isDigit = true := fun c member => by rw [List.mem_singleton.1 member]; rfl
  refine ⟨⟨_, ['.', '0'], [], rfl, begun, all, Or.inr ⟨['0'], rfl, zero⟩, Or.inl rfl⟩, exponent.toNat + 1, ?_⟩
  have read := readDecimal?_fraction [] all zero (Or.inl begun) nofun
  have ten (n : Nat) : Nat.ofDigitChars 10 ['0'] n = n * 10 := Nat.mul_comm 10 n
  have last : (0 : Int) - (['0'].length : Int) = exponent - ((exponent.toNat + 1 : Nat) : Int) := by
    rw [List.length_singleton]
    omega
  rw [Nat.ofDigitChars_append, ten, value, readExponent?, Option.map_some, last, Nat.mul_assoc, ← pow_succ] at read
  exact read

theorem spells_scientific (width digits : Nat) (exponent : Int) {lead : Char} {rest : List Char}
    (all : Nat.toDigits 10 digits = lead :: rest) :
    Spells ([lead] ++ ((if rest.isEmpty then [] else '.' :: rest) ++
      'E' :: exponentText width (exponent + rest.length))) digits exponent := by
  have isDigit : ∀ c ∈ lead :: rest, c.isDigit = true := fun c member =>
    Nat.isDigit_of_mem_toDigits (by decide) (by decide) (all ▸ member)
  have first : ∀ c ∈ [lead], c.isDigit = true := fun c member => isDigit c (by
    rw [List.mem_singleton.1 member]
    exact List.mem_cons_self)
  have places : ∀ c ∈ rest, c.isDigit = true := fun c member => isDigit c (List.mem_cons_of_mem lead member)
  have value : Nat.ofDigitChars 10 ([lead] ++ rest) 0 = digits := by
    rw [List.singleton_append, ← all, Nat.ofDigitChars_ten_toDigits]
  have mark : ∀ c ∈ ('E' :: exponentText width (exponent + rest.length)).head?, c.isDigit = false ∧ c ≠ '.' :=
    fun c same => by cases same; decide
  refine ⟨⟨[lead], _, _, rfl, nofun, first, ?_, Or.inr ⟨_, _, rfl⟩⟩, 0, ?_⟩
  · split_ifs
    · exact Or.inl rfl
    · exact Or.inr ⟨rest, rfl, places⟩
  · rw [pow_zero, Nat.mul_one, Int.natCast_zero, Int.sub_zero]
    cases rest with
    | nil =>
      have read := readDecimal?_whole _ first nofun mark
      rw [List.append_nil] at value
      rw [readExponent?_exponentText, Option.map_some, value] at read
      simpa only [List.isEmpty_nil, if_true, List.nil_append, List.length_nil, Int.natCast_zero, Int.add_zero]
        using read
    | cons c rest =>
      have read := readDecimal?_fraction _ first places (Or.inl nofun) (fun d same => (mark d same).1)
      rw [readExponent?_exponentText, Option.map_some, value, Int.add_sub_cancel] at read
      exact read

/-- In capitals, the text of a decimal is a numeral that spells it. -/
theorem spells_unsignedText (l : Layout) (d : Decimal) :
    Spells ((unsignedText l d).map Char.toUpper) d.digits d.exponent := by
  unfold unsignedText
  dsimp only
  split_ifs with positional
  · obtain ⟨whole, places, _⟩ := positional_spec d.digits d.exponent
    have shown := spells_positional d.digits d.exponent
    have padded := @spells_point_zero d.digits d.exponent
    generalize Decimal.positional d.digits d.exponent = parts at *
    obtain ⟨before, behind⟩ := parts
    cases behind with
    | nil =>
      rw [List.map_append, map_toUpper_of_digits whole]
      exact padded rfl
    | cons c rest =>
      simp only [List.map_append, map_toUpper_of_digits whole]
      rw [List.map_cons, map_toUpper_of_digits places]
      exact shown
  · have shown := @spells_scientific l.exponentWidth d.digits d.exponent
    have isDigit : ∀ c ∈ Nat.toDigits 10 d.digits, c.isDigit = true :=
      fun c => Nat.isDigit_of_mem_toDigits (by decide) (by decide)
    unfold Decimal.leadingExponent
    generalize atDigits : Nat.toDigits 10 d.digits = digits at *
    cases digits with
    | nil => exact absurd atDigits Nat.toDigits_ne_nil
    | cons lead rest =>
      have lead' := toUpper_of_isDigit (isDigit lead List.mem_cons_self)
      have rest' := map_toUpper_of_digits fun c member => isDigit c (List.mem_cons_of_mem lead member)
      have place : d.exponent + ((lead :: rest).length : Int) - 1 = d.exponent + (rest.length : Int) := by
        rw [List.length_cons]
        push_cast
        ring
      rw [place]
      have form := shown rfl
      cases rest with
      | nil =>
        rw [List.map_cons, List.map_cons, lead', map_toUpper_exponentText]
        exact form
      | cons c rest =>
        rw [List.map_cons, List.map_cons, List.map_append, rest', List.map_cons, lead', map_toUpper_exponentText]
        exact form

theorem denotes_unsignedText (l : Layout) (d : Decimal) :
    Denotes ((unsignedText l d).map Char.toUpper) d.digits d.exponent :=
  (spells_unsignedText l d).denotes

end Reckoner.Double
