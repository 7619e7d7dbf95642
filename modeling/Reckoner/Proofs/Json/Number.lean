import Mathlib
import Reckoner.Json.Printer
import Reckoner.Json.Reader
import Reckoner.Proofs.Double.Text

namespace Reckoner

namespace Json

/-- What may stand behind a printed value: nothing, a comma, or the end of the line. -/
def Stops (rest : List Char) : Prop := ∀ c ∈ rest.head?, c = ',' ∨ c = '\n'

theorem Stops.isDigit {rest : List Char} (stops : Stops rest) : ∀ c ∈ rest.head?, c.isDigit = false := by
  intro c first
  rcases stops c first with rfl | rfl <;> rfl

/-- The digits of a number are all read, and none of what follows. -/
theorem wholeDigits_append (n : Nat) {rest : List Char} (stop : ∀ c ∈ rest.head?, c.isDigit = false) :
    wholeDigits (Nat.toDigits 10 n ++ rest) = Nat.toDigits 10 n := by
  rcases Nat.eq_zero_or_pos n with rfl | positive
  · rfl
  · have noZero := Double.head?_toDigits_ne_zero positive
    have isDigit : ∀ c ∈ Nat.toDigits 10 n, c.isDigit = true := fun c =>
      Nat.isDigit_of_mem_toDigits (by decide) (by decide)
    obtain ⟨lead, others, all⟩ := List.exists_cons_of_ne_nil (@Nat.toDigits_ne_nil n 10)
    rw [all] at noZero isDigit ⊢
    have other : lead ≠ '0' := fun zero => noZero (congrArg some zero)
    rw [List.cons_append, wholeDigits, if_neg other, if_pos (isDigit lead List.mem_cons_self),
      (Double.takeWhile_dropWhile_append rest (fun c member => isDigit c (List.mem_cons_of_mem lead member)) stop).1]

theorem fractionPart_append {places rest : List Char} (more : places ≠ []) (digits : ∀ c ∈ places, c.isDigit = true)
    (stop : ∀ c ∈ rest.head?, c.isDigit = false) : fractionPart ('.' :: places ++ rest) = '.' :: places := by
  rw [List.cons_append, fractionPart, (Double.takeWhile_dropWhile_append rest digits stop).1]
  exact if_neg (by rwa [List.isEmpty_iff])

theorem fractionPart_of_head?_ne {text : List Char} (other : text.head? ≠ some '.') : fractionPart text = [] := by
  unfold fractionPart
  split
  · exact absurd rfl other
  · rfl

theorem exponentPart_append (width : Nat) (size : Int) {rest : List Char}
    (stop : ∀ c ∈ rest.head?, c.isDigit = false) :
    exponentPart ('e' :: Double.exponentText width size ++ rest) = 'e' :: Double.exponentText width size := by
  have filled : ∀ c ∈ List.replicate (width - (Nat.toDigits 10 size.natAbs).length) '0' ++ Nat.toDigits 10 size.natAbs,
      c.isDigit = true := fun c => Double.isDigit_of_mem_filled
  have begun : (List.replicate (width - (Nat.toDigits 10 size.natAbs).length) '0' ++
      Nat.toDigits 10 size.natAbs).isEmpty = false := by
    rw [List.isEmpty_eq_false_iff]
    exact List.append_ne_nil_of_right_ne_nil _ Nat.toDigits_ne_nil
  have taken := (Double.takeWhile_dropWhile_append rest filled stop).1
  have sign : (if size < 0 then '-' else '+') = '-' ∨ (if size < 0 then '-' else '+') = '+' := by
    split_ifs
    · exact Or.inl rfl
    · exact Or.inr rfl
  generalize atDigits : List.replicate (width - (Nat.toDigits 10 size.natAbs).length) '0' ++
    Nat.toDigits 10 size.natAbs = digits at *
  rw [Double.exponentText, atDigits, List.cons_append, List.cons_append, exponentPart, if_pos (Or.inl rfl)]
  simp only [sign, if_true, List.length_singleton, List.drop_succ_cons, List.drop_zero, taken, begun,
    Bool.false_eq_true, if_false, List.singleton_append]

theorem exponentPart_of_stops {rest : List Char} (stops : Stops rest) : exponentPart rest = [] := by
  cases rest with
  | nil => rfl
  | cons c rest =>
    rcases stops c rfl with rfl | rfl <;> rfl

/-- The parts of a written number, as they are read: a whole part, a fraction or none, and an exponent or none. -/
structure NumberParts (whole fraction exponent : List Char) (size : Nat) : Prop where
  whole_digits : whole = Nat.toDigits 10 size
  fraction_places : fraction = [] ∨ ∃ places, fraction = '.' :: places ∧ places ≠ [] ∧ ∀ c ∈ places, c.isDigit = true
  exponent_size : exponent = [] ∨ ∃ width shift, exponent = 'e' :: Double.exponentText width shift

namespace NumberParts

variable {whole fraction exponent rest : List Char} {size : Nat}

theorem wholeDigits_eq (parts : NumberParts whole fraction exponent size) (stops : Stops rest) :
    wholeDigits (whole ++ (fraction ++ (exponent ++ rest))) = whole := by
  rw [parts.whole_digits]
  refine wholeDigits_append size fun c first => ?_
  rcases parts.fraction_places with rfl | ⟨places, rfl, _⟩
  · rcases parts.exponent_size with rfl | ⟨width, shift, rfl⟩
    · exact stops.isDigit c first
    · cases first
      rfl
  · cases first
    rfl

theorem fractionPart_eq (parts : NumberParts whole fraction exponent size) (stops : Stops rest) :
    fractionPart (fraction ++ (exponent ++ rest)) = fraction := by
  rcases parts.fraction_places with rfl | ⟨places, rfl, more, digits⟩
  · refine fractionPart_of_head?_ne fun point => ?_
    rcases parts.exponent_size with rfl | ⟨width, shift, rfl⟩
    · rcases stops '.' point with same | same <;> exact absurd same (by decide)
    · exact absurd (Option.some.inj point) (by decide)
  · refine fractionPart_append more digits fun c first => ?_
    rcases parts.exponent_size with rfl | ⟨width, shift, rfl⟩
    · exact stops.isDigit c first
    · cases first
      rfl

theorem exponentPart_eq (parts : NumberParts whole fraction exponent size) (stops : Stops rest) :
    exponentPart (exponent ++ rest) = exponent := by
  rcases parts.exponent_size with rfl | ⟨width, shift, rfl⟩
  · exact exponentPart_of_stops stops
  · exact exponentPart_append width shift stops.isDigit

theorem exists_whole_eq_cons (parts : NumberParts whole fraction exponent size) :
    ∃ lead others, whole = lead :: others ∧ lead.isDigit = true := by
  rw [parts.whole_digits]
  exact Double.exists_toDigits_eq_cons size

/-- A number is read in its parts. -/
theorem readNumber_eq (parts : NumberParts whole fraction exponent size) (stops : Stops rest) (negative : Bool) :
    ∃ left, readNumber ((if negative then ['-'] else []) ++ (whole ++ (fraction ++ (exponent ++ rest)))) =
      if fraction.isEmpty ∧ exponent.isEmpty then
        if digitLimit < whole.length then .error ⟨.tooManyDigits, left⟩
        else .ok (.whole (if negative then -size else size), rest)
      else
        match Double.readDecimal? (whole ++ (fraction ++ exponent)) with
        | some (digits, power) => .ok (.real (Double.ofMagnitude negative (Double.nearestDecimal digits power)), rest)
        | none => .error ⟨.expectingValue, left⟩ := by
  obtain ⟨lead, others, begins, digit⟩ := parts.exists_whole_eq_cons
  have nonempty : whole.isEmpty = false := by rw [begins]; rfl
  have value : Nat.ofDigitChars 10 whole 0 = size := by rw [parts.whole_digits, Nat.ofDigitChars_ten_toDigits]
  refine ⟨((if negative then ['-'] else []) ++ (whole ++ (fraction ++ (exponent ++ rest)))).length, ?_⟩
  unfold readNumber
  split
  rename_i sign body same
  have parted : sign = negative ∧ body = whole ++ (fraction ++ (exponent ++ rest)) := by
    cases negative with
    | true =>
      cases same
      exact ⟨rfl, rfl⟩
    | false =>
      split at same
      · rename_i minus
        rw [begins] at minus
        obtain ⟨rfl, _⟩ := List.cons.inj minus
        exact Bool.noConfusion digit
      · cases same
        exact ⟨rfl, rfl⟩
  obtain ⟨rfl, rfl⟩ := parted
  cases read : Double.readDecimal? (whole ++ (fraction ++ exponent)) <;>
    simp only [parts.wholeDigits_eq stops, List.drop_left, parts.fractionPart_eq stops, parts.exponentPart_eq stops,
      nonempty, value, Bool.false_eq_true, if_false, List.append_assoc, read]

end NumberParts

/-- What starts like a number is none of the words. -/
theorem readScalar_of_digit {lead : Char} (digit : lead.isDigit = true) (negative : Bool) (others : List Char) :
    readScalar ((if negative then ['-'] else []) ++ lead :: others) =
      readNumber ((if negative then ['-'] else []) ++ lead :: others) := by
  have apart : lead ≠ 'n' ∧ lead ≠ 't' ∧ lead ≠ 'f' ∧ lead ≠ 'N' ∧ lead ≠ 'I' ∧ lead ≠ '-' := by
    refine ⟨?_, ?_, ?_, ?_, ?_, ?_⟩ <;>
    · rintro rfl
      exact Bool.noConfusion digit
  have noWord (pair : String × Value) (member : pair ∈ words) :
      ¬ pair.1.toList.isPrefixOf ((if negative then ['-'] else []) ++ lead :: others) = true := by
    obtain ⟨n, t, f, capitalN, capitalI, minus⟩ := apart
    fin_cases member <;> cases negative <;>
      simp [n.symm, t.symm, f.symm, capitalN.symm, capitalI.symm, minus.symm]
  rw [readScalar, List.find?_eq_none.2 noWord]

theorem readScalar_word {word : String} {value : Value} (member : (word, value) ∈ words) (rest : List Char) :
    readScalar (word.toList ++ rest) = .ok (value, rest) := by
  simp only [words, List.mem_cons, List.not_mem_nil, or_false, Prod.mk.injEq] at member
  rcases member with ⟨rfl, rfl⟩ | ⟨rfl, rfl⟩ | ⟨rfl, rfl⟩ | ⟨rfl, rfl⟩ | ⟨rfl, rfl⟩ | ⟨rfl, rfl⟩ <;> rfl

theorem toList_toString (value : Int) :
    (toString value).toList = (if decide (value < 0) then ['-'] else []) ++ Nat.toDigits 10 value.natAbs := by
  cases value with
  | ofNat size =>
    have positive : ¬ Int.ofNat size < 0 := Int.not_lt.2 (Int.natCast_nonneg size)
    rw [decide_eq_false positive, if_neg Bool.false_ne_true]
    exact String.toList_ofList
  | negSucc size =>
    rw [decide_eq_true (Int.negSucc_lt_zero size), if_pos rfl]
    change ("-" ++ Nat.repr (size + 1)).toList = _
    rw [String.toList_append]
    exact congrArg _ String.toList_ofList

/-- A printed whole number is read back, unless it has more digits than are converted. -/
theorem readScalar_whole (value : Int) {rest : List Char} (stops : Stops rest) :
    ∃ left, readScalar ((toString value).toList ++ rest) =
      if digitLimit < (Nat.toDigits 10 value.natAbs).length then .error ⟨.tooManyDigits, left⟩
      else .ok (.whole value, rest) := by
  have parts : NumberParts (Nat.toDigits 10 value.natAbs) [] [] value.natAbs := ⟨rfl, Or.inl rfl, Or.inl rfl⟩
  obtain ⟨lead, others, begins, digit⟩ := parts.exists_whole_eq_cons
  obtain ⟨left, reads⟩ := parts.readNumber_eq stops (decide (value < 0))
  have same : (if decide (value < 0) then -(value.natAbs : Int) else value.natAbs) = value := by
    by_cases negative : value < 0
    · rw [decide_eq_true negative, if_pos rfl]
      omega
    · rw [decide_eq_false negative, if_neg Bool.false_ne_true]
      omega
  rw [List.nil_append, List.nil_append, same] at reads
  simp only [List.isEmpty_nil, and_self, if_true] at reads
  refine ⟨left, ?_⟩
  rw [toList_toString, List.append_assoc, ← reads, begins]
  exact readScalar_of_digit digit _ _

theorem readScalar_chars {x : Float} {rest : List Char} (finite : x.isFinite = true) (stops : Stops rest) :
    readScalar (Double.chars x ++ rest) = .ok (.real x, rest) := by
  obtain ⟨whole, fraction, exponent, written⟩ := Double.isWritten_unsignedText Double.layout (Double.toDecimal x)
  obtain ⟨size, atWhole⟩ := written.whole_digits
  have parts : NumberParts whole fraction exponent size := ⟨atWhole, written.fraction_places, written.exponent_size⟩
  obtain ⟨lead, others, begins, digit⟩ := parts.exists_whole_eq_cons
  obtain ⟨left, reads⟩ := parts.readNumber_eq stops (Double.isNegative x)
  obtain ⟨digits, power, read, value⟩ := Double.readDecimal?_unsignedText Double.layout (Double.toDecimal x)
  rw [written.parts] at read
  have notWhole : ¬ (fraction.isEmpty = true ∧ exponent.isEmpty = true) := by
    rw [List.isEmpty_iff, List.isEmpty_iff]
    exact fun both => written.not_whole.elim (fun more => more both.1) fun more => more both.2
  rw [if_neg notWhole, read] at reads
  simp only [value, Double.nearestDecimal_toDecimal finite, Double.ofMagnitude_self] at reads
  rw [Double.chars_of_isFinite finite, written.parts, ← reads, begins]
  simp only [List.append_assoc, List.cons_append]
  exact readScalar_of_digit digit _ _

/-- A printed double is read back, whether it is finite or not. -/
theorem readScalar_printReal (x : Float) {rest : List Char} (stops : Stops rest) :
    readScalar (printReal x ++ rest) = .ok (.real x, rest) := by
  cases finite : x.isFinite with
  | true =>
    rw [printReal, Double.not_isNaN_of_isFinite finite, finite]
    exact readScalar_chars finite stops
  | false =>
    have named {word : String} (shown : printReal x = word.toList) (member : (word, Value.real x) ∈ words) :
        readScalar (printReal x ++ rest) = .ok (.real x, rest) := by
      rw [shown, readScalar_word member]
    rcases Double.eq_of_not_isFinite finite with rfl | rfl | rfl
    · exact named (by decide +kernel) (List.mem_of_getElem? (rfl : words[3]? = _))
    · exact named (by decide +kernel) (List.mem_of_getElem? (rfl : words[4]? = _))
    · exact named (by decide +kernel) (List.mem_of_getElem? (rfl : words[5]? = _))

end Json

end Reckoner
