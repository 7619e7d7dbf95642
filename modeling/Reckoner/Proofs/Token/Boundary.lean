import Mathlib
import Reckoner.Proofs.Token.Lossless

namespace Reckoner.Token

variable {bound : String → Bool} {names : List String}

/-- A text whose last character is part of no word and no point. -/
def EndsApart (text : List Char) : Prop :=
  ∀ c ∈ text.getLast?, isWordChar c = false ∧ c ≠ '.'

theorem EndsApart.of_cons {c : Char} {text : List Char} (apart : EndsApart (c :: text)) : EndsApart text := by
  cases text with
  | nil => exact nofun
  | cons d text => rwa [EndsApart, List.getLast?_cons_cons] at apart

theorem isWordChar_of_isDigit {c : Char} (digit : c.isDigit = true) : isWordChar c = true := by
  simp only [isWordChar, Char.isAlphanum, digit, Bool.or_true, Bool.true_or]

theorem isDigit_of_startsWord {c : Char} (starts : startsWord c = true) : c.isDigit = false :=
  Bool.eq_false_iff.2 fun digit => absurd starts (Bool.eq_false_iff.1 (startsWord_of_isDigit digit))

theorem eq_sign_of_isNumeric {c : Char} (numeric : isNumeric c = true) (noWord : isWordChar c = false)
    (noPoint : c ≠ '.') : c = '+' ∨ c = '-' := by
  simp only [isNumeric, Bool.or_eq_true, decide_eq_true_eq] at numeric
  rcases numeric with (((digit | point) | mark) | plus) | minus
  · exact absurd (isWordChar_of_isDigit digit) (Bool.eq_false_iff.1 noWord)
  · exact absurd point noPoint
  · exact absurd noWord (by rw [mark]; decide)
  · exact Or.inl plus
  · exact Or.inr minus

theorem head?_literalAfter {before c : Char} {rest : List Char} (first : c ∈ (literalAfter before rest).head?) :
    c ∈ rest.head? := by
  cases rest with
  | nil => exact first
  | cons d rest =>
    rw [literalAfter] at first
    split at first
    · exact first
    · cases first

/-- A number is read in the same way whatever follows its text, apart from the text that a failure tells. -/
theorem readNumber_boundary {c : Char} {text rest : List Char} (starts : c.isDigit = true ∨ c = '.')
    (apart : EndsApart (c :: text)) (stop : ∀ d ∈ rest.head?, d.isDigit = false) :
    (readNumber (c :: (text ++ rest))).mapError Failure.category =
      (readNumber (c :: text)).mapError Failure.category := by
  have first := isNumeric_of_starts starts
  rw [readNumber, readNumber, literal_cons first, literal_cons first]
  by_cases whole : literalAfter c text = text
  · rcases List.eq_nil_or_concat text with rfl | ⟨front, last, rfl⟩
    · obtain ⟨noWord, noPoint⟩ := apart c rfl
      rcases starts with digit | point
      · exact absurd (isWordChar_of_isDigit digit) (Bool.eq_false_iff.1 noWord)
      · exact absurd point noPoint
    · rw [List.concat_eq_append] at apart whole ⊢
      obtain ⟨noWord, noPoint⟩ := apart last (by rw [← List.cons_append, List.getLast?_concat]; rfl)
      have numeric : isNumeric last = true := isNumeric_of_mem_literalAfter (whole.symm ▸ List.mem_concat_self)
      have isSign := eq_sign_of_isNumeric numeric noWord noPoint
      have alone := ofLiteral_of_sign starts isSign whole [] (List.forall_mem_nil _) (by simp)
      have further := ofLiteral_of_sign starts isSign whole (literalAfter ((front ++ [last]).getLastD c) rest)
        (fun d => isNumeric_of_mem_literalAfter) fun d isFirst => stop d (head?_literalAfter isFirst)
      rw [List.append_nil] at alone
      rw [literalAfter_append_of_whole rest whole, whole, alone, further]
      rfl
  · rw [literalAfter_append rest fun reaches => absurd reaches whole]

theorem lexeme_boundary {position : Nat} {before : Option Char} {c : Char} {text rest : List Char}
    (apart : EndsApart (c :: text)) (stop : ∀ d ∈ rest.head?, d.isDigit = false) :
    (lexeme bound names position before c (text ++ rest)).mapError Failure.category =
      (lexeme bound names position before c text).mapError Failure.category := by
  have word : (c :: (text ++ rest)).takeWhile isWordChar = (c :: text).takeWhile isWordChar := by
    obtain ⟨front, last, whole⟩ := (List.eq_nil_or_concat (c :: text)).resolve_left (List.cons_ne_nil c text)
    rw [List.concat_eq_append] at whole
    have noWord := (apart last (by rw [whole, List.getLast?_concat]; rfl)).1
    rw [← List.cons_append, whole, List.append_assoc, List.singleton_append, takeWhile_isWordChar_append noWord,
      takeWhile_isWordChar_append noWord]
  unfold lexeme
  by_cases starts : c.isDigit = true ∨ c = '.'
  · rw [if_pos starts, if_pos starts]
    exact readNumber_boundary starts apart stop
  · rw [if_neg starts, if_neg starts, word]

/-- Scanning up to a boundary, then what follows it. -/
theorem scanFrom_boundary {text rest : List Char} {skip : Nat} (position : Nat) (before : Option Char)
    (apart : EndsApart text) (stop : ∀ c ∈ rest.head?, c.isDigit = false) (within : skip ≤ text.length) :
    (scanFrom bound names skip position before (text ++ rest)).mapError Failure.category =
      (do
        let first ← scanFrom bound names skip position before text
        let second ← scanFrom bound names 0 (position + text.length) (text.getLast?.or before) rest
        return first ++ second).mapError Failure.category := by
  induction text generalizing skip position before with
  | nil =>
    obtain rfl : skip = 0 := Nat.le_zero.1 within
    rw [List.nil_append, scanFrom]
    exact congrArg _ (bind_pure _).symm
  | cons c text ih =>
    have further {skip : Nat} (within : skip ≤ text.length) :
        (scanFrom bound names skip (position + 1) (some c) (text ++ rest)).mapError Failure.category =
          (do
            let first ← scanFrom bound names skip (position + 1) (some c) text
            let second ← scanFrom bound names 0 (position + (c :: text).length) ((c :: text).getLast?.or before) rest
            return first ++ second).mapError Failure.category := by
      have place : position + (c :: text).length = position + 1 + text.length := by
        rw [List.length_cons]
        omega
      rw [getLast?_cons_or, place]
      exact ih (position + 1) (some c) apart.of_cons within
    cases skip with
    | succ skip => exact further (Nat.le_of_succ_le_succ within)
    | zero =>
      have one := @lexeme_boundary bound names position before c text rest apart stop
      rw [List.cons_append, scanFrom, scanFrom, bind_assoc]
      refine mapError_bind_congr one fun found read => ?_
      have short := ((lexeme_settles position before c text).of_ok read).1
      have later := @further (found.2 - 1) (by omega)
      have behind := mapError_bind_congr_left later fun tokens => return found.1 :: tokens
      simp only [bind_assoc, pure_bind, List.cons_append] at behind ⊢
      exact behind

/-- A bound name that is a whole word is read as a name, also where functions begin like it. -/
theorem lexeme_wholeWord {position : Nat} {done others rest : List Char} {c : Char}
    (whole : WholeWord done (c :: others) rest) (isBound : bound (String.ofList (c :: others)) = true) :
    lexeme bound names position done.getLast? c (others ++ rest) =
      .ok (.name (String.ofList (c :: others)) false, (c :: others).length) := by
  obtain ⟨_, ⟨⟩, starts⟩ := whole.starts
  have isWord := isWordChar_of_startsWord starts
  have noNumber : ¬ (c.isDigit = true ∨ c = '.') := by
    rintro (digit | rfl)
    · exact absurd digit (Bool.eq_false_iff.1 (isDigit_of_startsWord starts))
    · exact absurd isWord (by decide)
  have noMark : mark? c = none := Option.eq_none_iff_forall_ne_some.2 fun token isMark =>
    absurd isWord (Bool.eq_false_iff.1 (isWordChar_of_mark? isMark))
  obtain ⟨noOpen, noClose, noOperator⟩ := mark?_eq_none noMark
  have word : (c :: (others ++ rest)).takeWhile isWordChar = c :: others := wordOf_append whole.chars whole.freeBehind
  have free := any_isWordChar_eq_false.2 whole.freeBefore
  rw [lexeme, if_neg noNumber, if_neg noOpen, if_neg noClose, noOperator]
  simp only [starts, if_true, word, isBound, free, Bool.not_false, and_self]

/-- A bound name that is a whole word behind a boundary is a token of its own. -/
theorem scanFrom_wholeWord {done word rest : List Char} (position : Nat) {previous : Option Char}
    (apart : EndsApart done) (whole : WholeWord done word rest) (isBound : bound (String.ofList word) = true) :
    (scanFrom bound names 0 0 none (done ++ (word ++ rest))).mapError Failure.category =
      (do
        let first ← scanFrom bound names 0 0 none done
        let last ← scanFrom bound names 0 position previous rest
        return first ++ Token.name (String.ofList word) false :: last).mapError Failure.category := by
  obtain ⟨c, others, rfl, starts⟩ := whole.exists_cons
  have stop : ∀ d ∈ ((c :: others) ++ rest).head?, d.isDigit = false := by
    rintro _ ⟨⟩
    exact isDigit_of_startsWord starts
  rw [scanFrom_boundary 0 none apart stop (Nat.zero_le _), Option.or_none]
  refine mapError_bind_congr rfl fun first _ => ?_
  have one : scanFrom bound names 0 (0 + done.length) done.getLast? (c :: others ++ rest) = (do
      let last ← scanFrom bound names (c :: others).length (0 + done.length) none (c :: others ++ rest)
      return Token.name (String.ofList (c :: others)) false :: last) := by
    rw [List.cons_append, scanFrom, lexeme_wholeWord whole isBound]
    rfl
  have passed := @scanFrom_run bound names (c :: others) rest (0 + done.length) none
  have behind := @scanFrom_mapError bound names rest 0 (0 + done.length + (c :: others).length) position
    ((c :: others).getLast?.or none) previous fun d isFirst starts =>
      absurd (isWordChar_of_startsWord starts) (Bool.eq_false_iff.1 (whole.freeBehind d isFirst))
  rw [one, passed, bind_assoc]
  exact mapError_bind_congr_left behind _

theorem head?_dropEquals {text : List Char} {c : Char} (first : c ∈ (dropEquals text).head?) : c ∈ text.head? := by
  unfold dropEquals at first
  split at first
  · cases text with
    | nil => exact first
    | cons d rest =>
      cases rest with
      | nil => cases first
      | cons e rest => exact first
  · exact first

/-- In an expression a bound name that is a whole word behind a boundary is a token of its own. -/
theorem scan_wholeWord {before name after : String} (position : Nat) (previous : Option Char)
    (apart : before.toList.getLast? ≠ some '.') (whole : WholeWord before.toList name.toList after.toList)
    (isBound : bound name = true) :
    (scan bound names (before ++ name ++ after)).mapError Failure.category =
      (do
        let first ← scanFrom bound names 0 0 none before.toList
        let last ← scanFrom bound names 0 position previous (dropEquals after.toList)
        return first ++ Token.name name false :: last).mapError Failure.category := by
  have endsApart : EndsApart before.toList := fun c isLast =>
    ⟨whole.freeBefore c isLast, by rintro rfl; exact apart isLast⟩
  have wholeDropped : WholeWord before.toList name.toList (dropEquals after.toList) :=
    ⟨whole.starts, whole.chars, whole.freeBefore, fun c first => whole.freeBehind c (head?_dropEquals first)⟩
  have text : dropEquals (before ++ name ++ after).toList =
      before.toList ++ (name.toList ++ dropEquals after.toList) := by
    obtain ⟨c, others, begun, _⟩ := whole.exists_cons
    obtain ⟨front, last, split⟩ := (List.eq_nil_or_concat name.toList).resolve_left (begun ▸ List.cons_ne_nil c others)
    have noEquals : last ≠ '=' := by
      rintro rfl
      exact absurd (whole.chars '=' (by rw [split]; simp)) (by decide)
    have dropped := dropEquals_append noEquals (before.toList ++ front) after.toList
    rw [String.toList_append, String.toList_append, split]
    simpa using dropped
  have read := @scanFrom_wholeWord bound names _ _ _ position previous endsApart wholeDropped
    (by rwa [String.ofList_toList])
  rwa [String.ofList_toList, ← text] at read

end Reckoner.Token
