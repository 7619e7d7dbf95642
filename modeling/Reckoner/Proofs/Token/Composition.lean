import Mathlib
import Reckoner.Proofs.Token.Scan

namespace Reckoner

namespace Token

variable {bound : String → Bool} {names : List String}

/-- A character that is a token by itself, and ends every word and every numeral before it. -/
structure Parts (c : Char) (token : Token) : Prop where
  noWord : isWordChar c = false
  ends : ∀ before rest, before ≠ 'E' → literalAfter before (c :: rest) = []
  alone : ∀ bound names position before rest, lexeme bound names position before c rest = .ok (token, 1)
  noEquals : c ≠ '='

theorem parts_of_mark? {c : Char} {token : Token} (isMark : mark? c = some token) : Parts c token where
  noWord := isWordChar_of_mark? isMark
  ends before rest other := by
    rcases mark?_cases isMark with ⟨rfl, _⟩ | ⟨rfl, _⟩ | ⟨op, operator, _⟩
    · rfl
    · rfl
    · rw [literalAfter, if_neg fun both => both.2 ⟨by rw [isOperatorChar, operator]; rfl, other⟩]
  alone _ _ := lexeme_of_mark? isMark
  noEquals := by
    rintro rfl
    cases isMark

theorem readNumber_append {c d : Char} {token : Token} {text : List Char} {found : Token × Nat} (parts : Parts c token)
    (starts : d.isDigit = true ∨ d = '.') (read : readNumber (d :: text) = .ok found) (rest : List Char) :
    readNumber (d :: (text ++ c :: rest)) = .ok found := by
  have first := isNumeric_of_starts starts
  rw [readNumber, literal_cons first] at read ⊢
  rw [literalAfter_append (c :: rest), read]
  intro whole
  have numeric : ∀ e ∈ text, isNumeric e = true := fun e member =>
    isNumeric_of_mem_literalAfter (whole.symm ▸ member : e ∈ literalAfter d text)
  rw [whole] at read
  cases isToken : ofLiteral (d :: text) with
  | ok token => exact parts.ends _ rest (getLastD_ne_mark starts numeric isToken)
  | error cause =>
    rw [isToken] at read
    cases read

theorem lexeme_append_of_ok {c d : Char} {token : Token} {text : List Char} {position : Nat} {before : Option Char}
    {found : Token × Nat} (parts : Parts c token) (read : lexeme bound names position before d text = .ok found)
    (rest : List Char) : lexeme bound names position before d (text ++ c :: rest) = .ok found := by
  have word := takeWhile_isWordChar_append parts.noWord (d :: text) rest
  rw [List.cons_append] at word
  unfold lexeme at read ⊢
  by_cases starts : d.isDigit = true ∨ d = '.'
  · rw [if_pos starts] at read ⊢
    exact readNumber_append parts starts read rest
  · rw [if_neg starts] at read ⊢
    rwa [word]

/-- A text that is scanned keeps its tokens in front of an operator or a parenthesis. -/
theorem scanFrom_append_of_ok {c : Char} {token : Token} {text rest : List Char} {skip position : Nat}
    {before : Option Char} {first second : List Token} (parts : Parts c token) (within : skip ≤ text.length)
    (scannedText : scanFrom bound names skip position before text = .ok first)
    (scannedRest : scanFrom bound names 0 0 none rest = .ok second) :
    scanFrom bound names skip position before (text ++ c :: rest) = .ok (first ++ token :: second) := by
  induction text generalizing skip position before first with
  | nil =>
    obtain rfl : skip = 0 := Nat.le_zero.1 within
    cases scannedText
    have behind : scanFrom bound names 0 (position + 1) (some c) rest = .ok second :=
      scanFrom_of_start scannedRest (position + 1) parts.noWord
    rw [List.nil_append, scanFrom, parts.alone]
    exact bind_eq_ok.2 ⟨_, rfl, bind_eq_ok.2 ⟨second, behind, rfl⟩⟩
  | cons d text ih =>
    cases skip with
    | succ skip => exact ih (Nat.le_of_succ_le_succ within) scannedText
    | zero =>
      rw [scanFrom] at scannedText
      obtain ⟨⟨found, length⟩, read, scannedText⟩ := bind_eq_ok.1 scannedText
      obtain ⟨others, later, same⟩ := bind_eq_ok.1 scannedText
      cases same
      have short := ((lexeme_settles position before d text).of_ok read).1
      have behind := ih (by simp only at short; omega) later
      rw [List.cons_append, scanFrom, lexeme_append_of_ok parts read]
      exact bind_eq_ok.2 ⟨_, rfl, bind_eq_ok.2 ⟨_, behind, rfl⟩⟩

/-- Two expressions that are scanned are scanned to the same tokens on the two sides of an operator or a parenthesis.
The first must not end in an equals sign, which would stand in the middle. -/
theorem scan_append_mark {one other : String} {c : Char} {token : Token} {first second : List Token}
    (isMark : mark? c = some token) (plain : one.toList.getLast? ≠ some '=')
    (scannedOne : scan bound names one = .ok first) (scannedOther : scan bound names other = .ok second) :
    scan bound names (one ++ String.singleton c ++ other) = .ok (first ++ token :: second) := by
  have parts := parts_of_mark? isMark
  have whole : (one ++ String.singleton c ++ other).toList = one.toList ++ c :: other.toList := by
    simp only [String.toList_append, String.toList_singleton, List.append_assoc, List.singleton_append]
  rw [scan, dropEquals_of_getLast?_ne plain] at scannedOne
  rw [scan, whole, dropEquals_append parts.noEquals]
  exact scanFrom_append_of_ok parts (Nat.zero_le _) scannedOne scannedOther

/-- A name that ends in the mark of exponents, before a sign and an exponent. -/
theorem scan_name_plus_exponent :
    scan (· = "xE") ["sin"] ("2xE" ++ String.singleton '+' ++ "sin1E-5=") =
      .ok ([.number "2" 2.0, .name "xE" true] ++ .operator .plus :: [.function "sin", .number "1E-5" 1e-5]) := by
  have left : scan (· = "xE") ["sin"] "2xE" = .ok [.number "2" 2.0, .name "xE" true] :=
    scan_of_mapError (by decide +kernel)
  have right : scan (· = "xE") ["sin"] "sin1E-5=" = .ok [.function "sin", .number "1E-5" 1e-5] :=
    scan_of_mapError (by decide +kernel)
  exact scan_append_mark rfl (by decide) left right

end Token

end Reckoner
