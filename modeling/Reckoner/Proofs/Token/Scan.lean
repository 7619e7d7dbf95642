import Mathlib
import Reckoner.Proofs.Token.Lexeme

namespace Reckoner

deriving instance DecidableEq for Token

namespace Token

variable {bound : String → Bool} {names : List String}

/-- A character that ends what stands before it and is a token by itself. -/
structure Stands (c : Char) (token : Token) : Prop where
  noNumber : isNumeric c = false
  noWord : isWordChar c = false
  alone : ∀ bound names position before rest, lexeme bound names position before c rest = .ok (token, 1)

theorem stands_open : Stands '(' (.lparen "(") :=
  ⟨rfl, rfl, fun _ _ => lexeme_of_mark? rfl⟩

theorem stands_close : Stands ')' (.rparen ")") :=
  ⟨rfl, rfl, fun _ _ => lexeme_of_mark? rfl⟩

theorem takeWhile_isWordChar_append {c : Char} (stop : isWordChar c = false) (text rest : List Char) :
    (text ++ c :: rest).takeWhile isWordChar = text.takeWhile isWordChar := by
  induction text with
  | nil => simp [stop]
  | cons d text ih =>
    cases word : isWordChar d <;> simp [word, ih]

theorem lexeme_append {c : Char} {token : Token} (stands : Stands c token) (position : Nat) (before : Option Char)
    (d : Char) (text rest : List Char) :
    lexeme bound names position before d (text ++ c :: rest) = lexeme bound names position before d text := by
  have word := takeWhile_isWordChar_append stands.noWord (d :: text) rest
  rw [List.cons_append] at word
  unfold lexeme
  by_cases starts : d.isDigit = true ∨ d = '.'
  · have isNumber := isNumeric_of_starts starts
    rw [if_pos starts, if_pos starts, readNumber, readNumber, literal_cons isNumber, literal_cons isNumber,
      literalAfter_append_of_stop stands.noNumber]
  · rw [if_neg starts, if_neg starts, word]

/-- Scanning up to a separate character, then the character, then what follows it. -/
theorem scanFrom_append {c : Char} {token : Token} (stands : Stands c token) (text rest : List Char)
    (skip position : Nat)
    (before : Option Char) (within : skip ≤ text.length) :
    scanFrom bound names skip position before (text ++ c :: rest) = (do
      let first ← scanFrom bound names skip position before text
      let second ← scanFrom bound names 0 (position + text.length + 1) (some c) rest
      return first ++ token :: second) := by
  induction text generalizing skip position before with
  | nil =>
    obtain rfl : skip = 0 := Nat.le_zero.1 within
    rw [List.nil_append, scanFrom.eq_3, stands.alone, scanFrom.eq_1]
    rfl
  | cons d text ih =>
    have further : position + (d :: text).length + 1 = position + 1 + text.length + 1 := by
      rw [List.length_cons]
      omega
    rw [List.cons_append, further]
    cases skip with
    | succ skip =>
      rw [scanFrom, scanFrom]
      exact ih skip (position + 1) (some d) (Nat.le_of_succ_le_succ within)
    | zero =>
      rw [scanFrom, scanFrom, lexeme_append stands]
      rcases read : lexeme bound names position before d text with cause | ⟨first, length⟩
      · rfl
      · have short := ((lexeme_settles position before d text).of_ok read).1
        have later := ih (length - 1) (position + 1) (some d) (by simp only at short; omega)
        change (do
          let tokens ← scanFrom bound names (length - 1) (position + 1) (some d) (text ++ c :: rest)
          return first :: tokens) = (do
          let tokens ← scanFrom bound names (length - 1) (position + 1) (some d) text
          return first :: tokens) >>= _
        rw [later]
        simp only [bind_assoc, pure_bind, List.cons_append]

theorem dropEquals_of_getLast?_ne {text : List Char} (other : text.getLast? ≠ some '=') : dropEquals text = text :=
  if_neg other

theorem dropEquals_append {c : Char} (other : c ≠ '=') (text rest : List Char) :
    dropEquals (text ++ c :: rest) = text ++ c :: dropEquals rest := by
  have last : (text ++ c :: rest).getLast? = (c :: rest).getLast? :=
    List.getLast?_append_of_ne_nil text (List.cons_ne_nil c rest)
  unfold dropEquals
  rw [last]
  cases rest with
  | nil =>
    have stays : ¬ [c].getLast? = some '=' := fun same => other (Option.some.inj same)
    rw [if_neg stays, if_neg nofun]
  | cons d rest =>
    rw [List.getLast?_cons_cons]
    split
    · rw [List.dropLast_append_cons, List.dropLast_cons_cons]
    · rfl

/-- Tokens of texts that are scanned can be compared, whatever is known of failures. -/
theorem scan_of_mapError {expression : String} {tokens : List Token}
    (scanned : (scan bound names expression).mapError (fun _ => ()) = .ok tokens) :
    scan bound names expression = .ok tokens :=
  mapError_eq_ok.1 scanned

/-- The functions that a scan finds are names, and few things can go wrong. -/
theorem scanFrom_settles (text : List Char) (skip position : Nat) (before : Option Char) :
    Settles ScanFailure (fun tokens => ∀ name, .function name ∈ tokens → name ∈ names)
      (scanFrom bound names skip position before text) := by
  induction text generalizing skip position before with
  | nil => cases skip <;> exact fun _ member => nomatch member
  | cons c rest ih =>
    cases skip with
    | succ skip => exact ih skip (position + 1) (some c)
    | zero =>
      rw [scanFrom]
      refine (lexeme_settles position before c rest).bind fun found spec => ?_
      refine (ih (found.2 - 1) (position + 1) (some c)).bind fun tokens listed => ?_
      intro name member
      rcases List.mem_cons.1 member with same | later
      · exact spec.2 name same.symm
      · exact listed name later

theorem lexeme_mapError (position other : Nat) {before previous : Option Char} {c : Char} (rest : List Char)
    (same : startsWord c = true → before.any isWordChar = previous.any isWordChar) :
    (lexeme bound names position before c rest).mapError Failure.category =
      (lexeme bound names other previous c rest).mapError Failure.category := by
  unfold lexeme
  by_cases starts : startsWord c = true
  · rw [same starts]
    split_ifs <;> rfl
  · simp only [starts, Bool.false_eq_true, if_false]
    split_ifs <;> try rfl
    rcases Operator.ofChar? c with _ | op <;> rfl

/-- Scanning goes the same wherever a text stands, apart from the position that a failure tells. -/
theorem scanFrom_mapError (text : List Char) (skip position other : Nat) {before previous : Option Char}
    (same : ∀ c ∈ text.head?, startsWord c = true → before.any isWordChar = previous.any isWordChar) :
    (scanFrom bound names skip position before text).mapError Failure.category =
      (scanFrom bound names skip other previous text).mapError Failure.category := by
  induction text generalizing skip position other before previous with
  | nil => cases skip <;> rfl
  | cons c rest ih =>
    cases skip with
    | succ skip => exact ih skip (position + 1) (other + 1) fun _ _ _ => rfl
    | zero =>
      rw [scanFrom, scanFrom]
      refine mapError_bind_congr (lexeme_mapError position other rest (same c rfl)) fun found _ => ?_
      exact mapError_bind_congr_left (ih (found.2 - 1) (position + 1) (other + 1) fun _ _ _ => rfl) _

/-- A text that is scanned at the start is scanned to the same wherever it stands behind no word. -/
theorem scanFrom_of_start {text : List Char} {tokens : List Token} {before : Option Char}
    (scanned : scanFrom bound names 0 0 none text = .ok tokens) (position : Nat)
    (noWord : before.any isWordChar = false) :
    scanFrom bound names 0 position before text = .ok tokens := by
  have view := @scanFrom_mapError bound names text 0 position 0 before none fun _ _ _ => noWord
  rw [scanned] at view
  exact mapError_eq_ok.1 view

end Token

end Reckoner
