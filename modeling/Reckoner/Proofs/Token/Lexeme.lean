import Mathlib
import Reckoner.Proofs.Token.Literal
import Reckoner.Proofs.Settling
import Reckoner.Token.Scan

namespace Reckoner

/-- The class and the code of a failure, which do not depend on where it arose. -/
def Failure.category (cause : Failure) : FailureKind × String :=
  (cause.report.kind, cause.report.code)

namespace Token

variable {bound : String → Bool} {names : List String}

theorem isNumeric_of_starts {c : Char} (starts : c.isDigit = true ∨ c = '.') : isNumeric c = true := by
  rcases starts with digit | rfl
  · exact Double.isNumeric_of_isDigit digit
  · rfl

theorem isWordChar_of_startsWord {c : Char} (starts : startsWord c = true) : isWordChar c = true := by
  simp only [startsWord, isWordChar, Char.isAlphanum, Bool.or_eq_true] at starts ⊢
  tauto

/-- The search for the longest start of a word, from the best name so far on. -/
theorem longestStart?_search {word : List Char} {found : String} {rest : List String} {best : Option String}
    (good : ∀ name ∈ best, name ∈ names ∧ name.toList <+: word) (listed : ∀ name ∈ rest, name ∈ names)
    (longest : rest.foldl (fun best name =>
      if name.toList.isPrefixOf word ∧ best.all (·.length < name.length) then some name else best) best = some found) :
    (found ∈ names ∧ found.toList <+: word) ∧ (∀ name ∈ best, name.length ≤ found.length) ∧
      ∀ name ∈ rest, name.toList <+: word → name.length ≤ found.length := by
  induction rest generalizing best with
  | nil =>
    obtain rfl : best = some found := longest
    exact ⟨good found rfl, fun name isBest => by cases isBest; exact le_rfl, List.forall_mem_nil _⟩
  | cons name rest ih =>
    obtain ⟨isListed, listed⟩ := List.forall_mem_cons.1 listed
    rw [List.foldl_cons] at longest
    by_cases better : name.toList.isPrefixOf word ∧ best.all (·.length < name.length)
    · rw [if_pos better] at longest
      have starts := List.isPrefixOf_iff_prefix.1 better.1
      obtain ⟨isName, kept, later⟩ := ih (fun other isBest => by cases isBest; exact ⟨isListed, starts⟩) listed longest
      refine ⟨isName, fun earlier isBest => ?_, List.forall_mem_cons.2 ⟨fun _ => kept name rfl, later⟩⟩
      have shorter := of_decide_eq_true ((Option.all_eq_true _ _).1 better.2 earlier isBest)
      exact shorter.le.trans (kept name rfl)
    · rw [if_neg better] at longest
      obtain ⟨isName, kept, later⟩ := ih good listed longest
      refine ⟨isName, kept, List.forall_mem_cons.2 ⟨fun starts => ?_, later⟩⟩
      have passed : best.all (·.length < name.length) = false :=
        Bool.eq_false_iff.2 fun shorter => better ⟨List.isPrefixOf_iff_prefix.2 starts, shorter⟩
      cases best with
      | none => cases passed
      | some earlier => exact (Nat.le_of_not_lt (of_decide_eq_false passed)).trans (kept earlier rfl)

/-- The longest of the names that a word starts with. -/
theorem longestStart?_spec {word : List Char} {found : String} (longest : longestStart? names word = some found) :
    (found ∈ names ∧ found.toList <+: word) ∧
      ∀ other ∈ names, other.toList <+: word → other.length ≤ found.length := by
  obtain ⟨isName, _, longer⟩ := @longestStart?_search names word found names none nofun (fun _ member => member) longest
  exact ⟨isName, longer⟩

theorem longestStart?_some {word : List Char} {found : String} (longest : longestStart? names word = some found) :
    found ∈ names ∧ found.toList <+: word :=
  (longestStart?_spec longest).1

def ScanFailure (cause : Failure) : Prop :=
  cause.category = (.numeric, "3035") ∨ cause.category = (.arithmetic, "3026") ∨ cause.category = (.numeric, "3011")

theorem ofLiteral_settles (text : List Char) :
    Settles (fun cause => cause.category = (.numeric, "3035") ∨ cause.category = (.arithmetic, "3026"))
      (fun token => ∃ value, token = .number (String.ofList text) value) (ofLiteral text) := by
  unfold ofLiteral
  rcases Double.read? text with _ | value
  · exact Or.inl rfl
  · by_cases finite : value.isFinite = true
    · simp only [finite, if_true]
      exact ⟨value, rfl⟩
    · simp only [finite, Bool.false_eq_true, if_false]
      exact Or.inr rfl

/-- The token of a character that is an operator or a parenthesis. -/
def mark? (c : Char) : Option Token :=
  if c = '(' then some (.lparen "(")
  else if c = ')' then some (.rparen ")")
  else (Operator.ofChar? c).map .operator

theorem mark?_isSome_iff {c : Char} : (mark? c).isSome = true ↔ c ∈ "^*/+-()".toList := by
  unfold mark? Operator.ofChar?
  split_ifs with isOpen isClose
  · simp [isOpen]
  · simp [isClose]
  · rw [Option.isSome_map]
    split <;> simp_all

theorem mark?_cases {c : Char} {token : Token} (isMark : mark? c = some token) :
    c = '(' ∧ token = .lparen "(" ∨ c = ')' ∧ token = .rparen ")" ∨
      ∃ op, Operator.ofChar? c = some op ∧ token = .operator op := by
  unfold mark? at isMark
  split_ifs at isMark with isOpen isClose
  · exact Or.inl ⟨isOpen, (Option.some.inj isMark).symm⟩
  · exact Or.inr (Or.inl ⟨isClose, (Option.some.inj isMark).symm⟩)
  · obtain ⟨op, operator, same⟩ := Option.map_eq_some_iff.1 isMark
    exact Or.inr (Or.inr ⟨op, operator, same.symm⟩)

theorem mark?_eq_none {c : Char} (noMark : mark? c = none) : c ≠ '(' ∧ c ≠ ')' ∧ Operator.ofChar? c = none := by
  unfold mark? at noMark
  split_ifs at noMark with isOpen isClose
  exact ⟨isOpen, isClose, Option.map_eq_none_iff.1 noMark⟩

theorem lexeme_of_mark? {c : Char} {token : Token} (isMark : mark? c = some token) (position : Nat)
    (before : Option Char) (rest : List Char) : lexeme bound names position before c rest = .ok (token, 1) := by
  rcases mark?_cases isMark with ⟨rfl, rfl⟩ | ⟨rfl, rfl⟩ | ⟨op, operator, rfl⟩
  · rfl
  · rfl
  · unfold Operator.ofChar? at operator
    split at operator <;> (cases operator <;> rfl)

theorem toList_text_of_mark? {c : Char} {token : Token} (isMark : mark? c = some token) : token.text.toList = [c] := by
  rcases mark?_cases isMark with ⟨rfl, rfl⟩ | ⟨rfl, rfl⟩ | ⟨op, operator, rfl⟩
  · rfl
  · rfl
  · unfold Operator.ofChar? at operator
    split at operator <;> (cases operator <;> rfl)

theorem isWordChar_of_mark? {c : Char} {token : Token} (isMark : mark? c = some token) : isWordChar c = false := by
  rcases mark?_cases isMark with ⟨rfl, rfl⟩ | ⟨rfl, rfl⟩ | ⟨op, operator, rfl⟩
  · rfl
  · rfl
  · unfold Operator.ofChar? at operator
    split at operator <;> first | rfl | cases operator

/-- The word at the start of a text. -/
def wordOf (text : List Char) : List Char :=
  text.takeWhile isWordChar

/-- How a token comes from its place: from the character before it and the text that starts with it. -/
inductive ReadsAs (bound : String → Bool) (names : List String) (before : Option Char) : List Char → Token → Prop
  | number {c rest} (value : Float) (starts : c.isDigit = true ∨ c = '.') :
      ReadsAs bound names before (c :: rest) (.number (String.ofList (literal (c :: rest))) value)
  | mark {c rest token} (isMark : mark? c = some token) : ReadsAs bound names before (c :: rest) token
  | name {c rest} (starts : startsWord c = true) :
      ReadsAs bound names before (c :: rest)
        (.name (String.ofList (wordOf (c :: rest))) (before.any isWordChar))
  | function {c rest found} (starts : startsWord c = true)
      (longest : longestStart? (names.filter (· ≠ "")) (wordOf (c :: rest)) = some found)
      (unbound : ¬ (bound (String.ofList (wordOf (c :: rest))) = true ∧ (!before.any isWordChar) = true)) :
      ReadsAs bound names before (c :: rest) (.function found)

namespace ReadsAs

variable {before : Option Char} {text : List Char} {token : Token}

/-- A word is taken whole or up to the end of a function's name. -/
theorem isWordChar_of_word (reads : ReadsAs bound names before text token)
    (noNumber : ∀ literal value, token ≠ .number literal value) (noMark : ∀ c, mark? c ≠ some token) {c : Char}
    (member : c ∈ token.text.toList) : isWordChar c = true := by
  cases reads with
  | number value starts => exact absurd rfl (noNumber _ value)
  | mark isMark => exact absurd isMark (noMark _)
  | name starts =>
    rw [Token.text, String.toList_ofList] at member
    exact List.mem_takeWhile_imp member
  | function starts longest unbound =>
    exact List.mem_takeWhile_imp ((longestStart?_some longest).2.subset member)

theorem toList_prefix (reads : ReadsAs bound names before text token) : token.text.toList <+: text := by
  cases reads with
  | number value starts =>
    rw [Token.text, String.toList_ofList, literal_cons (isNumeric_of_starts starts)]
    exact List.cons_prefix_cons.2 ⟨rfl, literalAfter_prefix _ _⟩
  | mark isMark =>
    rw [toList_text_of_mark? isMark]
    exact List.cons_prefix_cons.2 ⟨rfl, List.nil_prefix⟩
  | name starts =>
    rw [Token.text, String.toList_ofList]
    exact List.takeWhile_prefix isWordChar
  | function starts longest unbound => exact (longestStart?_some longest).2.trans (List.takeWhile_prefix isWordChar)

theorem toList_ne_nil (reads : ReadsAs bound names before text token) : token.text.toList ≠ [] := by
  cases reads with
  | number value starts =>
    rw [Token.text, String.toList_ofList, literal_cons (isNumeric_of_starts starts)]
    exact List.cons_ne_nil _ _
  | mark isMark =>
    rw [toList_text_of_mark? isMark]
    exact List.cons_ne_nil _ _
  | name starts =>
    rw [Token.text, String.toList_ofList, wordOf, List.takeWhile_cons_of_pos (isWordChar_of_startsWord starts)]
    exact List.cons_ne_nil _ _
  | function starts longest unbound =>
    have filled := (List.mem_filter.1 (longestStart?_some longest).1).2
    exact fun none => of_decide_eq_true filled (String.toList_eq_nil_iff.1 none)

theorem of_name {word : String} {attached : Bool} (reads : ReadsAs bound names before text (.name word attached)) :
    word = String.ofList (wordOf text) ∧ attached = before.any isWordChar := by
  cases reads with
  | mark isMark => rcases mark?_cases isMark with ⟨_, same⟩ | ⟨_, same⟩ | ⟨_, _, same⟩ <;> cases same
  | name starts => exact ⟨rfl, rfl⟩

theorem of_function {found : String} (reads : ReadsAs bound names before text (.function found)) :
    longestStart? (names.filter (· ≠ "")) (wordOf text) = some found := by
  cases reads with
  | mark isMark => rcases mark?_cases isMark with ⟨_, same⟩ | ⟨_, same⟩ | ⟨_, _, same⟩ <;> cases same
  | function starts longest unbound => exact longest

end ReadsAs

/-- Why there is no token at a place: the numeral there is no double, or the character there begins nothing. -/
inductive Unreadable (position : Nat) : List Char → Failure → Prop
  | numeral {c rest cause} (starts : c.isDigit = true ∨ c = '.')
      (stops : ofLiteral (literal (c :: rest)) = .error cause) : Unreadable position (c :: rest) cause
  | foreign {c rest} (noNumber : ¬ (c.isDigit = true ∨ c = '.')) (noMark : mark? c = none)
      (noWord : startsWord c = false) : Unreadable position (c :: rest) (.unexpectedCharacter c position)

theorem readNumber_reads {c : Char} (starts : c.isDigit = true ∨ c = '.') (position : Nat) (before : Option Char)
    (rest : List Char) :
    Settles (Unreadable position (c :: rest))
      (fun found => ReadsAs bound names before (c :: rest) found.1 ∧ found.2 = found.1.text.toList.length)
      (readNumber (c :: rest)) := by
  rw [readNumber]
  cases isToken : ofLiteral (literal (c :: rest)) with
  | error cause => exact .numeral starts isToken
  | ok token =>
    obtain ⟨value, rfl⟩ := (ofLiteral_settles _).of_ok isToken
    exact ⟨.number value starts, by rw [text, String.toList_ofList]⟩

/-- What is read at a place, with its length, and what can stop the reading there. -/
theorem lexeme_reads (position : Nat) (before : Option Char) (c : Char) (rest : List Char) :
    Settles (Unreadable position (c :: rest))
      (fun found => ReadsAs bound names before (c :: rest) found.1 ∧ found.2 = found.1.text.toList.length)
      (lexeme bound names position before c rest) := by
  cases isMark : mark? c with
  | some token =>
    rw [lexeme_of_mark? isMark]
    exact ⟨.mark isMark, by rw [toList_text_of_mark? isMark]; rfl⟩
  | none =>
    obtain ⟨noOpen, noClose, noOperator⟩ := mark?_eq_none isMark
    unfold lexeme
    by_cases starts : c.isDigit = true ∨ c = '.'
    · rw [if_pos starts]
      exact readNumber_reads starts position before rest
    rw [if_neg starts, if_neg noOpen, if_neg noClose, noOperator]
    by_cases isStart : startsWord c = true
    · have wordLength {attached : Bool} : ((c :: rest).takeWhile isWordChar).length =
          (name (String.ofList (wordOf (c :: rest))) attached).text.toList.length := by
        rw [text, String.toList_ofList, wordOf]
      simp only [isStart, if_true]
      by_cases isBound : bound (String.ofList ((c :: rest).takeWhile isWordChar)) = true ∧
          (!before.any isWordChar) = true
      · have free : before.any isWordChar = false := by simpa using isBound.2
        rw [if_pos isBound]
        exact ⟨free ▸ .name isStart, wordLength⟩
      · rw [if_neg isBound]
        cases longest : longestStart? (names.filter (· ≠ "")) ((c :: rest).takeWhile isWordChar) with
        | none => exact ⟨.name isStart, wordLength⟩
        | some found => exact ⟨.function isStart longest isBound, String.length_toList.symm⟩
    · simp only [isStart, Bool.false_eq_true, if_false]
      exact .foreign starts isMark (Bool.eq_false_iff.2 isStart)

theorem readsAs_of_lexeme {position length : Nat} {before : Option Char} {c : Char} {rest : List Char} {token : Token}
    (read : lexeme bound names position before c rest = .ok (token, length)) :
    ReadsAs bound names before (c :: rest) token ∧ length = token.text.toList.length :=
  (lexeme_reads position before c rest).of_ok read

/-- A token takes characters that are there, and a function is one of the names. -/
theorem lexeme_settles (position : Nat) (before : Option Char) (c : Char) (rest : List Char) :
    Settles ScanFailure (fun found => found.2 ≤ rest.length + 1 ∧ ∀ name, found.1 = .function name → name ∈ names)
      (lexeme bound names position before c rest) := by
  refine (lexeme_reads position before c rest).mono (fun cause unreadable => ?_) ?_
  · cases unreadable with
    | numeral starts stops => exact ((ofLiteral_settles _).of_error stops).imp_right Or.inl
    | foreign => exact Or.inr (Or.inr rfl)
  · rintro found ⟨reads, taken⟩
    refine ⟨taken.trans_le reads.toList_prefix.length_le, fun name isFunction => ?_⟩
    rw [isFunction] at reads
    exact List.mem_of_mem_filter (longestStart?_some reads.of_function).1

end Token

end Reckoner
