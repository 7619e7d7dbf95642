import Mathlib
import Reckoner.Proofs.Evaluation.Alphabet
import Reckoner.Proofs.Token.Composition

namespace Reckoner.Token

variable {bound : String → Bool} {names : List String}

/-- The text that tokens were read from, one after the other. -/
def spelled (tokens : List Token) : List Char :=
  tokens.flatMap (·.text.toList)

@[simp] theorem spelled_nil : spelled [] = [] := rfl

@[simp] theorem spelled_cons (token : Token) (tokens : List Token) :
    spelled (token :: tokens) = token.text.toList ++ spelled tokens := rfl

@[simp] theorem spelled_append (front back : List Token) : spelled (front ++ back) = spelled front ++ spelled back :=
  List.flatMap_append

/-- Every character of a spelled text belongs to one token. -/
theorem exists_token_of_spelled {tokens : List Token} {before rest : List Char} {c : Char}
    (whole : spelled tokens = before ++ c :: rest) :
    ∃ front token back inside after, tokens = front ++ token :: back ∧ before = spelled front ++ inside ∧
      token.text.toList = inside ++ c :: after := by
  induction tokens generalizing before with
  | nil => exact absurd whole.symm (List.append_ne_nil_of_right_ne_nil before (List.cons_ne_nil c rest))
  | cons token tokens ih =>
    have further {more : List Char} (split : before = token.text.toList ++ more)
        (later : spelled tokens = more ++ c :: rest) :
        ∃ front other back inside after, token :: tokens = front ++ other :: back ∧ before = spelled front ++ inside ∧
          other.text.toList = inside ++ c :: after := by
      obtain ⟨front, other, back, inside, after, rfl, rfl, text⟩ := ih later
      exact ⟨token :: front, other, back, inside, after, rfl, by rw [split, spelled_cons, List.append_assoc], text⟩
    rw [spelled_cons] at whole
    rcases List.append_eq_append_iff.1 whole with ⟨more, split, later⟩ | ⟨more, text, later⟩
    · exact further split later
    · cases more with
      | nil =>
        rw [List.append_nil] at text
        exact @further [] (by rw [text, List.append_nil]) later.symm
      | cons d more =>
        obtain ⟨rfl, -⟩ := List.cons.inj later
        exact ⟨[], token, tokens, before, more, rfl, rfl, text⟩

theorem startsWord_of_isDigit {c : Char} (digit : c.isDigit = true) : startsWord c = false := by
  obtain ⟨low, high⟩ := Char.isDigit_iff_toNat.1 digit
  change 48 ≤ _ at low
  change _ ≤ 57 at high
  have other : c ≠ '_' := by
    rintro rfl
    exact absurd digit (by decide)
  have upper : c.isUpper = false := Bool.eq_false_iff.2 fun letter => by
    have bounds : 65 ≤ c.toNat ∧ c.toNat ≤ 90 := by simpa [Char.isUpper, UInt32.le_iff_toNat_le] using letter
    omega
  have lower : c.isLower = false := Bool.eq_false_iff.2 fun letter => by
    have bounds : 97 ≤ c.toNat ∧ c.toNat ≤ 122 := by simpa [Char.isLower, UInt32.le_iff_toNat_le] using letter
    omega
  simp only [startsWord, Char.isAlpha, upper, lower, other, decide_false, Bool.or_false]

/-- A bound name that is a whole word is read as a name. -/
theorem ReadsAs.eq_name {before : Option Char} {c : Char} {rest : List Char} {token : Token}
    (reads : ReadsAs bound names before (c :: rest) token) (starts : startsWord c = true)
    (free : before.any isWordChar = false) (isBound : bound (String.ofList (wordOf (c :: rest))) = true) :
    token = .name (String.ofList (wordOf (c :: rest))) false := by
  cases reads with
  | number value digit =>
    rcases digit with digit | rfl
    · exact absurd starts (Bool.eq_false_iff.1 (startsWord_of_isDigit digit))
    · exact absurd starts (by decide)
  | mark isMark =>
    exact absurd (isWordChar_of_startsWord starts) (Bool.eq_false_iff.1 (isWordChar_of_mark? isMark))
  | name _ => rw [free]
  | function _ longest unbound => exact absurd ⟨isBound, by rw [free]; rfl⟩ unbound

theorem getLast?_cons_or (c : Char) (text : List Char) (before : Option Char) :
    (c :: text).getLast?.or before = text.getLast?.or (some c) := by
  rw [List.getLast?_cons]
  cases text.getLast? <;> rfl

/-- Characters that belong to a token already read are passed over. -/
theorem scanFrom_run (run rest : List Char) (position : Nat) (before : Option Char) :
    scanFrom bound names run.length position before (run ++ rest) =
      scanFrom bound names 0 (position + run.length) (run.getLast?.or before) rest := by
  induction run generalizing position before with
  | nil => rfl
  | cons c run ih =>
    have further : position + (c :: run).length = position + 1 + run.length := by
      rw [List.length_cons]
      omega
    rw [getLast?_cons_or, further, ← ih]
    rfl

/-- The characters of a token are passed over once it is read. -/
theorem scanFrom_passed {c : Char} {rest behind : List Char} {token : Token} (filled : token.text.toList ≠ [])
    (whole : token.text.toList ++ behind = c :: rest) (position : Nat) :
    scanFrom bound names (token.text.toList.length - 1) (position + 1) (some c) rest =
      scanFrom bound names 0 (position + token.text.toList.length) token.text.toList.getLast? behind := by
  obtain ⟨d, run, isRun⟩ := List.exists_cons_of_ne_nil filled
  rw [isRun] at whole ⊢
  cases whole
  have passed := @scanFrom_run bound names (c :: run) behind position none
  rw [Option.or_none] at passed
  exact passed

/-- A text that is scanned starts with its first token, and goes on with what the others are scanned from. -/
theorem scanFrom_eq_ok_cons {text : List Char} {position : Nat} {before : Option Char} {token : Token}
    {tokens : List Token} (scanned : scanFrom bound names 0 position before text = .ok (token :: tokens)) :
    ReadsAs bound names before text token ∧ ∃ behind, text = token.text.toList ++ behind ∧
      scanFrom bound names 0 (position + token.text.toList.length) token.text.toList.getLast? behind = .ok tokens := by
  cases text with
  | nil => cases scanned
  | cons c rest =>
    rw [scanFrom] at scanned
    obtain ⟨⟨first, length⟩, read, scanned⟩ := bind_eq_ok.1 scanned
    obtain ⟨others, later, same⟩ := bind_eq_ok.1 scanned
    cases same
    obtain ⟨reads, rfl⟩ := readsAs_of_lexeme read
    obtain ⟨behind, whole⟩ := reads.toList_prefix
    exact ⟨reads, behind, whole.symm, (scanFrom_passed reads.toList_ne_nil whole position).symm.trans later⟩

/-- The texts of the tokens, one after the other, are the text that was scanned. -/
theorem spelled_of_scanFrom {text : List Char} {position : Nat} {before : Option Char} {tokens : List Token}
    (scanned : scanFrom bound names 0 position before text = .ok tokens) : spelled tokens = text := by
  induction tokens generalizing text position before with
  | nil =>
    cases text with
    | nil => rfl
    | cons c rest =>
      rw [scanFrom] at scanned
      obtain ⟨_, _, scanned⟩ := bind_eq_ok.1 scanned
      obtain ⟨_, _, same⟩ := bind_eq_ok.1 scanned
      cases same
  | cons token tokens ih =>
    obtain ⟨_, behind, rfl, later⟩ := scanFrom_eq_ok_cons scanned
    rw [spelled_cons, ih later]

/-- Every token is the one that its place in the text gives. -/
theorem readsAs_of_scanFrom {text : List Char} {position : Nat} {before : Option Char} {front back : List Token}
    {token : Token} (scanned : scanFrom bound names 0 position before text = .ok (front ++ token :: back)) :
    ReadsAs bound names ((spelled front).getLast?.or before) (token.text.toList ++ spelled back) token := by
  induction front generalizing text position before with
  | nil =>
    have whole := spelled_of_scanFrom scanned
    have reads := (scanFrom_eq_ok_cons scanned).1
    rwa [← whole, List.nil_append, spelled_cons] at reads
  | cons first front ih =>
    obtain ⟨reads, behind, rfl, later⟩ := scanFrom_eq_ok_cons scanned
    have last : (first.text.toList ++ spelled front).getLast?.or before =
        (spelled front).getLast?.or first.text.toList.getLast? := by
      obtain ⟨c, run, isRun⟩ := List.exists_cons_of_ne_nil reads.toList_ne_nil
      rw [List.getLast?_append, isRun, List.getLast?_cons]
      cases (spelled front).getLast? <;> rfl
    rw [spelled_cons, last]
    exact ih later

/-- A word in a text, with no character of words on either side. -/
structure WholeWord (before word rest : List Char) : Prop where
  starts : ∃ c ∈ word.head?, startsWord c = true
  chars : ∀ c ∈ word, isWordChar c = true
  freeBefore : ∀ c ∈ before.getLast?, isWordChar c = false
  freeBehind : ∀ c ∈ rest.head?, isWordChar c = false

theorem WholeWord.exists_cons {before word rest : List Char} (whole : WholeWord before word rest) :
    ∃ c others, word = c :: others ∧ startsWord c = true := by
  obtain ⟨c, first, starts⟩ := whole.starts
  obtain ⟨others, rfl⟩ := List.head?_eq_some_iff.1 first
  exact ⟨c, others, rfl, starts⟩

/-- Whether the character at a position of the scanned text belongs to a number. -/
def InNumber (tokens : List Token) (position : Nat) : Prop :=
  ∃ front literal value back, tokens = front ++ .number literal value :: back ∧
    (spelled front).length ≤ position ∧ position < (spelled front).length + literal.length

/-- What holds of the tokens that a text is read into. -/
structure Faithful (bound : String → Bool) (names : List String) (text : List Char) (tokens : List Token) : Prop where
  spelled_eq : spelled tokens = text
  /-- A function is the longest of the names that the word at its place starts with. -/
  function : ∀ front found back, tokens = front ++ .function found :: back →
    found ∈ names ∧ found.toList <+: wordOf (found.toList ++ spelled back) ∧
      ∀ other ∈ names, other.toList <+: wordOf (found.toList ++ spelled back) → other.length ≤ found.length
  /-- A name goes on up to the end of its word. -/
  name : ∀ front word attached back, tokens = front ++ .name word attached :: back →
    ∀ c ∈ (spelled back).head?, isWordChar c = false
  attached : ∀ front word attached back, tokens = front ++ .name word attached :: back →
    (attached = false ↔ ∀ c ∈ (spelled front).getLast?, isWordChar c = false)
  /-- A bound name that stands as a whole word outside numbers is a name by itself. -/
  bound_name : ∀ before word rest, text = before ++ (word ++ rest) → WholeWord before word rest →
    bound (String.ofList word) = true → ¬ InNumber tokens before.length →
    ∃ front back, tokens = front ++ .name (String.ofList word) false :: back ∧ spelled front = before ∧
      spelled back = rest

/-- A failure that tells the first character of a text that cannot stand in expressions. -/
def Foreign (text : List Char) (cause : Failure) : Prop :=
  ∃ before c rest, text = before ++ c :: rest ∧ cause = .unexpectedCharacter c before.length ∧ isLegible c = false ∧
    ∀ d ∈ before, isLegible d = true

theorem isLegible_iff {c : Char} : isLegible c = true ↔
    c.isDigit = true ∨ c = '.' ∨ c ∈ "^*/+-()".toList ∨ c.isAlpha = true ∨ c = '_' := by
  have operators : isOperatorChar c = true ↔ c = '^' ∨ c = '*' ∨ c = '/' ∨ c = '+' ∨ c = '-' := by
    unfold isOperatorChar Operator.ofChar?
    split <;> simp_all
  have marks : c ∈ "^*/+-()".toList ↔ c = '^' ∨ c = '*' ∨ c = '/' ∨ c = '+' ∨ c = '-' ∨ c = '(' ∨ c = ')' := by
    simp
  by_cases isMark : c = 'E'
  · rw [isMark]
    decide
  · simp only [isLegible, isNumeric, isWordChar, Char.isAlphanum, Bool.or_eq_true, decide_eq_true_eq, operators, marks,
      isMark]
    grind

theorem any_isWordChar_eq_false {before : Option Char} :
    before.any isWordChar = false ↔ ∀ c ∈ before, isWordChar c = false := by
  cases before <;> simp

theorem head?_of_wordOf {word rest : List Char} (whole : wordOf (word ++ rest) = word) :
    ∀ c ∈ rest.head?, isWordChar c = false := by
  have all : ∀ c ∈ word, isWordChar c = true := fun c member =>
    List.mem_takeWhile_imp (whole.symm ▸ member : c ∈ wordOf (word ++ rest))
  rw [wordOf, List.takeWhile_append_of_pos all] at whole
  have none := List.append_right_eq_self.1 whole
  cases rest with
  | nil =>
    intro c member
    cases member
  | cons c rest =>
    rintro d same
    cases same
    cases word : isWordChar c with
    | false => rfl
    | true =>
      rw [List.takeWhile_cons_of_pos word] at none
      exact absurd none (List.cons_ne_nil _ _)

theorem wordOf_append {word rest : List Char} (chars : ∀ c ∈ word, isWordChar c = true)
    (free : ∀ c ∈ rest.head?, isWordChar c = false) : wordOf (word ++ rest) = word := by
  rw [wordOf, List.takeWhile_append_of_pos chars]
  cases rest with
  | nil => exact List.append_nil word
  | cons c rest => rw [List.takeWhile_cons_of_neg (Bool.eq_false_iff.1 (free c rfl)), List.append_nil]

/-- Outside numbers and behind no word, a token begins: one that reached beyond the place would be a word, with a
character of words before the place. -/
theorem exists_front_of_free {before rest : List Char} {c : Char} {tokens : List Token}
    (scanned : scanFrom bound names 0 0 none (before ++ c :: rest) = .ok tokens)
    (free : ∀ d ∈ before.getLast?, isWordChar d = false) (outside : ¬ InNumber tokens before.length) :
    ∃ front token back, tokens = front ++ token :: back ∧ spelled front = before := by
  obtain ⟨front, token, back, inside, after, rfl, rfl, isText⟩ :=
    exists_token_of_spelled (spelled_of_scanFrom scanned)
  refine ⟨front, token, back, rfl, ?_⟩
  by_contra apart
  have begun : inside ≠ [] := by
    rintro rfl
    exact apart (List.append_nil _).symm
  have notNumber : ∀ literal value, token ≠ .number literal value := by
    rintro literal value rfl
    have size : literal.length = inside.length + (after.length + 1) := by
      rw [← String.length_toList, ← List.length_cons (a := c), ← List.length_append, ← isText]
      rfl
    refine outside ⟨front, literal, value, back, rfl, ?_, ?_⟩ <;> rw [List.length_append] <;> omega
  have noMark : ∀ d, mark? d ≠ some token := by
    intro d isMark
    have alone := congrArg List.length (isText.symm.trans (toList_text_of_mark? isMark))
    have longer := List.length_pos_of_ne_nil begun
    rw [List.length_append, List.length_cons, List.length_singleton] at alone
    omega
  have last := List.getLast?_eq_some_getLast begun
  have noWord := free (inside.getLast begun) (by rw [List.getLast?_append, last]; rfl)
  have member : inside.getLast begun ∈ token.text.toList := isText ▸ List.mem_append_left _ (List.getLast_mem begun)
  have reads := readsAs_of_scanFrom scanned
  exact absurd (reads.isWordChar_of_word notNumber noMark member) (Bool.eq_false_iff.1 noWord)

/-- A bound name that stands as a whole word has a token of its own. -/
theorem exists_name_of_wholeWord {before word rest : List Char} {tokens : List Token}
    (scanned : scanFrom bound names 0 0 none (before ++ (word ++ rest)) = .ok tokens)
    (whole : WholeWord before word rest)
    (isBound : bound (String.ofList word) = true) (outside : ¬ InNumber tokens before.length) :
    ∃ front back, tokens = front ++ .name (String.ofList word) false :: back ∧ spelled front = before ∧
      spelled back = rest := by
  obtain ⟨c, others, rfl, starts⟩ := whole.exists_cons
  obtain ⟨front, token, back, rfl, rfl⟩ := exists_front_of_free scanned whole.freeBefore outside
  have text := spelled_of_scanFrom scanned
  rw [spelled_append, spelled_cons, List.append_cancel_left_eq] at text
  have reads := readsAs_of_scanFrom scanned
  have wordIs := wordOf_append whole.chars whole.freeBehind
  rw [Option.or_none, text, List.cons_append] at reads
  rw [List.cons_append] at wordIs
  have isName := reads.eq_name starts (any_isWordChar_eq_false.2 whole.freeBefore) (by rwa [wordIs])
  rw [wordIs] at isName
  refine ⟨front, back, by rw [isName], rfl, ?_⟩
  rwa [isName, Token.text, String.toList_ofList, List.append_cancel_left_eq] at text

theorem faithful_of_scanFrom {text : List Char} {tokens : List Token}
    (scanned : scanFrom bound names 0 0 none text = .ok tokens) : Faithful bound names text tokens where
  spelled_eq := spelled_of_scanFrom scanned
  function := by
    rintro front found back rfl
    have longest := (readsAs_of_scanFrom scanned).of_function
    obtain ⟨⟨listed, begins⟩, longer⟩ := longestStart?_spec longest
    refine ⟨List.mem_of_mem_filter listed, begins, fun other isListed starts => ?_⟩
    by_cases blank : other = ""
    · rw [blank]
      exact Nat.zero_le _
    · exact longer other (List.mem_filter.2 ⟨isListed, decide_eq_true blank⟩) starts
  name := by
    rintro front word attached back rfl
    have whole := (readsAs_of_scanFrom scanned).of_name.1
    exact head?_of_wordOf (String.ofList_inj.1 (whole.symm.trans String.ofList_toList.symm))
  attached := by
    rintro front word attached back rfl
    have isAttached := (readsAs_of_scanFrom scanned).of_name.2
    rw [isAttached, Option.or_none]
    exact any_isWordChar_eq_false
  bound_name := by
    rintro before word rest rfl whole isBound outside
    exact exists_name_of_wholeWord scanned whole isBound outside

theorem code_ne_of_ofLiteral {text : List Char} {cause : Failure} (stops : ofLiteral text = .error cause) :
    cause.report.code ≠ "3011" := by
  rcases (ofLiteral_settles text).of_error stops with unread | enormous
  · exact ne_of_eq_of_ne (congrArg Prod.snd unread) (by decide)
  · exact ne_of_eq_of_ne (congrArg Prod.snd enormous) (by decide)

/-- A token that cannot be read because of its first character. -/
theorem lexeme_eq_error {position : Nat} {before : Option Char} {c : Char} {rest : List Char} {cause : Failure}
    (stops : lexeme bound names position before c rest = .error cause) (code : cause.report.code = "3011") :
    cause = .unexpectedCharacter c position ∧ isLegible c = false := by
  cases (lexeme_reads position before c rest).of_error stops with
  | numeral starts unread => exact absurd code (code_ne_of_ofLiteral unread)
  | foreign noNumber noMark noWord =>
    refine ⟨rfl, Bool.eq_false_iff.2 fun legible => ?_⟩
    obtain ⟨noLetter, noUnderscore⟩ := Bool.or_eq_false_iff.1 noWord
    rcases isLegible_iff.1 legible with digit | point | mark | letter | underscore
    · exact noNumber (Or.inl digit)
    · exact noNumber (Or.inr point)
    · exact absurd (mark?_isSome_iff.2 mark) (by rw [noMark]; decide)
    · exact absurd letter (Bool.eq_false_iff.1 noLetter)
    · exact absurd underscore (of_decide_eq_false noUnderscore)

/-- A scan that meets a character that cannot stand in expressions has read everything before it. -/
theorem foreign_of_scanFrom {text : List Char} {skip position : Nat} {before : Option Char} {cause : Failure}
    (stops : scanFrom bound names skip position before text = .error cause) (code : cause.report.code = "3011")
    (passed : ∀ c ∈ text.take skip, isLegible c = true) :
    ∃ front c rest, text = front ++ c :: rest ∧ cause = .unexpectedCharacter c (position + front.length) ∧
      isLegible c = false ∧ ∀ d ∈ front, isLegible d = true := by
  induction text generalizing skip position before with
  | nil => cases skip <;> cases stops
  | cons c rest ih =>
    have further {skip : Nat} (stops : scanFrom bound names skip (position + 1) (some c) rest = .error cause)
        (first : isLegible c = true) (passed : ∀ d ∈ rest.take skip, isLegible d = true) :
        ∃ front d behind, c :: rest = front ++ d :: behind ∧
          cause = .unexpectedCharacter d (position + front.length) ∧
          isLegible d = false ∧ ∀ e ∈ front, isLegible e = true := by
      obtain ⟨front, d, behind, rfl, same, foreign, legible⟩ := ih stops passed
      refine ⟨c :: front, d, behind, rfl, ?_, foreign, List.forall_mem_cons.2 ⟨first, legible⟩⟩
      rw [same, List.length_cons, Nat.add_assoc, Nat.add_comm 1]
    cases skip with
    | succ skip =>
      obtain ⟨first, later⟩ := List.forall_mem_cons.1 passed
      exact further stops first later
    | zero =>
      rw [scanFrom] at stops
      rcases bind_eq_error.1 stops with stopped | ⟨⟨token, length⟩, read, stops⟩
      · obtain ⟨same, foreign⟩ := lexeme_eq_error stopped code
        exact ⟨[], c, rest, rfl, same, foreign, List.forall_mem_nil _⟩
      · obtain ⟨first, taken⟩ := (lexeme_legible position before c rest).of_ok read
        rcases bind_eq_error.1 stops with stopped | ⟨tokens, _, same⟩
        · refine further stopped first ?_
          cases length with
          | zero => exact List.forall_mem_nil _
          | succ length => exact (List.forall_mem_cons.1 taken).2
        · cases same

/-- Scanning is faithful to the text without its equals sign. If it meets a character that cannot stand in expressions,
it tells the first one. -/
theorem scan_lossless (bound : String → Bool) (names : List String) (expression : String) :
    Settles (fun cause => cause.report.code = "3011" → Foreign (dropEquals expression.toList) cause)
      (Faithful bound names (dropEquals expression.toList)) (scan bound names expression) := by
  cases scanned : scan bound names expression with
  | ok tokens => exact faithful_of_scanFrom scanned
  | error cause =>
    intro code
    obtain ⟨before, c, rest, text, same, foreign, legible⟩ :=
      foreign_of_scanFrom scanned code (List.forall_mem_nil _)
    exact ⟨before, c, rest, text, by rw [same, Nat.zero_add], foreign, legible⟩

/-- Names and functions that overlap, and a bound name inside a number. -/
theorem scan_lossless_overlap :
    ∃ tokens, scan (fun name => name == "sinx" || name == "E5") ["s", "sin"] "sinx+sin2.E5*2sinx=" = .ok tokens ∧
      Faithful (fun name => name == "sinx" || name == "E5") ["s", "sin"] (dropEquals "sinx+sin2.E5*2sinx=".toList)
        tokens := by
  have scanned : scan (fun name => name == "sinx" || name == "E5") ["s", "sin"] "sinx+sin2.E5*2sinx=" =
      .ok [.name "sinx" false, .operator .plus, .function "sin", .number "2.E5" 2e5, .operator .times, .number "2" 2.0,
        .function "sin", .name "x" true] :=
    scan_of_mapError (by decide +kernel)
  exact ⟨_, scanned, Settles.of_ok (scan_lossless _ _ _) scanned⟩

end Reckoner.Token
