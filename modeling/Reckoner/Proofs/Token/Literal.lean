import Mathlib
import Reckoner.Proofs.Double.Numeral

namespace Reckoner.Token

/-- The part of a literal behind the character `before`. -/
def literalAfter : Char → List Char → List Char
  | _, [] => []
  | before, c :: rest =>
    if isNumeric c = true ∧ ¬ (isOperatorChar c = true ∧ before ≠ 'E') then c :: literalAfter c rest else []

theorem takeWhile_operatorAfter? (before : Char) (rest : List Char) :
    (match operatorAfter? before rest with
      | some index => rest.take index
      | none => rest).takeWhile isNumeric = literalAfter before rest := by
  induction rest generalizing before with
  | nil => rfl
  | cons c rest ih =>
    by_cases stop : isOperatorChar c = true ∧ before ≠ 'E'
    · rw [operatorAfter?, if_pos stop, literalAfter, if_neg (fun both => both.2 stop)]
      rfl
    · have rest' := ih c
      rw [operatorAfter?, if_neg stop]
      cases isNumber : isNumeric c with
      | true =>
        rw [literalAfter, if_pos ⟨isNumber, stop⟩, ← rest']
        cases operatorAfter? c rest <;> simp [isNumber]
      | false =>
        rw [literalAfter, if_neg (fun both => by rw [isNumber] at both; exact Bool.noConfusion both.1)]
        cases operatorAfter? c rest <;> simp [isNumber]

theorem literal_cons {c : Char} (first : isNumeric c = true) (rest : List Char) :
    literal (c :: rest) = c :: literalAfter c rest := by
  rw [← takeWhile_operatorAfter?]
  unfold literal firstOperator?
  cases stop : operatorAfter? c rest <;> simp [first, stop]

theorem literalAfter_append_of_stop {before c : Char} (stop : isNumeric c = false) (run rest : List Char) :
    literalAfter before (run ++ c :: rest) = literalAfter before run := by
  induction run generalizing before with
  | nil =>
    rw [List.nil_append]
    simp only [literalAfter, stop, Bool.false_eq_true, false_and, if_false]
  | cons d run ih => rw [List.cons_append, literalAfter, literalAfter, ih]

theorem length_literalAfter_le (before : Char) (rest : List Char) :
    (literalAfter before rest).length ≤ rest.length := by
  induction rest generalizing before with
  | nil => exact le_rfl
  | cons c rest ih =>
    rw [literalAfter]
    split
    · exact Nat.succ_le_succ (ih c)
    · exact Nat.zero_le _

theorem isNumeric_of_mem_literalAfter {before c : Char} {rest : List Char} (member : c ∈ literalAfter before rest) :
    isNumeric c = true := by
  induction rest generalizing before with
  | nil => exact nomatch member
  | cons d rest ih =>
    rw [literalAfter] at member
    split at member
    · rename_i goesOn
      rcases List.mem_cons.1 member with rfl | later
      · exact goesOn.1
      · exact ih later
    · exact nomatch member

theorem literalAfter_prefix (before : Char) (rest : List Char) : literalAfter before rest <+: rest := by
  induction rest generalizing before with
  | nil => exact List.prefix_rfl
  | cons c rest ih =>
    rw [literalAfter]
    split
    · exact List.cons_prefix_cons.2 ⟨rfl, ih c⟩
    · exact List.nil_prefix

/-- A literal that reaches the end of a text goes on in what follows the text. -/
theorem literalAfter_append_of_whole {before : Char} {run : List Char} (rest : List Char)
    (whole : literalAfter before run = run) :
    literalAfter before (run ++ rest) = run ++ literalAfter (run.getLastD before) rest := by
  induction run generalizing before with
  | nil => rfl
  | cons c run ih =>
    rw [literalAfter] at whole
    split at whole
    · rename_i goesOn
      rw [List.cons_append, literalAfter, if_pos goesOn, ih (List.cons.inj whole).2]
      cases run <;> rfl
    · cases whole

/-- Characters of numbers other than signs never end a literal. -/
theorem literalAfter_append_of_plain {before : Char} {run : List Char} (rest : List Char)
    (plain : ∀ c ∈ run, isNumeric c = true ∧ isOperatorChar c = false) :
    literalAfter before (run ++ rest) = run ++ literalAfter (run.getLastD before) rest := by
  refine literalAfter_append_of_whole rest ?_
  induction run generalizing before with
  | nil => rfl
  | cons c run ih =>
    obtain ⟨⟨isNumber, noSign⟩, later⟩ := List.forall_mem_cons.1 plain
    rw [literalAfter, if_pos ⟨isNumber, by simp [noSign]⟩, ih later]

theorem plain_of_isDigit {c : Char} (digit : c.isDigit = true) : isNumeric c = true ∧ isOperatorChar c = false := by
  refine ⟨Double.isNumeric_of_isDigit digit, ?_⟩
  unfold isOperatorChar Operator.ofChar?
  split <;> first | rfl | exact absurd digit (by decide)

theorem literalAfter_of_stop {before : Char} {rest : List Char} (stop : ∀ c ∈ rest.head?, isNumeric c = false) :
    literalAfter before rest = [] := by
  cases rest with
  | nil => rfl
  | cons c rest => simp only [literalAfter, stop c rfl, Bool.false_eq_true, false_and, if_false]

theorem literalAfter_digits (before : Char) {run rest : List Char} (digits : ∀ c ∈ run, c.isDigit = true)
    (stop : ∀ c ∈ rest.head?, isNumeric c = false) : literalAfter before (run ++ rest) = run := by
  rw [literalAfter_append_of_plain rest fun c member => plain_of_isDigit (digits c member),
    literalAfter_of_stop stop, List.append_nil]

/-- The sign of an exponent does not end a literal, because it follows the mark. -/
theorem literalAfter_exponent {before : Char} (width : Nat) (size : Int) {rest : List Char}
    (stop : ∀ c ∈ rest.head?, isNumeric c = false) :
    literalAfter before ('E' :: Double.exponentText width size ++ rest) = 'E' :: Double.exponentText width size := by
  have filled : ∀ c ∈ List.replicate (width - (Nat.toDigits 10 size.natAbs).length) '0' ++ Nat.toDigits 10 size.natAbs,
      c.isDigit = true := fun c => Double.isDigit_of_mem_filled
  have digits := literalAfter_digits (if size < 0 then '-' else '+') filled stop
  have mark : isNumeric 'E' = true ∧ ¬ (isOperatorChar 'E' = true ∧ before ≠ 'E') := ⟨rfl, fun both => nomatch both.1⟩
  have sign : isNumeric (if size < 0 then '-' else '+') = true := by split <;> rfl
  rw [List.cons_append, literalAfter, if_pos mark, Double.exponentText, List.cons_append, literalAfter,
    if_pos ⟨sign, fun both => both.2 rfl⟩, digits]

/-- A numeral that no further character of numbers follows is read as one literal. -/
theorem literal_append_of_isNumeral {text : List Char} (rest : List Char) (numeral : Double.IsNumeral text)
    (stop : ∀ c ∈ rest.head?, isNumeric c = false) : literal (text ++ rest) = text := by
  obtain ⟨whole, fraction, exponent, rfl, begun, digits, behind, power⟩ := numeral
  obtain ⟨lead, whole, rfl⟩ := List.exists_cons_of_ne_nil begun
  have plain : ∀ c ∈ whole ++ fraction, isNumeric c = true ∧ isOperatorChar c = false := by
    intro c member
    rcases List.mem_append.1 member with digit | later
    · exact plain_of_isDigit (digits c (List.mem_cons_of_mem lead digit))
    · rcases behind with rfl | ⟨places, rfl, placeDigits⟩
      · exact nomatch later
      · rcases List.mem_cons.1 later with rfl | digit
        · decide
        · exact plain_of_isDigit (placeDigits c digit)
  have last : literalAfter ((whole ++ fraction).getLastD lead) (exponent ++ rest) = exponent := by
    rcases power with rfl | ⟨width, size, rfl⟩
    · exact literalAfter_of_stop stop
    · exact literalAfter_exponent width size stop
  have isNumber := (plain_of_isDigit (digits lead List.mem_cons_self)).1
  rw [List.cons_append, List.cons_append, literal_cons isNumber, List.append_assoc, List.append_assoc,
    ← List.append_assoc whole, literalAfter_append_of_plain _ plain, last, List.append_assoc]

theorem isNumeric_of_mem_numeral {text : List Char} (numeral : Double.IsNumeral text) {c : Char} (member : c ∈ text) :
    isNumeric c = true := by
  have whole := literal_append_of_isNumeral [] numeral nofun
  rw [List.append_nil] at whole
  rw [← whole] at member
  unfold literal at member
  exact List.mem_takeWhile_imp member

theorem exists_cons_of_isNumeral {text : List Char} (numeral : Double.IsNumeral text) :
    ∃ lead rest, text = lead :: rest ∧ lead.isDigit = true := by
  obtain ⟨whole, fraction, exponent, rfl, begun, digits, _⟩ := numeral
  obtain ⟨lead, whole, rfl⟩ := List.exists_cons_of_ne_nil begun
  exact ⟨lead, _, rfl, digits lead List.mem_cons_self⟩

/-- Reading a numeral gives the number token of the double closest to the decimal that it denotes. -/
theorem readNumber_append_of_denotes {text rest : List Char} {digits : Nat} {exponent : Int}
    (denotes : Double.Denotes text digits exponent) (stop : ∀ c ∈ rest.head?, isNumeric c = false)
    (fits : Double.nearestDecimal digits exponent < Double.infinityBits) :
    readNumber (text ++ rest) =
      .ok (number (String.ofList text) (Double.ofMagnitude false (Double.nearestDecimal digits exponent)),
        text.length) := by
  obtain ⟨numeral, value, shift, read, same⟩ := denotes
  have numeric : ∀ c ∈ text, isNumeric c = true := fun c => isNumeric_of_mem_numeral numeral
  obtain ⟨lead, others, atText, digit⟩ := exists_cons_of_isNumeral numeral
  have whole : Double.read? text = some (Double.ofMagnitude false (Double.nearestDecimal digits exponent)) := by
    rw [atText, Double.read?_of_numeric (Or.inl digit) fun c member =>
      numeric c (atText ▸ List.mem_cons_of_mem lead member),
      ← atText, read, Option.map_some]
    simp only [same]
  have finite := (Double.isFinite_ofMagnitude false fits.le).2 fits
  rw [readNumber, literal_append_of_isNumeral rest numeral stop, ofLiteral, whole]
  simp only [finite, if_true]
  rfl

/-- What follows a literal matters only where the literal reaches up to it. -/
theorem literalAfter_append {before : Char} {text : List Char} (rest : List Char)
    (ends : literalAfter before text = text → literalAfter (text.getLastD before) rest = []) :
    literalAfter before (text ++ rest) = literalAfter before text := by
  induction text generalizing before with
  | nil => exact ends rfl
  | cons d text ih =>
    rw [List.cons_append, literalAfter, literalAfter]
    split
    · rename_i goesOn
      refine congrArg (d :: ·) (ih fun whole => ?_)
      have behind := ends (by rw [literalAfter, if_pos goesOn, whole])
      cases text <;> exact behind
    · rfl

/-- A literal that is a numeral does not end in an exponent mark. -/
theorem getLastD_ne_mark {c : Char} {rest : List Char} {token : Token} (starts : c.isDigit = true ∨ c = '.')
    (numeric : ∀ d ∈ rest, isNumeric d = true) (read : ofLiteral (c :: rest) = .ok token) : rest.getLastD c ≠ 'E' := by
  intro last
  rcases List.eq_nil_or_concat rest with rfl | ⟨front, d, rfl⟩
  · change c = 'E' at last
    rcases starts with digit | rfl
    · exact absurd digit (by rw [last]; decide)
    · exact absurd last (by decide)
  · obtain rfl : d = 'E' := by simpa using last
    have unread := Double.read?_of_numeric starts numeric
    rw [List.concat_eq_append, ← List.cons_append, Double.readDecimal?_of_unfinished rfl] at unread
    rw [List.concat_eq_append, ← List.cons_append, ofLiteral, unread] at read
    cases read

/-- In a literal a sign stands only behind the mark of an exponent. -/
theorem getLastD_eq_mark {before sign : Char} {front : List Char} (isSign : sign = '+' ∨ sign = '-')
    (whole : literalAfter before (front ++ [sign]) = front ++ [sign]) : front.getLastD before = 'E' := by
  by_contra other
  have operator : isOperatorChar sign = true := by rcases isSign with rfl | rfl <;> rfl
  have ends : literalAfter (front.getLastD before) [sign] = [] := by
    rw [literalAfter, if_neg fun both => both.2 ⟨operator, other⟩]
  have short := length_literalAfter_le before front
  rw [← literalAfter_append [sign] fun _ => ends, whole, List.length_append, List.length_singleton] at short
  omega

/-- A literal with a sign and no digit behind it is no numeral. -/
theorem ofLiteral_of_sign {c sign : Char} {front : List Char} (starts : c.isDigit = true ∨ c = '.')
    (isSign : sign = '+' ∨ sign = '-') (whole : literalAfter c (front ++ [sign]) = front ++ [sign]) (more : List Char)
    (numeric : ∀ d ∈ more, isNumeric d = true) (stop : ∀ d ∈ more.head?, d.isDigit = false) :
    ofLiteral (c :: (front ++ [sign] ++ more)) =
      .error (.invalidLiteral (String.ofList (c :: (front ++ [sign] ++ more)))) := by
  have mark := getLastD_eq_mark isSign whole
  have all : ∀ d ∈ front ++ [sign] ++ more, isNumeric d = true :=
    List.forall_mem_append.2 ⟨fun d member => isNumeric_of_mem_literalAfter (whole.symm ▸ member), numeric⟩
  rcases List.eq_nil_or_concat front with rfl | ⟨lead, d, rfl⟩
  · change c = 'E' at mark
    rcases starts with digit | rfl
    · exact absurd digit (by rw [mark]; decide)
    · exact absurd mark (by decide)
  · obtain rfl : d = 'E' := by simpa using mark
    have unread := Double.read?_of_numeric starts all
    have split : c :: (lead.concat 'E' ++ [sign] ++ more) = (c :: lead) ++ 'E' :: sign :: more := by simp
    rw [split, Double.readDecimal?_of_unfinished (Double.readExponent?_sign isSign stop)] at unread
    rw [split, ofLiteral, unread]
    rfl

end Reckoner.Token
