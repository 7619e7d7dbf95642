import Mathlib
import Reckoner.Proofs.Token.Scan

namespace Reckoner.Token

/-- One or more digits. -/
def IsDigits (text : List Char) : Prop :=
  text ≠ [] ∧ ∀ c ∈ text, c.isDigit = true

inductive IsMantissa : List Char → Prop
  | whole {whole : List Char} : IsDigits whole → IsMantissa whole
  | point {whole places : List Char} :
      IsDigits whole → (∀ c ∈ places, c.isDigit = true) → IsMantissa (whole ++ '.' :: places)
  | fraction {places : List Char} : IsDigits places → IsMantissa ('.' :: places)

inductive IsExponent : List Char → Prop
  | none : IsExponent []
  | unsigned {digits : List Char} : IsDigits digits → IsExponent ('E' :: digits)
  | signed {sign : Char} {digits : List Char} :
      sign = '+' ∨ sign = '-' → IsDigits digits → IsExponent ('E' :: sign :: digits)

/-- The form of a numeral: a mantissa and perhaps an exponent. -/
def HasForm (text : List Char) : Prop :=
  ∃ mantissa exponent, text = mantissa ++ exponent ∧ IsMantissa mantissa ∧ IsExponent exponent

/-- A text that a literal may consist of: a sign stands only directly behind an `E`. -/
def IsStretch (text : List Char) : Prop :=
  ∀ front c back, text = front ++ c :: back →
    c.isDigit = true ∨ c = '.' ∨ c = 'E' ∨ (c = '+' ∨ c = '-') ∧ front.getLast? = some 'E'

/-- The longest stretch of a text that begins at a place. -/
structure IsExtent (text : List Char) (start : Nat) (extent : List Char) : Prop where
  begins : extent <+: text.drop start
  stretch : IsStretch extent
  longest : ∀ other, other <+: text.drop start → IsStretch other → other.length ≤ extent.length

theorem isDigits_iff {digits : List Char} :
    IsDigits digits ↔ ¬ (digits.isEmpty = true ∨ (!digits.all Char.isDigit) = true) := by
  rw [IsDigits, not_or, List.isEmpty_iff, Bool.not_eq_true', Bool.not_eq_false, List.all_eq_true]

theorem readExponent?_isSome_of_signed {sign : Char} (isSign : sign = '+' ∨ sign = '-') (digits : List Char) :
    (Double.readExponent? ('E' :: sign :: digits)).isSome = true ↔ IsDigits digits := by
  rcases isSign with rfl | rfl
  all_goals
    rw [isDigits_iff]
    simp [Double.readExponent?]

theorem readExponent?_isSome_of_unsigned {digits : List Char} (noSign : ∀ c ∈ digits.head?, c ≠ '+' ∧ c ≠ '-') :
    (Double.readExponent? ('E' :: digits)).isSome = true ↔ IsDigits digits := by
  rw [isDigits_iff]
  unfold Double.readExponent?
  dsimp only
  rw [if_pos (Or.inr rfl)]
  split
  · exact absurd rfl (noSign _ rfl).2
  · exact absurd rfl (noSign _ rfl).1
  · simp

/-- An exponent in capitals is read exactly if it has its form. -/
theorem readExponent?_isSome_iff {text : List Char} (numeric : ∀ c ∈ text, isNumeric c = true) :
    (Double.readExponent? text).isSome = true ↔ IsExponent text := by
  constructor
  · intro read
    cases text with
    | nil => exact .none
    | cons mark rest =>
      obtain rfl : mark = 'E' := by
        by_contra other
        have noSmall : mark ≠ 'e' := by
          rintro rfl
          exact absurd (numeric 'e' List.mem_cons_self) (by decide)
        unfold Double.readExponent? at read
        dsimp only at read
        rw [if_neg (not_or.2 ⟨noSmall, other⟩)] at read
        exact Bool.noConfusion read
      cases rest with
      | nil => exact absurd read (by decide)
      | cons c digits =>
        by_cases isSign : c = '+' ∨ c = '-'
        · exact .signed isSign ((readExponent?_isSome_of_signed isSign digits).1 read)
        · refine .unsigned ((readExponent?_isSome_of_unsigned ?_).1 read)
          rintro d ⟨⟩
          exact not_or.1 isSign
  · intro form
    cases form with
    | none => rfl
    | unsigned digits =>
      refine (readExponent?_isSome_of_unsigned fun c first => ?_).2 digits
      have digit := digits.2 c (List.mem_of_mem_head? first)
      constructor <;> rintro rfl <;> exact absurd digit (by decide)
    | signed isSign digits => exact (readExponent?_isSome_of_signed isSign _).2 digits

theorem IsExponent.head? {text : List Char} (exponent : IsExponent text) : ∀ c ∈ text.head?, c = 'E' := by
  cases exponent with
  | none => exact nofun
  | unsigned | signed => exact fun c first => (Option.some.inj first).symm

/-- Digits with places behind a point form a mantissa, if there is a digit at all. -/
theorem isMantissa_of_point {whole places : List Char} (digits : ∀ c ∈ whole, c.isDigit = true)
    (placeDigits : ∀ c ∈ places, c.isDigit = true) (begun : ¬ (whole.isEmpty = true ∧ places.isEmpty = true)) :
    IsMantissa (whole ++ '.' :: places) := by
  rw [List.isEmpty_iff, List.isEmpty_iff] at begun
  by_cases empty : whole = []
  · subst empty
    exact .fraction ⟨fun none => begun ⟨rfl, none⟩, placeDigits⟩
  · exact .point ⟨empty, digits⟩ placeDigits

/-- A text that is read has the form of a numeral. -/
theorem hasForm_of_readDecimal? {text : List Char} (numeric : ∀ c ∈ text, isNumeric c = true)
    (read : (Double.readDecimal? text).isSome = true) : HasForm text := by
  have parts : text.takeWhile Char.isDigit ++ text.dropWhile Char.isDigit = text := List.takeWhile_append_dropWhile
  have digits : ∀ c ∈ text.takeWhile Char.isDigit, c.isDigit = true := fun c => List.mem_takeWhile_imp
  have later : ∀ c ∈ text.dropWhile Char.isDigit, isNumeric c = true :=
    fun c member => numeric c ((List.dropWhile_sublist _).mem member)
  unfold Double.readDecimal? at read
  dsimp only at read
  split at read
  · rename_i behind left
    rw [left, List.forall_mem_cons] at later
    have behindParts : behind.takeWhile Char.isDigit ++ behind.dropWhile Char.isDigit = behind :=
      List.takeWhile_append_dropWhile
    split at read
    · exact Bool.noConfusion read
    · rename_i begun
      rw [Option.isSome_map] at read
      refine ⟨text.takeWhile Char.isDigit ++ '.' :: behind.takeWhile Char.isDigit, behind.dropWhile Char.isDigit, ?_,
        isMantissa_of_point digits (fun c => List.mem_takeWhile_imp) begun,
        (readExponent?_isSome_iff fun c member => later.2 c ((List.dropWhile_sublist _).mem member)).1 read⟩
      rw [List.append_assoc, List.cons_append, behindParts, ← left, parts]
  · split at read
    · exact Bool.noConfusion read
    · rename_i begun
      rw [Option.isSome_map] at read
      have nonempty : text.takeWhile Char.isDigit ≠ [] := fun none => begun ⟨List.isEmpty_iff.2 none, rfl⟩
      exact ⟨_, _, parts.symm, .whole ⟨nonempty, digits⟩, (readExponent?_isSome_iff later).1 read⟩

theorem readDecimal?_of_hasForm {text : List Char} (numeric : ∀ c ∈ text, isNumeric c = true) (form : HasForm text) :
    (Double.readDecimal? text).isSome = true := by
  obtain ⟨mantissa, exponent, rfl, mantissaForm, power⟩ := form
  have readPower := (readExponent?_isSome_iff fun c later => numeric c (List.mem_append_right mantissa later)).2 power
  have stop : ∀ c ∈ exponent.head?, c.isDigit = false ∧ c ≠ '.' := by
    intro c first
    obtain rfl := power.head? c first
    decide
  cases mantissaForm with
  | whole digits => rw [Double.readDecimal?_whole exponent digits.2 digits.1 stop, Option.isSome_map, readPower]
  | point digits places =>
    rw [List.append_assoc, List.cons_append,
      Double.readDecimal?_fraction exponent digits.2 places (Or.inl digits.1) fun c first => (stop c first).1,
      Option.isSome_map, readPower]
  | fraction digits =>
    have read := Double.readDecimal?_fraction exponent (List.forall_mem_nil _) digits.2 (Or.inr digits.1)
      fun c first => (stop c first).1
    rw [List.nil_append] at read
    rw [List.cons_append, read, Option.isSome_map, readPower]

/-- A literal is read exactly if it has the form of a numeral. -/
theorem read?_isSome_iff {c : Char} {rest : List Char} (first : c.isDigit = true ∨ c = '.')
    (numeric : ∀ d ∈ rest, isNumeric d = true) : (Double.read? (c :: rest)).isSome = true ↔ HasForm (c :: rest) := by
  have all : ∀ d ∈ c :: rest, isNumeric d = true := List.forall_mem_cons.2 ⟨isNumeric_of_starts first, numeric⟩
  rw [Double.read?_of_numeric first numeric, Option.isSome_map]
  exact ⟨hasForm_of_readDecimal? all, readDecimal?_of_hasForm all⟩

/-- A numeral without sign that is too large for a double is read as infinity. -/
theorem eq_infinity_of_read? {c : Char} {rest : List Char} (first : c.isDigit = true ∨ c = '.')
    (numeric : ∀ d ∈ rest, isNumeric d = true) {value : Float} (read : Double.read? (c :: rest) = some value)
    (large : value.isFinite = false) : value = 1.0 / 0.0 := by
  rw [Double.read?_of_numeric first numeric] at read
  obtain ⟨⟨digits, exponent⟩, -, same⟩ := Option.map_eq_some_iff.1 read
  obtain rfl : Double.ofMagnitude false (Double.nearestDecimal digits exponent) = value := same
  have bound := Double.nearestDecimal_le digits exponent
  have beyond : ¬ Double.nearestDecimal digits exponent < Double.infinityBits := fun below =>
    Bool.noConfusion (large.symm.trans ((Double.isFinite_ofMagnitude false bound).2 below))
  rw [show Double.nearestDecimal digits exponent = Double.infinityBits by omega]
  decide +kernel

/-- The characters that a literal goes on with behind another one. -/
theorem goesOn_iff {before c : Char} :
    isNumeric c = true ∧ ¬ (isOperatorChar c = true ∧ before ≠ 'E') ↔
      c.isDigit = true ∨ c = '.' ∨ c = 'E' ∨ (c = '+' ∨ c = '-') ∧ before = 'E' := by
  constructor
  · rintro ⟨numeric, goesOn⟩
    simp only [isNumeric, Bool.or_eq_true, decide_eq_true_eq] at numeric
    rcases numeric with (((digit | point) | mark) | plus) | minus
    · exact Or.inl digit
    · exact Or.inr (Or.inl point)
    · exact Or.inr (Or.inr (Or.inl mark))
    · exact Or.inr (Or.inr (Or.inr ⟨Or.inl plus, by_contra fun other => goesOn ⟨by rw [plus]; rfl, other⟩⟩))
    · exact Or.inr (Or.inr (Or.inr ⟨Or.inr minus, by_contra fun other => goesOn ⟨by rw [minus]; rfl, other⟩⟩))
  · rintro (digit | rfl | rfl | ⟨rfl | rfl, mark⟩)
    · obtain ⟨numeric, noOperator⟩ := plain_of_isDigit digit
      exact ⟨numeric, fun stop => Bool.noConfusion (noOperator.symm.trans stop.1)⟩
    · exact ⟨rfl, fun stop => absurd stop.1 (by decide)⟩
    · exact ⟨rfl, fun stop => absurd stop.1 (by decide)⟩
    · exact ⟨rfl, fun stop => stop.2 mark⟩
    · exact ⟨rfl, fun stop => stop.2 mark⟩

/-- A text is a whole literal behind a character exactly if a literal goes on with each of its characters. -/
theorem literalAfter_eq_self_iff {before : Char} {text : List Char} :
    literalAfter before text = text ↔ ∀ front c back, text = front ++ c :: back →
      isNumeric c = true ∧ ¬ (isOperatorChar c = true ∧ front.getLastD before ≠ 'E') := by
  induction text generalizing before with
  | nil => exact ⟨fun _ front c back same => absurd same (by simp), fun _ => rfl⟩
  | cons d rest ih =>
    rw [literalAfter]
    constructor
    · intro whole
      split at whole
      · rename_i goesOn
        intro front c back same
        cases front with
        | nil =>
          obtain ⟨rfl, rfl⟩ := List.cons.inj same
          exact goesOn
        | cons e front =>
          obtain ⟨rfl, rfl⟩ := List.cons.inj same
          have later := ih.1 (List.cons.inj whole).2 front c back rfl
          cases front <;> exact later
      · cases whole
    · intro goesOn
      have head := goesOn [] d rest rfl
      rw [List.getLastD_nil] at head
      rw [if_pos head]
      refine congrArg (d :: ·) (ih.2 fun front c back same => ?_)
      have later := goesOn (d :: front) c back (by rw [same, List.cons_append])
      cases front <;> exact later

theorem isStretch_cons_iff {c : Char} {rest : List Char} (first : c.isDigit = true ∨ c = '.') :
    IsStretch (c :: rest) ↔ literalAfter c rest = rest := by
  have last (front : List Char) : (c :: front).getLast? = some 'E' ↔ front.getLastD c = 'E' := by
    rw [List.getLast?_cons, Option.some_inj, List.getLastD_eq_getLast?]
  rw [literalAfter_eq_self_iff]
  constructor
  · intro stretch front d back same
    have here := stretch (c :: front) d back (by rw [same, List.cons_append])
    rw [last] at here
    exact goesOn_iff.2 here
  · intro goesOn front d back same
    cases front with
    | nil =>
      obtain ⟨rfl, -⟩ := List.cons.inj same
      exact first.imp id Or.inl
    | cons e front =>
      obtain ⟨rfl, rfl⟩ := List.cons.inj same
      rw [last]
      exact goesOn_iff.1 (goesOn front d back rfl)

theorem literalAfter_literalAfter (before : Char) (rest : List Char) :
    literalAfter before (literalAfter before rest) = literalAfter before rest := by
  induction rest generalizing before with
  | nil => rfl
  | cons c rest ih =>
    rw [literalAfter]
    split
    · rename_i goesOn
      rw [literalAfter, if_pos goesOn, ih]
    · rfl

/-- The literal at a digit or a point is the longest stretch there. -/
theorem isExtent_literal {text : List Char} {start : Nat} {c : Char} {rest : List Char}
    (here : text.drop start = c :: rest) (first : c.isDigit = true ∨ c = '.') :
    IsExtent text start (literal (text.drop start)) := by
  rw [here, literal_cons (isNumeric_of_starts first)]
  refine ⟨?_, (isStretch_cons_iff first).2 (literalAfter_literalAfter c rest), fun other begins stretch => ?_⟩
  · rw [here]
    exact List.cons_prefix_cons.2 ⟨rfl, literalAfter_prefix c rest⟩
  · rw [here] at begins
    cases other with
    | nil => exact Nat.zero_le _
    | cons d run =>
      obtain ⟨rfl, more, rfl⟩ := List.cons_prefix_cons.1 begins
      rw [literalAfter_append_of_whole more ((isStretch_cons_iff first).1 stretch), List.length_cons, List.length_cons,
        List.length_append]
      omega

/-- What reading a number comes to, by the form and the value of its literal. -/
theorem readNumber_cases {c : Char} {rest : List Char} (first : c.isDigit = true ∨ c = '.') :
    (∃ value, HasForm (literal (c :: rest)) ∧ Double.read? (literal (c :: rest)) = some value ∧ value.isFinite = true ∧
        readNumber (c :: rest) =
          .ok (.number (String.ofList (literal (c :: rest))) value, (literal (c :: rest)).length)) ∨
      HasForm (literal (c :: rest)) ∧ Double.read? (literal (c :: rest)) = some (1.0 / 0.0) ∧
        readNumber (c :: rest) = .error (.literalTooLarge (String.ofList (literal (c :: rest)))) ∨
      ¬ HasForm (literal (c :: rest)) ∧ Double.read? (literal (c :: rest)) = none ∧
        readNumber (c :: rest) = .error (.invalidLiteral (String.ofList (literal (c :: rest)))) := by
  have numeric : ∀ d ∈ literalAfter c rest, isNumeric d = true := fun d => isNumeric_of_mem_literalAfter
  have form := read?_isSome_iff first numeric
  unfold readNumber ofLiteral
  rw [literal_cons (isNumeric_of_starts first)]
  cases read : Double.read? (c :: literalAfter c rest) with
  | none =>
    rw [read] at form
    exact Or.inr (Or.inr ⟨fun isForm => Bool.noConfusion (form.2 isForm), rfl, rfl⟩)
  | some value =>
    rw [read] at form
    cases finite : value.isFinite with
    | true => exact Or.inl ⟨value, form.1 rfl, rfl, finite, by simp only [finite, if_true]; rfl⟩
    | false =>
      obtain rfl := eq_infinity_of_read? first numeric read finite
      exact Or.inr (Or.inl ⟨form.1 rfl, rfl, by simp only [finite, Bool.false_eq_true, if_false]; rfl⟩)

/-- Reading a number at a digit or a point takes the longest stretch there. It gives the value of the stretch if the
stretch has the form of a numeral and is finite, reports it as too large if it has the form, and as no number if not. -/
theorem readNumber_extent {text : List Char} {start : Nat} {c : Char} (here : text[start]? = some c)
    (first : c.isDigit = true ∨ c = '.') :
    ∃ stretch, IsExtent text start stretch ∧ stretch ≠ [] ∧
      (∀ token length, readNumber (text.drop start) = .ok (token, length) ↔
        HasForm stretch ∧ ∃ value, Double.read? stretch = some value ∧ value.isFinite = true ∧
          token = .number (String.ofList stretch) value ∧ length = stretch.length) ∧
      ∀ cause, readNumber (text.drop start) = .error cause ↔
        HasForm stretch ∧ Double.read? stretch = some (1.0 / 0.0) ∧
            cause = .literalTooLarge (String.ofList stretch) ∧ cause.report.code = "3026" ∨
          ¬ HasForm stretch ∧ cause = .invalidLiteral (String.ofList stretch) ∧ cause.report.code = "3035" := by
  obtain ⟨inside, atStart⟩ := List.getElem?_eq_some_iff.1 here
  have there : text.drop start = c :: text.drop (start + 1) := by rw [List.drop_eq_getElem_cons inside, atStart]
  have extent := isExtent_literal there first
  have infinite : (1.0 / 0.0 : Float).isFinite = false := by decide +kernel
  rw [there] at extent ⊢
  refine ⟨_, extent, by rw [literal_cons (isNumeric_of_starts first)]; exact List.cons_ne_nil _ _, ?_⟩
  have cases := @readNumber_cases c (text.drop (start + 1)) first
  generalize literal (c :: text.drop (start + 1)) = stretch at *
  rcases cases with ⟨value, form, read, finite, same⟩ | ⟨form, read, same⟩ | ⟨form, read, same⟩
  · have proper : value ≠ 1.0 / 0.0 := by
      rintro rfl
      exact Bool.noConfusion (finite.symm.trans infinite)
    rw [same, read]
    refine ⟨fun token length => ⟨?_, ?_⟩, fun cause => ⟨nofun, ?_⟩⟩
    · rintro ⟨⟩
      exact ⟨form, value, rfl, finite, rfl, rfl⟩
    · rintro ⟨-, _, ⟨⟩, -, rfl, rfl⟩
      rfl
    · rintro (⟨-, reads, -⟩ | ⟨noForm, -⟩)
      · exact absurd (Option.some.inj reads) proper
      · exact absurd form noForm
  · rw [same, read]
    refine ⟨fun token length => ⟨nofun, ?_⟩, fun cause => ⟨?_, ?_⟩⟩
    · rintro ⟨-, _, ⟨⟩, finite, -⟩
      exact Bool.noConfusion (finite.symm.trans infinite)
    · rintro ⟨⟩
      exact Or.inl ⟨form, rfl, rfl, rfl⟩
    · rintro (⟨-, -, rfl, -⟩ | ⟨noForm, -⟩)
      · rfl
      · exact absurd form noForm
  · rw [same]
    refine ⟨fun token length => ⟨nofun, fun given => absurd given.1 form⟩, fun cause => ⟨?_, ?_⟩⟩
    · rintro ⟨⟩
      exact Or.inr ⟨form, rfl, rfl⟩
    · rintro (⟨isForm, -⟩ | ⟨-, rfl, -⟩)
      · exact absurd isForm form
      · rfl

/-- The sign of an exponent belongs to a literal, and the operator behind the exponent does not. -/
theorem readNumber_extent_exponent :
    ∃ stretch, IsExtent "7-2.5E-3*4".toList 2 stretch ∧ HasForm stretch ∧ Double.read? stretch = some 2.5e-3 ∧
      stretch.length = 6 := by
  obtain ⟨stretch, extent, -, reads, -⟩ := @readNumber_extent "7-2.5E-3*4".toList 2 '2' rfl (Or.inl rfl)
  have taken : (readNumber ("7-2.5E-3*4".toList.drop 2)).mapError (fun _ => ()) =
      .ok (.number "2.5E-3" 2.5e-3, 6) := by decide +kernel
  obtain ⟨form, value, read, -, token, length⟩ := (reads _ _).1 (mapError_eq_ok.1 taken)
  obtain rfl := (Token.number.inj token).2
  exact ⟨stretch, extent, form, read, length.symm⟩

end Reckoner.Token
