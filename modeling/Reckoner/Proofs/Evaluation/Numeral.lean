import Mathlib
import Reckoner.Proofs.Evaluation.Closed
import Reckoner.Proofs.Token.Literal

namespace Reckoner

variable {bindings : Bindings} {functions : FunctionTable}

namespace Token

variable {bound : String → Bool} {names : List String}

theorem scanFrom_of_length_le {skip : Nat} (position : Nat) (before : Option Char) {text : List Char}
    (short : text.length ≤ skip) : scanFrom bound names skip position before text = .ok [] := by
  induction text generalizing skip position before with
  | nil => cases skip <;> rfl
  | cons c rest ih =>
    obtain ⟨skip, rfl⟩ := Nat.exists_eq_add_one_of_ne_zero (Nat.ne_of_gt ((Nat.succ_pos _).trans_le short))
    exact ih (position + 1) (some c) (Nat.le_of_succ_le_succ short)

theorem dropEquals_of_numeric {text : List Char} (numeric : ∀ c ∈ text, isNumeric c = true) : dropEquals text = text :=
  dropEquals_of_getLast?_ne fun last => nomatch numeric '=' (List.mem_of_getLast? last)

theorem scanFrom_numeral {text : List Char} {digits : Nat} {exponent : Int} (position : Nat) (before : Option Char)
    (denotes : Double.Denotes text digits exponent)
    (fits : Double.nearestDecimal digits exponent < Double.infinityBits) :
    scanFrom bound names 0 position before text =
      .ok [.number (String.ofList text) (Double.ofMagnitude false (Double.nearestDecimal digits exponent))] := by
  have read := @readNumber_append_of_denotes text [] digits exponent denotes nofun fits
  rw [List.append_nil] at read
  obtain ⟨lead, rest, rfl, digit⟩ := exists_cons_of_isNumeral denotes.1
  rw [scanFrom, lexeme, if_pos (Or.inl digit), read]
  change (scanFrom bound names rest.length (position + 1) (some lead) rest >>= fun tokens => _) = _
  rw [scanFrom_of_length_le (position + 1) (some lead) le_rfl]
  rfl

end Token

namespace Evaluation

theorem evaluateTokens_number {text : String} {value : Float} (finite : (0.0 + value).isFinite = true) :
    (evaluateTokens bindings functions [.number text value]).result = .ok (0.0 + value) := by
  change (if (0.0 + value).isFinite then (pure (0.0 + value) : Traced Float) else Traced.fail .sumTooLarge).result = _
  rw [if_pos finite]
  rfl

theorem evaluateTokens_negated {text : String} {value : Float} (finite : (0.0 - value).isFinite = true) :
    (evaluateTokens bindings functions [.operator .minus, .number text value]).result = .ok (0.0 - value) := by
  change (if (0.0 - value).isFinite then (pure (0.0 - value) : Traced Float) else Traced.fail .sumTooLarge).result = _
  rw [if_pos finite]
  rfl

end Evaluation

open Evaluation

theorem numeric_signed {text : List Char} (negative : Bool) (numeral : Double.IsNumeral text) :
    ∀ c ∈ (if negative then ['-'] else []) ++ text, Token.isNumeric c = true := by
  intro c member
  rcases List.mem_append.1 member with sign | behind
  · cases negative with
    | true =>
      rw [List.mem_singleton.1 sign]
      rfl
    | false => exact nomatch sign
  · exact Token.isNumeric_of_mem_numeral numeral behind

theorem scan_numeral {bound : String → Bool} {names : List String} {text : List Char} {digits : Nat} {exponent : Int}
    (negative : Bool) (denotes : Double.Denotes text digits exponent)
    (fits : Double.nearestDecimal digits exponent < Double.infinityBits) :
    Token.scan bound names (String.ofList ((if negative then ['-'] else []) ++ text)) =
      .ok ((if negative then [.operator .minus] else []) ++
        [.number (String.ofList text) (Double.ofMagnitude false (Double.nearestDecimal digits exponent))]) := by
  rw [Token.scan, String.toList_ofList, Token.dropEquals_of_numeric (numeric_signed negative denotes.1)]
  cases negative with
  | true =>
    change (Token.scanFrom bound names 0 1 (some '-') text >>= fun tokens => _) = _
    rw [Token.scanFrom_numeral 1 (some '-') denotes fits]
    rfl
  | false => exact Token.scanFrom_numeral 0 none denotes fits

/-- A numeral evaluates to the double closest to the decimal that it denotes. A minus before it counts unless that
double is zero. -/
theorem evaluate_numeral {text : List Char} {digits : Nat} {exponent : Int} (negative : Bool)
    (denotes : Double.Denotes text digits exponent)
    (fits : Double.nearestDecimal digits exponent < Double.infinityBits) :
    (evaluate (String.ofList ((if negative then ['-'] else []) ++ text)) bindings functions).result =
      .ok (Double.ofMagnitude (negative && Double.nearestDecimal digits exponent ≠ 0)
        (Double.nearestDecimal digits exponent)) := by
  refine evaluate_eq_ok.2 ⟨_, scan_numeral negative denotes fits, ?_⟩
  generalize Double.nearestDecimal digits exponent = bits at fits
  have finite (sign : Bool) : (Double.ofMagnitude sign bits).isFinite = true :=
    (Double.isFinite_ofMagnitude sign fits.le).2 fits
  cases negative with
  | false =>
    have other : Double.ofMagnitude false bits ≠ -0.0 := by
      rw [Double.negZero_eq, ne_eq, Double.ofMagnitude_inj fits.le (Nat.zero_le _)]
      exact fun both => nomatch both.1
    have sum := Double.zero_add_of_ne other
    have value := @evaluateTokens_number bindings functions (String.ofList text) _ (sum.symm ▸ finite false)
    rw [sum] at value
    exact value
  | true =>
    have difference : 0.0 - Double.ofMagnitude false bits = Double.ofMagnitude (bits ≠ 0) bits := by
      rcases Nat.eq_zero_or_pos bits with rfl | positive
      · rw [← Double.posZero_eq]
        decide
      · rw [Double.zero_sub_ofMagnitude positive fits.le, decide_eq_true positive.ne']
    have value := @evaluateTokens_negated bindings functions (String.ofList text) _ (difference.symm ▸ finite _)
    rw [difference] at value
    exact value

theorem toUpper_ofList (text : List Char) : (String.ofList text).toUpper = String.ofList (text.map Char.toUpper) := by
  rw [String.toUpper, ← String.toList_inj, String.toList_map, String.toList_ofList, String.toList_ofList]

/-- The sign of a proper value counts only where the value is not zero. -/
theorem Evaluation.Proper.isNegative_and {value : Float} (proper : Proper value) :
    (Double.isNegative value && Double.magnitude value ≠ 0) = Double.isNegative value := by
  have same := Double.ofMagnitude_self value
  cases negative : Double.isNegative value with
  | false => rfl
  | true =>
    have nonzero : Double.magnitude value ≠ 0 := by
      intro zero
      rw [negative, zero, ← Double.negZero_eq] at same
      exact proper.2 same.symm
    rw [decide_eq_true nonzero]
    rfl

theorem toUpper_text {value : Float} (finite : value.isFinite = true) :
    (Double.text value).toUpper = String.ofList ((if Double.isNegative value then ['-'] else []) ++
      (Double.unsignedText Double.layout (Double.toDecimal value)).map Char.toUpper) := by
  rw [Double.text, toUpper_ofList, Double.chars, Double.not_isNaN_of_isFinite finite]
  simp only [finite, if_true, Bool.false_eq_true, if_false, List.map_append]
  cases Double.isNegative value <;> rfl

/-- The written form of a proper value in capitals evaluates to the value. -/
theorem evaluate_text {value : Float} (proper : Proper value) :
    (evaluate (Double.text value).toUpper bindings functions).result = .ok value := by
  have denotes := Double.denotes_unsignedText Double.layout (Double.toDecimal value)
  have reads := Double.nearestDecimal_toDecimal proper.1
  have fits := (Double.isFinite_iff value).1 proper.1
  rw [← reads] at fits
  rw [toUpper_text proper.1, evaluate_numeral _ denotes fits, reads, proper.isNegative_and, Double.ofMagnitude_self]

end Reckoner
