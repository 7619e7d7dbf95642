import Mathlib
import Reckoner.Proofs.Double.Text
import Reckoner.Proofs.Rendering.HalfEven

namespace Reckoner

/-- The canonical form of a number: a minus sign or none, a whole part without superfluous zeros, and behind a point, if
there is one, places of which the last is not zero. -/
structure IsCanonical (text sign whole places : List Char) : Prop where
  parts : text = sign ++ (whole ++ if places.isEmpty then [] else '.' :: places)
  sign_minus : sign = [] ∨ sign = ['-']
  whole_ne_nil : whole ≠ []
  whole_isDigit : ∀ c ∈ whole, c.isDigit = true
  whole_short : whole.head? = some '0' → whole = ['0']
  places_isDigit : ∀ c ∈ places, c.isDigit = true
  places_short : places.getLast? ≠ some '0'
  not_negZero : text ≠ ['-', '0']

namespace Decimal

/-- The decimal that a text denotes: a minus sign or none, and a numeral. -/
def read? : List Char → Option Decimal
  | '-' :: rest => (Double.readDecimal? rest).map fun (digits, exponent) => ⟨true, digits, exponent⟩
  | text => (Double.readDecimal? text).map fun (digits, exponent) => ⟨false, digits, exponent⟩

theorem read?_signed (negative : Bool) {lead : Char} {rest : List Char} (digit : lead.isDigit = true) :
    read? ((if negative then ['-'] else []) ++ lead :: rest) =
      (Double.readDecimal? (lead :: rest)).map fun (digits, exponent) => ⟨negative, digits, exponent⟩ := by
  cases negative with
  | true => rfl
  | false =>
    unfold read?
    split
    · rename_i same
      obtain ⟨rfl, _⟩ := List.cons.inj same
      exact nomatch digit
    · rfl

/-- The written form of a finite double denotes its shortest decimal, perhaps with further zeros. -/
theorem read?_chars {value : Float} (finite : value.isFinite = true) :
    ∃ zeros : Nat, read? (Double.chars value) = some ⟨Double.isNegative value,
      (Double.toDecimal value).digits * 10 ^ zeros, (Double.toDecimal value).exponent - zeros⟩ := by
  obtain ⟨lead, rest, begins, digit⟩ := Double.exists_unsignedText_eq_cons Double.layout (Double.toDecimal value)
  obtain ⟨zeros, read⟩ := Double.exists_readDecimal?_unsignedText Double.layout (Double.toDecimal value)
  refine ⟨zeros, ?_⟩
  rw [Double.chars_of_isFinite finite, begins, read?_signed _ digit, ← begins, read, Option.map_some]

theorem read?_plain (d : Decimal) :
    read? d.plain.toList = some ⟨d.negative, d.digits * 10 ^ d.exponent.toNat, d.exponent - d.exponent.toNat⟩ := by
  obtain ⟨wholeDigits, _, begun, _⟩ := Double.positional_spec d.digits d.exponent
  have read := Double.readDecimal?_positional d.digits d.exponent
  rw [plain, String.toList_ofList, List.append_assoc]
  generalize Decimal.positional d.digits d.exponent = parts at *
  obtain ⟨lead, rest, whole⟩ := List.exists_cons_of_ne_nil begun
  rw [whole] at wholeDigits read ⊢
  rw [List.cons_append] at read ⊢
  rw [read?_signed _ (wholeDigits lead List.mem_cons_self), read, Option.map_some]

theorem isCanonical_zero : IsCanonical ['0'] [] ['0'] [] where
  parts := rfl
  sign_minus := .inl rfl
  whole_ne_nil := nofun
  whole_isDigit := fun c member => by rw [List.mem_singleton.1 member]; rfl
  whole_short := fun _ => rfl
  places_isDigit := nofun
  places_short := nofun
  not_negZero := by decide

/-- The places of a decimal without trailing zeros do not end in a zero. -/
theorem getLast?_positional {digits : Nat} (last : digits % 10 ≠ 0) (exponent : Int) :
    (positional digits exponent).2.getLast? ≠ some '0' := by
  unfold positional
  split_ifs with whole
  · exact nofun
  · dsimp only
    have table : ∀ n < 10, n ≠ 0 → Nat.digitChar n ≠ '0' := by decide
    have tens : 10 ∣ 10 ^ (-exponent).toNat := dvd_pow_self 10 (by omega)
    rw [List.getLast?_append, Double.getLast?_toDigits, Option.some_or, Nat.pow_eq, Nat.mod_mod_of_dvd _ tens]
    exact fun zero => table _ (Nat.mod_lt _ (by decide)) last (Option.some.inj zero)

theorem isCanonical_plain {d : Decimal} (last : d.digits % 10 ≠ 0) :
    IsCanonical d.plain.toList (if d.negative then ['-'] else []) (positional d.digits d.exponent).1
      (positional d.digits d.exponent).2 := by
  obtain ⟨wholeDigits, placeDigits, begun, _⟩ := Double.positional_spec d.digits d.exponent
  obtain ⟨size, whole⟩ := Double.exists_positional_eq_toDigits d.digits d.exponent
  refine ⟨?_, ?_, begun, wholeDigits, ?_, placeDigits, getLast?_positional last d.exponent, ?_⟩
  · rw [plain, String.toList_ofList, List.append_assoc]
  · split
    · exact .inr rfl
    · exact .inl rfl
  · rw [whole]
    exact Double.toDigits_of_head?_eq_zero
  · intro zero
    have read := read?_plain d
    have none : read? ['-', '0'] = some ⟨true, 0, 0⟩ := rfl
    rw [zero, none, Option.some_inj, mk.injEq] at read
    exact mul_pow_ne_zero last d.exponent.toNat read.2.1.symm

/-- The text of a decimal, in which zero has no sign, denotes the number that the decimal stands for. -/
theorem exists_read?_text (d : Decimal) :
    ∃ shown, read? (if d.digits = 0 then "0" else d.plain).toList = some shown ∧ shown.toRat = d.toRat := by
  split_ifs with zero
  · exact ⟨⟨false, 0, 0⟩, rfl, by rw [toRat_of_zero rfl, toRat_of_zero zero]⟩
  · refine ⟨_, read?_plain d, ?_⟩
    rw [toRat_mul_pow, Int.sub_add_cancel]

theorem mod_ten_round {d : Decimal} {places : Nat} (nonzero : (d.trimmed.round places).digits ≠ 0) :
    (d.trimmed.round places).digits % 10 ≠ 0 := by
  unfold round at nonzero ⊢
  dsimp only at nonzero ⊢
  split_ifs at nonzero ⊢
  · exact mod_ten_trimmed nonzero
  · exact mod_ten_trimmed nonzero

/-- The text of a decimal that is trimmed before and after it is rounded is canonical. -/
theorem isCanonical_round (d : Decimal) (places : Nat) :
    ∃ sign whole fraction, IsCanonical (if (d.trimmed.round places).digits = 0 then "0"
      else (d.trimmed.round places).plain).toList sign whole fraction := by
  split_ifs with zero
  · exact ⟨_, _, _, isCanonical_zero⟩
  · exact ⟨_, _, _, isCanonical_plain (mod_ten_round zero)⟩

/-- Rounding a trimmed decimal changes it exactly if it changes its value. -/
theorem toRat_trimmed_round_eq_iff (d : Decimal) (places : Nat) :
    (d.trimmed.round places).toRat = d.trimmed.toRat ↔ d.trimmed.round places = d.trimmed := by
  by_cases zero : d.digits = 0
  · rw [trimmed_of_zero zero, round_of_whole le_rfl]
    exact iff_of_true rfl rfl
  · obtain ⟨_, _, _, last⟩ := trimmed_spec zero
    exact toRat_round_eq_iff last places

/-- What is shown for a decimal is its rounding in canonical form. It is marked as rounded exactly if its value differs
from that of the decimal. -/
theorem render_trimmed (d : Decimal) (places : Nat) :
    ∃ shown sign whole fraction, read? (d.trimmed.render places).text.toList = some shown ∧
      IsCanonical (d.trimmed.render places).text.toList sign whole fraction ∧
      HalfEven d.toRat places shown.toRat ∧
      ((d.trimmed.render places).rounded = true ↔ shown.toRat ≠ d.toRat) := by
  obtain ⟨shown, read, value⟩ := exists_read?_text (d.trimmed.round places)
  obtain ⟨sign, whole, fraction, canonical⟩ := isCanonical_round d places
  have rounds := halfEven_round d.trimmed places
  have changed := toRat_trimmed_round_eq_iff d places
  rw [toRat_trimmed, ← value] at rounds changed
  rw [render_eq]
  refine ⟨shown, sign, whole, fraction, read, canonical, rounds, ?_⟩
  rw [decide_eq_true_iff, ne_eq, ne_eq, changed]

end Decimal

end Reckoner
