import Mathlib
import Reckoner.Proofs.Json.Number

namespace Reckoner.Json

def isPlain (c : Char) : Bool := c = '\n' || (0x20 ≤ c.toNat && c.toNat < 0x7F)

/-- All characters of a text are plain. -/
def Plain (text : List Char) : Prop := text.all isPlain = true

instance (text : List Char) : Decidable (Plain text) := inferInstanceAs (Decidable (_ = true))

namespace Plain

theorem of_forall {text : List Char} (each : ∀ c ∈ text, isPlain c = true) : Plain text := List.all_eq_true.2 each

theorem of_mem {text : List Char} (plain : Plain text) {c : Char} (member : c ∈ text) : isPlain c = true :=
  List.all_eq_true.1 plain c member

theorem append {first second : List Char} (before : Plain first) (behind : Plain second) : Plain (first ++ second) := by
  rw [Plain, List.all_append, before, behind]
  rfl

theorem cons {c : Char} {rest : List Char} (first : isPlain c = true) (behind : Plain rest) : Plain (c :: rest) := by
  rw [Plain, List.all_cons, first, behind]
  rfl

theorem isPlain_of_range {c : Char} (low : 0x20 ≤ c.toNat) (high : c.toNat < 0x7F) : isPlain c = true := by
  rw [isPlain, decide_eq_true low, decide_eq_true high, Bool.and_self, Bool.or_true]

theorem of_digits {text : List Char} (digits : ∀ c ∈ text, c.isDigit = true) : Plain text := by
  have table : ∀ n < 10, isPlain (Char.ofNat (n + 48)) = true := by decide
  refine of_forall fun c member => ?_
  obtain ⟨n, small, rfl⟩ := Double.exists_ofNat_of_isDigit (digits c member)
  exact table n small

theorem toDigits (n : Nat) : Plain (Nat.toDigits 10 n) :=
  of_digits fun _ => Nat.isDigit_of_mem_toDigits (by decide) (by decide)

theorem sign (negative : Bool) : Plain (if negative then ['-'] else []) := by
  cases negative <;> decide

theorem hexDigits (width n : Nat) : Plain (Text.hexDigits width n) := by
  have table : ∀ m < 16, isPlain (Nat.digitChar m) = true := by decide
  induction width generalizing n with
  | zero => rfl
  | succ width ih => exact (ih (n / 16)).append (cons (table _ (Nat.mod_lt n (by decide))) rfl)

theorem newline (level : Nat) : Plain (newline level) := by
  refine cons rfl (of_forall fun c member => ?_)
  rw [(List.mem_replicate.1 member).2]
  rfl

theorem unitEscape (unit : Nat) : Plain (unitEscape unit) :=
  cons rfl (cons rfl (hexDigits 4 unit))

theorem escapeChar (c : Char) : Plain (escapeChar c) := by
  unfold Json.escapeChar
  split_ifs with quoted _ _ _ _ _ shown
  · rcases quoted with rfl | rfl <;> decide
  · decide
  · decide
  · decide
  · decide
  · decide
  · exact cons (isPlain_of_range shown.1 shown.2) rfl
  · exact unitEscape c.toNat
  · exact (unitEscape _).append (unitEscape _)

theorem printText (text : CodePoints) : Plain (printText text) := by
  refine cons rfl (append (of_forall fun c member => ?_) (by decide))
  obtain ⟨point, _, within⟩ := List.mem_flatMap.1 member
  cases point with
  | char shown => exact (escapeChar shown).of_mem within
  | half offset => exact (unitEscape _).of_mem within

theorem unsignedText (l : Double.Layout) (d : Decimal) : Plain (Double.unsignedText l d) := by
  obtain ⟨whole, fraction, exponent, written⟩ := Double.isWritten_unsignedText l d
  have shown : Plain fraction := by
    rcases written.fraction_places with rfl | ⟨places, rfl, _, digits⟩
    · rfl
    · exact cons rfl (of_digits digits)
  have power : Plain exponent := by
    rcases written.exponent_size with rfl | ⟨width, size, rfl⟩
    · rfl
    · refine cons rfl (cons ?_ (of_digits fun c => Double.isDigit_of_mem_filled))
      split_ifs <;> rfl
  rw [written.parts]
  exact (of_digits written.whole_isDigit).append (shown.append power)

theorem printReal (x : Float) : Plain (printReal x) := by
  cases finite : x.isFinite with
  | true =>
    rw [Json.printReal, Double.not_isNaN_of_isFinite finite, finite, if_neg Bool.false_ne_true, if_pos rfl,
      Double.chars_of_isFinite finite]
    exact (sign _).append (unsignedText _ _)
  | false => rcases Double.eq_of_not_isFinite finite with rfl | rfl | rfl <;> decide +kernel

end Plain

mutual

theorem plain_print (level : Nat) : ∀ value : Value, Plain (print level value)
  | .null => (by decide : Plain "null".toList)
  | .flag true => (by decide : Plain "true".toList)
  | .flag false => (by decide : Plain "false".toList)
  | .whole value => by
    rw [print, toList_toString]
    exact (Plain.sign _).append (Plain.toDigits _)
  | .real value => Plain.printReal value
  | .text value => Plain.printText value
  | .list [] => (by decide : Plain ['[', ']'])
  | .list (item :: rest) =>
    .cons rfl (((((Plain.newline _).append (plain_print (level + 1) item)).append
      (plain_printItems (level + 1) rest)).append (Plain.newline level)).append (by decide))
  | .mapping [] => (by decide : Plain ['\x7b', '\x7d'])
  | .mapping ((name, value) :: rest) =>
    .cons rfl ((((((Plain.newline _).append (Plain.printText name)).append
      (.cons rfl (.cons rfl (plain_print (level + 1) value)))).append (plain_printEntries (level + 1) rest)).append
        (Plain.newline level)).append (by decide))

theorem plain_printItems (level : Nat) : ∀ items : List Value, Plain (printItems level items)
  | [] => rfl
  | item :: rest =>
    .cons rfl (((Plain.newline level).append (plain_print level item)).append (plain_printItems level rest))

theorem plain_printEntries (level : Nat) : ∀ entries : List (CodePoints × Value), Plain (printEntries level entries)
  | [] => rfl
  | (name, value) :: rest =>
    .cons rfl ((((Plain.newline level).append (Plain.printText name)).append
      (.cons rfl (.cons rfl (plain_print level value)))).append (plain_printEntries level rest))

end

end Reckoner.Json
