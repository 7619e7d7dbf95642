import Mathlib
import Reckoner.Proofs.Token.Lossless

namespace Reckoner.Token

variable {bound : String → Bool} {names : List String}

/-- What scanning a text from a position on comes to. Each round reads one token, which takes at least one character and
no more than are left. -/
inductive Scans (bound : String → Bool) (names : List String) (text : List Char) :
    Nat → Except Failure (List Token) → Prop
  | done : Scans bound names text text.length (.ok [])
  | stopped {position : Nat} {c : Char} {rest : List Char} {cause : Failure} :
      text.drop position = c :: rest →
      lexeme bound names position (text.take position).getLast? c rest = .error cause →
      Scans bound names text position (.error cause)
  | next {position length : Nat} {c : Char} {rest : List Char} {token : Token} {outcome : Except Failure (List Token)} :
      text.drop position = c :: rest →
      lexeme bound names position (text.take position).getLast? c rest = .ok (token, length) →
      0 < length → position + length ≤ text.length → Scans bound names text (position + length) outcome →
      Scans bound names text position (outcome.map (token :: ·))

theorem scans_scanFrom (front text : List Char) :
    Scans bound names (front ++ text) front.length (scanFrom bound names 0 front.length front.getLast? text) := by
  induction size : text.length using Nat.strong_induction_on generalizing front text with
  | _ size ih =>
    subst size
    cases text with
    | nil =>
      rw [List.append_nil]
      exact .done
    | cons c rest =>
      have here : (front ++ c :: rest).drop front.length = c :: rest := List.drop_left
      have passed : (front ++ c :: rest).take front.length = front := List.take_left
      rw [scanFrom]
      cases read : lexeme bound names front.length front.getLast? c rest with
      | error cause => exact .stopped here (by rw [passed, read])
      | ok found =>
        obtain ⟨token, length⟩ := found
        obtain ⟨reads, rfl⟩ := readsAs_of_lexeme read
        obtain ⟨behind, whole⟩ := reads.toList_prefix
        have filled := List.length_pos_of_ne_nil reads.toList_ne_nil
        have fewer : behind.length < (c :: rest).length := by
          rw [← whole, List.length_append]
          omega
        have later := ih behind.length fewer (front ++ token.text.toList) behind rfl
        rw [List.append_assoc, whole, List.length_append, List.getLast?_append_of_ne_nil _ reads.toList_ne_nil,
          ← scanFrom_passed reads.toList_ne_nil whole] at later
        have within : front.length + token.text.toList.length ≤ (front ++ c :: rest).length := by
          rw [← whole, List.length_append, List.length_append]
          omega
        exact .next here (by rw [passed, read]) filled within later

/-- Scanning ends on every text, with whatever names are bound and functions there are. No function without a name is
split off a word, so every round takes something. -/
theorem scan_advances (bound : String → Bool) (names : List String) (expression : String) :
    Scans bound names (dropEquals expression.toList) 0 (scan bound names expression) :=
  scans_scanFrom [] _

end Reckoner.Token
