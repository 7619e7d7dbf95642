namespace Reckoner

/-- A number as it is written in base ten: `digits * 10 ^ exponent`, negated when `negative` holds. The sign
is kept for zero as well, so both zeros of a double have a decimal of their own. -/
structure Decimal where
  negative : Bool
  digits : Nat
  exponent : Int
deriving DecidableEq

namespace Decimal

/-- Moves trailing zero digits into the exponent, at most `fuel` of them. The value does not change. -/
def trimUpTo : Nat → Nat → Int → Nat × Int
  | 0, digits, exponent => (digits, exponent)
  | fuel + 1, digits, exponent =>
    if digits % 10 = 0 then trimUpTo fuel (digits / 10) (exponent + 1) else (digits, exponent)

/-- The form with the fewest digits: no trailing zero, and exponent zero for zero itself. A positive number
has no more trailing zeros than digits, which bounds the search. -/
def trimmed (d : Decimal) : Decimal :=
  if d.digits = 0 then ⟨d.negative, 0, 0⟩ else
  let (digits, exponent) := trimUpTo (Nat.toDigits 10 d.digits).length d.digits d.exponent
  ⟨d.negative, digits, exponent⟩

/-- The power of ten of the leading digit. Zero counts as having one digit. -/
def leadingExponent (d : Decimal) : Int :=
  d.exponent + (Nat.toDigits 10 d.digits).length - 1

/-- The digits before and after the point of `digits * 10 ^ exponent` in positional form. The whole part has
at least one digit, and the fraction has exactly the places that the exponent asks for. -/
def positional (digits : Nat) (exponent : Int) : List Char × List Char :=
  if 0 ≤ exponent then (Nat.toDigits 10 (digits * Nat.pow 10 exponent.toNat), [])
  else
    let places := (-exponent).toNat
    let fraction := Nat.toDigits 10 (digits % Nat.pow 10 places)
    (Nat.toDigits 10 (digits / Nat.pow 10 places),
      List.replicate (places - fraction.length) '0' ++ fraction)

/-- The decimal in positional form without an exponent: a sign for a negative number, a whole part, and the
fraction behind a point if there is one. -/
def plain (d : Decimal) : String :=
  let (whole, fraction) := positional d.digits d.exponent
  String.ofList ((if d.negative then ['-'] else []) ++ whole ++ (if fraction.isEmpty then [] else '.' :: fraction))

end Decimal

end Reckoner
