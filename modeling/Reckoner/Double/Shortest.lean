import Reckoner.Decimal
import Reckoner.Double.Nearest

namespace Reckoner.Double

/-- The whole number `exact / 10 ^ places` is cut out of, in steps of `10 ^ -1074`: every finite magnitude is a
whole number of such steps, because `2 ^ -1074` is. -/
def exactDigits (bits : Nat) : Nat :=
  Nat.pow 5 halvings * units bits

/-- Whether the decimal `digits * 10 ^ exponent` is read as the magnitude with the given bits. -/
def readsBack (bits digits : Nat) (exponent : Int) : Bool :=
  nearestDecimal digits exponent = bits

/-- The decimal with its last digit at `10 ^ (places - 1074)` that reads back as the magnitude, if there is one.
Only the two neighbours of the exact value on that grid can be the closest; of two that read back the nearer
wins, and of two equally near the even one. -/
def shortestAt? (bits places : Nat) : Option Nat :=
  let exact := exactDigits bits
  let grid := Nat.pow 10 places
  let below := exact / grid
  let twice := 2 * (exact % grid)
  let exponent : Int := places - halvings
  match readsBack bits below exponent, readsBack bits (below + 1) exponent with
  | true, true =>
    some (if twice < grid ∨ twice = grid ∧ below % 2 = 0 then below else below + 1)
  | true, false => some below
  | false, true => some (below + 1)
  | false, false => none

/-- Tries grids from coarse to fine. The finest grid holds the exact value, so there is always an answer. -/
def shortestFrom (bits : Nat) : Nat → Nat × Int
  | 0 => (exactDigits bits, -halvings)
  | places + 1 =>
    match shortestAt? bits (places + 1) with
    | some digits => (digits, (places + 1 : Nat) - halvings)
    | none => shortestFrom bits places

/-- The shortest decimal of a finite double. The coarsest grid tried leaves one digit of the exact value. -/
def toDecimal (x : Float) : Decimal :=
  let bits := magnitude x
  let (digits, exponent) := shortestFrom bits ((Nat.toDigits 10 (exactDigits bits)).length - 1)
  Decimal.trimmed ⟨isNegative x, digits, exponent⟩

end Reckoner.Double
