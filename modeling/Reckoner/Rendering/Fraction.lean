import Reckoner.Rendering.Decimal

namespace Reckoner

namespace Decimal

def toRat (d : Decimal) : Rat :=
  let signed : Int := if d.negative then -d.digits else d.digits
  match d.exponent with
  | .ofNat e => mkRat (signed * Nat.pow 10 e) 1
  | .negSucc e => mkRat signed (Nat.pow 10 (e + 1))

end Decimal

namespace Fraction

/-- Two neighbouring convergents of a continued fraction; the second is the later one. -/
structure Convergents where
  earlierNum : Int
  earlierDen : Int
  num : Int
  den : Int

/-- The convergents before every expansion: zero and infinity. -/
def Convergents.start : Convergents := ⟨0, 1, 1, 0⟩

/-- Expands the quotient of `n` and `d` as long as the denominators stay within the limit. -/
def expand (limit : Nat) (c : Convergents) (n : Int) (d : Nat) : Convergents :=
  if d = 0 then c
  else
    let term := n / d
    let den := c.earlierDen + term * c.den
    if limit < den then c
    else expand limit ⟨c.num, c.den, c.earlierNum + term * c.num, den⟩ d (n % d).toNat
termination_by d
decreasing_by
  have := Int.emod_lt_of_pos n (show (0 : Int) < d by omega)
  have := Int.emod_nonneg n (show (d : Int) ≠ 0 by omega)
  omega

/-- The rational number closest to `x` whose denominator is within the limit. It is the last convergent, or the last
fraction on the way to the next one. -/
def nearest (limit : Nat) (x : Rat) : Rat :=
  if x.den ≤ limit then x
  else
    let c := expand limit .start x.num x.den
    let count := (limit - c.earlierDen) / c.den
    let between := mkRat (c.earlierNum + count * c.num) (c.earlierDen + count * c.den).toNat
    let convergent := mkRat c.num c.den.toNat
    if (convergent - x).abs ≤ (between - x).abs then convergent else between

def denominatorLimit : Nat := 100000

/-- The text of a rational number: a whole number, a proper fraction, or a whole number and a proper fraction. -/
def text (x : Rat) : String :=
  let sign := if x.num < 0 then "-" else ""
  let size := x.num.natAbs
  if x.den = 1 then sign ++ toString size
  else if x.den < size then
    sign ++ toString (size / x.den) ++ " " ++ toString (size % x.den) ++ "/" ++ toString x.den
  else sign ++ toString size ++ "/" ++ toString x.den

/-- The text of the fraction that is closest to a decimal. -/
def render (d : Decimal) : Rendered :=
  let shown := nearest denominatorLimit d.toRat
  ⟨text shown, shown ≠ d.toRat⟩

end Fraction

end Reckoner
