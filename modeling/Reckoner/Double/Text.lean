import Reckoner.Double.Shortest

namespace Reckoner.Double

/-- How a decimal is laid out: the leading exponents written positionally, and the least number of digits that an
exponent is given. -/
structure Layout where
  leastPositional : Int
  firstScientific : Int
  exponentWidth : Nat

/-- Numbers from one ten-thousandth up to ten quadrillion are positional, and an exponent has two digits. -/
def layout : Layout := ⟨-4, 16, 2⟩

/-- An exponent with its sign, filled up with zeros to the given width. -/
def exponentText (width : Nat) (exponent : Int) : List Char :=
  let digits := Nat.toDigits 10 exponent.natAbs
  (if exponent < 0 then '-' else '+') :: (List.replicate (width - digits.length) '0' ++ digits)

/-- A decimal without its sign. Positional text always keeps a digit after the point; with an exponent the
point stands only between digits. -/
def unsignedText (l : Layout) (d : Decimal) : List Char :=
  let lead := d.leadingExponent
  if l.leastPositional ≤ lead ∧ lead < l.firstScientific then
    match Decimal.positional d.digits d.exponent with
    | (whole, []) => whole ++ ['.', '0']
    | (whole, fraction) => whole ++ '.' :: fraction
  else
    match Nat.toDigits 10 d.digits with
    | [] => []
    | [digit] => digit :: 'e' :: exponentText l.exponentWidth lead
    | digit :: rest => digit :: '.' :: (rest ++ 'e' :: exponentText l.exponentWidth lead)

def chars (x : Float) : List Char :=
  if x.isNaN then ['n', 'a', 'n'] else
  let sign := if isNegative x then ['-'] else []
  if x.isFinite then sign ++ unsignedText layout (toDecimal x) else sign ++ ['i', 'n', 'f']

/-- The written form of a double, for instance `3.0`, `1e-05`, `-0.0` or `inf`. -/
def text (x : Float) : String :=
  String.ofList (chars x)

end Reckoner.Double
