import Reckoner.Double.Nearest
import Reckoner.Text.Blank
import Reckoner.Text.Digit

namespace Reckoner.Double

/-- The exponent at the end of a numeral: nothing, or the mark, an optional sign and at least one digit. -/
def readExponent? : List Char → Option Int
  | [] => some 0
  | mark :: rest =>
    if mark = 'e' ∨ mark = 'E' then
      let (negative, digits) := match rest with
        | '-' :: r => (true, r)
        | '+' :: r => (false, r)
        | r => (false, r)
      if digits.isEmpty ∨ !digits.all Char.isDigit then none
      else
        let size : Int := Nat.ofDigitChars 10 digits 0
        some (if negative then -size else size)
    else none

/-- Digits with an optional point among them, at least one digit in all, and an optional exponent. The answer is
the number without its point, and the power of ten that goes with it. -/
def readDecimal? (text : List Char) : Option (Nat × Int) :=
  let whole := text.takeWhile Char.isDigit
  let (fraction, rest) := match text.dropWhile Char.isDigit with
    | '.' :: r => (r.takeWhile Char.isDigit, r.dropWhile Char.isDigit)
    | r => ([], r)
  if whole.isEmpty ∧ fraction.isEmpty then none
  else (readExponent? rest).map fun exponent =>
    (Nat.ofDigitChars 10 (whole ++ fraction) 0, exponent - fraction.length)

/-- A numeral without sign, as magnitude bits; `none` inside stands for a missing number. -/
def readUnsigned? (text : List Char) : Option (Option Nat) :=
  let word := text.map Char.toLower
  if word = ['i', 'n', 'f'] ∨ word = ['i', 'n', 'f', 'i', 'n', 'i', 't', 'y'] then some (some infinityBits)
  else if word = ['n', 'a', 'n'] then some none
  else (readDecimal? text).map fun (digits, exponent) => some (nearestDecimal digits exponent)

def readSigned? (text : List Char) : Option Float :=
  let (negative, body) := match text with
    | '-' :: r => (true, r)
    | '+' :: r => (false, r)
    | r => (false, r)
  (readUnsigned? body).map fun
    | some bits => ofMagnitude negative bits
    | none => 0.0 / 0.0

/-- Removes the underscores of a text in which each stands between two digits. -/
def joinDigits? : Char → List Char → Option (List Char)
  | before, [] => if before = '_' then none else some []
  | before, c :: rest =>
    if c = '_' then (if before.isDigit then joinDigits? c rest else none)
    else if before = '_' ∧ !c.isDigit then none
    else (joinDigits? c rest).map (c :: ·)

/-- A character as a numeral uses it: blanks beyond ASCII are spaces, and digits of other scripts are those
of ASCII. -/
def foldChar (c : Char) : Char :=
  if c.toNat < 127 then c
  else if Text.isBlank c then ' '
  else match Text.digitValue? c with
    | some value => Nat.digitChar value
    | none => c

/-- The blanks that may surround a numeral once its characters are folded. -/
def isMargin (c : Char) : Bool :=
  c = ' ' || (0x0009 ≤ c.toNat && c.toNat ≤ 0x000D)

def stripMargins (text : List Char) : List Char :=
  ((text.dropWhile isMargin).reverse.dropWhile isMargin).reverse

/-- Reads a double from text, if the text is a numeral. A numeral may stand between blanks, may use the decimal digits
of any script, and may join digits by single underscores. -/
def read? (text : List Char) : Option Float :=
  (joinDigits? ' ' (stripMargins (text.map foldChar))).bind readSigned?

end Reckoner.Double
