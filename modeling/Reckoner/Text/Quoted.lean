import Reckoner.Text.CodePoint
import Reckoner.Text.Printable

namespace Reckoner.Text

/-- The last `width` hexadecimal digits of a number, in lower case. -/
def hexDigits : Nat → Nat → List Char
  | 0, _ => []
  | width + 1, n => hexDigits width (n / 16) ++ [Nat.digitChar (n % 16)]

/-- The mark that surrounds a quoted text: single, unless only the double mark is free. -/
def quoteMark (text : CodePoints) : Char :=
  if text.contains (.char '\'') && !text.contains (.char '"') then '"' else '\''

/-- One character inside marks. Backslash, the mark itself and the usual controls have a short form; other
characters that are not printable are written with two, four or eight hexadecimal digits. -/
def quoteChar (mark c : Char) : List Char :=
  if c = mark ∨ c = '\\' then ['\\', c]
  else if c = '\n' then ['\\', 'n']
  else if c = '\r' then ['\\', 'r']
  else if c = '\t' then ['\\', 't']
  else if isPrintable c then [c]
  else if c.toNat < 0x100 then '\\' :: 'x' :: hexDigits 2 c.toNat
  else if c.toNat < 0x10000 then '\\' :: 'u' :: hexDigits 4 c.toNat
  else '\\' :: 'U' :: hexDigits 8 c.toNat

/-- One code point inside marks. Half of a surrogate pair is written with its four hexadecimal digits. -/
def quotePoint (mark : Char) : CodePoint → List Char
  | .char c => quoteChar mark c
  | .half offset => '\\' :: 'u' :: hexDigits 4 (CodePoint.firstHalf + offset)

def quotedPoints (text : CodePoints) : String :=
  let mark := quoteMark text
  String.ofList (mark :: (text.flatMap (quotePoint mark) ++ [mark]))

def quoted (text : String) : String :=
  quotedPoints (.ofString text)

end Reckoner.Text
