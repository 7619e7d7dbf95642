import Reckoner.Double.Numeral
import Reckoner.Token.Basic

namespace Reckoner.Token

/-- Whether a character is an operator of arithmetic. -/
def isOperatorChar (c : Char) : Bool :=
  (Operator.ofChar? c).isSome

/-- The index of the first operator that does not directly follow an `E`. -/
def operatorAfter? : Char → List Char → Option Nat
  | _, [] => none
  | before, c :: rest =>
    if isOperatorChar c ∧ before ≠ 'E' then some 0 else (operatorAfter? c rest).map (· + 1)

/-- The index of the first operator behind the first character, signs of exponents apart. -/
def firstOperator? : List Char → Option Nat
  | [] => none
  | c :: rest => (operatorAfter? c rest).map (· + 1)

/-- The index of the last operator in a text that follows the character `before`, signs of exponents apart. -/
def lastOperatorAfter? : Option Char → List Char → Option Nat
  | _, [] => none
  | before, c :: rest =>
    match lastOperatorAfter? (some c) rest with
    | some index => some (index + 1)
    | none => if isOperatorChar c ∧ before ≠ some 'E' then some 0 else none

/-- The index of the last operator, signs of exponents apart. -/
def lastOperator? (text : List Char) : Option Nat :=
  lastOperatorAfter? none text

def isNumeric (c : Char) : Bool :=
  c.isDigit || c = '.' || c = 'E' || c = '+' || c = '-'

/-- The literal at the start of a text. An operator ends it unless it is the sign of an exponent, and so does the first
character that no number has. -/
def literal (text : List Char) : List Char :=
  let region := match firstOperator? text with
    | some index => text.take index
    | none => text
  region.takeWhile isNumeric

/-- The token of a literal, if the literal is a numeral of a finite number. -/
def ofLiteral (literal : List Char) : Except Failure Token :=
  match Double.read? literal with
  | none => .error (.invalidLiteral (String.ofList literal))
  | some value =>
    if value.isFinite then .ok (number (String.ofList literal) value)
    else .error (.literalTooLarge (String.ofList literal))

/-- Reads the number at the start of a text and tells how many characters it takes. -/
def readNumber (text : List Char) : Except Failure (Token × Nat) :=
  (ofLiteral (literal text)).map fun token => (token, (literal text).length)

end Reckoner.Token
