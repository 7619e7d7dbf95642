import Reckoner.Value.Limits

namespace Reckoner.Json

inductive Problem where
  | expectingValue
  | expectingName
  | expectingColon
  | expectingComma
  | unterminatedText
  | controlCharacter
  | badEscape
  | badUnicodeEscape
  | extraData
  | byteOrderMark
  /-- A whole number with more digits than are converted. -/
  | tooManyDigits
  /-- A value inside more lists and mappings than are followed. -/
  | tooDeep
deriving DecidableEq

def Problem.text : Problem → String
  | expectingValue => "Expecting value"
  | expectingName => "Expecting property name enclosed in double quotes"
  | expectingColon => "Expecting ':' delimiter"
  | expectingComma => "Expecting ',' delimiter"
  | unterminatedText => "Unterminated string starting at"
  | controlCharacter => "Invalid control character at"
  | badEscape => "Invalid \\escape"
  | badUnicodeEscape => "Invalid \\uXXXX escape"
  | extraData => "Extra data"
  | byteOrderMark => "Unexpected UTF-8 BOM (decode using utf-8-sig)"
  | tooManyDigits => Excess.digits.text
  | tooDeep => Excess.depth.text

/-- A problem, and how many characters of the text are left where it shows. -/
structure Flaw where
  problem : Problem
  left : Nat
deriving DecidableEq

namespace Flaw

/-- The index of the character where a flaw of `text` shows. -/
def position (flaw : Flaw) (text : List Char) : Nat :=
  text.length - flaw.left

/-- The line of a flaw, counted from one. -/
def line (flaw : Flaw) (text : List Char) : Nat :=
  (text.take (flaw.position text)).count '\n' + 1

/-- The column of a flaw in its line, counted from one. -/
def column (flaw : Flaw) (text : List Char) : Nat :=
  ((text.take (flaw.position text)).reverse.takeWhile (· ≠ '\n')).length + 1

def account (flaw : Flaw) (text : List Char) : String :=
  flaw.problem.text ++ ": line " ++ toString (flaw.line text) ++ " column " ++ toString (flaw.column text) ++
    " (char " ++ toString (flaw.position text) ++ ")"

end Flaw

end Reckoner.Json
