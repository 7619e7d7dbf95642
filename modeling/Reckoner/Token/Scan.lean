import Reckoner.Token.Literal

namespace Reckoner.Token

def startsWord (c : Char) : Bool :=
  c.isAlpha || c = '_'

def isWordChar (c : Char) : Bool :=
  c.isAlphanum || c = '_'

/-- The longest of the names that a word starts with. -/
def longestStart? (names : List String) (word : List Char) : Option String :=
  names.foldl
    (fun best name =>
      if name.toList.isPrefixOf word ∧ best.all (·.length < name.length) then some name else best)
    none

/-- The token at the start of the text `c :: rest`, and its length. A whole word that is a bound name is one name; every
other word that starts with the name of a function gives that function, and what is left of it is scanned by itself. -/
def lexeme (bound : String → Bool) (functions : List String) (position : Nat) (before : Option Char)
    (c : Char) (rest : List Char) : Except Failure (Token × Nat) :=
  if c.isDigit ∨ c = '.' then readNumber (c :: rest)
  else if c = '(' then .ok (lparen "(", 1)
  else if c = ')' then .ok (rparen ")", 1)
  else match Operator.ofChar? c with
    | some op => .ok (operator op, 1)
    | none =>
      if startsWord c then
        let word := (c :: rest).takeWhile isWordChar
        let attached := before.any isWordChar
        if bound (String.ofList word) ∧ !attached then .ok (name (String.ofList word) false, word.length)
        else match longestStart? (functions.filter (· ≠ "")) word with
          | some found => .ok (function found, found.length)
          | none => .ok (name (String.ofList word) attached, word.length)
      else .error (.unexpectedCharacter c position)

/-- Scans a text whose first `skip` characters belong to a token already read. -/
def scanFrom (bound : String → Bool) (functions : List String) :
    (skip position : Nat) → Option Char → List Char → Except Failure (List Token)
  | _, _, _, [] => .ok []
  | skip + 1, position, _, c :: rest => scanFrom bound functions skip (position + 1) (some c) rest
  | 0, position, before, c :: rest => do
    let (token, length) ← lexeme bound functions position before c rest
    let tokens ← scanFrom bound functions (length - 1) (position + 1) (some c) rest
    return token :: tokens

/-- A text without the equals sign at its end, if it has one. -/
def dropEquals (text : List Char) : List Char :=
  if text.getLast? = some '=' then text.dropLast else text

/-- The tokens of an expression. Its text has no blanks, and its decimal commas are points already. -/
def scan (bound : String → Bool) (functions : List String) (expression : String) :
    Except Failure (List Token) :=
  scanFrom bound functions 0 0 none (dropEquals expression.toList)

end Reckoner.Token
