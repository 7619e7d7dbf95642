import Reckoner.Json.Problem
import Reckoner.Text.Quoted

namespace Reckoner.Json

def hexValue? (c : Char) : Option Nat :=
  if c.isDigit then some (c.toNat - '0'.toNat)
  else if 'a' ≤ c ∧ c ≤ 'f' then some (c.toNat - 'a'.toNat + 10)
  else if 'A' ≤ c ∧ c ≤ 'F' then some (c.toNat - 'A'.toNat + 10)
  else none

def hexValue4? (a b c d : Char) : Option Nat := do
  return ((← hexValue? a) * 16 + (← hexValue? b)) * 256 + (← hexValue? c) * 16 + (← hexValue? d)

def isHighSurrogate (unit : Nat) : Bool := 0xD800 ≤ unit && unit < 0xDC00

def isLowSurrogate (unit : Nat) : Bool := 0xDC00 ≤ unit && unit < 0xE000

def joinSurrogates (high low : Nat) : Char :=
  Char.ofNat (0x10000 + (high - 0xD800) * 0x400 + (low - 0xDC00))

def shortEscape? : Char → Option Char
  | '"' => some '"'
  | '\\' => some '\\'
  | '/' => some '/'
  | 'b' => some '\x08'
  | 'f' => some '\x0c'
  | 'n' => some '\n'
  | 'r' => some '\r'
  | 't' => some '\t'
  | _ => none

/-- Puts a code point in front of a text that is read already. -/
def prepend (point : CodePoint) : Except Flaw (CodePoints × List Char) → Except Flaw (CodePoints × List Char)
  | .ok (text, rest) => .ok (point :: text, rest)
  | .error flaw => .error flaw

/-- Reads a text up to its closing quote. The number `left` counts the characters from the opening quote on. A numeric
escape never ends the input: one more character has to follow it. -/
def readText (left : Nat) : List Char → Except Flaw (CodePoints × List Char)
  | [] => .error ⟨.unterminatedText, left⟩
  | '"' :: rest => .ok ([], rest)
  | '\\' :: 'u' :: a :: b :: c :: d :: '\\' :: 'u' :: e :: f :: g :: h :: next :: rest =>
    match hexValue4? a b c d with
    | none => .error ⟨.badUnicodeEscape, rest.length + 12⟩
    | some unit =>
      if isHighSurrogate unit then
        match hexValue4? e f g h with
        | none => .error ⟨.badUnicodeEscape, rest.length + 6⟩
        | some other =>
          if isLowSurrogate other then prepend (.char (joinSurrogates unit other)) (readText left (next :: rest))
          else prepend (.ofUnit unit) (readText left ('\\' :: 'u' :: e :: f :: g :: h :: next :: rest))
      else prepend (.ofUnit unit) (readText left ('\\' :: 'u' :: e :: f :: g :: h :: next :: rest))
  | '\\' :: 'u' :: a :: b :: c :: d :: next :: rest =>
    match hexValue4? a b c d with
    | none => .error ⟨.badUnicodeEscape, rest.length + 6⟩
    | some unit => prepend (.ofUnit unit) (readText left (next :: rest))
  | '\\' :: 'u' :: rest => .error ⟨.badUnicodeEscape, rest.length + 1⟩
  | ['\\'] => .error ⟨.unterminatedText, left⟩
  | '\\' :: c :: rest =>
    match shortEscape? c with
    | some escaped => prepend (.char escaped) (readText left rest)
    | none => .error ⟨.badEscape, rest.length + 2⟩
  | c :: rest =>
    if c.toNat < 0x20 then .error ⟨.controlCharacter, rest.length + 1⟩
    else prepend (.char c) (readText left rest)

def unitEscape (unit : Nat) : List Char :=
  '\\' :: 'u' :: Text.hexDigits 4 unit

/-- A character inside a text. Everything beyond printable ASCII is escaped by its UTF-16 units. -/
def escapeChar (c : Char) : List Char :=
  if c = '"' ∨ c = '\\' then ['\\', c]
  else if c = '\n' then ['\\', 'n']
  else if c = '\r' then ['\\', 'r']
  else if c = '\t' then ['\\', 't']
  else if c = '\x08' then ['\\', 'b']
  else if c = '\x0c' then ['\\', 'f']
  else if 0x20 ≤ c.toNat ∧ c.toNat < 0x7F then [c]
  else if c.toNat < 0x10000 then unitEscape c.toNat
  else
    let offset := c.toNat - 0x10000
    unitEscape (0xD800 + offset / 0x400) ++ unitEscape (0xDC00 + offset % 0x400)

def escapePoint : CodePoint → List Char
  | .char c => escapeChar c
  | .half offset => unitEscape (CodePoint.firstHalf + offset)

def printText (text : CodePoints) : List Char :=
  '"' :: (text.flatMap escapePoint ++ ['"'])

end Reckoner.Json
