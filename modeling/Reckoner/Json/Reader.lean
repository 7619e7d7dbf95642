import Reckoner.Double.Numeral
import Reckoner.Json.Limits
import Reckoner.Json.Text
import Reckoner.OrderedMap
import Reckoner.Value.Basic

namespace Reckoner.Json

/-- Whether a character may stand between the parts of a JSON text. -/
def isSpace (c : Char) : Bool :=
  c = ' ' || c = '\t' || c = '\n' || c = '\r'

def skipSpace (text : List Char) : List Char :=
  text.dropWhile isSpace

/-- The whole part of a number: zero, or digits that do not start with zero. -/
def wholeDigits : List Char → List Char
  | [] => []
  | c :: rest => if c = '0' then [c] else if c.isDigit then c :: rest.takeWhile Char.isDigit else []

/-- The fraction of a number, its point included. A point without a digit behind it is no fraction. -/
def fractionPart : List Char → List Char
  | '.' :: rest =>
    let digits := rest.takeWhile Char.isDigit
    if digits.isEmpty then [] else '.' :: digits
  | _ => []

/-- The exponent of a number, its mark included. A mark without a digit behind it is no exponent. -/
def exponentPart : List Char → List Char
  | [] => []
  | mark :: rest =>
    if mark = 'e' ∨ mark = 'E' then
      let sign := match rest with
        | c :: _ => if c = '-' ∨ c = '+' then [c] else []
        | [] => []
      let digits := (rest.drop sign.length).takeWhile Char.isDigit
      if digits.isEmpty then [] else mark :: (sign ++ digits)
    else []

/-- Reads a number: a whole number, or a double if it has a fraction or an exponent. -/
def readNumber (text : List Char) : Except Flaw (Value × List Char) :=
  let (negative, body) := match text with
    | '-' :: rest => (true, rest)
    | rest => (false, rest)
  let whole := wholeDigits body
  let afterWhole := body.drop whole.length
  let fraction := fractionPart afterWhole
  let afterFraction := afterWhole.drop fraction.length
  let exponent := exponentPart afterFraction
  let rest := afterFraction.drop exponent.length
  if whole.isEmpty then .error ⟨.expectingValue, text.length⟩
  else if fraction.isEmpty ∧ exponent.isEmpty then
    if digitLimit < whole.length then .error ⟨.tooManyDigits, text.length⟩
    else
      let size : Int := Nat.ofDigitChars 10 whole 0
      .ok (.whole (if negative then -size else size), rest)
  else
    match Double.readDecimal? (whole ++ fraction ++ exponent) with
    | some (digits, power) => .ok (.real (Double.ofMagnitude negative (Double.nearestDecimal digits power)), rest)
    | none => .error ⟨.expectingValue, text.length⟩

def words : List (String × Value) :=
  [("null", .null), ("true", .flag true), ("false", .flag false), ("NaN", .real (0.0 / 0.0)),
   ("Infinity", .real (1.0 / 0.0)), ("-Infinity", .real (-1.0 / 0.0))]

/-- Reads a value that holds no other values and is no text: a word, or a number. -/
def readScalar (text : List Char) : Except Flaw (Value × List Char) :=
  match words.find? fun (word, _) => word.toList.isPrefixOf text with
  | some (word, value) => .ok (value, text.drop word.length)
  | none => readNumber text

/-- Reads the name of an entry and the colon behind it. -/
def readName (text : List Char) : Except Flaw (CodePoints × List Char) :=
  match text with
  | '"' :: rest => do
    let (name, rest) ← readText (rest.length + 1) rest
    match skipSpace rest with
    | ':' :: rest => return (name, skipSpace rest)
    | rest => .error ⟨.expectingColon, rest.length⟩
  | rest => .error ⟨.expectingName, rest.length⟩

mutual

/-- Reads the value at the start of a text. An inner value, or the rest of the items or entries, is at most two steps
away and shorter than the text, so `steps` may be anything more than twice the length of the text. At most `room` lists
and mappings may stand inside each other. -/
def readValue : (steps room : Nat) → List Char → Except Flaw (Value × List Char)
  | 0, _, text => .error ⟨.expectingValue, text.length⟩
  | steps + 1, room, text =>
    match text with
    | '"' :: rest => do
      let (inner, rest) ← readText (rest.length + 1) rest
      return (.text inner, rest)
    | '[' :: rest =>
      match room with
      | 0 => .error ⟨.tooDeep, text.length⟩
      | room + 1 =>
        match skipSpace rest with
        | ']' :: rest => return (.list [], rest)
        | rest => do
          let (items, rest) ← readItems steps room rest
          return (.list items, rest)
    | '\x7b' :: rest =>
      match room with
      | 0 => .error ⟨.tooDeep, text.length⟩
      | room + 1 =>
        match skipSpace rest with
        | '\x7d' :: rest => return (.mapping [], rest)
        | rest => do
          let (entries, rest) ← readEntries steps room rest
          return (.mapping (OrderedMap.ofList entries).entries, rest)
    | text => readScalar text

/-- Reads the items of a list up to its closing bracket. -/
def readItems : (steps room : Nat) → List Char → Except Flaw (List Value × List Char)
  | 0, _, text => .error ⟨.expectingValue, text.length⟩
  | steps + 1, room, text => do
    let (item, rest) ← readValue steps room text
    match skipSpace rest with
    | ']' :: rest => return ([item], rest)
    | ',' :: rest =>
      let (items, rest) ← readItems steps room (skipSpace rest)
      return (item :: items, rest)
    | rest => .error ⟨.expectingComma, rest.length⟩

/-- Reads the entries of a mapping up to its closing brace. -/
def readEntries : (steps room : Nat) → List Char → Except Flaw (List (CodePoints × Value) × List Char)
  | 0, _, text => .error ⟨.expectingName, text.length⟩
  | steps + 1, room, text => do
    let (name, rest) ← readName text
    let (value, rest) ← readValue steps room rest
    match skipSpace rest with
    | '\x7d' :: rest => return ([(name, value)], rest)
    | ',' :: rest =>
      let (entries, rest) ← readEntries steps room (skipSpace rest)
      return ((name, value) :: entries, rest)
    | rest => .error ⟨.expectingComma, rest.length⟩

end

/-- Reads a whole JSON text. Nothing but spaces may follow its value. Beyond the standard, `NaN`, `Infinity` and
`-Infinity` are numbers, and of a repeated name the last value counts. -/
def read (text : List Char) : Except Flaw Value :=
  if text.head? = some '\uFEFF' then .error ⟨.byteOrderMark, text.length⟩
  else do
    let (value, rest) ← readValue (2 * text.length + 1) depthLimit (skipSpace text)
    match skipSpace rest with
    | [] => return value
    | rest => .error ⟨.extraData, rest.length⟩

end Reckoner.Json
