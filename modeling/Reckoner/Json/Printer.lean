import Reckoner.Double.Text
import Reckoner.Json.Text
import Reckoner.Value.Basic

namespace Reckoner.Json

def indent : Nat := 4

def newline (level : Nat) : List Char :=
  '\n' :: List.replicate (indent * level) ' '

/-- A double. Infinities and the missing number have names. -/
def printReal (x : Float) : List Char :=
  if x.isNaN then "NaN".toList
  else if x.isFinite then Double.chars x
  else if x < 0 then "-Infinity".toList
  else "Infinity".toList

mutual

/-- A value whose first line stands at the given level. -/
def print (level : Nat) : Value → List Char
  | .null => "null".toList
  | .flag true => "true".toList
  | .flag false => "false".toList
  | .whole value => (toString value).toList
  | .real value => printReal value
  | .text value => printText value
  | .list [] => ['[', ']']
  | .list (item :: rest) =>
    '[' :: (newline (level + 1) ++ print (level + 1) item ++ printItems (level + 1) rest ++ newline level ++ [']'])
  | .mapping [] => ['\x7b', '\x7d']
  | .mapping ((name, value) :: rest) =>
    '\x7b' :: (newline (level + 1) ++ printText name ++ ':' :: ' ' :: print (level + 1) value ++
      printEntries (level + 1) rest ++ newline level ++ ['\x7d'])

def printItems (level : Nat) : List Value → List Char
  | [] => []
  | item :: rest => ',' :: (newline level ++ print level item ++ printItems level rest)

def printEntries (level : Nat) : List (CodePoints × Value) → List Char
  | [] => []
  | (name, value) :: rest =>
    ',' :: (newline level ++ printText name ++ ':' :: ' ' :: print level value ++ printEntries level rest)

end

end Reckoner.Json
