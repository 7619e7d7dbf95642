import Reckoner.Json.Limits
import Reckoner.Json.Printer

namespace Reckoner.Json

/-- What is written of a text, and the excess that stops the writing, if there is one. -/
structure Draft where
  text : List Char
  excess : Option Excess

namespace Draft

def of (text : List Char) : Draft := ⟨text, none⟩

def stopped (excess : Excess) : Draft := ⟨[], some excess⟩

/-- Goes on writing, unless something has stopped it. -/
def append (first second : Draft) : Draft :=
  match first.excess with
  | some _ => first
  | none => ⟨first.text ++ second.text, second.excess⟩

instance : Append Draft := ⟨append⟩

end Draft

/-- Writes a value that has no parts, in one piece with the text before it. -/
def writeWhole (room level : Nat) (before : List Char) (value : Value) : Draft :=
  match value.follow writingNeed room with
  | .ok () => .of (before ++ print level value)
  | .error excess => .stopped excess

mutual

/-- Writes a value behind a text, up to the first excess. The text before a list or a mapping is written in any case. -/
def write (room level : Nat) (before : List Char) (value : Value) : Draft :=
  match value with
  | .list items =>
    .of before ++
      if room < writingNeed (.list items) then .stopped .depth
      else match items with
        | [] => .of ['[', ']']
        | item :: rest =>
          write (room - 1) (level + 1) ('[' :: newline (level + 1)) item ++
            writeItems (room - 1) (level + 1) rest ++ .of (newline level ++ [']'])
  | .mapping entries =>
    .of before ++
      if room < writingNeed (.mapping entries) then .stopped .depth
      else match entries with
        | [] => .of ['\x7b', '\x7d']
        | (name, value) :: rest =>
          .of ('\x7b' :: (newline (level + 1) ++ printText name ++ [':', ' '])) ++
            write (room - 1) (level + 1) [] value ++ writeEntries (room - 1) (level + 1) rest ++
            .of (newline level ++ ['\x7d'])
  | .null => writeWhole room level before .null
  | .flag value => writeWhole room level before (.flag value)
  | .whole value => writeWhole room level before (.whole value)
  | .real value => writeWhole room level before (.real value)
  | .text value => writeWhole room level before (.text value)

def writeItems (room level : Nat) : List Value → Draft
  | [] => .of []
  | item :: rest => write room level (',' :: newline level) item ++ writeItems room level rest

def writeEntries (room level : Nat) : List (CodePoints × Value) → Draft
  | [] => .of []
  | (name, value) :: rest =>
    .of (',' :: (newline level ++ printText name ++ [':', ' '])) ++ write room level [] value ++
      writeEntries room level rest

end

end Reckoner.Json
