import Reckoner.Double.Numeral
import Reckoner.Failure
import Reckoner.OrderedMap

namespace Reckoner

/-- Text as the scanner takes it: no blanks, and points for decimal commas. -/
def normalize (text : List Char) : List Char :=
  (text.filter fun c => !Text.isBlank c).map fun c => if c = ',' then '.' else c

namespace Assignment

/-- The parts of a text around its first character of the given kind, if it has one. -/
def splitAt? (mark : Char) (text : List Char) : Option (List Char × List Char) :=
  match text.dropWhile (· ≠ mark) with
  | [] => none
  | _ :: rest => some (text.takeWhile (· ≠ mark), rest)

/-- Reads one assignment, `name=value`, with a finite value. -/
def read (argument : String) : Except Failure (String × Float) :=
  match splitAt? '=' (normalize argument.toList) with
  | none => .error (.missingEquals argument)
  | some ([], _) => .error (.missingName argument)
  | some (name, value) =>
    match Double.read? value with
    | some number =>
      if number.isFinite then .ok (String.ofList name, number)
      else .error (.unreadableBinding (String.ofList name) (String.ofList value))
    | none => .error (.unreadableBinding (String.ofList name) (String.ofList value))

/-- Reads assignments in turn; the last one of a name wins. -/
def readAll (arguments : List String) : Except Failure (OrderedMap String Float) :=
  (arguments.mapM read).map OrderedMap.ofList

/-- The pieces of a text between the marks of the given kind. There is one more piece than marks. -/
def splitOn (mark : Char) : List Char → List (List Char)
  | [] => [[]]
  | c :: rest =>
    if c = mark then [] :: splitOn mark rest
    else match splitOn mark rest with
      | piece :: pieces => (c :: piece) :: pieces
      | [] => [[c]]

/-- Reads a line of assignments separated by semicolons. Blank pieces are skipped. -/
def readLine (line : String) : Except Failure (OrderedMap String Float) :=
  readAll (((splitOn ';' line.toList).filter (!Text.allBlank ·)).map String.ofList)

end Assignment

end Reckoner
