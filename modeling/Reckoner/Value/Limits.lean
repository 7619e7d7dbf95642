import Reckoner.Value.Basic

namespace Reckoner

/-- What goes beyond a limit. -/
inductive Excess where
  /-- A whole number with more digits than are converted. -/
  | digits
  /-- Values inside each other beyond what is followed. -/
  | depth
deriving DecidableEq

def Excess.text : Excess → String
  | digits => "Whole number with too many digits"
  | depth => "Too many lists and mappings inside each other"

/-- The most digits of a whole number that are converted, to text or back. -/
def digitLimit : Nat := 4300

namespace Value

mutual

/-- Goes through a value and its parts, from left to right, up to the first excess. There is some room for values inside
each other: every value has to find as much as it needs, and its parts find one less. -/
def follow (need : Value → Nat) (room : Nat) (value : Value) : Except Excess Unit :=
  if room < need value then .error .depth
  else match value with
    | .whole number => if digitLimit < (Nat.toDigits 10 number.natAbs).length then .error .digits else .ok ()
    | .list items => followItems need (room - 1) items
    | .mapping entries => followEntries need (room - 1) entries
    | .null | .flag _ | .real _ | .text _ => .ok ()

def followItems (need : Value → Nat) (room : Nat) : List Value → Except Excess Unit
  | [] => .ok ()
  | item :: rest => do
    follow need room item
    followItems need room rest

def followEntries (need : Value → Nat) (room : Nat) : List (CodePoints × Value) → Except Excess Unit
  | [] => .ok ()
  | (_, value) :: rest => do
    follow need room value
    followEntries need room rest

end

end Value

end Reckoner
