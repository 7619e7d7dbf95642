import Reckoner.Double.Nearest
import Reckoner.OrderedMap
import Reckoner.Value.Display

namespace Reckoner

/-- A key of a settings map. Names are texts; a file may also bring null, flags and numbers. -/
inductive Key where
  | name (text : CodePoints)
  | null
  | flag (value : Bool)
  | whole (value : Int)
  | real (value : Float)

namespace Key

def named (s : String) : Key := .name (.ofString s)

/-- The key that a value makes. Lists and mappings make none. -/
def ofValue? : Value → Option Key
  | .text text => some (.name text)
  | .null => some .null
  | .flag value => some (.flag value)
  | .whole value => some (.whole value)
  | .real value => some (.real value)
  | .list _ | .mapping _ => none

def toValue : Key → Value
  | .name text => .text text
  | .null => .null
  | .flag value => .flag value
  | .whole value => .whole value
  | .real value => .real value

/-- The whole number that a finite double equals, if there is one. -/
def wholeOf? (x : Float) : Option Int :=
  let steps := Double.units (Double.magnitude x)
  if x.isFinite ∧ steps % Double.stepsInOne = 0 then
    let size : Int := (steps / Double.stepsInOne : Nat)
    some (if Double.isNegative x then -size else size)
  else none

inductive Identity where
  | text (name : CodePoints)
  | null
  | whole (n : Int)
  | real (x : Float)
deriving DecidableEq

/-- The identity of a key. Numbers are compared by their value, whatever their type, and the missing number is one key
like any other. -/
def identity : Key → Identity
  | .name text => .text text
  | .null => .null
  | .flag value => .whole (if value then 1 else 0)
  | .whole value => .whole value
  | .real value =>
    match wholeOf? value with
    | some n => .whole n
    | none => .real value

instance : BEq Key where
  beq a b := a.identity = b.identity

theorem beq_iff {a b : Key} : (a == b) = true ↔ a.identity = b.identity :=
  decide_eq_true_iff

instance : EquivBEq Key where
  rfl := beq_iff.2 rfl
  symm same := beq_iff.2 (beq_iff.1 same).symm
  trans first second := beq_iff.2 ((beq_iff.1 first).trans (beq_iff.1 second))

end Key

/-- Settings by key, in the order in which the keys arrived. -/
abbrev Settings := OrderedMap Key Value

namespace Settings

def value? (settings : Settings) (name : String) : Option Value :=
  settings.get? (.named name)

/-- Whether a named setting is there and counts as set. -/
def isOn (settings : Settings) (name : String) : Bool :=
  (settings.value? name).any Value.isSet

/-- Settings of named values; the last value of a name wins. -/
def ofNamed (pairs : List (String × Value)) : Settings :=
  .ofList (pairs.map fun (name, value) => (.named name, value))

/-- The decimal places where no setting says otherwise. -/
def defaultDecimalPlaces : Nat := 10

/-- The fewest decimal places that the settings form offers. -/
def leastDecimalPlaces : Nat := 2

def mostDecimalPlaces : Nat := 100

/-- The settings of a program without a configuration file. -/
def defaults : Settings :=
  .ofNamed
    [("decimal_places", .whole defaultDecimalPlaces),
     ("fractions", .flag false),
     ("degrees", .flag false),
     ("darkmode", .flag false),
     ("show_equation", .flag true),
     ("debug", .flag false)]

def display (settings : Settings) : String :=
  "\x7b" ++ String.intercalate ", "
    (settings.entries.map fun (key, value) => key.toValue.display ++ ": " ++ value.display) ++ "\x7d"

end Settings

end Reckoner
