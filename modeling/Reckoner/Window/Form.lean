import Reckoner.Settings.File

namespace Reckoner

/-- An open settings form. It keeps the settings it was opened with, since not all of them have a field. -/
structure Form where
  settings : Settings
  places : Int
  boxes : OrderedMap Key Bool

namespace Form

/-- A number as the box for the decimal places takes it. -/
def clamp (n : Int) : Int :=
  max (Settings.leastDecimalPlaces : Int) (min (Settings.mostDecimalPlaces : Int) n)

/-- A double as the box takes it: without its fraction, and within the same bounds. -/
def clampReal (x : Float) : Int :=
  if x < 2 then Settings.leastDecimalPlaces
  else if x < 100 then x.toUInt8.toNat
  else Settings.mostDecimalPlaces

/-- The number that the box shows for a value. A value that is no number is a fault. -/
def placesOf : Value → Except Fault Int
  | .whole n => .ok (clamp n)
  | .flag value => .ok (clamp (if value then 1 else 0))
  | .real x => .ok (clampReal x)
  | _ => .error (.wrongType "the decimal places are no number")

def flags (settings : Settings) : List (Key × Bool) :=
  settings.entries.filterMap fun
    | (key, .flag value) => some (key, value)
    | _ => none

def fill (settings : Settings) : Except Fault Form := do
  let places ← placesOf ((settings.value? "decimal_places").getD (.whole Settings.defaultDecimalPlaces))
  return ⟨settings, places, ⟨flags settings⟩⟩

/-- The label of a field: the description of its key, or else the key itself. -/
def label (key : Key) : Value :=
  match Settings.descriptions.find? fun (described, _) => key == .named described with
  | some (_, text) => .ofString text
  | none => key.toValue

def rows (form : Form) : List Value :=
  label (.named "decimal_places") :: form.boxes.keys.map label

/-- Sets one field. A key without a field is ignored. -/
def set (form : Form) (name : String) (value : Value) : Except Fault Form :=
  if name = "decimal_places" then do
    let places ← placesOf value
    return { form with places }
  else if form.boxes.contains (.named name) then
    .ok { form with boxes := form.boxes.put (.named name) value.isSet }
  else .ok form

def setAll (form : Form) (edits : List (String × Value)) : Except Fault Form :=
  edits.foldlM (fun form (name, value) => form.set name value) form

/-- The settings with the fields of the form taken over. -/
def result (form : Form) : Settings :=
  (form.settings.put (.named "decimal_places") (.whole form.places)).putAll
    (form.boxes.entries.map fun (key, checked) => (key, .flag checked))

end Form

end Reckoner
