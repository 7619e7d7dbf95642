import Reckoner.Evaluation
import Reckoner.Rendering.Fraction
import Reckoner.Settings.Places

namespace Reckoner

/-- The text of a number as a fraction. A number that is not finite is a fault. -/
def renderFraction (value : Float) : Except Fault Rendered :=
  if value.isNaN then .error (.wrongValue "cannot convert NaN to integer ratio")
  else if value.isInf then .error (.outOfRange "cannot convert Infinity to integer ratio")
  else .ok (Fraction.render (Double.toDecimal value))

/-- The text of a number as a decimal. Zero is the same with any number of places, even with none that is whole. -/
def renderDecimal (value : Float) (places : Option Nat) : Except Fault Rendered :=
  if value == 0 then .ok ⟨"0", false⟩
  else match places with
    | none => .error (.wrongType "an integer is required")
    | some places =>
      if value.isNaN then .ok ⟨"NaN", true⟩
      else if value.isInf then .error .infiniteDecimal
      else .ok ((Double.toDecimal value).render places)

/-- The text of a number as the settings ask for it. -/
def render (value : Float) (settings : Settings) : Except Fault Rendered := do
  let places ← settings.places
  if settings.isOn "fractions" then renderFraction value else renderDecimal value places

/-- The result of a calculation: what is displayed, and the number. -/
structure Answer where
  text : String
  value : Float

/-- The mark before a result: an equals sign if the text is exact, and a wavy one otherwise. -/
def Rendered.line (rendered : Rendered) : String :=
  (if rendered.rounded then "\u2248 " else "= ") ++ rendered.text

/-- Evaluates an expression and renders its value, with the angles and the form that the settings ask for. -/
def calculate (problem : String) (bindings : Bindings) (settings : Settings) : Except Stop Answer := do
  let functions := FunctionTable.elementary (settings.isOn "degrees")
  let value ← (evaluate problem bindings functions).result
  let rendered ← (render value settings).mapError Stop.fault
  return ⟨rendered.line, value⟩

end Reckoner
