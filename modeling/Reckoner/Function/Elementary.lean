import Reckoner.Function.Basic

namespace Reckoner

namespace RealFunction

/-- A function whose values are infinite only at poles, which lie outside its domain. A missing number that does not
come from the argument shows that the argument lies outside the domain as well. -/
def withPoles (f : Float → Float) : RealFunction := fun x =>
  let y := f x
  if y.isNaN ∧ !x.isNaN then .error .outsideDomain
  else if y.isInf ∧ x.isFinite then .error .outsideDomain
  else .ok y

/-- Half the circumference of the unit circle. -/
def pi : Float := 3.141592653589793

/-- The size of one degree in radians. -/
def degree : Float := pi / 180

/-- The size of one radian in degrees. -/
def radian : Float := 180 / pi

/-- A function of an angle, given in degrees. -/
def ofDegrees (f : RealFunction) : RealFunction := fun x => f (x * degree)

/-- A function whose value is an angle, wanted in degrees. -/
def inDegrees (f : RealFunction) : RealFunction := fun x => (f x).map (· * radian)

/-- The sine of an angle in radians. -/
def sine : RealFunction := withPoles Float.sin

/-- The cosine of an angle in radians. -/
def cosine : RealFunction := withPoles Float.cos

/-- The tangent of an angle in radians. -/
def tangent : RealFunction := withPoles Float.tan

/-- The angle in radians with the given tangent. -/
def arctangent : RealFunction := withPoles Float.atan

def decimalLogarithm : RealFunction := withPoles Float.log10

def binaryLogarithm : RealFunction := withPoles Float.log2

def squareRoot : RealFunction := withPoles Float.sqrt

end RealFunction

namespace FunctionTable

open RealFunction

/-- The functions of the calculator. With `degrees` the angles they take and give are in degrees. -/
def elementary (degrees : Bool) : FunctionTable :=
  .ofList
    [("sin", if degrees then ofDegrees sine else sine),
     ("cos", if degrees then ofDegrees cosine else cosine),
     ("tan", if degrees then ofDegrees tangent else tangent),
     ("atan", if degrees then inDegrees arctangent else arctangent),
     ("log10", decimalLogarithm),
     ("log2", binaryLogarithm),
     ("sqrt", squareRoot)]

end FunctionTable

end Reckoner
