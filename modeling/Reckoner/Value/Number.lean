import Reckoner.Double.Numeral
import Reckoner.Value.Basic

namespace Reckoner

inductive NotANumber where
  | unreadable
  /-- The value is a whole number beyond the largest double. -/
  | outOfRange
deriving DecidableEq

namespace Value

/-- The double closest to a whole number, if it is finite. -/
def wholeToDouble (value : Int) : Except NotANumber Float :=
  let bits := Double.nearest value.natAbs 1
  if bits = Double.infinityBits then .error .outOfRange
  else .ok (Double.ofMagnitude (value < 0) bits)

/-- The double that a value stands for. A flag counts as zero or one, and a text is read as a numeral. -/
def toDouble : Value → Except NotANumber Float
  | .flag value => .ok (if value then 1 else 0)
  | .whole value => wholeToDouble value
  | .real value => .ok value
  | .text value =>
    match value.chars?.bind Double.read? with
    | some number => .ok number
    | none => .error .unreadable
  | .null | .list _ | .mapping _ => .error .unreadable

end Value

end Reckoner
