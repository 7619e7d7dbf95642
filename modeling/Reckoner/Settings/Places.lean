import Reckoner.Failure
import Reckoner.Settings.Basic

namespace Reckoner

namespace Value

def typeName : Value → String
  | .null => "NoneType"
  | .flag _ => "bool"
  | .whole _ => "int"
  | .real _ => "float"
  | .text _ => "str"
  | .list _ => "list"
  | .mapping _ => "dict"

end Value

namespace Settings

/-- The decimal places that a value asks for, kept within zero and the largest number. A double inside these bounds
gives none, because places are counted in whole numbers; a value that is no number is a fault. -/
def placesOf : Value → Except Fault (Option Nat)
  | .whole n => .ok (some (min n.toNat mostDecimalPlaces))
  | .flag value => .ok (some value.toNat)
  | .real x => .ok (if x < 0 then some 0 else if 100 < x then some mostDecimalPlaces else none)
  | other => .error (.wrongType ("'>' not supported between instances of 'int' and '" ++ other.typeName ++ "'"))

def places (settings : Settings) : Except Fault (Option Nat) :=
  placesOf ((settings.value? "decimal_places").getD (.whole defaultDecimalPlaces))

end Settings

end Reckoner
