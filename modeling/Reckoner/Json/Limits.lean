import Reckoner.Value.Limits

namespace Reckoner.Json

/-- The most lists and mappings inside each other that are followed in reading. -/
def depthLimit : Nat := 989

/-- The room for values inside each other in writing. -/
def writingRoom : Nat := 991

/-- The room that a value needs to be written. A list or a mapping that is not empty is taken apart, and the digits of a
double are asked for, before anything of it is written. -/
def writingNeed : Value → Nat
  | .list (_ :: _) | .mapping (_ :: _) | .real _ => 2
  | _ => 1

end Reckoner.Json
