import Reckoner.Failure
import Reckoner.OrderedMap

namespace Reckoner

inductive Refusal where
  | outsideDomain
  | tooLarge
deriving DecidableEq

/-- A function from doubles to doubles that may refuse its argument. -/
abbrev RealFunction := Float → Except Refusal Float

abbrev FunctionTable := OrderedMap String RealFunction

namespace FunctionTable

/-- Calls a function by name. The value is finite: a refusal, an infinity and a missing number are failures. -/
def apply (functions : FunctionTable) (name : String) (argument : Float) : Except Failure Float :=
  match functions.get? name with
  | none => .error (.unknownFunction name)
  | some function =>
    match function argument with
    | .error .outsideDomain => .error (.outsideDomain name argument)
    | .error .tooLarge => .error (.callTooLarge name argument)
    | .ok value => if value.isFinite then .ok value else .error (.callNotFinite name argument)

end FunctionTable

end Reckoner
