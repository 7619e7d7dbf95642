import Reckoner.OrderedMap
import Reckoner.Token.Basic
import Reckoner.Value.Number

namespace Reckoner

abbrev Bindings := OrderedMap String Value

namespace Evaluation

/-- The failure that names a value which is no finite double. Its message shows the value, part by part; a
value that cannot be shown, because it is deeper than there is room or has a whole number with too many
digits in it, is a fault. -/
def refuseValue (room : Nat) (name : String) (value : Value) : Stop :=
  match value.follow (fun _ => 1) room with
  | .ok () => .of (.unusableBinding name value)
  | .error excess => .fault excess.fault

/-- The finite double that a variable is bound to. A whole number beyond the doubles is a fault, and every other
value without a finite double is refused. -/
def bindingValue (room : Nat) (name : String) (value : Value) : Except Stop Float :=
  match value.toDouble with
  | .ok number => if number.isFinite then .ok number else .error (refuseValue room name value)
  | .error .unreadable => .error (refuseValue room name value)
  | .error .outOfRange => .error (.fault (.outOfRange "int too large to convert to float"))

/-- Replaces one token by its value if it is a whole word that is bound. -/
def substituteToken (room : Nat) (bindings : Bindings) : Token → Except Stop Token
  | .name name false =>
    match bindings.get? name with
    | some value => (bindingValue room name value).map Token.ofValue
    | none => .ok (.name name false)
  | token => .ok token

/-- Replaces the bound whole words of a list by their values, from left to right. -/
def substitute (room : Nat) (bindings : Bindings) : List Token → Except Stop (List Token)
  | [] => .ok []
  | token :: rest => do
    let first ← substituteToken room bindings token
    let others ← substitute room bindings rest
    return first :: others

/-- The texts of operator pairs that cannot be an operator and the sign of its right operand. -/
def invalidPairs : List String :=
  ["+*", "*+", "+/", "/+", "-*", "-/"]

def checkNames : List Token → Except Failure Unit
  | [] => .ok ()
  | .name name attached :: _ => .error (.undefinedVariable name attached)
  | _ :: rest => checkNames rest

/-- Refuses the first invalid pair of neighbouring operators. -/
def checkPairs : List Token → Except Failure Unit
  | .operator left :: .operator right :: rest =>
    if invalidPairs.contains (left.text ++ right.text) then .error (.operatorPair left right)
    else checkPairs (.operator right :: rest)
  | _ :: rest => checkPairs rest
  | [] => .ok ()

/-- Refuses a list that starts with an operator other than a sign. -/
def checkStart : List Token → Except Failure Unit
  | token :: _ => if token.isOperatorIn Operator.products then .error .illegalStart else .ok ()
  | [] => .ok ()

/-- Refuses a list that ends with an operator. A power at the end is left to its operand check. -/
def checkEnd (tokens : List Token) : Except Failure Unit :=
  match tokens.getLast? with
  | some token =>
    if token.isOperatorIn [.times, .divide, .plus, .minus] then .error .illegalEnd else .ok ()
  | none => .ok ()

/-- Checks the form of a list in which variables are replaced. -/
def validate (tokens : List Token) : Except Failure Unit := do
  checkNames tokens
  checkPairs tokens
  checkStart tokens
  checkEnd tokens

end Evaluation

end Reckoner
