import Reckoner.Token.Basic

namespace Reckoner.Evaluation

def signToken (negative : Bool) : Token :=
  .operator (if negative then .minus else .plus)

/-- Folds sign runs, where `pending` is the sign that the run read so far stands for. -/
def foldSignsFrom : Option Token → List Token → List Token
  | none, [] => []
  | some sign, [] => [sign]
  | none, token :: rest =>
    if token.isSign then foldSignsFrom (some token) rest else token :: foldSignsFrom none rest
  | some sign, token :: rest =>
    if token.isSign then foldSignsFrom (some (signToken (sign.isMinus ^^ token.isMinus))) rest
    else sign :: token :: foldSignsFrom none rest

/-- Replaces every run of signs by one sign: a minus if the run has an odd number of them, and a plus otherwise. A
single sign stays as it is. -/
def foldSigns (tokens : List Token) : List Token :=
  foldSignsFrom none tokens

def operandSign (negative : Bool) : List Token :=
  if negative then [.operator .minus] else []

/-- Folds the sign runs behind operators, where `pending` says whether the run read so far directly behind one is
negative. -/
def foldSignsAfterFrom (operators : List Operator) : Option Bool → List Token → List Token
  | none, [] => []
  | some negative, [] => operandSign negative
  | none, token :: rest =>
    token :: foldSignsAfterFrom operators (if token.isOperatorIn operators then some false else none) rest
  | some negative, token :: rest =>
    if token.isSign then foldSignsAfterFrom operators (some (negative ^^ token.isMinus)) rest
    else operandSign negative ++ token ::
      foldSignsAfterFrom operators (if token.isOperatorIn operators then some false else none) rest

/-- Replaces every run of signs directly behind one of the operators by a minus if the run has an odd number of them,
and by nothing otherwise. -/
def foldSignsAfter (operators : List Operator) (tokens : List Token) : List Token :=
  foldSignsAfterFrom operators none tokens

end Reckoner.Evaluation
