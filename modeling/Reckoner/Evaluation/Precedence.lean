import Reckoner.Break
import Reckoner.Evaluation.Arithmetic
import Reckoner.Evaluation.Signs
import Reckoner.Rounds

namespace Reckoner.Evaluation

/-- The operands of an operator, and what stands before the left and behind the right one. -/
structure Operands where
  before : List Token
  left : Float
  right : Float
  after : List Token

/-- The number at the end of a list, and what stands before it. -/
def leftOperand? (tokens : List Token) : Option (List Token × Float) :=
  match tokens.getLast? with
  | some (.number _ value) => some (tokens.dropLast, value)
  | _ => none

/-- The number at the start of a list, behind at most one sign, and what follows it. The sign is a factor of the
number. -/
def rightOperand? : List Token → Option (Float × List Token)
  | .number _ value :: rest => some (1.0 * value, rest)
  | .operator op :: .number _ value :: rest =>
    if op.isAmong Operator.signs then some ((if op = .minus then -1.0 else 1.0) * value, rest) else none
  | _ => none

/-- The operands of an operator that stands between two lists. -/
def operands (before : List Token) (op : Operator) (after : List Token) : Except Failure Operands :=
  match leftOperand? before with
  | none => .error (.missingLeftOperand op)
  | some (before, left) =>
    match rightOperand? after with
    | none => .error (.missingRightOperand op)
    | some (right, after) => .ok ⟨before, left, right, after⟩

/-- Replaces an operator that stands between two lists, with its operands, by their result. -/
def foldBinary (before : List Token) (op : Operator) (after : List Token) : Traced (List Token) := do
  let found ← Traced.ofFailing (operands before op after)
  let value ← Traced.ofFailing (compute found.left op found.right)
  Traced.note (.operation found.left op found.right value)
  return found.before ++ Token.ofValue value :: found.after

def isPower : Token → Bool := Token.isOperatorIn [.power]

def isProduct : Token → Bool := Token.isOperatorIn Operator.products

def foldAt : List Token × Token × List Token → Traced (List Token)
  | (before, .operator op, after) => foldBinary before op after
  | (before, token, after) => return before ++ token :: after

/-- Folds the operator at a position, whatever token stands there. A negative position counts from the end of the list,
and an operand that reaches the end is followed by the start of the list. There is no answer for a position without a
token, and for the first one when it is counted from the end. -/
def foldAtPosition (tokens : List Token) (position : Int) : Option (Traced (List Token)) :=
  let index := if position < 0 then position + tokens.length else position
  match tokens.drop index.toNat with
  | [] => none
  | token :: after =>
    if index < 0 ∨ position < 0 ∧ index = 0 then none
    else
      let operandLength := if (after ++ tokens).head?.any Token.isSign then 2 else 1
      let reaching := position < 0 ∧ after.length ≤ operandLength
      some (foldBinary (tokens.take index.toNat) (.ofText token.text) (if reaching then after ++ tokens else after))

/-- Folds the last power of a list, so that powers group from the right. -/
def powerRound (tokens : List Token) : Option (Traced (List Token)) :=
  (breakLast? isPower (foldSignsAfter [.power] tokens)).map foldAt

/-- Folds the first product or quotient of a list, so that these group from the left. -/
def productRound (tokens : List Token) : Option (Traced (List Token)) :=
  (breakFirst? isProduct (foldSignsAfter Operator.products tokens)).map foldAt

/-- Reduces powers, then products and quotients, then runs of signs. -/
def reducePrecedence (tokens : List Token) : Traced (List Token) := do
  let tokens ← rounds powerRound (tokens.countP isPower) tokens
  let tokens ← rounds productRound (tokens.countP isProduct) tokens
  return foldSigns tokens

end Reckoner.Evaluation
