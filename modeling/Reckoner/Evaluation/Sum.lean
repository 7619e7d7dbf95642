import Reckoner.Token.Basic

namespace Reckoner.Evaluation

/-- The state of a sum: what is added up so far, the sign that stands before the next number, and whether a number
has to come next. -/
structure RunningSum where
  total : Float
  sign : Operator
  awaiting : Bool
  atStart : Bool

/-- The empty sum. A sign may open it, and a number has to follow. -/
def RunningSum.start : RunningSum := ⟨0.0, .plus, true, true⟩

def RunningSum.take (sum : RunningSum) : Token → Except Failure RunningSum
  | .number text value =>
    if sum.awaiting then
      .ok ⟨if sum.sign = .plus then sum.total + value else sum.total - value, sum.sign, false, false⟩
    else .error (.missingOperator text)
  | .operator op =>
    if op.isAmong Operator.signs ∧ (sum.atStart ∨ !sum.awaiting) then .ok ⟨sum.total, op, true, false⟩
    else .error (.noValueAt op.text)
  | token => .error (.noValueAt token.text)

/-- Adds up a chain of signed numbers from left to right. -/
def sumTerms (tokens : List Token) : Except Failure Float :=
  if tokens.isEmpty then .error .noValue
  else do
    let sum ← tokens.foldlM RunningSum.take RunningSum.start
    if sum.awaiting then .error (.missingRightOperand sum.sign) else return sum.total

end Reckoner.Evaluation
