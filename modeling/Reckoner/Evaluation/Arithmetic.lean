import Reckoner.Function.Elementary
import Reckoner.Traced

namespace Reckoner.Evaluation

/-- The power of two numbers. A missing number for finite operands has no real value, and an infinity for them is too
large, or a pole if the base is zero. -/
def power (base exponent : Float) : Except Failure Float :=
  let value := Float.pow base exponent
  if base.isFinite ∧ exponent.isFinite then
    if value.isNaN then .error (.notReal base exponent)
    else if value.isInf then
      .error (if base == 0 then .notReal base exponent else .resultTooLarge base .power exponent)
    else .ok value
  else .ok value

/-- The result of an operator before its size is checked. -/
def rawCompute (left : Float) (op : Operator) (right : Float) : Except Failure Float :=
  match op with
  | .power => if left == 0 ∧ right < 0 then .error .divisionByZero else power left right
  | .times => .ok (left * right)
  | .divide => if right == 0 then .error .divisionByZero else .ok (left / right)
  | op => .error (.invalidOperation op)

/-- The result of an operator. A result that leaves the doubles is a failure. -/
def compute (left : Float) (op : Operator) (right : Float) : Except Failure Float := do
  let value ← rawCompute left op right
  if value.isFinite then return value else .error (.resultTooLarge left op right)

end Reckoner.Evaluation
