import Reckoner.Evaluation.Groups
import Reckoner.Token.Scan

namespace Reckoner

open Evaluation

/-- The value of an expression, with the steps that lead to it. The text holds no blanks, and its decimal mark is the
point. A failure names the expression. -/
def evaluate (expression : String) (bindings : Bindings) (functions : FunctionTable) : Traced Float :=
  Traced.mapStop (Stop.about expression) do
    let tokens ← Traced.ofFailing (Token.scan bindings.contains functions.keys expression)
    Traced.note (.scanned tokens)
    evaluateTokens bindings functions tokens

/-- The value of an expression, or the report of its failure. -/
abbrev Outcome := Except Report Float

namespace Outcome

def display : Outcome → String
  | .ok value => "Outcome(value=" ++ Double.text value ++ ")"
  | .error report => "Outcome(error=" ++ report.kind.label ++ ": " ++ Text.quoted report.message ++ ")"

end Outcome

/-- Evaluates an expression and turns a failure into its report. A fault stays what it is. -/
def tryEvaluate (expression : String) (bindings : Bindings) (functions : FunctionTable) : Except Fault Outcome :=
  match (evaluate expression bindings functions).result with
  | .ok value => .ok (.ok value)
  | .error (.failure cause equation) => .ok (.error { cause.report with equation })
  | .error (.fault kind) => .error kind

end Reckoner
