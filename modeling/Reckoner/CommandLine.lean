import Reckoner.Assignment
import Reckoner.Rendering

namespace Reckoner

/-- What a program leaves behind: its status, and all that it wrote to its two outputs. -/
structure Printed where
  status : Nat
  out : String
  err : String
deriving DecidableEq

namespace Printed

def after (text : String) (printed : Printed) : Printed :=
  { printed with err := text ++ printed.err }

def line (text : String) : String := text ++ "\n"

def success (text : String) : Printed := ⟨0, line text, ""⟩

def failed (text : String) : Printed := ⟨1, "", line text⟩

end Printed

/-- A diagnostic of the lowest level, as a line of error output. -/
def diagnostic (source text : String) : String :=
  Printed.line ("DEBUG " ++ source ++ ": " ++ text)

def warning (source text : String) : String :=
  Printed.line ("WARNING " ++ source ++ ": " ++ text)

namespace CommandLine

/-- The source that the steps of an evaluation are logged under. -/
def engineSource : String := "Calculator.MathEngine"

/-- The source that failed evaluations are logged under. -/
def source : String := "Calculator.CLI"

/-- The numbers that variables are bound to, as loose values. -/
def bindings (numbers : OrderedMap String Float) : Bindings :=
  ⟨numbers.entries.map fun (name, number) => (name, .real number)⟩

def evaluateWith (formula : String) (assignments : List String) (settings : Settings) : Traced Float := do
  let numbers ← Traced.ofFailing (Assignment.readAll assignments)
  evaluate formula (bindings numbers) (FunctionTable.elementary (settings.isOn "degrees"))

/-- Runs the command line. The first argument is the formula, and each other one assigns a number to a variable. With
`debug` the steps of the evaluation are logged. -/
def run (arguments : List String) (settings : Settings) (debug : Bool) : Except Fault Printed :=
  match arguments with
  | [] => .ok (.failed "Please write the formula in program arguments")
  | first :: assignments =>
    let formula := String.ofList (normalize first.toList)
    if formula = "" then .ok (.failed "the written formula is empty.")
    else
      let traced := evaluateWith formula assignments settings
      let log := if debug then String.join (traced.steps.map fun step => diagnostic engineSource step.display) else ""
      match traced.result with
      | .ok value => .ok ((Printed.success (Double.text value)).after log)
      | .error (.fault kind) => .error kind
      | .error (.failure cause _) =>
        let report := cause.report
        let failed := if debug then
            diagnostic source ("Evaluation of " ++ Text.quoted formula ++ " failed with " ++ report.kind.label ++
              " (" ++ report.area ++ ")")
          else ""
        .ok ((Printed.failed report.describe).after (log ++ failed))

end CommandLine

end Reckoner
