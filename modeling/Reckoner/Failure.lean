import Reckoner.Operator
import Reckoner.Value.Display
import Reckoner.Value.Limits

namespace Reckoner

inductive FailureKind where
  | form
  | numeric
  | arithmetic
  | missingArgument
  | input
  | unknown
deriving DecidableEq

namespace FailureKind

def word : FailureKind → String
  | form => "syntax"
  | numeric => "numeric"
  | arithmetic => "arithmetic"
  | missingArgument => "missing_argument"
  | input => "input"
  | unknown => "unknown"

/-- The upper case word for a kind, as diagnostics show it. -/
def label : FailureKind → String
  | form => "SYNTAX"
  | numeric => "NUMERIC"
  | arithmetic => "ARITHMETIC"
  | missingArgument => "MISSING_ARGUMENT"
  | input => "INPUT"
  | unknown => "UNKNOWN"

end FailureKind

/-- A failure as the user sees it. The equation is the expression it arose in, once that is known. -/
structure Report where
  kind : FailureKind
  code : String
  message : String
  equation : Option String
deriving DecidableEq

namespace Report

def defaultCode : String := "9999"

def describe (report : Report) : String :=
  "Error " ++ report.code ++ ": " ++ report.message

/-- The part of the program that a failure belongs to, told by the first digit of its code. -/
def area (report : Report) : String :=
  match report.code.toList with
  | '1' :: _ => "Missing Files"
  | '2' :: _ => "Scientific Calculation Error"
  | '3' :: _ => "Calculator Error"
  | '4' :: _ => "UI Error"
  | '5' :: _ => "Configuration Error"
  | '7' :: _ => "Runtime Error"
  | _ => "Unknown Error"

end Report

/-- A reported failure by its cause. -/
inductive Failure where
  | unmatchedOpen
  | unmatchedClose
  | undefinedVariable (name : String) (attached : Bool)
  | operatorPair (left right : Operator)
  | illegalStart
  | illegalEnd
  | unknownFunction (name : String)
  | invalidLiteral (literal : String)
  | unexpectedCharacter (character : Char) (position : Nat)
  | noValue
  | noValueAt (text : String)
  | missingLeftOperand (operator : Operator)
  | missingRightOperand (operator : Operator)
  | invalidOperation (operator : Operator)
  | missingOperator (next : String)
  | literalTooLarge (literal : String)
  | divisionByZero
  | notReal (base exponent : Float)
  | resultTooLarge (left : Float) (operator : Operator) (right : Float)
  | sumTooLarge
  | outsideDomain (function : String) (argument : Float)
  | callTooLarge (function : String) (argument : Float)
  | callNotFinite (function : String) (argument : Float)
  | missingArgument (function : String)
  | unusableBinding (name : String) (value : Value)
  | missingEquals (argument : String)
  | missingName (argument : String)
  | unreadableBinding (name value : String)
  | noLastResult
  | crash (detail : String)

namespace Failure

/-- The text of a function call or a result of one, `f(x)`. -/
def callText (function : String) (argument : Float) : String :=
  function ++ "(" ++ Double.text argument ++ ")"

def report : Failure → Report
  | unmatchedOpen => ⟨.form, "3009", "the right parenthesis is not closed", none⟩
  | unmatchedClose => ⟨.form, "3010", "the left parenthesis is not closed", none⟩
  | undefinedVariable name attached =>
    ⟨.form, "3031", "There are undefined variables in the expression: " ++ name ++
      (if attached then " (not separated from the text before it)" else ""), none⟩
  | operatorPair left right =>
    ⟨.form, "3032", "There is something wrong with math operations in the expression: '" ++
      left.text ++ right.text ++ "'", none⟩
  | illegalStart => ⟨.form, "3033", "Illegal start of expression", none⟩
  | illegalEnd => ⟨.form, "3034", "Illegal end of expression", none⟩
  | unknownFunction name => ⟨.form, "2004", "Unknown function: " ++ name, none⟩
  | invalidLiteral literal => ⟨.numeric, "3035", "'" ++ literal ++ "' is not a valid number", none⟩
  | unexpectedCharacter character position =>
    ⟨.numeric, "3011", "Unexpected character '" ++ character.toString ++ "' at position " ++ toString position, none⟩
  | noValue => ⟨.numeric, "3035", "The expression must contain a valid numeric value.", none⟩
  | noValueAt text =>
    ⟨.numeric, "3035", "The expression must contain a valid numeric value, found '" ++ text ++ "'", none⟩
  | missingLeftOperand operator => ⟨.numeric, "3038", "Missing operand before '" ++ operator.text ++ "'", none⟩
  | missingRightOperand operator => ⟨.numeric, "3038", "Missing operand after '" ++ operator.text ++ "'", none⟩
  | invalidOperation operator => ⟨.numeric, "3038", "Invalid operation: " ++ operator.text, none⟩
  | missingOperator next => ⟨.numeric, "3039", "Missing operator before " ++ next, none⟩
  | literalTooLarge literal => ⟨.arithmetic, "3026", "'" ++ literal ++ "' is too large", none⟩
  | divisionByZero => ⟨.arithmetic, "3003", "Cannot divide by zero", none⟩
  | notReal base exponent =>
    ⟨.arithmetic, "2005", Double.text base ++ "^" ++ Double.text exponent ++ " is not a real number", none⟩
  | resultTooLarge left operator right =>
    ⟨.arithmetic, "3026", Double.text left ++ operator.text ++ Double.text right ++ " is too large", none⟩
  | sumTooLarge => ⟨.arithmetic, "3026", "Number too large (Arithmetic overflow).", none⟩
  | outsideDomain function argument =>
    ⟨.arithmetic, "2005", callText function argument ++ " is outside the domain of '" ++ function ++ "'", none⟩
  | callTooLarge function argument =>
    ⟨.arithmetic, "3026", callText function argument ++ " is too large", none⟩
  | callNotFinite function argument =>
    ⟨.arithmetic, "2005", callText function argument ++ " has no finite result", none⟩
  | missingArgument function =>
    ⟨.missingArgument, "3036", "Missing argument for function: " ++ function, none⟩
  | unusableBinding name value =>
    ⟨.input, "7002", "Invalid value for variable " ++ name ++ ": " ++ value.display, none⟩
  | missingEquals argument =>
    ⟨.input, "7001", "The variable is assigned through the sign \"=\": " ++ argument, none⟩
  | missingName argument => ⟨.input, "7001", "Missing variable name: " ++ argument, none⟩
  | unreadableBinding name value =>
    ⟨.input, "7002", "Invalid value for variable " ++ name ++ ": " ++ value, none⟩
  | noLastResult => ⟨.input, "4003", "No Value in ANS", none⟩
  | crash detail => ⟨.unknown, Report.defaultCode, "Unexpected crash: " ++ detail, none⟩

end Failure

/-- A broken assumption. It is not reported by code and message, and ends the program unless the window shows it. -/
inductive Fault where
  /-- A value of a type that the operation does not take. -/
  | wrongType (detail : String)
  /-- A value of the right type that the operation does not take. -/
  | wrongValue (detail : String)
  | outOfRange (detail : String)
  /-- A value that has no entries where entries are looked up. -/
  | noEntries (detail : String)
  | notText (detail : String)
  /-- Lists and mappings inside each other beyond what is followed. -/
  | tooDeep (detail : String)
  | infiniteDecimal
deriving DecidableEq

namespace Fault

def detail : Fault → String
  | wrongType text | wrongValue text | outOfRange text | noEntries text | notText text | tooDeep text => text
  | infiniteDecimal => ""

end Fault

/-- The fault that a value beyond a limit is. -/
def Excess.fault : Excess → Fault
  | digits => .wrongValue Excess.digits.text
  | depth => .tooDeep Excess.depth.text

/-- Why a computation stopped without an answer. -/
inductive Stop where
  | failure (cause : Failure) (equation : Option String)
  | fault (kind : Fault)

namespace Stop

def of (cause : Failure) : Stop := .failure cause none

def about (equation : String) : Stop → Stop
  | .failure cause _ => .failure cause (some equation)
  | .fault kind => .fault kind

end Stop

/-- The messages known by code, for reference. Some wait for a name or a text behind them. -/
def catalogue : List (String × String) :=
  [("2004", "Unknown function: "),
   ("2005", "Argument outside the domain of function: "),
   ("3003", "Division by Zero"),
   ("3009", "Missing ')'. "),
   ("3010", "Missing '('. "),
   ("3011", "Unexpected character: "),
   ("3026", "Number too big."),
   ("3031", "Undefined variable: "),
   ("3032", "Invalid operator sequence: "),
   ("3033", "Illegal start of expression."),
   ("3034", "Illegal end of expression."),
   ("3035", "Invalid number: "),
   ("3036", "Missing argument for function: "),
   ("3038", "Missing operand next to: "),
   ("3039", "Missing operator between numbers."),
   ("4002", "Calculation already Running!"),
   ("4003", "No Value in ANS"),
   ("5001", "Not all Settings could be saved: "),
   ("7001", "Variables are assigned with '=': "),
   ("7002", "Invalid value for variable: "),
   ("7003", "the written formula is empty."),
   ("7004", "Please write the formula in program arguments"),
   ("9999", "Unexpected Error: ")]

def catalogueMessage? (code : String) : Option String :=
  catalogue.lookup code

end Reckoner
