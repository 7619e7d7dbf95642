import Reckoner.Failure

namespace Reckoner

/-- A unit of an expression. Numbers and parentheses keep the text they were written with. A name is attached when it
follows a letter, digit or underscore, and is then no whole word. -/
inductive Token where
  | number (text : String) (value : Float)
  | operator (operator : Operator)
  | lparen (text : String)
  | rparen (text : String)
  | function (name : String)
  | name (text : String) (attached : Bool)

namespace Token

/-- The number token of a computed value, written as the value is. -/
def ofValue (value : Float) : Token := number (Double.text value) value

def text : Token → String
  | number text _ => text
  | operator op => op.text
  | lparen text => text
  | rparen text => text
  | function called => called
  | name text _ => text

def display : Token → String
  | number _ value => "Number(" ++ Double.text value ++ ")"
  | operator op => "Operator(" ++ Text.quoted op.text ++ ")"
  | lparen text => "Lparen(" ++ Text.quoted text ++ ")"
  | rparen text => "Rparen(" ++ Text.quoted text ++ ")"
  | function called => "Function(" ++ Text.quoted called ++ ")"
  | name text _ => "Name(" ++ Text.quoted text ++ ")"

def displayAll (tokens : List Token) : String :=
  "[" ++ String.intercalate ", " (tokens.map display) ++ "]"

/-- Whether a token is an operator that counts among the given ones. -/
def isOperatorIn (operators : List Operator) : Token → Bool
  | operator op => op.isAmong operators
  | _ => false

def isSign : Token → Bool := isOperatorIn Operator.signs

def isMinus : Token → Bool
  | operator op => op = .minus
  | _ => false

def isOpen : Token → Bool
  | lparen _ => true
  | _ => false

def isClose : Token → Bool
  | rparen _ => true
  | _ => false

def isFunction : Token → Bool
  | function _ => true
  | _ => false

/-- Whether two tokens say the same: of one kind, with one text, and for numbers with equal values. A missing
number equals nothing, and the two zeros are equal. -/
def same : Token → Token → Bool
  | number t x, number u y => t = u && x == y
  | operator a, operator b => a = b
  | lparen a, lparen b => a = b
  | rparen a, rparen b => a = b
  | function a, function b => a = b
  | name a p, name b q => a = b && p = q
  | _, _ => false

/-- Which tokens of a list say the same, as a table. A token always says the same as itself. -/
def sameTable (tokens : List Token) : List (List Bool) :=
  tokens.zipIdx.map fun (a, i) => tokens.zipIdx.map fun (b, j) => i = j || a.same b

end Token

end Reckoner
