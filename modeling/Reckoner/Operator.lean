namespace Reckoner

def arithmeticSymbols : List String := ["^", "*", "/", "+", "-"]

/-- An operator. The scanner only makes the five operators of arithmetic; `unknown` carries any other text that an
operator of a token list built by hand may have. -/
inductive Operator where
  | power
  | times
  | divide
  | plus
  | minus
  | unknown (symbol : String) (other : symbol ∉ arithmeticSymbols)
deriving DecidableEq

namespace Operator

def text : Operator → String
  | power => "^"
  | times => "*"
  | divide => "/"
  | plus => "+"
  | minus => "-"
  | unknown symbol _ => symbol

/-- The operator of arithmetic that a character stands for. -/
def ofChar? : Char → Option Operator
  | '^' => some power
  | '*' => some times
  | '/' => some divide
  | '+' => some plus
  | '-' => some minus
  | _ => none

def ofText (symbol : String) : Operator :=
  if isPower : symbol = "^" then power
  else if isTimes : symbol = "*" then times
  else if isDivide : symbol = "/" then divide
  else if isPlus : symbol = "+" then plus
  else if isMinus : symbol = "-" then minus
  else unknown symbol (by simp [arithmeticSymbols, isPower, isTimes, isDivide, isPlus, isMinus])

def all : List Operator := [power, times, divide, plus, minus]

def products : List Operator := [times, divide]

def signs : List Operator := [plus, minus]

/-- Whether the characters of one text stand in a row within another. -/
def isStretch (part : List Char) : List Char → Bool
  | [] => part.isEmpty
  | c :: rest => part.isPrefixOf (c :: rest) || isStretch part rest

/-- Whether an operator counts among those of a row. An operator of arithmetic does if it is one of them. Any other
does if its text is a stretch of their texts in a row: one without text counts among any operators, and a longer one
if it spells neighbours. -/
def isAmong (row : List Operator) : Operator → Bool
  | unknown symbol _ => isStretch symbol.toList (row.flatMap fun op => op.text.toList)
  | op => row.contains op

theorem isStretch_iff_isInfix {part whole : List Char} : isStretch part whole = true ↔ part <:+: whole := by
  induction whole with
  | nil => simp [isStretch]
  | cons c rest ih => simp only [isStretch, Bool.or_eq_true, List.isPrefixOf_iff_prefix, ih, List.infix_cons_iff]

/-- An operator of arithmetic counts among others exactly if it is one of them. -/
theorem isAmong_of_mem_all {op : Operator} (known : op ∈ all) (row : List Operator) :
    op.isAmong row = row.contains op := by
  cases op with
  | unknown symbol other => simp [all] at known
  | _ => rfl

/-- The operator with the text of an operator is that operator. -/
@[simp] theorem ofText_text (op : Operator) : ofText op.text = op := by
  cases op with
  | unknown symbol other =>
    have apart := other
    simp only [arithmeticSymbols, List.mem_cons, List.not_mem_nil, or_false, not_or] at apart
    obtain ⟨isPower, isTimes, isDivide, isPlus, isMinus⟩ := apart
    simp [ofText, text, isPower, isTimes, isDivide, isPlus, isMinus]
  | _ => rfl

end Operator

end Reckoner
