import Reckoner.Evaluation.Calls
import Reckoner.Evaluation.Precedence
import Reckoner.Evaluation.Sum
import Reckoner.Evaluation.Variables

namespace Reckoner.Evaluation

/-- The room for the values inside each other that a message shows, for a variable outside all groups. -/
def wholeRoom : Nat := 990

/-- The room for a variable in a group. A group is evaluated two calls further down than the list that it stands in. -/
def groupRoom : Nat := 988

/-- The value of a token list without parentheses. -/
def evaluateFlat (room : Nat) (bindings : Bindings) (functions : FunctionTable) (tokens : List Token) :
    Traced Float := do
  let tokens ← Traced.ofExcept (substitute room bindings tokens)
  Traced.ofFailing (validate tokens)
  let tokens ← applyFunctions functions tokens
  let tokens ← reducePrecedence tokens
  Traced.note (.reduced tokens)
  let value ← Traced.ofFailing (sumTerms tokens)
  if value.isFinite then return value else Traced.fail .sumTooLarge

/-- Replaces the group that opens last by its value. It ends at the first right parenthesis behind its left one, and
holds no parentheses. -/
def groupRound (bindings : Bindings) (functions : FunctionTable) (tokens : List Token) :
    Option (Traced (List Token)) :=
  (breakLast? Token.isOpen tokens).map fun (before, opening, rest) =>
    match breakFirst? Token.isClose rest with
    | none => Traced.fail .unmatchedOpen
    | some (inner, closing, after) => do
      let value ← evaluateFlat groupRoom bindings functions inner
      Traced.note (.group (opening :: (inner ++ [closing])) value)
      return before ++ Token.ofValue value :: after

def checkClosed (tokens : List Token) : Except Failure Unit :=
  if tokens.any Token.isClose then .error .unmatchedClose else .ok ()

/-- Replaces every group by its value, the one that opens last first. -/
def resolveGroups (bindings : Bindings) (functions : FunctionTable) (tokens : List Token) :
    Traced (List Token) := do
  let tokens ← rounds (groupRound bindings functions) (tokens.countP Token.isOpen) tokens
  Traced.ofFailing (checkClosed tokens)
  return tokens

/-- The value of a token list. -/
def evaluateTokens (bindings : Bindings) (functions : FunctionTable) (tokens : List Token) : Traced Float := do
  let tokens ← resolveGroups bindings functions tokens
  evaluateFlat wholeRoom bindings functions tokens

end Reckoner.Evaluation
