import Reckoner.Function.Basic
import Reckoner.Rounds
import Reckoner.Traced

namespace Reckoner.Evaluation

structure Call where
  before : List Token
  name : String
  argument : Float
  after : List Token

/-- The call at the start of a list: a function that a number follows, directly or after a minus. -/
def callAtStart? : List Token → Option Call
  | .function name :: .number _ value :: rest => some ⟨[], name, value, rest⟩
  | .function name :: .operator op :: .number _ value :: rest =>
    if op.isAmong [.minus] then some ⟨[], name, -value, rest⟩ else none
  | _ => none

def firstCall? : List Token → Option Call
  | [] => none
  | token :: rest =>
    match callAtStart? (token :: rest) with
    | some call => some call
    | none => (firstCall? rest).map fun call => { call with before := token :: call.before }

def callRound (functions : FunctionTable) (tokens : List Token) : Option (Traced (List Token)) :=
  (firstCall? tokens).map fun call => do
    let value ← Traced.ofFailing (functions.apply call.name call.argument)
    Traced.note (.call call.name call.argument value)
    return call.before ++ Token.ofValue value :: call.after

def checkArguments : List Token → Except Failure Unit
  | [] => .ok ()
  | .function name :: _ => .error (.missingArgument name)
  | _ :: rest => checkArguments rest

/-- Replaces all function calls by their values, always the leftmost call next, so an inner call comes before the
call that takes its value. -/
def applyFunctions (functions : FunctionTable) (tokens : List Token) : Traced (List Token) := do
  let tokens ← rounds (callRound functions) (tokens.countP Token.isFunction) tokens
  Traced.ofFailing (checkArguments tokens)
  return tokens

end Reckoner.Evaluation
