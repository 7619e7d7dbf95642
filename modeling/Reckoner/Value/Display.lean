import Reckoner.Double.Text
import Reckoner.Text.Quoted
import Reckoner.Value.Basic

namespace Reckoner.Value

mutual

def display : Value → String
  | .null => "None"
  | .flag true => "True"
  | .flag false => "False"
  | .whole value => toString value
  | .real value => Double.text value
  | .text value => Text.quotedPoints value
  | .list items => "[" ++ displayItems items ++ "]"
  | .mapping entries => "\x7b" ++ displayEntries entries ++ "\x7d"

def displayItems : List Value → String
  | [] => ""
  | [item] => display item
  | item :: rest => display item ++ ", " ++ displayItems rest

def displayEntries : List (CodePoints × Value) → String
  | [] => ""
  | [(key, value)] => Text.quotedPoints key ++ ": " ++ display value
  | (key, value) :: rest => Text.quotedPoints key ++ ": " ++ display value ++ ", " ++ displayEntries rest

end

end Reckoner.Value
