import Reckoner.Text.CodePoint

namespace Reckoner

/-- A value without a fixed type. Whole numbers are unbounded and stay apart from doubles; the entries of a mapping
keep their order. -/
inductive Value where
  | null
  | flag (value : Bool)
  | whole (value : Int)
  | real (value : Float)
  | text (value : CodePoints)
  | list (items : List Value)
  | mapping (entries : List (CodePoints × Value))

namespace Value

/-- Whether a value counts as set: everything but null, false, the zeros and what is empty. -/
def isSet : Value → Bool
  | .null => false
  | .flag value => value
  | .whole value => value ≠ 0
  | .real value => !(value == 0)
  | .text value => !value.isEmpty
  | .list items => !items.isEmpty
  | .mapping entries => !entries.isEmpty

def ofString (s : String) : Value := .text (.ofString s)

end Value

end Reckoner
