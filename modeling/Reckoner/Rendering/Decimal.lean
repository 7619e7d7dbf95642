import Reckoner.Double.Shortest

namespace Reckoner

/-- A number as shown, and whether it differs from the exact one. -/
structure Rendered where
  text : String
  rounded : Bool
deriving DecidableEq

namespace Decimal

/-- The decimal nearest to `d` with at most the given places; a half goes to the even neighbour. -/
def round (d : Decimal) (places : Nat) : Decimal :=
  let excess := (-d.exponent - places).toNat
  if excess = 0 then d
  else trimmed ⟨d.negative, Double.roundQuotient d.digits (Nat.pow 10 excess), -places⟩

/-- The text of a decimal with at most the given places. A whole number is shown in full, and zero has no sign. -/
def render (d : Decimal) (places : Nat) : Rendered :=
  let shown := if 0 ≤ d.exponent then d else d.round places
  ⟨if shown.digits = 0 then "0" else shown.plain, shown ≠ d⟩

end Decimal

end Reckoner
