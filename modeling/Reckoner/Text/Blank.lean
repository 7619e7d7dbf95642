namespace Reckoner.Text

/-- The ranges of blank code points, both ends included: the spaces and line ends of Unicode, and the separator controls
of ASCII. -/
def blankRanges : List (Nat × Nat) :=
  [(0x0009, 0x000D), (0x001C, 0x0020), (0x0085, 0x0085), (0x00A0, 0x00A0), (0x1680, 0x1680), (0x2000, 0x200A),
   (0x2028, 0x2029), (0x202F, 0x202F), (0x205F, 0x205F), (0x3000, 0x3000)]

def isBlank (c : Char) : Bool :=
  blankRanges.any fun (first, last) => first ≤ c.toNat && c.toNat ≤ last

/-- Whether a text has no character other than blanks. -/
def allBlank (text : List Char) : Bool :=
  text.all isBlank

end Reckoner.Text
