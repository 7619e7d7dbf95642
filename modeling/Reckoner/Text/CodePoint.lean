namespace Reckoner

/-- A character, or half of a surrogate pair, counted from the first of them. -/
inductive CodePoint where
  | char (c : Char)
  | half (offset : Fin 0x800)
deriving DecidableEq

namespace CodePoint

def firstHalf : Nat := 0xD800

def number : CodePoint → Nat
  | char c => c.toNat
  | half offset => firstHalf + offset

/-- The code point of a UTF-16 unit that stands by itself. -/
def ofUnit (unit : Nat) : CodePoint :=
  if within : firstHalf ≤ unit ∧ unit < firstHalf + 0x800 then half ⟨unit - firstHalf, by omega⟩
  else char (Char.ofNat unit)

/-- The character that a code point is, if it is one. -/
def char? : CodePoint → Option Char
  | char c => some c
  | half _ => none

end CodePoint

/-- A text that may hold half of a surrogate pair by itself. Such a half is no character, and a text with one is no
string. -/
abbrev CodePoints := List CodePoint

namespace CodePoints

def ofString (s : String) : CodePoints :=
  s.toList.map CodePoint.char

/-- The characters of a text, if it has no half of a surrogate pair by itself. -/
def chars? : CodePoints → Option (List Char)
  | [] => some []
  | point :: rest =>
    match point.char?, chars? rest with
    | some c, some others => some (c :: others)
    | _, _ => none

def toString? (text : CodePoints) : Option String :=
  (chars? text).map String.ofList

theorem chars?_map_char (l : List Char) : chars? (l.map CodePoint.char) = some l := by
  induction l with
  | nil => rfl
  | cons c rest ih => simp only [List.map_cons, chars?, CodePoint.char?, ih]

@[simp] theorem toString?_ofString (s : String) : toString? (ofString s) = some s := by
  simp only [toString?, ofString, chars?_map_char, Option.map_some, String.ofList_toList]

@[simp] theorem ofString_inj {s t : String} : ofString s = ofString t ↔ s = t := by
  constructor
  · intro same
    have back := congrArg toString? same
    simpa only [toString?_ofString, Option.some.injEq] using back
  · rintro rfl
    rfl

end CodePoints

end Reckoner
