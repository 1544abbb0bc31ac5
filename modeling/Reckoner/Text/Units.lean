/-
# Lengths in UTF-16 units

Offsets into a source and lengths of its parts count UTF-16 code units: a
character above `U+FFFF` counts two, every other one.  A text consists of whole
characters: half of a pair of units does not stand alone in it.
-/

namespace Reckoner

namespace Text

/-- The number of units of a character. -/
def charUnits (c : Char) : Nat := if c.toNat < 0x10000 then 1 else 2

/-- The number of units of a run of characters. -/
def unitsOf : List Char → Nat
  | [] => 0
  | c :: cs => charUnits c + unitsOf cs

/-- The number of units of a text. -/
def units (s : String) : Nat := unitsOf s.toList

end Text

end Reckoner
