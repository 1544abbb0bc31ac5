/-
# Blank characters

Two sets.  `isBlank` is the wide one: the ASCII controls from tab to carriage
return, the space separators of Unicode, the line and paragraph separators
and the byte order mark.  Trimming removes these, and no symbol may hold one.
`isSpacing` is the narrow one that may stand between the tokens of an
expression.
-/
import Reckoner.Text.Ranges

namespace Reckoner

namespace Text

def blankRanges : List (Nat × Nat) :=
  [(0x9, 0xD), (0x20, 0x20), (0xA0, 0xA0), (0x1680, 0x1680), (0x2000, 0x200A),
   (0x2028, 0x2029), (0x202F, 0x202F), (0x205F, 0x205F), (0x3000, 0x3000), (0xFEFF, 0xFEFF)]

def isBlank (c : Char) : Bool := inRanges c.toNat blankRanges

/-- Whether the character may separate tokens: a space, a no-break space, or
one of the controls from tab to carriage return. -/
def isSpacing (c : Char) : Bool :=
  c.toNat = 0x20 || c.toNat = 0xA0 || (0x09 ≤ c.toNat && c.toNat ≤ 0x0D)

/-- The text without the blank characters at its ends. -/
def trimChars (cs : List Char) : List Char :=
  ((cs.dropWhile isBlank).reverse.dropWhile isBlank).reverse

/-- The text without the blank characters at its ends. -/
def trim (s : String) : String := String.ofList (trimChars s.toList)

/-- Whether the text holds blank characters only. -/
def isAllBlank (s : String) : Bool := s.toList.all isBlank

end Text

end Reckoner
