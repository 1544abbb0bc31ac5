/-
# Sets of characters as ranges of code points

A table lists the first and the last code point of each range, in increasing
order, so a search may stop at the first range that starts above.
-/

namespace Reckoner

namespace Text

/-- Whether a code point lies in one of the ranges of an increasing table. -/
def inRanges (n : Nat) : List (Nat × Nat) → Bool
  | [] => false
  | (first, last) :: rest => if n < first then false else n ≤ last || inRanges n rest

end Text

end Reckoner
