/-
# The working precision limit

Functions that reduce their argument by π or by ln 10 are offered up to a
working precision of 1025 digits.  The working precision is the number of
digits asked for, the digits that the reduction consumes, and a margin that
belongs to the function.  A request beyond it is refused as a whole, however
small its result.

Where a logarithm or a power first comes out next to a rounding boundary, it
is computed once more with ten more digits, and the refusal comes that much
earlier.
-/
import Reckoner.Elementary.Approximation

namespace Reckoner

namespace WorkingLimit

/-- The digits to which π and ln 10 are available. -/
def digits : Nat := 1025

/-- Whether a number of working digits is available. -/
def Admits (n : Int) : Prop := n ≤ digits

instance (n : Int) : Decidable (Admits n) := inferInstanceAs (Decidable (n ≤ digits))

/-- Whether the five digits after the first `p` are those of a number next to
a rounding boundary. -/
def isClose (five : Nat) : Bool :=
  five = 0 || five = 50000 || five = 49999 || five = 99999

/-- The digits that a repeated computation adds. -/
def repeated : Int := 10

end WorkingLimit

end Reckoner
