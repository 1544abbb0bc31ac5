/-
# Enclosures of π, ln 2 and ln 10

π comes from `π = 16 arctan(1/5) - 4 arctan(1/239)`.  The two logarithms come
from the same three values:

    ln 2  = 14 artanh(1/31) + 10 artanh(1/49) +  6 artanh(1/161)
    ln 10 = 46 artanh(1/31) + 34 artanh(1/49) + 20 artanh(1/161)
-/
import Reckoner.Enclosure.Series

namespace Reckoner

namespace Enclosure

/-- π at the unit `u`. -/
def pi (u : Nat) : Enclosure :=
  ((arctanInverse u 5).mulInt 16).sub ((arctanInverse u 239).mulInt 4)

/-- The logarithms of two and of ten at one unit. -/
structure Logarithms where
  two : Enclosure
  ten : Enclosure

/-- `ln 2` and `ln 10` at the unit `u`. -/
def logarithms (u : Nat) : Logarithms :=
  let a := artanhInverse u 31
  let b := artanhInverse u 49
  let c := artanhInverse u 161
  { two := ((a.mulInt 14).add (b.mulInt 10)).add (c.mulInt 6)
    ten := ((a.mulInt 46).add (b.mulInt 34)).add (c.mulInt 20) }

end Enclosure

end Reckoner
