/-
# Nearby integers

The greatest integer below, the least one above, and the nearest one away
from zero.  All three are exact: they never lose digits above the units,
whatever the precision, and they keep the sign of the number on a zero.
-/
import Reckoner.Decimal.Basic

namespace Reckoner

namespace Decimal

/-- The magnitude cut off (`outward = false`) or raised (`outward = true`)
to an integer, the sign kept. -/
def toIntegral (outward : Bool) (x : Decimal) : Decimal :=
  if 0 ≤ x.exp then x
  else
    let drop := (-x.exp).toNat
    if x.digits < drop then
      ⟨x.negative, if outward && x.coeff ≠ 0 then 1 else 0, 0⟩
    else
      let q := x.coeff / pow10 drop
      let r := x.coeff % pow10 drop
      ⟨x.negative, if outward && r ≠ 0 then q + 1 else q, 0⟩

/-- The greatest integer that is at most `x`. -/
def floor (x : Decimal) : Decimal := toIntegral x.negative x

/-- The least integer that is at least `x`. -/
def ceil (x : Decimal) : Decimal := toIntegral (!x.negative) x

/-- The integer of least magnitude that is at least as far from zero as `x`,
on the same side. -/
def outward (x : Decimal) : Decimal := toIntegral true x

end Decimal

end Reckoner
