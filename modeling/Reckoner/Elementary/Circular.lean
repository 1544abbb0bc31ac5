/-
# Sine, cosine and tangent

Below one the functions are taken from their series in `x²`.  Elsewhere a
multiple of `π/2` is subtracted, which leaves an angle of at most `π/4`, and
the number of the quadrant says which of the two series is the value.

At zero the values are `x`, one and `x`; no other value is a decimal.

The sine and the cosine are rounded once.  The tangent is not: it is a quotient of
values that were cut off before, and near a pole only as good as these.
-/
import Reckoner.Elementary.Approximation
import Reckoner.Elementary.Limit
import Reckoner.Enclosure.Constants
import Reckoner.Number.Basic

namespace Reckoner

namespace Elementary

open Enclosure

/-- An angle within a quadrant. -/
structure Reduced where
  /-- How many quarter turns were subtracted. -/
  quadrant : Int
  sine : Enclosure
  cosine : Enclosure
  /-- The number of digits of the unit. -/
  unitDigits : Nat

/-- Subtracts quarter turns from an angle of magnitude one or more. -/
def reduceAngle (w : Nat) (x : Decimal) : Reduced :=
  let v := w + x.magnitude.toNat + 2
  let u := pow10 v
  let angle := ofDecimal v x
  let quarter := (Enclosure.pi u).divNat 2
  let n := (2 * angle.lo + quarter.lo) / (2 * quarter.lo)
  let r := angle.sub (quarter.mulInt n)
  let t := mul u r r
  ⟨n, mul u r (sinOver u t), cosAt u t, v⟩

/-- `sin x` for `x ≠ 0`. -/
def sinOf (x : Decimal) (w : Nat) : Option Approximation :=
  if x.magnitude < 0 then
    some (Approximation.mulDecimal ⟨sinOver (pow10 w) (ofDecimal w (x.mul x).abs), -w⟩ x)
  else
    let r := reduceAngle w x
    let a : Approximation :=
      ⟨if r.quadrant % 2 = 0 then r.sine else r.cosine, -r.unitDigits⟩
    some (if r.quadrant % 4 < 2 then a else a.neg)

/-- `cos x` for `x ≠ 0`. -/
def cosOf (x : Decimal) (w : Nat) : Option Approximation :=
  if x.magnitude < 0 then some ⟨cosAt (pow10 w) (ofDecimal w (x.mul x).abs), -w⟩
  else
    let r := reduceAngle w x
    let a : Approximation :=
      ⟨if r.quadrant % 2 = 0 then r.cosine else r.sine, -r.unitDigits⟩
    some (if r.quadrant % 4 = 0 || r.quadrant % 4 = 3 then a else a.neg)

/-- The least decimal of `p` digits that is at least `n / d`, which is positive. -/
def quotientUp (p : Nat) (n d : Decimal) : Decimal :=
  -- enough shift for the integer quotient to have more than `p` digits
  let shift := p + 1 + d.digits - n.digits
  let scaled := n.coeff * pow10 shift
  let drop := digitCount (scaled / d.coeff) - p
  ⟨false, (ceilDiv scaled (d.coeff * pow10 drop)).toNat, n.exp - d.exp - shift + drop⟩

/-- The first `p` digits of the square root of a positive decimal. -/
def rootCut (p : Nat) (x : Decimal) : Decimal :=
  let places := 2 * p + (x.exp % 2).toNat
  Decimal.truncate p ⟨false, isqrt (x.coeff * pow10 places), (x.exp - places) / 2⟩

/-- The first `p` digits of `1 - x`, where `0 ≤ x < 1`.  A number below the range
of exponents counts for nothing. -/
def complementCut (p : Nat) (x : Decimal) : Decimal :=
  if x.coeff = 0 || x.magnitude < -Number.exponentLimit then Decimal.one
  else if x.magnitude < -p then ⟨false, pow10 p - 1, -p⟩
  else Decimal.truncate p (Decimal.one.sub x)

/-- `tan x` to `p` digits, for `x ≠ 0`, as `s / √(1 - s²)` with the magnitude `s`
of the sine.  Ten digits more are kept on the way, and all but the quotient are
cut off there; next to a pole, where `s` begins with that many nines, this is far
from the nearest decimal. -/
def tangent (p : Nat) (x : Decimal) : Decimal :=
  let w := p + 10
  let sine := Approximable.cut w (sinOf x)
  let s := sine.abs
  let negative := sine.negative != Approximable.isNegative (cosOf x)
  if s.magnitude < -Number.exponentLimit then ⟨negative, 0, 0⟩
  else
    let cosine := rootCut w (complementCut w ((s.mul s).truncate w))
    Decimal.round p { quotientUp w s cosine with negative := negative }

/-- The working digits of a circular function: the precision, a margin, and
the digits of the argument, before the point or significant. -/
def circularDigits (p margin : Nat) (x : Decimal) : Int :=
  let s : Int := x.significant
  p + margin + (if s ≤ x.magnitude then x.magnitude else s)

/-- A circular function to `p` digits, or nothing beyond the working limit.
`value` computes it for numbers that are not zero. -/
def circular? (margin : Nat) (atZero : Decimal → Decimal) (value : Nat → Decimal → Decimal)
    (p : Nat) (x : Decimal) : Option Decimal :=
  if x.coeff = 0 then some (atZero x)
  else if ¬ WorkingLimit.Admits (circularDigits p margin x) then none
  else some (value p x)

/-- The sine to `p` digits, or nothing beyond the working limit. -/
def sin? : Nat → Decimal → Option Decimal :=
  circular? 7 id fun p x => Approximable.nearest p (sinOf x)

/-- The cosine to `p` digits, or nothing beyond the working limit. -/
def cos? : Nat → Decimal → Option Decimal :=
  circular? 7 (fun _ => Decimal.one) fun p x => Approximable.nearest p (cosOf x)

/-- The tangent to `p` digits, or nothing beyond the working limit. -/
def tan? : Nat → Decimal → Option Decimal := circular? 17 id tangent

end Elementary

end Reckoner
