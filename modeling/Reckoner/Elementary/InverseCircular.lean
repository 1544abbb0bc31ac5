/-
# Arc functions

All three come from the arctangent.  Up to `0.8` the arc sine is
`arctan (x / √(1 - x²))`, written as a multiple of `x`; nearer to one it is
the complement of `arctan (√(1 - x²) / x)`, whose argument is small there.

At zero the arc sine and the arctangent are `x`, and the arc cosine of one is
zero.  No other value is a decimal.
-/
import Reckoner.Elementary.Approximation
import Reckoner.Elementary.Limit
import Reckoner.Enclosure.Constants

namespace Reckoner

namespace Elementary

open Enclosure

/-- How often an angle is halved before its series is summed. -/
def angleHalvings : Nat := 5

/-- `π / d` with `w` working digits. -/
def piOver (d : Nat) (w : Nat) : Option Approximation :=
  some ⟨(Enclosure.pi (pow10 w)).divNat d, -w⟩

/-- Whether the magnitude of a number is at most `0.8`. -/
def isSlight (x : Decimal) : Bool := !Decimal.absLt ⟨false, 8, -1⟩ x

def isUnit (x : Decimal) : Bool :=
  !Decimal.absLt x Decimal.one && !Decimal.absLt Decimal.one x

/-- `arcsin x` for `0 < |x| ≤ 0.8`, as a multiple of `x`. -/
def arcsinSlight (w : Nat) (x : Decimal) : Option Approximation := do
  let u := pow10 w
  let t := ofDecimal w (x.mul x).abs
  let cosine2 := (point u).sub t
  let s ← div? u t cosine2
  let q ← div? u (arctanOver u angleHalvings s) (sqrt u cosine2)
  return Approximation.mulDecimal ⟨q, -w⟩ x

/-- `arccos |x|` for `0.8 < |x| < 1`. -/
def arccosSteep (w : Nat) (x : Decimal) : Enclosure :=
  let u := pow10 w
  let sq := (x.mul x).canonical
  -- `x² = c · 10^e` with a negative `e`, so `1 - x²` is exact at that exponent
  let scale := pow10 (-sq.exp).toNat
  let s := ofRatio u (scale - sq.coeff) sq.coeff
  mul u (sqrt u s) (arctanOver u angleHalvings s)

/-- `arcsin x` for `0 < |x| < 1`. -/
def arcsinOf (x : Decimal) (w : Nat) : Option Approximation :=
  if isSlight x then arcsinSlight w x
  else
    let half := (Enclosure.pi (pow10 w)).divNat 2
    let a : Approximation := ⟨half.sub (arccosSteep w x), -w⟩
    some (if x.negative then a.neg else a)

/-- `arccos x` for `0 < |x| < 1`. -/
def arccosOf (x : Decimal) (w : Nat) : Option Approximation := do
  let whole := Enclosure.pi (pow10 w)
  if isSlight x then
    let a ← arcsinSlight w x
    return ⟨(whole.divNat 2).sub (a.toUnit w), -w⟩
  else
    let steep := arccosSteep w x
    return ⟨if x.negative then whole.sub steep else steep, -w⟩

/-- `arctan x` for `x ≠ 0`. -/
def arctanOf (x : Decimal) (w : Nat) : Option Approximation :=
  let u := pow10 w
  if Decimal.absLt Decimal.one x then
    -- `1 / |x|` at the unit `10^w`; the complement is `π/2` less its arctangent
    let v :=
      if x.exp ≤ 0 then ofRatio (u * pow10 (-x.exp).toNat) 1 x.coeff
      else (ofRatio u 1 x.coeff).scale (-x.exp)
    let half := (Enclosure.pi u).divNat 2
    let a : Approximation := ⟨half.sub (mul u v (arctanOver u angleHalvings (mul u v v))), -w⟩
    some (if x.negative then a.neg else a)
  else
    let t := ofDecimal w (x.mul x).abs
    some (Approximation.mulDecimal ⟨arctanOver u angleHalvings t, -w⟩ x)

/-- A fraction of π with a sign to `p` digits, or nothing beyond the working
limit. -/
def piFraction? (p margin d : Nat) (negative : Bool) : Option Decimal :=
  if ¬ WorkingLimit.Admits (p + margin) then none
  else some { Approximable.nearest p (piOver d) with negative := negative }

/-- The arc sine of a number of magnitude at most one to `p` digits, or
nothing beyond the working limit. -/
def arcsin? (p : Nat) (x : Decimal) : Option Decimal :=
  if x.coeff = 0 then some x
  else if isUnit x then piFraction? p 4 2 x.negative
  else some (Approximable.nearest p (arcsinOf x))

/-- The arc cosine of a number of magnitude at most one to `p` digits, or
nothing beyond the working limit. -/
def arccos? (p : Nat) (x : Decimal) : Option Decimal :=
  if x.coeff = 0 then piFraction? p 4 2 false
  else if isUnit x then
    if x.negative then piFraction? p 0 1 false else some Decimal.zero
  else some (Approximable.nearest p (arccosOf x))

/-- The arctangent to `p` digits. -/
def arctan (p : Nat) (x : Decimal) : Decimal :=
  if x.coeff = 0 then x else Approximable.nearest p (arctanOf x)

end Elementary

end Reckoner
