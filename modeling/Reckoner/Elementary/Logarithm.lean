/-
# Logarithms

Near one, `ln x = 2 artanh z` with `z = (x - 1) / (x + 1)`, written as a
multiple of `x - 1` so that a small result keeps its relative accuracy.
Elsewhere `x = m · 10^k` with `1 ≤ m < 10`, `m` is divided by the power of
two that brings it next to one, and `k ln 10` and `j ln 2` are added back.

The logarithm of one is zero, and the decimal logarithm of a power of ten is
an integer.  No other value of either function is a decimal.
-/
import Reckoner.Elementary.Approximation
import Reckoner.Elementary.Limit
import Reckoner.Enclosure.Constants

namespace Reckoner

namespace Elementary

open Enclosure

/-- Whether a positive number is at least `0.7` and below `1.4`. -/
def isNearOne (x : Decimal) : Bool :=
  !x.lt ⟨false, 7, -1⟩ && x.lt ⟨false, 14, -1⟩

def isOne (x : Decimal) : Bool := !x.lt Decimal.one && !Decimal.one.lt x

/-- `ln x` for `0.7 ≤ x < 1.4`, as a multiple of `x - 1`. -/
def lnNear (w : Nat) (x : Decimal) : Option Approximation := do
  let u := pow10 w
  let x := x.canonical
  let d := x.sub Decimal.one
  -- both `x - 1` and `x + 1` are natural numbers at the exponent of `x`
  let scale := pow10 (-x.exp).toNat
  let z := ofRatio u (x.coeff - scale) (x.coeff + scale)
  let slope := ofRatio u (2 * scale) (x.coeff + scale)
  return Approximation.mulDecimal ⟨mul u slope (artanhOver u (mul u z z)), -w⟩ d

/-- The power of two that brings a number from one to ten next to one. -/
def binaryOrder (c unit : Nat) : Nat :=
  if 10 * c < 14 * unit then 0
  else if 10 * c < 28 * unit then 1
  else if 10 * c < 56 * unit then 2
  else 3

/-- `ln x` for any positive `x`, with an absolute error below `10^-w`. -/
def lnFar (w : Nat) (x : Decimal) : Approximation :=
  let v := w + 20
  let u := pow10 v
  let x := x.canonical
  let unit := pow10 (x.digits - 1)
  let j := binaryOrder x.coeff unit
  let near := unit <<< j
  let z := ofRatio u (x.coeff - near) (x.coeff + near)
  let mantissa := (mul u z (artanhOver u (mul u z z))).mulInt 2
  let logs := logarithms u
  ⟨((logs.ten.mulInt x.magnitude).add (logs.two.mulInt j)).add mantissa, -v⟩

/-- `ln x` for a positive `x` other than one. -/
def lnOf (x : Decimal) (w : Nat) : Option Approximation :=
  if isNearOne x then lnNear w x else some (lnFar w x)

/-- `ln x / ln 10` for a positive `x` other than one. -/
def log10Of (x : Decimal) (w : Nat) : Option Approximation := do
  let ⟨ends, e⟩ ← lnOf x w
  let u := pow10 w
  let q ← div? u ends (logarithms u).ten
  return ⟨q, e⟩

/-- The natural logarithm of a positive number to `p` digits, or nothing
beyond the working limit. -/
def ln? (p : Nat) (x : Decimal) : Option Decimal :=
  if isOne x then some Decimal.zero
  else if !isNearOne x && ¬ WorkingLimit.Admits (p + 12) then none
  else some (Approximable.nearest p (lnOf x))

def powerOfTen? (x : Decimal) : Option Int :=
  if x.canonical.coeff = 1 then some x.canonical.exp else none

/-- The five digits of the decimal logarithm after its first `p`. -/
def log10After (p : Nat) (x : Decimal) : Nat :=
  match powerOfTen? x with
  | some n => (n.natAbs * pow10 (p + 5) / pow10 (digitCount n.natAbs)) % 100000
  | none => Approximable.digitsAfter p 5 (log10Of x)

/-- The decimal logarithm of a positive number to `p` digits, or nothing
beyond the working limit. -/
def log10? (p : Nat) (x : Decimal) : Option Decimal :=
  let need : Int := if isNearOne x then p + 15 else p + 17
  if isOne x then some Decimal.zero
  else if ¬ WorkingLimit.Admits need then none
  else if ¬ WorkingLimit.Admits (need + WorkingLimit.repeated)
      && WorkingLimit.isClose (log10After p x) then none
  else match powerOfTen? x with
    | some n => some ((Decimal.ofInt n).round p)
    | none => some (Approximable.nearest p (log10Of x))

end Elementary

end Reckoner
