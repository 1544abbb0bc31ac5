/-
# Powers

`x^y` is `e^(y ln x)`, except where its value is rational: there it is taken
exactly and rounded once.  With `y = m / n` in lowest terms the value is
rational just when `x` is the `n`-th power of a decimal, and a rational value
with many more digits than are asked for sits on no rounding boundary, so it
may go the general way.

Exponents that are integers of at most `2^53 - 1` in magnitude are not
subject to the working limit.  Results that lie outside the range of
exponents are recognised before anything else is computed.
-/
import Reckoner.Elementary.Exponential
import Reckoner.Elementary.Logarithm

namespace Reckoner

namespace Elementary

open Enclosure

/-- The greatest `r` below `2^(bits + 1)` times the bits in `r₀` with
`rⁿ ≤ c`, found bit by bit from the top. -/
def rootFrom (n c : Nat) : (bits r : Nat) → Nat
  | 0, r => if Nat.pow (r + 1) n ≤ c then r + 1 else r
  | bits + 1, r =>
    let next := r + (1 <<< (bits + 1))
    rootFrom n c bits (if Nat.pow next n ≤ c then next else r)

/-- The `n`-th root of `c` if it is a natural number. -/
def root? (n c : Nat) : Option Nat :=
  let r := rootFrom n c (c.log2 / n) 0
  if Nat.pow r n = c then some r else none

/-- A positive rational number `num / den · 10^exp`. -/
structure Ratio where
  num : Nat
  den : Nat
  /-- The power of ten that scales the quotient. -/
  exp : Int
deriving Repr

namespace Ratio

/-- The nearest decimal of `p` digits with the given sign. -/
def nearest (p : Nat) (negative : Bool) (r : Ratio) : Decimal :=
  Decimal.ofRatio p negative r.num r.den r.exp

/-- The five digits after the first `p`. -/
def digitsAfter (p : Nat) (r : Ratio) : Nat :=
  Decimal.leadingDigits (p + 5) r.num r.den % 100000

end Ratio

/-- A positive decimal as the `n`-th power of a decimal, if it is one: the
coefficient and the exponent of the root. -/
def decimalRoot? (n : Nat) (x : Decimal) : Option (Nat × Int) :=
  let x := x.canonical
  if x.exp % n ≠ 0 then none
  else if x.coeff = 1 then some (1, x.exp / n)
  else if x.coeff.log2 < n then none
  else (root? n x.coeff).map fun r => (r, x.exp / n)

/-- The `m`-th power, or its reciprocal, of a decimal whose coefficient does
not end in zero, unless it has many more than `p` digits. -/
def integerPower? (p : Nat) (base : Nat × Int) (m : Nat) (inverse : Bool) : Option Ratio :=
  let (c, e) := base
  if 16 * (p + 2) + 64 < m * c.log2 then none
  else
    -- a power of ten has the coefficient one, and its exponent may be vast
    let power := if c = 1 then 1 else Nat.pow c m
    if inverse then some ⟨1, power, -(e * m)⟩ else some ⟨power, 1, e * m⟩

/-- `x^y` for a positive `x`, where it is rational and short enough to
matter for rounding to `p` digits. -/
def rationalPower? (p : Nat) (x y : Decimal) : Option Ratio :=
  let y := y.canonical
  if 0 ≤ y.exp then
    let x := x.canonical
    integerPower? p (x.coeff, x.exp) (y.coeff * pow10 y.exp.toNat) y.negative
  else
    let places := (-y.exp).toNat
    -- the denominator of `y` is at least `2^places`, and no decimal in range has such a root
    if 64 < places then none
    else
      let g := Nat.gcd y.coeff (pow10 places)
      (decimalRoot? (pow10 places / g) x).bind fun base =>
        integerPower? p base (y.coeff / g) y.negative

/-- The leading exponent of a factor of `ln x`, for `x` positive and not one:
`|ln x|` is at least a tenth of ten to that power. -/
def lnMagnitude (x : Decimal) : Int :=
  if isNearOne x then (x.canonical.sub Decimal.one).magnitude else 0

/-- `y ln x` at the unit `10^v`. -/
def logOfPower (x y : Decimal) (v : Nat) : Option Enclosure := do
  let extra := (y.magnitude + lnMagnitude x + 3).toNat
  let a ← lnOf x (v + extra)
  return (a.mulDecimal y).toUnit v

/-- `x^y` for `x` positive and not one. -/
def powOf (x y : Decimal) (w : Nat) : Option Approximation := expOf w (logOfPower x y)

/-- Where the leading digit of a power stands. -/
inductive PowerRange where
  /-- At this power of ten. -/
  | at (e : Int)
  /-- Above every representable number. -/
  | above
  /-- Below every representable number. -/
  | below
deriving Repr

/-- Where the leading digit of `x^y` stands, for `x` positive and not one. -/
def powerRange (x y : Decimal) : PowerRange :=
  let grows := Decimal.one.lt x != y.negative
  if 18 < y.magnitude + lnMagnitude x then (if grows then .above else .below)
  else
    match (powOf x y 20).bind Approximation.magnitudes? with
    | none => .at 0
    | some (near, _) =>
      let e := near.magnitude
      if Number.exponentLimit + 1 < e then .above
      else if e < -Number.exponentLimit - 1 then .below
      else .at e

/-- The largest magnitude of an exponent for which a power is computed by
multiplication. -/
def plainExponentLimit : Nat := 9007199254740991

/-- Whether an exponent is an integer small enough for multiplication. -/
def isPlainExponent (y : Decimal) : Bool :=
  y.isInteger && !Decimal.absLt (Decimal.ofNat plainExponentLimit) y

def isOdd (y : Decimal) : Bool :=
  let y := y.canonical
  y.exp = 0 && y.coeff % 2 = 1

/-- The five digits of `x^y` after its first `p`. -/
def powAfter (p : Nat) (x y : Decimal) : Nat :=
  match rationalPower? p x y with
  | some r => r.digitsAfter p
  | none => Approximable.digitsAfter p 5 (powOf x y)

/-- Whether `x^y`, whose leading digit stands at `10^e`, is within the working
limit at `p` digits. -/
def admitsPower (p : Nat) (x y : Decimal) (e : Int) : Bool :=
  if isPlainExponent y || isNearOne x then true
  else
    let length := digitCount e.natAbs + (if e < 0 then 1 else 0)
    let need : Int := p + (if length < 12 then length else 12) + 12
    if ¬ WorkingLimit.Admits need then false
    else WorkingLimit.Admits (need + WorkingLimit.repeated)
      || !WorkingLimit.isClose (powAfter p x y)

/-- `x^y` to `p` digits, or nothing beyond the working limit.  Neither number
is zero, and `y` is an integer if `x` is negative. -/
def pow? (p : Nat) (x y : Decimal) : Option Number :=
  let negative := x.negative && isOdd y
  let a := x.abs
  if isOne a then some (.finite ⟨negative, 1, 0⟩)
  else if isOne y then some (.fit (x.round p))
  else match powerRange a y with
    | .above => some (.infinite negative)
    | .below => some (.finite ⟨negative && isPlainExponent y, 0, 0⟩)
    | .at e =>
      if !admitsPower p a y e then none
      else match rationalPower? p a y with
        | some r => some (.fit (r.nearest p negative))
        | none => some (.fit { Approximable.nearest p (powOf a y) with negative := negative })

end Elementary

end Reckoner
