/-
# Arithmetic that rounds once

The five operations on decimals at a precision of `p` significant digits.
Each result is the exact rational result rounded a single time.

Two points need more than the schoolbook rule.  A sum of two numbers whose
exponents lie far apart is rounded without ever writing the gap out: the
smaller number is replaced by one unit far below the last digit kept, which
leaves the same nearest number (`Decimal.addRounded`).  And the remainder of
a division whose quotient would have astronomically many digits is computed
by modular powers of ten (`Decimal.magnitudeMod`).
-/
import Reckoner.Decimal.Rounding

namespace Reckoner

/-- `b ^ k` modulo `m`, by repeated squaring. -/
def powMod (b k m : Nat) : Nat :=
  if k = 0 then 1 % m
  else
    let half := powMod (b * b % m) (k / 2) m
    if k % 2 = 1 then b * half % m else half
termination_by k
decreasing_by omega

namespace Decimal

/-- `hi + lo` rounded to `p` digits, where neither is zero and the exponent
of `lo` is not the larger one. -/
def addAligned (p : Nat) (hi lo : Decimal) : Decimal :=
  -- with `pad` more digits `hi` has at least two beyond the precision, the last a zero
  let pad := p + 2 - hi.digits + 1
  let unit := hi.exp - pad
  if lo.exp + lo.digits ≤ unit then
    -- `lo` is below one unit: any nonzero amount of its sign rounds alike
    round p (add hi ⟨lo.negative, 1, unit⟩)
  else round p (add hi lo)

/-- The sum rounded once to `p` digits. -/
def addRounded (p : Nat) (x y : Decimal) : Decimal :=
  if x.coeff = 0 && y.coeff = 0 then ⟨x.negative && y.negative, 0, 0⟩
  else if x.coeff = 0 then round p y
  else if y.coeff = 0 then round p x
  else if x.exp ≤ y.exp then addAligned p y x
  else addAligned p x y

/-- The difference rounded once to `p` digits. -/
def subRounded (p : Nat) (x y : Decimal) : Decimal := addRounded p x y.neg

/-- The product rounded once to `p` digits. -/
def mulRounded (p : Nat) (x y : Decimal) : Decimal := round p (mul x y)

/-- The quotient rounded once to `p` digits; `y` is not zero. -/
def divRounded (p : Nat) (x y : Decimal) : Decimal :=
  ofRatio p (x.negative != y.negative) x.coeff y.coeff (x.exp - y.exp)

/-- The remainder of the magnitude of `x` by the magnitude of `y`, exact;
`y` is not zero. -/
def magnitudeMod (x y : Decimal) : Decimal :=
  if y.exp ≤ x.exp then
    ⟨false, x.coeff * powMod 10 (x.exp - y.exp).toNat y.coeff % y.coeff, y.exp⟩
  else
    let gap := (y.exp - x.exp).toNat
    if x.digits < gap then x.abs
    else ⟨false, x.coeff % (y.coeff * pow10 gap), x.exp⟩

/-- The floored remainder `x - y * ⌊x / y⌋` rounded once to `p` digits; `y`
is not zero.  It has the sign of `y`.  A zero `x` is its own remainder, and
any other remainder that comes out zero has no sign. -/
def modRounded (p : Nat) (x y : Decimal) : Decimal :=
  if x.coeff = 0 then x
  else
    let r := magnitudeMod x y
    if r.coeff = 0 then zero
    else if x.negative = y.negative then round p { r with negative := y.negative }
    else addRounded p y { r with negative := x.negative }

end Decimal

end Reckoner
