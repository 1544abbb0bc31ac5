/-
# The exponential and the hyperbolic functions

The argument is split as `t = n ln 10 + r` with `0 ≤ r < ln 10`, so that
`e^t = 10^n e^r` keeps its relative accuracy at every magnitude.  Below one
the hyperbolic sine and tangent are taken from series divided by the
argument, which does the same for small values.

Arguments whose exponential lies outside every representable range are
recognised by their leading digit and never expanded.
-/
import Reckoner.Elementary.Approximation
import Reckoner.Enclosure.Constants
import Reckoner.Number.Basic

namespace Reckoner

namespace Elementary

open Enclosure

/-- How often the argument of the exponential series is halved. -/
def halvings : Nat := 8

/-- The square taken `n` times. -/
def squareTimes (u : Nat) : (n : Nat) → Enclosure → Enclosure
  | 0, a => a
  | n + 1, a => squareTimes u n (mul u a a)

/-- `e^r` at the unit `u`, for `0 ≤ r ≤ 3`. -/
def expReduced (u : Nat) (r : Enclosure) : Enclosure :=
  squareTimes u halvings (expSeries u (r.divNat (1 <<< halvings)))

/-- The digits that reducing an argument by ln 10 may consume. -/
def reductionDigits : Nat := 20

/-- `e^t` with `w` working digits, `t` given at any unit and below `10^18` in
magnitude. -/
def expOf (w : Nat) (t : Nat → Option Enclosure) : Option Approximation := do
  let v := w + reductionDigits
  let u := pow10 v
  let t ← t v
  let ten := (logarithms u).ten
  let n := if 0 ≤ t.lo then t.lo / ten.hi else t.lo / ten.lo
  return ⟨expReduced u (t.sub (ten.mulInt n)), n - v⟩

/-- `e^|x|` with `w` working digits. -/
def expMagnitude (w : Nat) (x : Decimal) : Option Approximation :=
  expOf w fun v => some (ofDecimal v x.abs)

/-- The reciprocal of an exponential `m · 10^n` at the unit that `m` has,
scaled by `10^k`. -/
def reciprocal (u : Nat) (m : Enclosure) (k : Int) : Enclosure :=
  (Enclosure.scale ⟨u * u / m.hi, ceilDiv (u * u) m.lo.toNat⟩ k)

/-- Euler's number to `p` digits. -/
def euler (p : Nat) : Decimal :=
  Approximable.nearest p fun w => expMagnitude w Decimal.one

/-- Whether the exponential of a number of this magnitude is beyond range. -/
def isAstronomic (x : Decimal) : Bool := 18 ≤ x.magnitude

/-- `(e^|x| + σ e^-|x|) / 2` for `|x| ≥ 1`, where `σ` is `1` or `-1`. -/
def halfSum (x : Decimal) (σ : Int) (w : Nat) : Option Approximation := do
  let ⟨m, e⟩ ← expMagnitude w x
  let v : Int := (w + reductionDigits : Nat)
  let n := e + v
  let inverse := reciprocal (pow10 (w + reductionDigits)) m (-2 * n)
  return ⟨(m.add (inverse.mulInt σ)).mulInt 5, e - 1⟩

/-- The square of a number below one. -/
def squareAt (w : Nat) (x : Decimal) : Enclosure := ofDecimal w (x.mul x).abs

/-- The hyperbolic sine to `p` digits. -/
def sinh (p : Nat) (x : Decimal) : Number :=
  if x.coeff = 0 then .fit x
  else if isAstronomic x then .infinite x.negative
  else if x.magnitude < 0 then
    .fit <| Approximable.nearest p fun w =>
      some (Approximation.mulDecimal ⟨sinhOver (pow10 w) (squareAt w x), -w⟩ x)
  else
    .fit <| Approximable.nearest p fun w =>
      (halfSum x (-1) w).map fun a => if x.negative then a.neg else a

/-- The hyperbolic cosine to `p` digits. -/
def cosh (p : Nat) (x : Decimal) : Number :=
  if x.coeff = 0 then .finite Decimal.one
  else if isAstronomic x then .infinite false
  else if x.magnitude < 0 then
    .fit <| Approximable.nearest p fun w => some ⟨coshAt (pow10 w) (squareAt w x), -w⟩
  else .fit <| Approximable.nearest p (halfSum x 1)

/-- The hyperbolic tangent to `p` digits. -/
def tanh (p : Nat) (x : Decimal) : Number :=
  if x.coeff = 0 then .fit x
  else if x.magnitude < 0 then
    .fit <| Approximable.nearest p fun w => do
      let u := pow10 w
      let t := squareAt w x
      let q ← div? u (sinhOver u t) (coshAt u t)
      return Approximation.mulDecimal ⟨q, -w⟩ x
  else
    .fit <| Approximable.nearest p fun w => do
      let v := w + reductionDigits
      let u := pow10 v
      -- `z = e^(-2|x|)`, at most one unit where `|x|` is beyond the digits
      let z ←
        if isAstronomic x then pure ⟨0, 1⟩
        else (expMagnitude w (Decimal.mul ⟨false, 2, 0⟩ x)).map fun a =>
          reciprocal u a.ends (-(a.exp + v))
      let q ← div? u ((point u).sub z) ((point u).add z)
      let a : Approximation := ⟨q, -v⟩
      return if x.negative then a.neg else a

end Elementary

end Reckoner
