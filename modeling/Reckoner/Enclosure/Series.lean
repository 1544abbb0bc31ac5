/-
# Power series by enclosures

A series is summed term by term, each term obtained from the last, until the
next power is at most one unit.  The powers at least halve from step to step,
so what is left of the series is at most twice the next power, and the sum is
widened by that much.  The number of steps is bounded by the digits of the
unit; were the bound ever reached, the same widening would still be right.

The functions below are series in one variable that have been divided by
their leading power, so that their value is near one even where the function
itself is near zero: `sinOver t` is `sin x / x` at `t = x²`, and so on.
-/
import Reckoner.Enclosure.Basic

namespace Reckoner

namespace Enclosure

/-- The sum over `k` of `± powerₖ / divisorₖ`, where `next k` takes a power to
the one after it.  Odd terms are subtracted if the series alternates. -/
def series (alternating : Bool) (divisor : Nat → Nat) (next : Nat → Enclosure → Enclosure) :
    (steps k : Nat) → (power total : Enclosure) → Enclosure
  | 0, _, power, total => total.widen (2 * power.hi)
  | steps + 1, k, power, total =>
    let term := power.divNat (divisor k)
    let total := if alternating && k % 2 = 1 then total.sub term else total.add term
    let power := next k power
    if power.hi ≤ 1 then total.widen (2 * power.hi)
    else series alternating divisor next steps (k + 1) power total

/-- A series that starts at one and multiplies by `t / divisor k` from term
to term, `t` not negative and at most half the divisor. -/
def factorial (u : Nat) (alternating : Bool) (divisor : Nat → Nat) (t : Enclosure) : Enclosure :=
  series alternating (fun _ => 1) (fun k power => power.mulDiv t (u * divisor k))
    (u.log2 + 2) 0 (point u) (point 0)

/-- A series `Σ ± tᵏ / (2k + 1)`, for `t` not negative and at most a half. -/
def harmonic (u : Nat) (alternating : Bool) (t : Enclosure) : Enclosure :=
  series alternating (fun k => 2 * k + 1) (fun _ power => power.mul u t)
    (u.log2 + 2) 0 (point u) (point 0)

/-- The exponential of `t`, for `t` not negative and at most a half. -/
def expSeries (u : Nat) (t : Enclosure) : Enclosure :=
  factorial u false (fun k => k + 1) t

/-- `sin x / x` at `t = x²`, for `t ≤ 3`.  It is never above one, which tells the
sine of a small angle from the angle. -/
def sinOver (u : Nat) (t : Enclosure) : Enclosure :=
  let a := factorial u true (fun k => (2 * k + 2) * (2 * k + 3)) t
  { a with hi := min a.hi u }

/-- `cos x` at `t = x²`, for `t ≤ 1`. -/
def cosAt (u : Nat) (t : Enclosure) : Enclosure :=
  factorial u true (fun k => (2 * k + 1) * (2 * k + 2)) t

/-- `sinh x / x` at `t = x²`, for `t ≤ 3`. -/
def sinhOver (u : Nat) (t : Enclosure) : Enclosure :=
  factorial u false (fun k => (2 * k + 2) * (2 * k + 3)) t

/-- `cosh x` at `t = x²`, for `t ≤ 1`. -/
def coshAt (u : Nat) (t : Enclosure) : Enclosure :=
  factorial u false (fun k => (2 * k + 1) * (2 * k + 2)) t

/-- `artanh x / x` at `t = x²`, for `t ≤ 1/2`. -/
def artanhOver (u : Nat) (t : Enclosure) : Enclosure := harmonic u false t

/-- `arctan x / x` at `t = x²`, after `n` halvings of the angle.  The halved
angle has the tangent `x / (1 + √(1 + x²))`. -/
def arctanOver (u : Nat) : (n : Nat) → (t : Enclosure) → Enclosure
  | 0, t => harmonic u true t
  | n + 1, t =>
    let h := (point u).add (sqrt u (t.add (point u)))
    match div? u t (mul u h h) with
    | none => point 0  -- `h` is at least two units
    | some half => (div? u ((arctanOver u n half).mulInt 2) h).getD (point 0)

/-- `arctan (1/n)`, for `n ≥ 2`. -/
def arctanInverse (u n : Nat) : Enclosure :=
  series true (fun k => 2 * k + 1) (fun _ power => power.divNat (n * n))
    (u.log2 + 2) 0 (ofRatio u 1 n) (point 0)

/-- `artanh (1/n)`, for `n ≥ 2`. -/
def artanhInverse (u n : Nat) : Enclosure :=
  series false (fun k => 2 * k + 1) (fun _ power => power.divNat (n * n))
    (u.log2 + 2) 0 (ofRatio u 1 n) (point 0)

end Enclosure

end Reckoner
