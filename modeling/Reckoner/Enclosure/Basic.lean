/-
# Enclosures — two integers around a real number

An `Enclosure` with ends `lo` and `hi` at the unit `u` stands for the real
numbers `v` with `lo ≤ v * u ≤ hi`.  Every operation rounds its lower end
down and its upper end up, so an enclosure of the operands yields one of the
result; nothing here is an estimate.

The unit is a parameter of the operations that need it and not a part of the
value: sums, integer multiples and integer parts of an enclosure do not.
-/
import Reckoner.Decimal.Basic

namespace Reckoner

/-- The least integer that is at least `n / d`, for a positive `d`. -/
def ceilDiv (n : Int) (d : Nat) : Int := -(-n / (d : Int))

/-- Newton's iteration for the square root of `n`, downward from `x`. -/
def isqrtFrom (n x : Nat) : Nat :=
  let y := (x + n / x) / 2
  if y < x then isqrtFrom n y else x
termination_by x

/-- The greatest natural number whose square is at most `n`. -/
def isqrt (n : Nat) : Nat := isqrtFrom n (1 <<< (n.log2 / 2 + 1))

/-- The ends of a range of reals, scaled by a unit and rounded outward. -/
structure Enclosure where
  /-- The lower end. -/
  lo : Int
  /-- The upper end. -/
  hi : Int
deriving Repr

namespace Enclosure

def point (n : Int) : Enclosure := ⟨n, n⟩

/-- The quotient `n / d` at the unit `u`, for a positive `d`. -/
def ofRatio (u : Nat) (n : Int) (d : Nat) : Enclosure := ⟨n * u / d, ceilDiv (n * u) d⟩

/-- Both ends moved outward by `k`. -/
def widen (a : Enclosure) (k : Int) : Enclosure := ⟨a.lo - k, a.hi + k⟩

def add (a b : Enclosure) : Enclosure := ⟨a.lo + b.lo, a.hi + b.hi⟩

def neg (a : Enclosure) : Enclosure := ⟨-a.hi, -a.lo⟩

def sub (a b : Enclosure) : Enclosure := ⟨a.lo - b.hi, a.hi - b.lo⟩

def mulInt (a : Enclosure) (k : Int) : Enclosure :=
  if 0 ≤ k then ⟨a.lo * k, a.hi * k⟩ else ⟨a.hi * k, a.lo * k⟩

/-- An integer part: the quotient by a positive natural number. -/
def divNat (a : Enclosure) (d : Nat) : Enclosure := ⟨a.lo / d, ceilDiv a.hi d⟩

/-- The product of the ends taken over `d`, rounded outward. -/
def mulDiv (a b : Enclosure) (d : Nat) : Enclosure :=
  if 0 ≤ a.lo && 0 ≤ b.lo then ⟨a.lo * b.lo / d, ceilDiv (a.hi * b.hi) d⟩
  else
    let p := a.lo * b.lo
    let q := a.lo * b.hi
    let r := a.hi * b.lo
    let s := a.hi * b.hi
    ⟨min (min p q) (min r s) / d, ceilDiv (max (max p q) (max r s)) d⟩

/-- The product at the unit `u`. -/
def mul (u : Nat) (a b : Enclosure) : Enclosure := mulDiv a b u

/-- The quotient at the unit `u`, unless the divisor may be zero. -/
def div? (u : Nat) (a b : Enclosure) : Option Enclosure :=
  if 0 < b.lo then some (byPositive a b)
  else if b.hi < 0 then some (byPositive a.neg b.neg)
  else none
where
  byPositive (a b : Enclosure) : Enclosure :=
    ⟨a.lo * u / (if 0 ≤ a.lo then b.hi else b.lo),
     ceilDiv (a.hi * u) (if 0 ≤ a.hi then b.lo else b.hi).toNat⟩

/-- The square root at the unit `u` of an enclosure of numbers that are not
negative. -/
def sqrt (u : Nat) (a : Enclosure) : Enclosure :=
  ⟨isqrt (a.lo.toNat * u), isqrt (a.hi.toNat * u) + 1⟩

/-- The ends multiplied by `10^k`.  Where that cuts off every digit, the ends
are the nearest of `-1`, `0` and `1`. -/
def scale (a : Enclosure) (k : Int) : Enclosure :=
  if 0 ≤ k then a.mulInt (pow10 k.toNat)
  else
    let drop := (-k).toNat
    if digitCount a.lo.natAbs < drop && digitCount a.hi.natAbs < drop then
      ⟨if a.lo < 0 then -1 else 0, if 0 < a.hi then 1 else 0⟩
    else a.divNat (pow10 drop)

/-- A decimal at the unit `10^w`. -/
def ofDecimal (w : Nat) (x : Decimal) : Enclosure :=
  (point (if x.negative then -x.coeff else x.coeff)).scale (x.exp + w)

end Enclosure

end Reckoner
