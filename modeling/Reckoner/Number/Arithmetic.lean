/-
# Arithmetic on numbers

The operations of `Reckoner.Decimal.Arithmetic` brought into range, and
extended to infinities and NaN by the usual rules: an infinity absorbs what
is finite, and `∞ - ∞`, `0 · ∞`, `0 / 0` and `∞ / ∞` are undefined.
-/
import Reckoner.Decimal.Arithmetic
import Reckoner.Decimal.Integral
import Reckoner.Number.Basic

namespace Reckoner

namespace Number

/-- The sum at `p` significant digits. -/
def add (p : Nat) : Number → Number → Number
  | finite x, finite y => fit (x.addRounded p y)
  | nan, _ | _, nan => nan
  | infinite s, infinite t => if s = t then infinite s else nan
  | infinite s, finite _ => infinite s
  | finite _, infinite t => infinite t

/-- The difference at `p` significant digits. -/
def sub (p : Nat) (x y : Number) : Number := add p x y.neg

/-- The product at `p` significant digits. -/
def mul (p : Nat) (x y : Number) : Number :=
  match x, y with
  | finite a, finite b => fit (a.mulRounded p b)
  | nan, _ | _, nan => nan
  | _, _ =>
    if x.isZero || y.isZero then nan else infinite (x.isNegative != y.isNegative)

/-- The quotient at `p` significant digits. -/
def div (p : Nat) (x y : Number) : Number :=
  let s := x.isNegative != y.isNegative
  match x, y with
  | nan, _ | _, nan => nan
  | infinite _, infinite _ => nan
  | infinite _, finite _ => infinite s
  | finite _, infinite _ => finite ⟨s, 0, 0⟩
  | finite a, finite b =>
    if b.coeff = 0 then (if a.coeff = 0 then nan else infinite s)
    else fit (a.divRounded p b)

/-- Whether the multiple `y * ⌊x / y⌋`, for a `y` that is not zero, lies above
the range.  It is beyond `x` only where the signs differ and `y` does not divide
`x`, and then by less than `y`; so it leaves the range only if `x` stands at the
top, by passing the power of ten above. -/
def multipleOverflows (x y : Decimal) : Bool :=
  let beyond := y.abs.sub (x.magnitudeMod y)
  let room : Decimal := ⟨false, pow10 x.digits - x.coeff, x.exp⟩
  x.magnitude = exponentLimit && x.negative != y.negative && !x.abs.lt y.abs
    && (x.magnitudeMod y).coeff ≠ 0 && !beyond.lt room

/-- The floored remainder at `p` significant digits: what is left when a
multiple of the divisor is taken off.  Where that multiple is infinite, so is
the rest.  A finite number is its own remainder by an infinity. -/
def mod (p : Nat) : Number → Number → Number
  | finite x, finite y =>
    if y.coeff = 0 then nan
    else if multipleOverflows x y then infinite y.negative
    else fit (x.modRounded p y)
  | finite x, infinite _ => fit (x.round p)
  | _, _ => nan

/-- Applies a map of decimals to a finite number.  The result has its shortest
form, and is in range as the map leaves it. -/
def mapFinite (f : Decimal → Decimal) : Number → Number
  | finite x => finite (f x).canonical
  | x => x

/-- The greatest integer that is at most the number. -/
def floor : Number → Number := mapFinite Decimal.floor

/-- The least integer that is at least the number. -/
def ceil : Number → Number := mapFinite Decimal.ceil

/-- The nearest integer away from zero. -/
def outward : Number → Number := mapFinite Decimal.outward

end Number

end Reckoner
