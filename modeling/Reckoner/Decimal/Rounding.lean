/-
# Rounding — half away from zero, at a digit count or at a digit position

`halfUp n d` is the natural number nearest to `n / d`, an exact half going
up.  The two roundings of a decimal are that one rule read on the magnitude:
`Decimal.round` keeps a number of significant digits and `Decimal.roundAt`
keeps the digits down to a position.  A magnitude that lies exactly halfway
goes away from zero.

`Decimal.ofRatio` rounds a quotient of natural numbers that need not have a
finite decimal expansion.  It rounds once, from the exact quotient.
-/
import Reckoner.Decimal.Basic

namespace Reckoner

/-- The natural number nearest to `n / d`; an exact half goes up. -/
def halfUp (n d : Nat) : Nat := (2 * n + d) / (2 * d)

/-- The natural number nearest to `n / d`; an exact half goes down. -/
def halfDown (n d : Nat) : Nat := (2 * n + d - 1) / (2 * d)

namespace Decimal

/-- At most `p` significant digits, the nearest ones, a half going away from
zero.  A number that has no more than `p` digits stays as it is. -/
def round (p : Nat) (x : Decimal) : Decimal :=
  let excess := x.digits - p
  if excess = 0 then x
  else ⟨x.negative, halfUp x.coeff (pow10 excess), x.exp + excess⟩

/-- As `round`, but a half goes toward zero. -/
def roundHalfIn (p : Nat) (x : Decimal) : Decimal :=
  let excess := x.digits - p
  if excess = 0 then x
  else ⟨x.negative, halfDown x.coeff (pow10 excess), x.exp + excess⟩

/-- The first `p` significant digits, the others cut off. -/
def truncate (p : Nat) (x : Decimal) : Decimal :=
  let excess := x.digits - p
  ⟨x.negative, x.coeff / pow10 excess, x.exp + excess⟩

/-- The nearest multiple of `10^e`, a half going away from zero.  A number
below a tenth of that unit is a zero with the sign kept. -/
def roundAt (e : Int) (x : Decimal) : Decimal :=
  if e ≤ x.exp then x
  else
    let drop := (e - x.exp).toNat
    if x.digits < drop then ⟨x.negative, 0, 0⟩
    else ⟨x.negative, halfUp x.coeff (pow10 drop), e⟩

/-- The quotient `± n / d · 10^e` rounded once to `p` significant digits, a
half going away from zero; neither number is zero. -/
def roundRatio (p : Nat) (negative : Bool) (n d : Nat) (e : Int) : Decimal :=
  -- enough shift for the integer quotient to have more than `p` digits
  let shift := p + 1 + digitCount d - digitCount n
  let scaled := n * pow10 shift
  let drop := digitCount (scaled / d) - p
  ⟨negative, halfUp scaled (d * pow10 drop), e - shift + drop⟩

/-- The quotient `± n / d · 10^e` rounded once to `p` significant digits, a
half going away from zero; `d` is not zero.  A quotient with a finite
expansion has at most as many places as `d` has binary digits, and it is
taken exactly, so that a large `p` costs nothing. -/
def ofRatio (p : Nat) (negative : Bool) (n d : Nat) (e : Int) : Decimal :=
  let places := d.log2
  let scaled := n * pow10 places
  if n = 0 then ⟨negative, 0, 0⟩
  else if scaled % d = 0 then round p ⟨negative, scaled / d, e - places⟩
  else roundRatio p negative n d e

/-- The first `q` digits of the quotient `n / d`, the others cut off; neither
number is zero. -/
def leadingDigits (q n d : Nat) : Nat :=
  let shift := q + 1 + digitCount d - digitCount n
  let c := n * pow10 shift / d
  c / pow10 (digitCount c - q)

end Decimal

end Reckoner
