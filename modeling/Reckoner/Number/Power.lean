/-
# Powers of numbers

Between two finite numbers that are not zero, a power is the one of
`Reckoner.Elementary.Power`.  Where the base or the exponent is a zero, an
infinity or NaN, it is the power that IEEE 754 gives to the two binary64
numbers nearest to them: any number to the power zero is one, and only an
exponent that is odd as a binary64 number keeps the sign of the base.
-/
import Reckoner.Binary64
import Reckoner.Elementary.Power
import Reckoner.Outcome

namespace Reckoner

namespace Number

/-- The nearest binary64 number. -/
def toBinary64 : Number → Binary64
  | finite x => .ofDecimal x
  | infinite s => .infinite s
  | nan => .nan

def one : Number := finite Decimal.one

/-- The power of two binary64 numbers of which one is zero, infinite or NaN. -/
def specialPower (x y : Binary64) : Number :=
  let odd := match y with
    | .finite _ m e => ((Binary64.finite false m e).toNat?.getD 0) % 2 = 1
    | _ => false
  let negative := x.toNumber.isNegative && odd
  let unit := Binary64.ofNat 1
  let size : Binary64 := match x with
    | .finite _ m e => .finite false m e
    | .infinite _ => .infinite false
    | .nan => .nan
  match y, x with
  | .finite _ 0 _, _ => one
  | .nan, _ | _, .nan => nan
  | .infinite falls, _ =>
    if size.eq unit then nan
    else if unit.lt size != falls then infinite false else zero
  | .finite falls _ _, .infinite _ => if falls then finite ⟨negative, 0, 0⟩ else infinite negative
  | .finite falls _ _, .finite _ _ _ =>
    if falls then infinite negative else finite ⟨negative, 0, 0⟩

/-- `x` to the power `y` at `p` digits, or nothing beyond the working limit. -/
def pow? (p : Nat) (x y : Number) : Option Number :=
  match x, y with
  | finite a, finite b =>
    if a.coeff = 0 || b.coeff = 0 then some (specialPower x.toBinary64 y.toBinary64)
    else Elementary.pow? p a b
  | _, _ => some (specialPower x.toBinary64 y.toBinary64)

end Number

end Reckoner
