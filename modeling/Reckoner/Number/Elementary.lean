/-
# Elementary functions of numbers

The functions of `Reckoner.Elementary` brought into range and extended to the
infinities, where they have a limit, and to NaN, where they have none.
-/
import Reckoner.Elementary.Circular
import Reckoner.Elementary.InverseCircular
import Reckoner.Elementary.Exponential
import Reckoner.Elementary.Logarithm
import Reckoner.Number.Basic

namespace Reckoner

namespace Number

/-- A function of a finite number that is undefined elsewhere. -/
def onFinite (f : Decimal → Option Decimal) : Number → Option Number
  | finite x => (f x).map fit
  | _ => some nan

/-- The arctangent, with the limits at the infinities. -/
def arctan (p : Nat) : Number → Number
  | finite x => fit (Elementary.arctan p x)
  | infinite s => fit { Approximable.nearest p (Elementary.piOver 2) with negative := s }
  | nan => nan

/-- The hyperbolic sine, with the limits at the infinities. -/
def sinh (p : Nat) : Number → Number
  | finite x => Elementary.sinh p x
  | x => x

/-- The hyperbolic cosine, with the limits at the infinities. -/
def cosh (p : Nat) : Number → Number
  | finite x => Elementary.cosh p x
  | infinite _ => infinite false
  | nan => nan

/-- The hyperbolic tangent, with the limits at the infinities. -/
def tanh (p : Nat) : Number → Number
  | finite x => Elementary.tanh p x
  | infinite s => finite ⟨s, 1, 0⟩
  | nan => nan

/-- A logarithm of a number that is not at most zero, with its limit at
infinity. -/
def logarithm (f : Decimal → Option Decimal) : Number → Option Number
  | finite x => (f x).map fit
  | x => some x

end Number

end Reckoner
