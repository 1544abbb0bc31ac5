/-
# From enclosures to correctly rounded decimals

An `Approximation` is an enclosure at a power of ten: the real numbers `v`
with `lo ≤ v / 10^exp ≤ hi`.  A function is given by its approximations at
every number of working digits.  `nearest` works with more and more digits
until both ends round to the same decimal, which is then the function's value
rounded once.

The values looked for are never themselves decimals: a value that has a
finite expansion is recognised before and rounded directly.  So the value
lies strictly between the ends, and an upper end that sits exactly on a
rounding boundary may be rounded down.  This is what makes the search stop.

A method that works with a fixed number of guard digits can be off by one in the
last digit, where `nearest` is not.  What is proved of the functions are their
digits, their range and where they are refused, and not the last digit.
-/
import Reckoner.Decimal.Rounding
import Reckoner.Enclosure.Basic

namespace Reckoner

/-- An enclosure scaled by a power of ten. -/
structure Approximation where
  ends : Enclosure
  /-- The power of ten that scales them. -/
  exp : Int
deriving Repr

namespace Approximation

def neg (a : Approximation) : Approximation := { a with ends := a.ends.neg }

def mulDecimal (a : Approximation) (x : Decimal) : Approximation :=
  ⟨a.ends.mulInt (if x.negative then -x.coeff else x.coeff), a.exp + x.exp⟩

/-- The value as an enclosure at the unit `10^w`. -/
def toUnit (a : Approximation) (w : Nat) : Enclosure := a.ends.scale (a.exp + w)

/-- The end nearer to zero and the end farther from it, as decimals, if the
sign is known. -/
def magnitudes? (a : Approximation) : Option (Decimal × Decimal) :=
  if 0 < a.ends.lo then
    some (⟨false, a.ends.lo.natAbs, a.exp⟩, ⟨false, a.ends.hi.natAbs, a.exp⟩)
  else if a.ends.hi < 0 then
    some (⟨true, a.ends.hi.natAbs, a.exp⟩, ⟨true, a.ends.lo.natAbs, a.exp⟩)
  else none

/-- The decimal of `p` digits that every number strictly between the ends
rounds to, if there is one. -/
def settle? (p : Nat) (a : Approximation) : Option Decimal := do
  let (near, far) ← a.magnitudes?
  let r := near.round p
  if r.canonical = (far.roundHalfIn p).canonical then some r else none

/-- The decimal that is left of every number strictly between the ends when it
is cut off behind its first `q` digits, if it is one and the same. -/
def cut? (q : Nat) (a : Approximation) : Option Decimal := do
  let (near, far) ← a.magnitudes?
  let d := near.truncate q
  -- a tenth of a unit below the far end, where the digits are those of the numbers below it
  let below : Decimal := ⟨far.negative, 10 * far.coeff - 1, far.exp - 1⟩
  if d = below.truncate q && d.digits = q then some d else none

/-- The first `q` digits that every number between the ends starts with. -/
def leading? (q : Nat) (a : Approximation) : Option Nat := do
  let (near, far) ← a.magnitudes?
  let d := near.truncate q
  if d = far.truncate q && d.digits = q then some d.coeff else none

end Approximation

/-- A real number by its approximations: at `w` working digits there is one,
or none if `w` is too few to say anything. -/
abbrev Approximable := Nat → Option Approximation

namespace Approximable

/-- Searches with `guard` digits beyond `p`, doubling them while `test` does
not decide, at most `rounds` times. -/
def search {α : Type} (p : Nat) (test : Approximation → Option α) (f : Approximable) :
    (rounds guard : Nat) → Option α
  | 0, _ => none
  | rounds + 1, guard =>
    match (f (p + guard)).bind test with
    | some r => some r
    | none => search p test f rounds (2 * guard)

/-- How often the guard digits are doubled. -/
def rounds : Nat := 14

/-- The nearest decimal of `p` digits. -/
def nearest (p : Nat) (f : Approximable) : Decimal :=
  (search p (Approximation.settle? p) f rounds 10).getD Decimal.zero

/-- The first `p` digits, the others cut off. -/
def cut (p : Nat) (f : Approximable) : Decimal :=
  (search p (Approximation.cut? p) f rounds 10).getD Decimal.zero

/-- Whether the number is negative. -/
def isNegative (f : Approximable) : Bool :=
  (search 0 Approximation.magnitudes? f rounds 10).any (·.1.negative)

/-- The `k` digits that follow the first `p`, as a number. -/
def digitsAfter (p k : Nat) (f : Approximable) : Nat :=
  (search (p + k) (Approximation.leading? (p + k)) f rounds 10).getD 0 % pow10 k

end Approximable

end Reckoner
