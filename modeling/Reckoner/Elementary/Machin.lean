/-
# π by Machin's formula

    π = 16 arctan (1/5) - 4 arctan (1/239)

The two arctangents are summed term by term, with ten digits more than are asked
for, and every quotient, product, sum and difference on the way is rounded to
those.  Where the ten digits would exceed the greatest precision there are fewer.

A sum ends at the first term that is less than a unit of the last digit behind
the point, and nothing else ends it.  It is run here for a number of rounds, and
has no result if it did not end within them; as many rounds as there are digits
are enough, and more of them change nothing.
-/
import Reckoner.Decimal.Arithmetic

namespace Reckoner

namespace Elementary

/-- The digits that π is worked out with. -/
def machinDigits (p : Nat) : Nat := if p + 10 ≤ 1000000000 then p + 10 else 1000000000

/-- The sum of the arctangent of `1 / n` from its `k`-th term on, at `w` digits:
`power` is the power of `1 / n` in the term before it, `sum` what the terms before
it come to. -/
def arctanFrom (w n : Nat) : (rounds k : Nat) → (power sum : Decimal) → Option Decimal
  | 0, _, _, _ => none
  | rounds + 1, k, power, sum =>
    let power := power.divRounded w (.ofNat (n * n))
    let term := power.divRounded w (.ofNat (2 * k + 1))
    if term.lt ⟨false, 1, -w⟩ then some sum
    else arctanFrom w n rounds (k + 1) power
      (if k % 2 = 1 then sum.subRounded w term else sum.addRounded w term)

/-- `arctan (1 / n)` at `w` digits. -/
def arctanInverse (rounds w n : Nat) : Option Decimal :=
  let first := Decimal.one.divRounded w (.ofNat n)
  arctanFrom w n rounds 1 first first

/-- π at `w` digits. -/
def machin (rounds w : Nat) : Option Decimal := do
  let fifth ← arctanInverse rounds w 5
  let other ← arctanInverse rounds w 239
  return (fifth.mulRounded w (.ofNat 16)).subRounded w (other.mulRounded w (.ofNat 4))

/-- π to `p` digits. -/
def pi (p : Nat) : Decimal :=
  let w := machinDigits p
  ((machin w w).getD .zero).round p

end Elementary

end Reckoner
