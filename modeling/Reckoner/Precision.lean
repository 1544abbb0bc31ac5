/-
# Precisions

A precision is the number of significant digits that results are rounded to:
at least one and at most a thousand million.
-/
import Reckoner.Binary64

namespace Reckoner

/-- A number of significant digits. -/
structure Precision where
  digits : Nat
  /-- There is at least one. -/
  positive : 0 < digits := by decide
  /-- There are no more than can be asked for. -/
  within : digits ≤ 1000000000 := by decide
deriving DecidableEq, Repr

namespace Precision

/-- The precision where none is asked for. -/
def standard : Precision := { digits := 64 }

instance : Inhabited Precision := ⟨standard⟩

/-- The precision of a number of digits, if it is in range. -/
def ofNat? (n : Nat) : Option Precision :=
  if h : 0 < n ∧ n ≤ 1000000000 then some ⟨n, h.1, h.2⟩ else none

/-- The precision that a number is, if it is one. -/
def ofBinary64? (x : Binary64) : Option Precision := x.toNat?.bind ofNat?

end Precision

end Reckoner
