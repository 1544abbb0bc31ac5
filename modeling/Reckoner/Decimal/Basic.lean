/-
# Decimals — signed coefficients scaled by a power of ten

A `Decimal` is `± coeff · 10^exp` with a natural coefficient, an integer
exponent and a sign that zero keeps too.  The pair of coefficient and
exponent is not unique; `Decimal.canonical` picks the one without trailing
zeros, and everything printed goes through it.

Addition and multiplication here lose no digit.  The operations that round
stand in `Reckoner.Decimal.Arithmetic`.
-/

namespace Reckoner

/-- Ten to the power `k`. -/
def pow10 (k : Nat) : Nat := Nat.pow 10 k

/-- The number of decimal digits of `n`; zero has one digit. -/
def digitCount (n : Nat) : Nat :=
  -- 1233 / 4096 lies below log₁₀ 2, so the count starts from below
  go (n.log2 * 1233 / 4096)
where
  /-- The first `k + 1` with `n < 10 ^ (k + 1)`, counting up from `k`. -/
  go (k : Nat) : Nat :=
    if pow10 (k + 1) ≤ n then go (k + 1) else k + 1
  termination_by n - k
  decreasing_by
    have h : k + 1 < pow10 (k + 1) := Nat.lt_pow_self (by decide)
    omega

/-- A signed decimal `± coeff · 10^exp`. -/
structure Decimal where
  /-- The sign; zero has one as well. -/
  negative : Bool
  /-- The digits, as a natural number. -/
  coeff : Nat
  /-- The power of ten that scales the digits. -/
  exp : Int
deriving DecidableEq, Repr

namespace Decimal

/-- Zero with a plus sign. -/
def zero : Decimal := ⟨false, 0, 0⟩

def one : Decimal := ⟨false, 1, 0⟩

instance : Inhabited Decimal := ⟨zero⟩

def ofNat (n : Nat) : Decimal := ⟨false, n, 0⟩

def ofInt (n : Int) : Decimal := ⟨decide (n < 0), n.natAbs, 0⟩

/-- Whether the decimal is a zero of either sign. -/
def isZero (x : Decimal) : Bool := x.coeff == 0

/-- The other sign, on zero as well. -/
def neg (x : Decimal) : Decimal := { x with negative := !x.negative }

/-- The sign removed. -/
def abs (x : Decimal) : Decimal := { x with negative := false }

def digits (x : Decimal) : Nat := digitCount x.coeff

/-- The exponent of the leading digit: `e` where the number is `d.ddd · 10^e`. -/
def magnitude (x : Decimal) : Int := x.exp + x.digits - 1

/-- The coefficient and exponent after all trailing zeros have been moved
into the exponent. -/
def strip (c : Nat) (e : Int) : Nat × Int :=
  if h : c ≠ 0 ∧ c % 10 = 0 then strip (c / 10) (e + 1) else (c, e)
termination_by c
decreasing_by omega

/-- The same number with the shortest coefficient; zero gets the exponent `0`. -/
def canonical (x : Decimal) : Decimal :=
  if x.coeff = 0 then ⟨x.negative, 0, 0⟩
  else
    let (c, e) := strip x.coeff x.exp
    ⟨x.negative, c, e⟩

/-- How many digits stand from the first to the last nonzero digit. -/
def significant (x : Decimal) : Nat := x.canonical.digits

def isInteger (x : Decimal) : Bool :=
  x.coeff == 0 || decide (0 ≤ x.canonical.exp)

/-- Whether the magnitude of `x` is less than that of `y`.  The leading
exponents decide where they differ, so numbers that lie far apart are never
brought to one exponent. -/
def absLt (x y : Decimal) : Bool :=
  if y.coeff = 0 then false
  else if x.coeff = 0 then true
  else if x.magnitude ≠ y.magnitude then decide (x.magnitude < y.magnitude)
  else if x.exp ≤ y.exp then decide (x.coeff < y.coeff * pow10 (y.exp - x.exp).toNat)
  else decide (x.coeff * pow10 (x.exp - y.exp).toNat < y.coeff)

/-- The order of the numbers denoted; the two zeros are equal. -/
def lt (x y : Decimal) : Bool :=
  if x.coeff = 0 then y.coeff ≠ 0 && !y.negative
  else if y.coeff = 0 then x.negative
  else match x.negative, y.negative with
    | false, false => absLt x y
    | true, true => absLt y x
    | true, false => true
    | false, true => false

/-- The product, with no digit lost. -/
def mul (x y : Decimal) : Decimal :=
  ⟨x.negative != y.negative, x.coeff * y.coeff, x.exp + y.exp⟩

/-- The signed coefficient that the number has at the exponent `e`, which is
not above its own. -/
def coeffAt (x : Decimal) (e : Int) : Int :=
  let c : Nat := x.coeff * pow10 (x.exp - e).toNat
  if x.negative then -c else c

/-- The sum, with no digit lost.  Both numbers are brought to the lower of
the two exponents.  Two opposite numbers give a zero without sign; two zeros
give a negative one only if both are negative. -/
def add (x y : Decimal) : Decimal :=
  let e := if x.exp ≤ y.exp then x.exp else y.exp
  let s := x.coeffAt e + y.coeffAt e
  if s = 0 then ⟨x.coeff = 0 && y.coeff = 0 && x.negative && y.negative, 0, 0⟩
  else ⟨decide (s < 0), s.natAbs, e⟩

/-- The difference, with no digit lost. -/
def sub (x y : Decimal) : Decimal := x.add y.neg

end Decimal

end Reckoner
