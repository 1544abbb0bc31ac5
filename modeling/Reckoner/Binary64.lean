/-
# Double precision numbers

Options, precedences and argument bounds are numbers of the IEEE 754 format
binary64.  A finite one is `± mantissa · 2^exponent` with a mantissa below
`2^53`; all that is asked of it is answered through the decimal that it is
exactly, so no floating-point operation occurs here.

`Binary64.text` writes the fewest digits that read back as the same number,
and of those the nearest, in general notation.
-/
import Reckoner.Number.Basic

namespace Reckoner

/-- Two to the power `k`. -/
def pow2 (k : Nat) : Nat := 1 <<< k

/-- A number of the format binary64. -/
inductive Binary64 where
  /-- The finite number `± mantissa · 2^exponent`. -/
  | finite (negative : Bool) (mantissa : Nat) (exponent : Int)
  /-- An infinity of either sign. -/
  | infinite (negative : Bool)
  /-- No number. -/
  | nan
deriving DecidableEq, Repr

namespace Binary64

instance : Inhabited Binary64 := ⟨nan⟩

/-- The exponent of the least positive number. -/
def leastExponent : Int := -1074

/-- The natural number nearest to `n / d`; an exact half goes to the even one. -/
def halfEven (n d : Nat) : Nat :=
  let q := n / d
  let r := n % d
  if 2 * r < d || (2 * r = d && q % 2 = 0) then q else q + 1

/-- The number nearest to `n / d · 2^e`, its mantissa rounded at the exponent
`e` and moved below `2^53`. -/
def assemble (negative : Bool) (n d : Nat) (e : Int) : Binary64 :=
  let m := if 0 ≤ e then halfEven n (d * pow2 e.toNat) else halfEven (n * pow2 (-e).toNat) d
  let (m, e) := if m = pow2 53 then (pow2 52, e + 1) else (m, e)
  if 971 < e then infinite negative else finite negative m e

/-- The number nearest to `± n / d`, ties to the even mantissa; `d` is not
zero. -/
def ofRatio (negative : Bool) (n d : Nat) : Binary64 :=
  if n = 0 then finite negative 0 leastExponent
  else
    -- at `e` the quotient lies above `2^51` and below `2^53`
    let e : Int := (n.log2 : Int) - d.log2 - 52
    let tooHigh :=
      if 0 ≤ e then n < pow2 52 * d * pow2 e.toNat else n * pow2 (-e).toNat < pow2 52 * d
    let e := if tooHigh then e - 1 else e
    assemble negative n d (if e < leastExponent then leastExponent else e)

/-- The number nearest to a decimal. -/
def ofDecimal (x : Decimal) : Binary64 :=
  if x.coeff = 0 then finite x.negative 0 leastExponent
  else if 310 < x.magnitude then infinite x.negative
  else if x.magnitude < -330 then finite x.negative 0 leastExponent
  else if 0 ≤ x.exp then ofRatio x.negative (x.coeff * pow10 x.exp.toNat) 1
  else ofRatio x.negative x.coeff (pow10 (-x.exp).toNat)

/-- The number nearest to a natural number. -/
def ofNat (n : Nat) : Binary64 := ofDecimal (Decimal.ofNat n)

/-- The number nearest to an integer. -/
def ofInt (n : Int) : Binary64 := ofDecimal (Decimal.ofInt n)

/-- The decimal that `mantissa · 2^exponent` is. -/
def exact (negative : Bool) (m : Nat) (e : Int) : Decimal :=
  if 0 ≤ e then ⟨negative, m * pow2 e.toNat, 0⟩
  else ⟨negative, m * Nat.pow 5 (-e).toNat, e⟩

/-- The number as one of the extended decimals, with no digit lost. -/
def toNumber : Binary64 → Number
  | finite s m e => .finite (exact s m e)
  | infinite s => .infinite s
  | nan => .nan

/-- The order of numbers; NaN is in no order. -/
def lt (x y : Binary64) : Bool := x.toNumber.lt y.toNumber

/-- Whether two numbers are equal; NaN is equal to nothing, and the two zeros
are equal. -/
def eq : Binary64 → Binary64 → Bool
  | nan, _ | _, nan => false
  | x, y => !x.lt y && !y.lt x

/-- Whether the number is neither infinite nor NaN. -/
def isFinite : Binary64 → Bool
  | finite _ _ _ => true
  | _ => false

def isInteger (x : Binary64) : Bool := x.toNumber.isInteger

/-- The number as a natural number, if it is one. -/
def toNat? : Binary64 → Option Nat
  | finite s m e =>
    let x := (exact s m e).canonical
    if x.coeff = 0 then some 0
    else if x.negative || x.exp < 0 then none
    else some (x.coeff * pow10 x.exp.toNat)
  | _ => none

/-- The decimals that round to `mantissa · 2^exponent`, as the ends of their
range in quarters of `2^exponent`.  Below a power of two the neighbour is half
as far away. -/
def quarterRange (m : Nat) (e : Int) : Nat × Nat :=
  let below := if m = pow2 52 && leastExponent < e then 1 else 2
  (4 * m - below, 4 * m + 2)

/-- Whether `c · 10^g` reads back as `mantissa · 2^exponent`.  The ends of the
range belong to it where the mantissa is even. -/
def readsBack (m : Nat) (e : Int) (c : Nat) (g : Int) : Bool :=
  let (lo, hi) := quarterRange m e
  -- compare `c · 10^g` with `lo · 2^(e - 2)` and `hi · 2^(e - 2)` over a common denominator
  let c := c * pow10 g.toNat * pow2 (2 - e).toNat
  let scale := pow10 (-g).toNat * pow2 (e - 2).toNat
  if m % 2 = 0 then lo * scale ≤ c && c ≤ hi * scale else lo * scale < c && c < hi * scale

/-- The multiple of `10^g` nearest to a decimal among those that read back, if
one of its two neighbours does. -/
def neighbour? (m : Nat) (e : Int) (x : Decimal) (g : Int) : Option Nat :=
  let (n, d) :=
    if 0 ≤ x.exp - g then (x.coeff * pow10 (x.exp - g).toNat, 1)
    else (x.coeff, pow10 (g - x.exp).toNat)
  let c := n / d
  let nearest := halfEven n d
  let other := if nearest = c then c + 1 else c
  if readsBack m e nearest g then some nearest
  else if readsBack m e other g then some other
  else none

/-- The shortest decimal that reads back as a positive number, tried with `k`
digits and then with more. -/
def shortestFrom (m : Nat) (e : Int) (x : Decimal) : (tries k : Nat) → Decimal
  | 0, _ => x
  | tries + 1, k =>
    let g := x.magnitude - k + 1
    match neighbour? m e x g with
    | some c => ⟨false, c, g⟩
    | none => shortestFrom m e x tries (k + 1)

/-- The decimal with the fewest digits that reads back as the number. -/
def shortest (negative : Bool) (m : Nat) (e : Int) : Decimal :=
  if m = 0 then ⟨negative, 0, 0⟩
  else { shortestFrom m e (exact false m e) 17 1 with negative := negative }

def text : Binary64 → String
  | finite s m e => (shortest s m e).general
  | x => x.toNumber.text

end Binary64

end Reckoner
