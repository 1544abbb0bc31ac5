/-
# Numbers — decimals within a range of exponents, infinities and NaN

A `Number` is what the numeric primitives take and give: a decimal whose
leading digit stands between `10^-9000000000000000` and
`10^9000000000000000`, or an infinity, or the undefined NaN.  A result above
the range is infinite and a result below it is zero, the sign kept in both
cases; `Number.fit` is the one place where that happens.  It also gives every
result its shortest form, so two results are equal as numbers, signs of zeros
included, just when they are the same `Number`.

An evaluation only ever holds finite numbers.  The others are arguments that
a caller may hand to a primitive, and results that a primitive refuses.
-/
import Reckoner.Decimal.Rounding
import Reckoner.Decimal.Notation
import Reckoner.Decimal.Numeral

namespace Reckoner

/-- A decimal within range, an infinity or NaN. -/
inductive Number where
  /-- A decimal. -/
  | finite (x : Decimal)
  /-- An infinity of either sign. -/
  | infinite (negative : Bool)
  /-- No number. -/
  | nan
deriving DecidableEq, Repr

namespace Number

instance : Inhabited Number := ⟨nan⟩

/-- The largest exponent of a leading digit; its negative is the least one. -/
def exponentLimit : Int := 9000000000000000

/-- The number of a decimal, in its shortest form: infinite above the range,
zero below it. -/
def fit (x : Decimal) : Number :=
  if x.coeff = 0 then finite x.canonical
  else if exponentLimit < x.magnitude then infinite x.negative
  else if x.magnitude < -exponentLimit then finite ⟨x.negative, 0, 0⟩
  else finite x.canonical

/-- Zero with a plus sign. -/
def zero : Number := finite Decimal.zero

def ofNat (n : Nat) : Number := fit (Decimal.ofNat n)

/-- Whether the number is neither infinite nor NaN. -/
def isFinite : Number → Bool
  | finite _ => true
  | _ => false

/-- Whether the number is a zero of either sign. -/
def isZero : Number → Bool
  | finite x => x.isZero
  | _ => false

/-- Whether the number carries a minus sign, on zero and infinity as well. -/
def isNegative : Number → Bool
  | finite x => x.negative
  | infinite s => s
  | nan => false

def isInteger : Number → Bool
  | finite x => x.isInteger
  | _ => false

/-- The order of numbers; nothing is less than NaN or above it. -/
def lt : Number → Number → Bool
  | finite x, finite y => x.lt y
  | infinite s, infinite t => s && !t
  | infinite s, finite _ => s
  | finite _, infinite t => !t
  | _, _ => false

/-- Whether the number is zero or below; NaN is not. -/
def isAtMostZero : Number → Bool
  | finite x => x.coeff = 0 || x.negative
  | infinite s => s
  | nan => false

/-- The other sign. -/
def neg : Number → Number
  | finite x => finite x.neg
  | infinite s => infinite !s
  | nan => nan

/-- The sign removed. -/
def abs : Number → Number
  | finite x => finite x.abs
  | infinite _ => infinite false
  | nan => nan

/-- At most `p` significant digits, a half going away from zero. -/
def round (p : Nat) : Number → Number
  | finite x => fit (x.round p)
  | x => x

/-- General notation; the zeros are `0` and `-0`. -/
def signedText : Number → String
  | finite x => x.signedGeneral
  | infinite s => if s then "-Infinity" else "Infinity"
  | nan => "NaN"

/-- General notation; either zero is `0`. -/
def text : Number → String
  | finite x => x.general
  | x => x.signedText

/-- Reads a numeral or the name of a number that is not finite, exactly. -/
def read? (s : String) : Option Number :=
  let (negative, body) := Numeral.splitSign s.toList
  if body = "Infinity".toList then some (infinite negative)
  else if body = "NaN".toList then some nan
  else (Numeral.read? s.toList).map fit

end Number

end Reckoner
