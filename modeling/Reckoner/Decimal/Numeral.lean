/-
# Numerals — reading decimals from text

The grammar of a numeral, after an optional single sign:

    digits [ "." digits* ] [ exponent ]      5   5.   0.25   1e-7
    "." digits             [ exponent ]      .5
    "0x" / "0b" / "0o" digits of that base   0x1F

where an exponent is `e` or `E`, an optional sign and digits.  An underscore
between two decimal digits is read as nothing.  Only the ASCII digits count
as digits, and nothing may stand before or behind a numeral.
-/
import Reckoner.Decimal.Basic

namespace Reckoner

/-- Whether the character is one of the ten ASCII digits. -/
def isDigit (c : Char) : Bool := '0' ≤ c && c ≤ '9'

/-- The value of an ASCII digit. -/
def digitValue (c : Char) : Nat := c.toNat - '0'.toNat

/-- The natural number that a run of decimal digits denotes. -/
def digitsValue (cs : List Char) : Nat :=
  cs.foldl (fun n c => 10 * n + digitValue c) 0

namespace Numeral

/-- The text without the underscores that stand between two digits. -/
def joinDigits : List Char → List Char
  | c :: '_' :: d :: rest =>
    if isDigit c && isDigit d then c :: joinDigits (d :: rest)
    else c :: joinDigits ('_' :: d :: rest)
  | c :: rest => c :: joinDigits rest
  | [] => []

/-- The integer behind the mark of an exponent: an optional sign and digits. -/
def exponent? (cs : List Char) : Option Int :=
  match cs with
  | '-' :: ds => if ds ≠ [] ∧ ds.all isDigit then some (-(digitsValue ds : Int)) else none
  | '+' :: ds => if ds ≠ [] ∧ ds.all isDigit then some (digitsValue ds) else none
  | ds => if ds ≠ [] ∧ ds.all isDigit then some (digitsValue ds) else none

/-- The power of ten that the end of a numeral asks for. -/
def scale? : List Char → Option Int
  | [] => some 0
  | c :: rest => if c = 'e' || c = 'E' then exponent? rest else none

/-- Reads an unsigned decimal numeral: its digits as a number and the power
of ten that scales them. -/
def decimal? (cs : List Char) : Option (Nat × Int) :=
  let whole := cs.takeWhile isDigit
  let rest := cs.dropWhile isDigit
  let (fraction, tail) := match rest with
    | '.' :: r => (r.takeWhile isDigit, r.dropWhile isDigit)
    | r => ([], r)
  if whole = [] ∧ fraction = [] then none
  else
    (scale? tail).map fun e =>
      (digitsValue (whole ++ fraction), e - fraction.length)

/-- The value of a digit in a base of at most sixteen. -/
def radixDigit? (base : Nat) (c : Char) : Option Nat :=
  let v :=
    if isDigit c then digitValue c
    else if 'a' ≤ c && c ≤ 'f' then c.toNat - 'a'.toNat + 10
    else if 'A' ≤ c && c ≤ 'F' then c.toNat - 'A'.toNat + 10
    else base
  if v < base then some v else none

/-- Reads the digits of a natural number in a base. -/
def radixDigits? (base : Nat) : List Char → Option Nat
  | [] => none
  | cs => cs.foldl (fun n? c => do return base * (← n?) + (← radixDigit? base c)) (some 0)

/-- Reads an unsigned integer that names its base. -/
def radix? : List Char → Option Nat
  | '0' :: mark :: digits =>
    if mark = 'x' || mark = 'X' then radixDigits? 16 digits
    else if mark = 'b' || mark = 'B' then radixDigits? 2 digits
    else if mark = 'o' || mark = 'O' then radixDigits? 8 digits
    else none
  | _ => none

def magnitude? (cs : List Char) : Option (Nat × Int) :=
  let joined := joinDigits cs
  match decimal? joined with
  | some r => some r
  | none => (radix? joined).map fun n => (n, 0)

/-- The sign in front of a text, and what follows it. -/
def splitSign : List Char → Bool × List Char
  | '-' :: rest => (true, rest)
  | '+' :: rest => (false, rest)
  | rest => (false, rest)

/-- Reads a numeral, sign included. -/
def read? (cs : List Char) : Option Decimal :=
  let (negative, body) := splitSign cs
  (magnitude? body).map fun (c, e) => ⟨negative, c, e⟩

end Numeral

end Reckoner
