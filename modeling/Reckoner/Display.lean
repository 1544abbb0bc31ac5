/-
# Displaying a number

A displayed number is in plain notation: every digit around a point, no
exponent, no zeros at the end of a fraction, and no sign on a zero.  The
caller may ask for a number of significant digits and for a number of digits
behind the point; the value is rounded to the first and then to the second, a
half going away from zero both times.
-/
import Reckoner.Failure

namespace Reckoner

/-- How many digits to display. -/
structure Display where
  /-- At most this many significant digits. -/
  significant : Option Binary64 := none
  /-- At most this many digits behind the point. -/
  fraction : Option Binary64 := none
deriving DecidableEq, Repr

namespace Display

/-- The largest number of digits that can be asked for. -/
def most : Nat := 1000000000

/-- A number of digits that was asked for under a name. -/
def count (option : String) (least : Nat) (x : Binary64) : Except Misuse Nat :=
  match x.toNat? with
  | none => .error (.displayDigits option least x)
  | some n =>
    if n < least then .error (.displayDigits option least x)
    else if most < n then .error (.tooManyDigits x)
    else .ok n

/-- Rounds a decimal to a number of significant digits, if one is given. -/
def roundSignificant (x : Number) : Option Binary64 → Except Misuse Number
  | none => .ok x
  | some digits => do return x.round (← count "significantDigits" 1 digits)

/-- Rounds a number to a number of digits behind the point. -/
def roundFraction (x : Number) : Option Binary64 → Except Misuse Number
  | none => .ok x
  | some digits => do
    let n ← count "maxFractionDigits" 0 digits
    match x with
    | .finite d => return .fit (d.roundAt (-n))
    | _ => return x

/-- The failure of displaying what is no finite number. -/
def notFinite (x : Number) : Failure :=
  Failure.make (.operand "format") { message := "cannot format non-finite value " ++ x.text }

/-- A number in plain notation; one that is not finite by its name. -/
def plain : Number → String
  | .finite x => x.plain
  | x => x.text

/-- The number rounded as asked for. -/
def round (d : Display) (x : Number) : Except Misuse Number := do
  roundFraction (← roundSignificant x d.significant) d.fraction

end Display

def Number.display (x : Number) (d : Display) : Except Thrown String :=
  if x.isFinite then
    match d.round x with
    | .ok shown => .ok (Display.plain shown)
    | .error m => .error (.misuse m)
  else .error (.failure (Display.notFinite x))

end Reckoner
