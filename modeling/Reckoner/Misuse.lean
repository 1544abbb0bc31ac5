/-
# Values that a caller may not pass

A misuse is no failure of an expression: an option has a value outside its
range.  It has a message and neither a code nor a place.
-/
import Reckoner.Binary64

namespace Reckoner

/-- A value that a caller may not pass. -/
inductive Misuse where
  /-- A precision for an engine that is not in range. -/
  | precision (x : Binary64)
  /-- A precision for a number system that is not in range. -/
  | digits (x : Binary64)
  /-- A limit on the length of sources that is no natural number. -/
  | maxLength (x : Binary64)
  /-- A number of displayed digits below its least value, or no integer. -/
  | displayDigits (option : String) (least : Nat) (x : Binary64)
  /-- A number of displayed digits above what can be displayed. -/
  | tooManyDigits (x : Binary64)
  /-- A source that is no text. -/
  | notText
  /-- The name of an engine that was never stored. -/
  | noEngine (name : String)
deriving DecidableEq, Repr

namespace Misuse

def message : Misuse → String
  | precision x => "Decimath: precision must be a positive integer, got " ++ x.text ++ "."
  | digits x => "[DecimalError] Invalid argument: precision: " ++ x.text
  | maxLength x =>
    "Decimath: maxExpressionLength must be a non-negative integer, got " ++ x.text ++ "."
  | displayDigits option least x =>
    "Decimath: " ++ option ++ " must be an integer >= " ++ toString least ++ ", got " ++
      x.text ++ "."
  | tooManyDigits x => "[DecimalError] Invalid argument: " ++ x.text
  | notText => "Decimath: expression source must be a string."
  | noEngine name => "no engine \"" ++ name ++ "\""

end Misuse

end Reckoner
