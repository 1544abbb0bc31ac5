/-
# Log records

What is worth telling besides results is a record with a level.  A log has a
threshold, which is a level as well, and drops the records below it; the
threshold `silent` drops all of them.
-/
import Reckoner.Evaluation.Run
import Reckoner.Failure
import Reckoner.Precision

namespace Reckoner

namespace Log

/-- How much a record matters, and where a log begins to keep records. -/
inductive Level where
  | trace | debug | info | warn | error | fatal | silent
deriving DecidableEq, Repr

namespace Level

def name : Level → String
  | trace => "trace"
  | debug => "debug"
  | info => "info"
  | warn => "warn"
  | error => "error"
  | fatal => "fatal"
  | silent => "silent"

/-- The number by which levels are compared. -/
def rank : Level → Nat
  | trace => 10
  | debug => 20
  | info => 30
  | warn => 40
  | error => 50
  | fatal => 60
  | silent => 70

/-- The levels that have names. -/
def all : List Level := [fatal, error, warn, info, debug, trace, silent]

def ofName? (s : String) : Option Level := all.find? (·.name = s)

end Level

/-- Something that happened. -/
inductive Record where
  /-- An expression of `length` units has a value. -/
  | evaluated (precision : Precision) (length : Nat)
  /-- An expression of `length` units has none. -/
  | rejected (precision : Precision) (length : Nat) (failure : Failure)
  /-- A step of an evaluation. -/
  | applied (step : Step)
  /-- A precision from the environment that is not in range. -/
  | precisionIgnored (value : String)
deriving DecidableEq, Repr

namespace Record

def level : Record → Level
  | precisionIgnored _ => .warn
  | _ => .debug

def message : Record → String
  | evaluated _ _ => "expression evaluated"
  | rejected _ _ _ => "expression rejected"
  | applied _ => "apply"
  | precisionIgnored _ => "ignoring invalid DECIMATH_PRECISION"

end Record

/-- The records that a log with a threshold keeps. -/
def keep (threshold : Level) (records : List Record) : List Record :=
  records.filter fun r => threshold.rank ≤ r.level.rank

end Log

end Reckoner
