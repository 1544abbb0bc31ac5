/-
# Records as lines

A record is written as one line of JSON: its level as a number, what belongs
to it, and its message.  The time at which it was written, and how long an
evaluation took, are left out.
-/
import Reckoner.Log
import Reckoner.Text.Json

namespace Reckoner

namespace Log

open Text (quoted)
open Text.Json

/-- An offset as a value; one that is no number of units is null. -/
def offset : Option Text.Offset → String
  | some (.units n) => toString n
  | _ => "null"

namespace Record

/-- What belongs to a record besides its level and message. -/
def members : Record → Members
  | evaluated p length =>
    [("precision", toString p.digits), ("length", toString length)]
  | rejected p length failure =>
    [("precision", toString p.digits), ("length", toString length),
     ("code", quoted failure.category.code), ("index", offset failure.index)]
  | applied step =>
    [("kind", quoted step.applied.kind), ("id", quoted step.applied.id),
     ("operands", array (step.operands.map fun x => quoted x.text)),
     ("result", quoted step.result.text), ("index", toString step.index)]
  | precisionIgnored value => [("value", quoted value)]

/-- The record as a line, without its end. -/
def line (r : Record) : String :=
  object <|
    ("level", toString r.level.rank) :: r.members ++ [("msg", quoted r.message)]

end Record

end Log

end Reckoner
