/-
# Outcomes of numeric primitives

A primitive gives a number or says why it has none.  Most reasons are about
the operands; one, `beyondLimit`, says that the result exists and needs more
working digits than there are.
-/
import Reckoner.Number.Basic

namespace Reckoner

/-- Why a primitive has no result. -/
inductive Reason where
  /-- The text is no numeral. -/
  | notNumeral (text : String)
  /-- The result is no number; what was being done is given in words. -/
  | undefined (doing : String)
  /-- The result is infinite; what was being done is given in words. -/
  | unbounded (doing : String)
  | divisionByZero
  | moduloByZero
  /-- A zero base with a negative exponent. -/
  | zeroToNegative
  /-- A negative base with an exponent that is no integer. -/
  | fractionOfNegative
  /-- An argument of magnitude above one. -/
  | outsideUnit
  /-- An argument that is not above zero. -/
  | notPositive
  /-- No argument where one or more are needed. -/
  | noArguments
  /-- No argument where exactly one is needed. -/
  | missingArgument
  /-- A single operand where two are needed. -/
  | missingSecond
  /-- Fewer operands than the operator takes. -/
  | operandCount (expected given : Nat)
  | unknownOperator (name : String)
  | unknownFunction (name : String)
  | unknownConstant (name : String)
  /-- The result needs more working digits than there are. -/
  | beyondLimit
deriving DecidableEq, Repr

namespace Reason

def message : Reason → String
  | notNumeral s => "\"" ++ s ++ "\" is not a number"
  | undefined doing => doing ++ " (result is undefined)"
  | unbounded doing => doing ++ " (result is not finite)"
  | divisionByZero => "division by zero"
  | moduloByZero => "modulo by zero"
  | zeroToNegative => "zero cannot be raised to a negative power"
  | fractionOfNegative => "a negative base needs an integer exponent"
  | outsideUnit => "argument must be within [-1, 1]"
  | notPositive => "argument must be positive"
  | noArguments => "needs at least one argument"
  | missingArgument => "missing argument"
  | missingSecond => "missing right-hand operand"
  | operandCount expected given =>
    "expected " ++ toString expected ++ " operand(s), got " ++ toString given
  | unknownOperator s => "unsupported operator \"" ++ s ++ "\""
  | unknownFunction s => "unsupported function \"" ++ s ++ "\""
  | unknownConstant s => "unsupported constant \"" ++ s ++ "\""
  | beyondLimit => "[DecimalError] Precision limit exceeded"

def isLimit : Reason → Bool
  | beyondLimit => true
  | _ => false

/-- Whether the reason stems from a failure further inside. -/
def hasCause : Reason → Bool
  | notNumeral _ | missingSecond | beyondLimit => true
  | _ => false

end Reason

/-- A number, or why there is none. -/
abbrev Outcome := Except Reason Number

namespace Outcome

def ofFinite (doing : String) (x : Number) : Outcome :=
  match x with
  | .finite _ => .ok x
  | .infinite _ => .error (.unbounded doing)
  | .nan => .error (.undefined doing)

/-- The finite number, if there is one within the working limit. -/
def ofLimited (doing : String) : Option Number → Outcome
  | some x => ofFinite doing x
  | none => .error .beyondLimit

end Outcome

namespace Number

/-- Reads a numeral and rounds it to `p` digits. -/
def parse (p : Nat) (text : String) : Outcome :=
  match read? text with
  | none => .error (.notNumeral text)
  | some x => Outcome.ofFinite ("\"" ++ text ++ "\"") (x.round p)

end Number

end Reckoner
