/-
# What operators, functions and constants compute

The primitives are selected by identity, so a catalog with other texts
computes the same.  Each checks its operands first and then computes at a
precision of `p` significant digits.

Angles are in radians.  `round` goes to the next integer away from zero.  The
functions that pick or cut a number, `abs`, `ceil`, `floor`, `round`, `min`
and `max`, and the operator that negates one never round it to `p` digits.
-/
import Reckoner.Catalog.Basic
import Reckoner.Elementary.Machin
import Reckoner.Number.Arithmetic
import Reckoner.Number.Elementary
import Reckoner.Number.Power
import Reckoner.Outcome

namespace Reckoner

namespace OperatorId

def applyTwo (p : Nat) (id : OperatorId) (a b : Number) : Outcome :=
  match id with
  | negate => .ok a.neg
  | add => Outcome.ofFinite "addition overflowed" (a.add p b)
  | subtract => Outcome.ofFinite "subtraction overflowed" (a.sub p b)
  | multiply => Outcome.ofFinite "multiplication overflowed" (a.mul p b)
  | divide =>
    if b.isZero then .error .divisionByZero
    else Outcome.ofFinite "division overflowed" (a.div p b)
  | modulo =>
    if b.isZero then .error .moduloByZero
    else Outcome.ofFinite "modulo failed" (a.mod p b)
  | power =>
    if a.isZero && b.isNegative then .error .zeroToNegative
    else if a.isNegative && !b.isInteger then .error .fractionOfNegative
    else Outcome.ofLimited "power overflowed" (a.pow? p b)
  | other s => .error (.unknownOperator s)

def applyOne (id : OperatorId) (a : Number) : Outcome :=
  match id with
  | negate => .ok a.neg
  | other s => .error (.unknownOperator s)
  | _ => .error .missingSecond

end OperatorId

/-- Applies an operator to its operands from left to right. -/
def Operator.apply (p : Nat) (op : Operator) (operands : List Number) : Outcome :=
  match op.arity, operands with
  | arity, [] => .error (.operandCount arity.count 0)
  | .unary, [a] => op.id.applyOne a
  | .binary, [_] => .error (.operandCount 2 1)
  | _, a :: b :: _ => op.id.applyTwo p a b

namespace FunctionId

/-- The first argument, handed to a primitive. -/
def unary (args : List Number) (f : Number → Outcome) : Outcome :=
  match args with
  | [] => .error .missingArgument
  | x :: _ => f x

/-- Whether the magnitude of a number is above one. -/
def isOutsideUnit (x : Number) : Bool := Number.one.lt x.abs

/-- The sum of the arguments, each addition rounded, from zero on. -/
def total (p : Nat) (args : List Number) : Number := args.foldl (Number.add p) Number.zero

/-- The first of the arguments that no other one is better than. -/
def best (better : Number → Number → Bool) : List Number → Outcome
  | [] => .error .noArguments
  | x :: rest => .ok (rest.foldl (fun best next => if better next best then next else best) x)

/-- Applies a function to its arguments.  `draw` is the number that `random`
gives. -/
def apply (p : Nat) (draw : Decimal) (id : FunctionId) (args : List Number) : Outcome :=
  match id with
  | abs => unary args fun x => .ok x.abs
  | ceil => unary args fun x => .ok x.ceil
  | floor => unary args fun x => .ok x.floor
  | round => unary args fun x => .ok x.outward
  | sin =>
    unary args fun x => Outcome.ofLimited "sine failed" (Number.onFinite (Elementary.sin? p) x)
  | cos =>
    unary args fun x => Outcome.ofLimited "cosine failed" (Number.onFinite (Elementary.cos? p) x)
  | tan =>
    unary args fun x => Outcome.ofLimited "tangent failed" (Number.onFinite (Elementary.tan? p) x)
  | asin => unary args fun x =>
    if isOutsideUnit x then .error .outsideUnit
    else Outcome.ofLimited "arc sine failed" (Number.onFinite (Elementary.arcsin? p) x)
  | acos => unary args fun x =>
    if isOutsideUnit x then .error .outsideUnit
    else Outcome.ofLimited "arc cosine failed" (Number.onFinite (Elementary.arccos? p) x)
  | atan => unary args fun x => Outcome.ofFinite "arc tangent failed" (x.arctan p)
  | sinh => unary args fun x => Outcome.ofFinite "hyperbolic sine overflowed" (x.sinh p)
  | cosh => unary args fun x => Outcome.ofFinite "hyperbolic cosine overflowed" (x.cosh p)
  | tanh => unary args fun x => Outcome.ofFinite "hyperbolic tangent failed" (x.tanh p)
  | ln => unary args fun x =>
    if x.isAtMostZero then .error .notPositive
    else Outcome.ofLimited "natural logarithm failed" (Number.logarithm (Elementary.ln? p) x)
  | log => unary args fun x =>
    if x.isAtMostZero then .error .notPositive
    else Outcome.ofLimited "logarithm failed" (Number.logarithm (Elementary.log10? p) x)
  | min => best (fun next best => next.lt best) args
  | max => best (fun next best => best.lt next) args
  | sum =>
    if args.isEmpty then .error .noArguments
    else Outcome.ofFinite "sum overflowed" (total p args)
  | average =>
    if args.isEmpty then .error .noArguments
    else Outcome.ofFinite "average overflowed" ((total p args).div p (Number.ofNat args.length))
  | random => .ok (.fit (draw.round p))
  | other s => .error (.unknownFunction s)

end FunctionId

/-- The value of a constant at `p` digits. -/
def ConstantId.value (p : Nat) : ConstantId → Outcome
  | pi => .ok (.fit (Elementary.pi p))
  | e => .ok (.fit (Elementary.euler p))
  | other s => .error (.unknownConstant s)

end Reckoner
