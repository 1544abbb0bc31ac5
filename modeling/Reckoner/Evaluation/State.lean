/-
# The state of an evaluation

Tokens are evaluated from left to right without building a tree.  Values wait
in one list, and operators, groups and calls that are not finished wait in
another; both have the latest entry in front.  Groups and calls are barriers:
finishing operators never looks past one.

Every operator, function and constant that has been applied is recorded as a
`Step`, also when a later one fails.
-/
import Reckoner.Evaluation.Problem
import Reckoner.Operation

namespace Reckoner

/-- What was applied in a step. -/
inductive Applied where
  | operator (op : Operator)
  | function (f : Function)
  | constant (c : Constant)
deriving DecidableEq, Repr

namespace Applied

/-- The name of the kind of thing that was applied. -/
def kind : Applied → String
  | operator _ => "operator"
  | function _ => "function"
  | constant _ => "constant"

/-- The name of the identity of what was applied. -/
def id : Applied → String
  | operator op => op.id.name
  | function f => f.id.name
  | constant c => c.id.name

end Applied

/-- One application of an operator, a function or a constant. -/
structure Step where
  applied : Applied
  /-- What it was applied to, from left to right. -/
  operands : List Number
  result : Number
  /-- The offset of the token that asked for it. -/
  index : Int
deriving DecidableEq, Repr

/-- How numbers are computed. -/
structure Numerics where
  /-- The number of significant digits. -/
  precision : Nat
  /-- What `random` gives, by the number of steps before. -/
  draws : Nat → Decimal

/-- An operator, a group or a call that is not finished. -/
inductive Pending where
  /-- An operator that waits for its right operand. -/
  | operator (op : Operator) (token : Token)
  /-- A call, with the number of separators met and of values below it. -/
  | call (f : Function) (token : Token) (brackets : Brackets) (separators base : Nat)
  /-- An open group. -/
  | group (brackets : Brackets) (token : Token)
deriving DecidableEq, Repr

/-- What the latest token was. -/
inductive Previous where
  /-- There was none. -/
  | start
  /-- The end of an operand. -/
  | operand
  /-- An operator. -/
  | operator
  /-- An opening bracket, with the name before it in a call. -/
  | opening
  /-- A separator. -/
  | separator
deriving DecidableEq, Repr

/-- The values that wait and the steps made, the latest first. -/
structure Work where
  operands : List Number
  steps : List Step
deriving DecidableEq, Repr

/-- The state between two tokens. -/
structure State where
  work : Work
  /-- What is not finished, the latest first. -/
  pending : List Pending
  /-- What the latest token was. -/
  previous : Previous
deriving DecidableEq, Repr

/-- The state before the first token. -/
def State.initial : State := ⟨⟨[], []⟩, [], .start⟩

/-- A problem, and the steps made before it. -/
structure Halt where
  problem : Problem
  /-- The steps, the latest first. -/
  steps : List Step
deriving DecidableEq, Repr

namespace Work

def halt {α : Type} (w : Work) (cause : Cause) (start : Int) (length : Nat) : Except Halt α :=
  .error ⟨⟨cause, some ⟨start, length⟩⟩, w.steps⟩

def haltAt {α : Type} (w : Work) (cause : Cause) (token : Token) : Except Halt α :=
  w.halt cause token.start token.length

def push (w : Work) (x : Number) : Work := { w with operands := x :: w.operands }

/-- The value of an outcome, or stops at the token it belongs to. -/
def value (n : Numerics) (w : Work) (outcome : Outcome) (subject : String) (token : Token) :
    Except Halt Number :=
  match outcome with
  | .ok x => .ok x
  | .error reason => w.haltAt (.noValue subject n.precision reason) token

/-- Replaces the `count` latest values by the outcome of applying something to
them, and records the step. -/
def perform (n : Numerics) (w : Work) (applied : Applied) (count : Nat)
    (run : List Number → Outcome) (subject : String) (token : Token) : Except Halt Work := do
  let operands := (w.operands.take count).reverse
  let result ← w.value n (run operands) subject token
  return { operands := result :: w.operands.drop count
           steps := ⟨applied, operands, result, token.start⟩ :: w.steps }

/-- Applies an operator to the latest values. -/
def applyOperator (n : Numerics) (w : Work) (op : Operator) (token : Token) : Except Halt Work :=
  if w.operands.length < op.arity.count then
    w.halt (.noOperandFor op.symbol) token.start 1
  else
    w.perform n (.operator op) op.arity.count (op.apply n.precision) op.symbol token

/-- Applies a function to the latest values, which are its arguments. -/
def applyFunction (n : Numerics) (w : Work) (f : Function) (count : Nat) (token : Token) :
    Except Halt Work :=
  w.perform n (.function f) count (f.id.apply n.precision (n.draws w.steps.length)) f.name token

def applyConstant (n : Numerics) (w : Work) (c : Constant) (token : Token) : Except Halt Work :=
  w.perform n (.constant c) 0 (fun _ => c.id.value n.precision) c.name token

/-- Applies the operators in front of the pending list for as long as `due`
holds, and gives what is left of the list. -/
def reduce (n : Numerics) (due : Operator → Bool) :
    Work → List Pending → Except Halt (Work × List Pending)
  | w, .operator op token :: rest =>
    if due op then do reduce n due (← w.applyOperator n op token) rest
    else .ok (w, .operator op token :: rest)
  | w, pending => .ok (w, pending)

end Work

end Reckoner
