/-
# What an expression may be written with

A `Definition` lists operators, functions, constants, brackets and the
separator of arguments.  Each operator, function and constant has an
identity, which selects what it computes, and a surface text, which is how it
is written; relabelling changes the text and never the identity.

Any lists form a `Definition`.  A `Catalog`, in `Reckoner.Catalog.Consistency`,
is one whose parts do not contradict each other.
-/
import Reckoner.Binary64

namespace Reckoner

/-- What an operator computes. -/
inductive OperatorId where
  | negate | add | subtract | multiply | divide | modulo | power
  /-- A name that selects nothing. -/
  | other (name : String)
deriving DecidableEq, Repr

namespace OperatorId

def name : OperatorId → String
  | negate => "negate"
  | add => "add"
  | subtract => "subtract"
  | multiply => "multiply"
  | divide => "divide"
  | modulo => "modulo"
  | power => "power"
  | other s => s

/-- The operators that compute something. -/
def known : List OperatorId := [negate, add, subtract, multiply, divide, modulo, power]

def ofName (s : String) : OperatorId := (known.find? (·.name = s)).getD (other s)

end OperatorId

/-- What a function computes. -/
inductive FunctionId where
  | abs | ceil | floor | round
  | sin | cos | tan | asin | acos | atan | sinh | cosh | tanh
  | ln | log | min | max | sum | average | random
  /-- A name that selects nothing. -/
  | other (name : String)
deriving DecidableEq, Repr

namespace FunctionId

def name : FunctionId → String
  | abs => "abs"
  | ceil => "ceil"
  | floor => "floor"
  | round => "round"
  | sin => "sin"
  | cos => "cos"
  | tan => "tan"
  | asin => "asin"
  | acos => "acos"
  | atan => "atan"
  | sinh => "sinh"
  | cosh => "cosh"
  | tanh => "tanh"
  | ln => "ln"
  | log => "log"
  | min => "min"
  | max => "max"
  | sum => "sum"
  | average => "average"
  | random => "random"
  | other s => s

/-- The functions that compute something. -/
def known : List FunctionId :=
  [abs, ceil, floor, round, sin, cos, tan, asin, acos, atan, sinh, cosh, tanh,
   ln, log, min, max, sum, average, random]

def ofName (s : String) : FunctionId := (known.find? (·.name = s)).getD (other s)

end FunctionId

/-- Which number a constant is. -/
inductive ConstantId where
  | pi | e
  /-- A name that selects nothing. -/
  | other (name : String)
deriving DecidableEq, Repr

namespace ConstantId

def name : ConstantId → String
  | pi => "pi"
  | e => "e"
  | other s => s

def ofName (s : String) : ConstantId :=
  if s = "pi" then pi else if s = "e" then e else other s

end ConstantId

/-- The number of operands of an operator. -/
inductive Arity where
  | unary | binary
deriving DecidableEq, Repr

def Arity.count : Arity → Nat
  | unary => 1
  | binary => 2

/-- Which of two equal operators in a row binds its operands first. -/
inductive Associativity where
  | left | right
deriving DecidableEq, Repr

/-- An operator as it is written and read. -/
structure Operator where
  id : OperatorId
  symbol : String
  arity : Arity
  associativity : Associativity
  /-- How tightly it binds; the higher, the tighter. -/
  precedence : Binary64
deriving DecidableEq, Repr

/-- A function and how many arguments it admits. -/
structure Function where
  id : FunctionId
  name : String
  /-- The least number of arguments. -/
  least : Binary64
  /-- The greatest number of arguments, which may be infinite. -/
  most : Binary64
deriving DecidableEq, Repr

namespace Function

/-- Whether a number of arguments is within the bounds. -/
def admits (f : Function) (count : Nat) : Bool :=
  !(Number.ofNat count).lt f.least.toNumber && !f.most.toNumber.lt (Number.ofNat count)

end Function

/-- A named constant. -/
structure Constant where
  /-- Which number it is. -/
  id : ConstantId
  name : String
deriving DecidableEq, Repr

/-- A pair of brackets. -/
structure Brackets where
  /-- The text that opens. -/
  opening : String
  /-- The text that closes. -/
  closing : String
deriving DecidableEq, Repr

/-- What a fixed piece of text stands for. -/
inductive Role where
  | operator | opening | closing | separator
deriving DecidableEq, Repr

def Role.name : Role → String
  | operator => "operator"
  | opening => "open-bracket"
  | closing => "close-bracket"
  | separator => "separator"

/-- A fixed piece of text with its role. -/
structure Symbol where
  text : String
  role : Role
deriving DecidableEq, Repr

/-- Everything an expression may be written with. -/
structure Definition where
  operators : List Operator
  functions : List Function
  constants : List Constant
  /-- The brackets that may follow the name of a function. -/
  functionBrackets : List Brackets
  /-- The brackets that may enclose a part of an expression. -/
  expressionBrackets : List Brackets
  separator : String
deriving DecidableEq, Repr

namespace Definition

/-- The operator written with a symbol, of an arity. -/
def findOperator? (d : Definition) (symbol : String) (arity : Arity) : Option Operator :=
  d.operators.find? fun op => op.symbol = symbol && op.arity = arity

def findFunction? (d : Definition) (name : String) : Option Function :=
  d.functions.find? fun f => f.name = name

def findConstant? (d : Definition) (name : String) : Option Constant :=
  d.constants.find? fun c => c.name = name

/-- The first brackets of a call that open with a text. -/
def findFunctionBrackets? (d : Definition) (opening : String) : Option Brackets :=
  d.functionBrackets.find? fun b => b.opening = opening

/-- The first brackets of a group that open with a text. -/
def findExpressionBrackets? (d : Definition) (opening : String) : Option Brackets :=
  d.expressionBrackets.find? fun b => b.opening = opening

end Definition

end Reckoner
