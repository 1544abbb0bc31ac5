/-
# The built-in catalogs

Two catalogs that differ in one number.  In the standard one a leading minus
binds looser than a power, so `-2^2` is `-4`; in the spreadsheet one it binds
tighter, so `-2^2` is `4`.
-/
import Reckoner.Catalog.Consistency

namespace Reckoner

/-- How tightly a leading minus binds. -/
inductive Style where
  /-- Looser than a power. -/
  | standard
  /-- Tighter than a power. -/
  | spreadsheet
deriving DecidableEq, Repr

namespace Preset

def negate (precedence : Nat) : Operator :=
  ⟨.negate, "-", .unary, .right, .ofNat precedence⟩

/-- A binary operator that groups to the left. -/
def leftward (id : OperatorId) (symbol : String) (precedence : Nat) : Operator :=
  ⟨id, symbol, .binary, .left, .ofNat precedence⟩

def operators (style : Style) : List Operator :=
  [negate (match style with | .standard => 3 | .spreadsheet => 5),
   leftward .subtract "-" 1,
   leftward .add "+" 1,
   leftward .multiply "*" 2,
   leftward .divide "/" 2,
   leftward .power "^" 4,
   leftward .modulo "%" 2]

def single (id : FunctionId) (name : String) : Function := ⟨id, name, .ofNat 1, .ofNat 1⟩

def several (id : FunctionId) (name : String) : Function :=
  ⟨id, name, .ofNat 1, .infinite false⟩

/-- The functions of both styles. -/
def functions : List Function :=
  [single .sin "sin", single .cos "cos", single .tan "tan",
   single .asin "asin", single .acos "acos", single .atan "atan",
   single .sinh "sinh", single .cosh "cosh", single .tanh "tanh",
   several .min "min", several .max "max", several .sum "sum", several .average "avg",
   single .ln "ln", single .log "log",
   single .round "round", single .ceil "ceil", single .floor "floor", single .abs "abs",
   ⟨.random, "random", .ofNat 0, .ofNat 0⟩]

/-- The constants of both styles. -/
def constants : List Constant := [⟨.pi, "pi"⟩, ⟨.e, "e"⟩]

def parentheses : Brackets := ⟨"(", ")"⟩

def separator : String := ","

def definition (style : Style) : Definition where
  operators := operators style
  functions := functions
  constants := constants
  functionBrackets := [parentheses]
  expressionBrackets := [parentheses]
  separator := separator

/-- The fixed texts of both styles. -/
def symbols : List Symbol :=
  [⟨"-", .operator⟩, ⟨"+", .operator⟩, ⟨"*", .operator⟩, ⟨"/", .operator⟩,
   ⟨"^", .operator⟩, ⟨"%", .operator⟩, ⟨"(", .opening⟩, ⟨")", .closing⟩,
   ⟨",", .separator⟩]

/-- Whether the checks of a definition end with the given symbols. -/
def yields (d : Definition) (symbols : List Symbol) : Bool :=
  match d.symbols? with
  | .ok s => s = symbols
  | .error _ => false

theorem eq_of_yields {d : Definition} {symbols : List Symbol} (h : yields d symbols = true) :
    d.symbols? = .ok symbols := by
  unfold yields at h
  split at h
  · next hs => rw [hs, of_decide_eq_true h]
  · cases h

theorem symbols?_definition (style : Style) : (definition style).symbols? = .ok symbols := by
  cases style <;> exact eq_of_yields (by decide +kernel)

def catalog (style : Style) : Catalog where
  toDefinition := definition style
  symbols := symbols
  consistent := symbols?_definition style

end Preset

end Reckoner
