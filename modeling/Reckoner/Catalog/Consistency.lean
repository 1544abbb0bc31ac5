/-
# Consistent catalogs

A definition is consistent if every text can be recognised where it stands:
names are runs of letters and no two agree, symbols are free of letters,
digits, points and blanks, no text has two roles, no operator is declared
twice with one arity, and brackets of a pair differ.  Precedences are finite
and argument bounds are natural numbers, the upper one possibly infinite.

`Definition.symbols?` checks all of it, in the order in which the parts are
declared, and either names the first `Fault` or lists the fixed texts, the
longest first.  A `Catalog` is a definition that passed, with that list.
-/
import Reckoner.Catalog.Basic
import Reckoner.Text.Blank
import Reckoner.Text.Letter
import Reckoner.Text.Units

namespace Reckoner

/-- Why a definition is no catalog. -/
inductive Fault where
  /-- A precedence is infinite or no number. -/
  | precedence (symbol : String)
  /-- An operator is declared twice. -/
  | duplicateOperator (arity : Arity) (symbol : String)
  /-- A symbol is empty or holds a character that no symbol may hold. -/
  | symbol (text : String)
  /-- A text has two roles. -/
  | roles (text : String) (first second : Role)
  /-- A name is not a run of letters. -/
  | name (name : String)
  /-- The bounds on the number of arguments are not bounds. -/
  | bounds (f : Function)
  /-- A function is declared twice. -/
  | duplicateFunction (name : String)
  /-- A constant has the name of a function or of another constant. -/
  | taken (name : String)
  /-- The brackets of a pair are the same text. -/
  | sameBrackets (b : Brackets)
deriving DecidableEq, Repr

namespace Fault

def message (fault : Fault) : String :=
  "Decimath catalog: " ++ match fault with
  | precedence s => "operator \"" ++ s ++ "\" needs a finite precedence."
  | duplicateOperator .unary s => "duplicate unary operator \"" ++ s ++ "\"."
  | duplicateOperator .binary s => "duplicate binary operator \"" ++ s ++ "\"."
  | symbol s => "symbol \"" ++ s ++
      "\" must be non-empty and must not contain letters, digits, dots or whitespace."
  | roles s a b => "symbol \"" ++ s ++ "\" is used both as " ++ a.name ++ " and as " ++
      b.name ++ "."
  | name s => "\"" ++ s ++ "\" is not a valid name (letters only)."
  | bounds f => "function \"" ++ f.name ++ "\" has invalid argument bounds " ++
      f.least.text ++ ".." ++ f.most.text ++ "."
  | duplicateFunction s => "duplicate function \"" ++ s ++ "\"."
  | taken s => "name \"" ++ s ++ "\" is already taken."
  | sameBrackets b => "bracket pair \"" ++ b.opening ++ b.closing ++
      "\" needs distinct open and close symbols."

end Fault

def isSymbolText (s : String) : Bool :=
  s ≠ "" && s.toList.all fun c =>
    !Text.isLetter c && !isDigit c && !Text.isBlank c && c ≠ '.'

def isName (s : String) : Bool := s ≠ "" && s.toList.all Text.isLetter

namespace Function

/-- Whether the bounds are natural numbers in order, the upper one possibly
infinite. -/
def hasBounds (f : Function) : Bool :=
  f.least.isInteger && !f.least.lt (Binary64.ofNat 0)
    && (f.most.isInteger || f.most = .infinite false) && !f.most.lt f.least

end Function

/-- Adds a symbol to those claimed before, unless it has another role there. -/
def claim (claims : List Symbol) (text : String) (role : Role) : Except Fault (List Symbol) :=
  if !isSymbolText text then .error (.symbol text)
  else match claims.find? (·.text = text) with
    | some s => if s.role = role then .ok claims else .error (.roles text s.role role)
    | none => .ok (claims ++ [⟨text, role⟩])

namespace Definition

/-- Checks operators, given those already checked, and claims their symbols. -/
def checkOperators (seen : List Operator) (claims : List Symbol) :
    List Operator → Except Fault (List Symbol)
  | [] => .ok claims
  | op :: rest => do
    if !op.precedence.isFinite then throw (.precedence op.symbol)
    if seen.any fun o => o.symbol = op.symbol && o.arity = op.arity then
      throw (.duplicateOperator op.arity op.symbol)
    let claims ← claim claims op.symbol .operator
    checkOperators (op :: seen) claims rest

/-- Checks functions, given the names of those already checked. -/
def checkFunctions (seen : List String) : List Function → Except Fault (List String)
  | [] => .ok seen
  | f :: rest => do
    if !isName f.name then throw (.name f.name)
    if !f.hasBounds then throw (.bounds f)
    if seen.contains f.name then throw (.duplicateFunction f.name)
    checkFunctions (f.name :: seen) rest

/-- Checks constants, given the names already taken. -/
def checkConstants (taken : List String) : List Constant → Except Fault Unit
  | [] => .ok ()
  | c :: rest => do
    if !isName c.name then throw (.name c.name)
    if taken.contains c.name then throw (.taken c.name)
    checkConstants (c.name :: taken) rest

/-- Checks brackets and claims their texts. -/
def checkBrackets (claims : List Symbol) : List Brackets → Except Fault (List Symbol)
  | [] => .ok claims
  | b :: rest => do
    if b.opening = b.closing then throw (.sameBrackets b)
    let claims ← claim claims b.opening .opening
    let claims ← claim claims b.closing .closing
    checkBrackets claims rest

/-- The fixed texts in the order in which they are first claimed, or the
first fault. -/
def claims? (d : Definition) : Except Fault (List Symbol) := do
  let claims ← checkOperators [] [] d.operators
  let names ← checkFunctions [] d.functions
  checkConstants names d.constants
  let claims ← checkBrackets claims (d.functionBrackets ++ d.expressionBrackets)
  claim claims d.separator .separator

end Definition

namespace Symbol

/-- Puts a symbol behind those at least as long and before the shorter ones. -/
def insertByLength (s : Symbol) : List Symbol → List Symbol
  | [] => [s]
  | t :: rest =>
    if Text.units t.text < Text.units s.text then s :: t :: rest
    else t :: insertByLength s rest

/-- The symbols with the longest first, those of one length in their order. -/
def longestFirst (symbols : List Symbol) : List Symbol :=
  symbols.foldl (fun sorted s => insertByLength s sorted) []

end Symbol

/-- The fixed texts of a definition, the longest first, or the first fault. -/
def Definition.symbols? (d : Definition) : Except Fault (List Symbol) :=
  d.claims?.map Symbol.longestFirst

/-- A definition without faults. -/
structure Catalog extends Definition where
  /-- The fixed texts, the longest first. -/
  symbols : List Symbol
  consistent : toDefinition.symbols? = .ok symbols

/-- The catalog of a definition, or the first fault. -/
def Catalog.ofDefinition (d : Definition) : Except Fault Catalog :=
  match h : d.symbols? with
  | .ok symbols => .ok { toDefinition := d, symbols := symbols, consistent := h }
  | .error fault => .error fault

end Reckoner
