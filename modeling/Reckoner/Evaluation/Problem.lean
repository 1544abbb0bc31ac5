/-
# What can be wrong with a sequence of tokens

A `Problem` is a cause and the place it is about.  Causes name what was met
and what was missing; the words for them are in `Cause.message`, and
`Problem.failure` turns a problem into the failure that a caller sees.
-/
import Reckoner.Catalog.Basic
import Reckoner.Failure
import Reckoner.Outcome
import Reckoner.Token.Basic

namespace Reckoner

/-- Why tokens have no value. -/
inductive Cause where
  /-- A character that no token starts with. -/
  | stray (char : Char)
  /-- The source has more units than the engine accepts. -/
  | tooLong (limit : Nat)
  /-- Something that starts an operand stands behind an operand. -/
  | behindOperand (text : String)
  /-- The name of a function without brackets; `call` is one way to write them. -/
  | noArgumentList (name : String) (call : Option Brackets)
  /-- A name that the catalog does not have; `similar` differs from it in case only. -/
  | unknownName (name : String) (similar : Option String)
  /-- A symbol behind an operand that is no binary operator. -/
  | notBinary (symbol : String)
  /-- An operator or a closing bracket where an operand should stand. -/
  | noOperandBefore (text : String)
  /-- An opening bracket that may only follow the name of a function. -/
  | opensCallsOnly (text : String)
  /-- A separator where an argument should stand. -/
  | noArgumentBefore (text : String)
  /-- A separator that stands in no call. -/
  | separatorOutsideCall (text : String)
  /-- Brackets with nothing between them. -/
  | emptyBrackets (text : String)
  /-- A closing bracket that nothing opens. -/
  | unmatched (text : String)
  /-- A bracket closed by another than its own. -/
  | mismatched (opener closer expected : String)
  /-- No token at all. -/
  | emptyExpression
  /-- The end where an operand should stand. -/
  | unexpectedEnd
  /-- The end where a bracket should be closed. -/
  | unclosed (opening : String)
  /-- An operator without enough operands. -/
  | noOperandFor (symbol : String)
  /-- A call whose operands are not the arguments counted. -/
  | outOfStep (name : String)
  /-- Not exactly one value at the end. -/
  | notSingle (count : Nat)
  /-- A number of arguments that a function does not admit. -/
  | argumentCount (f : Function) (count : Nat)
  /-- A literal, operator, function or constant without a value. -/
  | noValue (subject : String) (precision : Nat) (reason : Reason)
  /-- A token of an unknown kind. -/
  | unknownToken (token : Token)
deriving DecidableEq, Repr

namespace Cause

def argumentsInWords (n : Binary64) : String :=
  n.text ++ (if n.eq (Binary64.ofNat 1) then " argument" else " arguments")

/-- The bounds on the number of arguments in words. -/
def boundsInWords (f : Function) : String :=
  if f.least.eq f.most then argumentsInWords f.least
  else if f.most = .infinite false then "at least " ++ argumentsInWords f.least
  else f.least.text ++ " to " ++ argumentsInWords f.most

def message : Cause → String
  | stray c => "unexpected character \"" ++ String.singleton c ++ "\""
  | tooLong n => "expression is longer than " ++ (Binary64.ofNat n).text ++ " characters"
  | behindOperand s => "unexpected \"" ++ s ++ "\" after an operand"
  | noArgumentList s _ => "function \"" ++ s ++ "\" must be followed by an argument list"
  | unknownName s _ => "unknown identifier \"" ++ s ++ "\""
  | notBinary s => "\"" ++ s ++ "\" cannot be used as a binary operator"
  | noOperandBefore s => "missing operand before \"" ++ s ++ "\""
  | opensCallsOnly s => "\"" ++ s ++ "\" can only open a function argument list"
  | noArgumentBefore s => "missing argument before \"" ++ s ++ "\""
  | separatorOutsideCall s => "argument separator \"" ++ s ++ "\" outside of a function call"
  | emptyBrackets s => "empty brackets before \"" ++ s ++ "\""
  | unmatched s => "unmatched \"" ++ s ++ "\""
  | mismatched opener closer expected =>
    "\"" ++ opener ++ "\" is closed by \"" ++ closer ++ "\", expected \"" ++ expected ++ "\""
  | emptyExpression => "empty expression"
  | unexpectedEnd => "unexpected end of expression"
  | unclosed s => "unclosed \"" ++ s ++ "\""
  | noOperandFor s => "missing operand for \"" ++ s ++ "\""
  | outOfStep s => "argument bookkeeping for \"" ++ s ++ "\" is out of sync"
  | notSingle n => "expected a single result, found " ++ toString n
  | argumentCount f n =>
    f.name ++ "() expects " ++ boundsInWords f ++ ", got " ++ toString n
  | noValue s p reason =>
    if reason.isLimit then
      "\"" ++ s ++ "\" cannot be computed at " ++ toString p ++ " significant digits"
    else "invalid operand for \"" ++ s ++ "\": " ++ reason.message
  | unknownToken t => "unsupported token " ++ t.describe

/-- The advice that goes with a cause. -/
def note : Cause → Option String
  | noArgumentList s (some b) => some ("write " ++ s ++ b.opening ++ "x" ++ b.closing)
  | unknownName _ (some s) =>
    some ("names are case-sensitive; did you mean \"" ++ s ++ "\"?")
  | _ => none

def category : Cause → Category
  | stray c => .lexical (String.singleton c)
  | outOfStep _ | notSingle _ | unknownToken _ => .internal
  | argumentCount f n => .arity f.name f.least f.most (Binary64.ofNat n)
  | noValue s p reason =>
    if reason.isLimit then .precision s (Binary64.ofNat p) else .operand s
  | _ => .structural

/-- Whether a cause stems from a failure further inside. -/
def hasCause : Cause → Bool
  | noValue _ _ reason => reason.hasCause
  | _ => false

end Cause

/-- A part of a source. -/
structure Place where
  /-- The offset at which it starts. -/
  start : Int
  /-- Its number of units, or one for a mere offset. -/
  length : Nat
deriving DecidableEq, Repr

/-- A cause and the place it is about, if it is about one. -/
structure Problem where
  cause : Cause
  /-- Where it is wrong. -/
  place : Option Place
deriving DecidableEq, Repr

/-- The failure that a problem with the tokens of a source is. -/
def Problem.failure (source : String) (p : Problem) : Failure :=
  Failure.make p.cause.category
    { message := p.cause.message
      source := p.place.map fun _ => source
      index := p.place.map fun place => .units place.start
      length := p.place.map fun place => .units place.length
      note := p.cause.note
      hasCause := p.cause.hasCause }

end Reckoner
