/-
# What each token does

One function for each kind of token takes the state before the token to the
state behind it, or stops with a problem.  Whether an operator has one operand
or two is told by what stands before it: behind an operand it has two.

The name of a function is taken together with the bracket that follows it, so
a name looks one token ahead.
-/
import Reckoner.Catalog.Consistency
import Reckoner.Evaluation.State
import Reckoner.Text.LowerCase

namespace Reckoner

/-- Whether an operator on the pending list is applied before another one that
follows its right operand is put there. -/
def Operator.yieldsTo (top incoming : Operator) : Bool :=
  incoming.precedence.lt top.precedence ||
    (top.precedence.eq incoming.precedence && incoming.associativity = .left)

/-- The first name of the catalog that differs from a name in case only. -/
def Definition.findSimilar? (d : Definition) (name : String) : Option String :=
  (d.functions.map (·.name) ++ d.constants.map (·.name)).find? fun known =>
    Text.lowercase known = Text.lowercase name

namespace State

/-- Nothing may start an operand behind an operand. -/
def expectOperand (st : State) (token : Token) : Except Halt Unit :=
  if st.previous = .operand then st.work.haltAt (.behindOperand token.text) token
  else .ok ()

/-- A numeral is rounded to the precision. -/
def literal (n : Numerics) (st : State) (token : Token) : Except Halt State := do
  st.expectOperand token
  let value ← st.work.value n (Number.parse n.precision token.text) token.text token
  return { st with work := st.work.push value, previous := .operand }

/-- The brackets that open a call with this token. -/
def callBrackets? (c : Catalog) : Option Token → Option Brackets
  | some ⟨.symbol .opening, text, _, _⟩ => c.findFunctionBrackets? text
  | _ => none

/-- The name of a function opens a call, together with the bracket behind it. -/
def function (c : Catalog) (st : State) (f : Function) (token : Token) (next : Option Token) :
    Except Halt State :=
  match callBrackets? c next with
  | none => st.work.halt (.noArgumentList f.name c.functionBrackets.head?) token.stop 1
  | some brackets =>
    .ok { st with
      pending := .call f token brackets 0 st.work.operands.length :: st.pending
      previous := .opening }

/-- A name that is no function's is a constant's, or unknown. -/
def constant (c : Catalog) (n : Numerics) (st : State) (token : Token) : Except Halt State :=
  match c.findConstant? token.text with
  | some constant => do
    return { st with work := ← st.work.applyConstant n constant token, previous := .operand }
  | none => st.work.haltAt (.unknownName token.text (c.findSimilar? token.text)) token

/-- A name, with the token behind it; the second part of the result says
whether that token was used up. -/
def identifier (c : Catalog) (n : Numerics) (st : State) (token : Token) (next : Option Token) :
    Except Halt (State × Bool) := do
  st.expectOperand token
  match c.findFunction? token.text with
  | some f => return (← st.function c f token next, true)
  | none => return (← st.constant c n token, false)

/-- An operator behind an operand is binary; the operators before it that bind
their operands first are applied. -/
def operator (c : Catalog) (n : Numerics) (st : State) (token : Token) : Except Halt State :=
  if st.previous = .operand then
    match c.findOperator? token.text .binary with
    | none => st.work.haltAt (.notBinary token.text) token
    | some op => do
      let (work, pending) ← st.work.reduce n (·.yieldsTo op) st.pending
      return ⟨work, .operator op token :: pending, .operator⟩
  else
    match c.findOperator? token.text .unary with
    | none => st.work.haltAt (.noOperandBefore token.text) token
    | some op => .ok { st with pending := .operator op token :: st.pending, previous := .operator }

/-- An opening bracket that follows no name of a function opens a group. -/
def opening (c : Catalog) (st : State) (token : Token) : Except Halt State := do
  st.expectOperand token
  match c.findExpressionBrackets? token.text with
  | none => st.work.haltAt (.opensCallsOnly token.text) token
  | some brackets =>
    return { st with pending := .group brackets token :: st.pending, previous := .opening }

/-- A separator ends an argument of the innermost call. -/
def separator (n : Numerics) (st : State) (token : Token) : Except Halt State :=
  if st.previous = .operand then do
    let (work, pending) ← st.work.reduce n (fun _ => true) st.pending
    match pending with
    | .call f name brackets separators base :: rest =>
      return ⟨work, .call f name brackets (separators + 1) base :: rest, .separator⟩
    | _ => work.halt (.separatorOutsideCall token.text) token.start 1
  else st.work.halt (.noArgumentBefore token.text) token.start 1

def isAtEmptyCall (st : State) : Bool :=
  match st.previous, st.pending with
  | .opening, .call .. :: _ => true
  | _, _ => false

/-- Applies a function whose call is closed to the values above `base`. -/
def finishCall (n : Numerics) (w : Work) (f : Function) (name : Token) (base count : Nat) :
    Except Halt Work :=
  if w.operands.length ≠ base + count then w.halt (.outOfStep f.name) name.start 1
  else if f.admits count then w.applyFunction n f count name
  else w.haltAt (.argumentCount f count) name

/-- A closing bracket finishes the innermost group or call. -/
def closing (n : Numerics) (st : State) (token : Token) : Except Halt State :=
  if st.previous = .operand || st.isAtEmptyCall then do
    let (work, pending) ← st.work.reduce n (fun _ => true) st.pending
    match pending with
    | .call f name brackets separators base :: rest =>
      if brackets.closing = token.text then
        let count := if st.isAtEmptyCall then 0 else separators + 1
        return ⟨← finishCall n work f name base count, rest, .operand⟩
      else work.halt (.mismatched name.text token.text brackets.closing) token.start 1
    | .group brackets opener :: rest =>
      if brackets.closing = token.text then return ⟨work, rest, .operand⟩
      else work.halt (.mismatched opener.text token.text brackets.closing) token.start 1
    | _ => work.halt (.unmatched token.text) token.start 1
  else if st.previous = .opening then st.work.halt (.emptyBrackets token.text) token.start 1
  else st.work.halt (.noOperandBefore token.text) token.start 1

/-- A token, with the one behind it; the second part of the result says
whether that one was used up. -/
def handle (c : Catalog) (n : Numerics) (st : State) (token : Token) (next : Option Token) :
    Except Halt (State × Bool) :=
  match token.kind with
  | .literal => do return (← st.literal n token, false)
  | .identifier => st.identifier c n token next
  | .symbol .operator => do return (← st.operator c n token, false)
  | .symbol .opening => do return (← st.opening c token, false)
  | .symbol .closing => do return (← st.closing n token, false)
  | .symbol .separator => do return (← st.separator n token, false)
  | .other _ => .error ⟨⟨.unknownToken token, none⟩, st.work.steps⟩

end State

end Reckoner
