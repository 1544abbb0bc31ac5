/-
# The shape of an expression

Which tokens are an expression at all, whatever their operators bind, however
many arguments their functions admit and whatever numbers they come to:

    expression   operand, chain
    chain        nothing
                 | binary operator, expression
    operand      numeral | constant
                 | unary operator, operand
                 | bracket, expression, its closing bracket
                 | function, bracket, arguments
                 | function, bracket, its closing bracket
    arguments    expression, the closing bracket
                 | expression, separator, arguments

`Derives c part ts rest` says that the part may stand at the front of `ts`
with `rest` behind it, and `Catalog.IsExpression` that nothing is behind it.
In contrast to `Reads`, how far a chain reaches is left open.
-/
import Reckoner.Proofs.Grammar.Reading

namespace Reckoner

/-- A part of an expression, without what it is made of. -/
inductive Part where
  | expression
  /-- What may follow an operand. -/
  | chain
  | operand
  /-- The arguments of a call, with the bracket that closes it. -/
  | arguments (b : Brackets)

/-- `Derives c part ts rest`: the part may stand at the front of `ts`, with
`rest` behind it. -/
inductive Derives (c : Catalog) : Part → List Token → List Token → Prop
  | expression {ts mid rest : List Token} :
      Derives c .operand ts mid → Derives c .chain mid rest → Derives c .expression ts rest
  | stop {ts : List Token} : Derives c .chain ts ts
  | extend {op : Operator} {token : Token} {ts rest : List Token} :
      c.infix? (token :: ts) = some op → Derives c .expression ts rest →
      Derives c .chain (token :: ts) rest
  | literal {token : Token} {ts : List Token} :
      token.kind = .literal → Derives c .operand (token :: ts) ts
  | constant {k : Constant} {token : Token} {ts : List Token} :
      token.kind = .identifier → c.findConstant? token.text = some k →
      Derives c .operand (token :: ts) ts
  | unary {u : Operator} {token : Token} {ts rest : List Token} :
      token.kind = .symbol .operator → c.findOperator? token.text .unary = some u →
      Derives c .operand ts rest → Derives c .operand (token :: ts) rest
  | group {b : Brackets} {token close : Token} {ts rest : List Token} :
      token.kind = .symbol .opening → c.findExpressionBrackets? token.text = some b →
      Derives c .expression ts (close :: rest) →
      close.kind = .symbol .closing → b.closing = close.text →
      Derives c .operand (token :: ts) rest
  | call {f : Function} {b : Brackets} {token next : Token} {ts rest : List Token} :
      token.kind = .identifier → c.findFunction? token.text = some f →
      next.kind = .symbol .opening → c.findFunctionBrackets? next.text = some b →
      Derives c (.arguments b) ts rest → Derives c .operand (token :: next :: ts) rest
  | emptyCall {f : Function} {b : Brackets} {token next close : Token} {rest : List Token} :
      token.kind = .identifier → c.findFunction? token.text = some f →
      next.kind = .symbol .opening → c.findFunctionBrackets? next.text = some b →
      close.kind = .symbol .closing → b.closing = close.text →
      Derives c .operand (token :: next :: close :: rest) rest
  | last {b : Brackets} {close : Token} {ts rest : List Token} :
      Derives c .expression ts (close :: rest) →
      close.kind = .symbol .closing → b.closing = close.text →
      Derives c (.arguments b) ts rest
  | more {b : Brackets} {separator : Token} {ts mid rest : List Token} :
      Derives c .expression ts (separator :: mid) →
      separator.kind = .symbol .separator → Derives c (.arguments b) mid rest →
      Derives c (.arguments b) ts rest

/-- Whether tokens have the shape of an expression. -/
def Catalog.IsExpression (c : Catalog) (tokens : List Token) : Prop :=
  Derives c .expression tokens []

end Reckoner
