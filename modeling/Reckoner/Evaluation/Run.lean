/-
# Evaluating a sequence of tokens

An evaluation handles the tokens in order and then finishes: the operators
that still wait are applied, nothing may be left open, and exactly one value
remains.

Each token is handled only after the one behind it has been read, so a
character that starts no token stops an evaluation before the token in front
of it is handled.
-/
import Reckoner.Evaluation.Transition
import Reckoner.Token.Lexer

namespace Reckoner

/-- What came of evaluating tokens. -/
structure Evaluation where
  /-- What was applied, in order, also before a problem. -/
  steps : List Step
  /-- The value, or what is wrong. -/
  result : Except Problem Number
deriving Repr

/-- The problem of a character that no token starts with. -/
def Stray.problem (s : Stray) : Problem :=
  ⟨.stray s.char, some ⟨s.offset, Text.charUnits s.char⟩⟩

namespace State

/-- Where the bracket that a pending entry waits for would be missed. -/
def unclosedAt : Pending → Option (String × Int)
  | .operator _ _ => none
  | .call _ token brackets _ _ => some (brackets.opening, token.stop)
  | .group brackets token => some (brackets.opening, token.start)

/-- The value behind the last token of a source of `width` units. -/
def finish (n : Numerics) (width : Nat) (st : State) : Except Halt (Number × Work) :=
  match st.previous with
  | .start => st.work.halt .emptyExpression 0 1
  | .operand => do
    let (work, pending) ← st.work.reduce n (fun _ => true) st.pending
    match pending.head?.bind unclosedAt with
    | some (opening, start) => work.halt (.unclosed opening) start 1
    | none =>
      match work.operands with
      | [x] => return (x, work)
      | operands => work.halt (.notSingle operands.length) 0 1
  | _ => st.work.halt .unexpectedEnd width 1

/-- Stops at a character that no token starts with. -/
def haltAtStray {α : Type} (st : State) (s : Stray) : Except Halt α :=
  .error ⟨s.problem, st.work.steps⟩

/-- Handles the tokens in order and finishes. -/
def run (c : Catalog) (n : Numerics) (width : Nat) (stray : Option Stray) :
    State → List Token → Except Halt (Number × Work)
  | st, [] =>
    match stray with
    | some s => st.haltAtStray s
    | none => st.finish n width
  | st, [token] =>
    match stray with
    | some s => st.haltAtStray s
    | none => do (← st.handle c n token none).1.finish n width
  | st, token :: next :: rest => do
    match ← st.handle c n token (some next) with
    | (st, true) => run c n width stray st rest
    | (st, false) => run c n width stray st (next :: rest)

end State

namespace Evaluation

/-- Evaluates what was lexed from a source of `width` units. -/
def ofLexing (c : Catalog) (n : Numerics) (width : Nat) (lexing : Lexing) : Evaluation :=
  match State.initial.run c n width lexing.stray lexing.tokens with
  | .ok (x, work) => ⟨work.steps.reverse, .ok x⟩
  | .error halt => ⟨halt.steps.reverse, .error halt.problem⟩

/-- Evaluates tokens that need not come from a source. -/
def ofTokens (c : Catalog) (n : Numerics) (width : Nat) (tokens : List Token) : Evaluation :=
  ofLexing c n width ⟨tokens, none⟩

def ofSource (c : Catalog) (n : Numerics) (source : String) : Evaluation :=
  ofLexing c n (Text.units source) (c.lex source)

end Evaluation

end Reckoner
