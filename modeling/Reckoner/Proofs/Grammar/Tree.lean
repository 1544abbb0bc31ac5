/-
# Syntax trees and their values

A `Tree` is an expression whose structure has been read: which operator has
which operands, and which call has which arguments.  Brackets of groups leave
no trace in it.

`Tree.eval` is the value of a tree by recursion on the tree: first the
operands from left to right, then what they are the operands of.  It threads
the steps made so far, the latest in front, which is all that `random` looks
at besides its arguments.
-/
import Reckoner.Evaluation.State
import Reckoner.Proofs.Sequencing

namespace Reckoner

/-- An expression as a tree; every node keeps the token that it stands for. -/
inductive Tree where
  | literal (token : Token)
  | constant (k : Constant) (token : Token)
  | unary (op : Operator) (token : Token) (operand : Tree)
  | binary (op : Operator) (token : Token) (left right : Tree)
  | call (f : Function) (token : Token) (arguments : List Tree)

/-- What was applied gave a value: the value, with a step in front of those
made before. -/
def record (applied : Applied) (operands : List Number) (token : Token) (steps : List Step)
    (outcome : Outcome) : Except Reason (Number × List Step) :=
  outcome.map fun x => (x, ⟨applied, operands, x, token.start⟩ :: steps)

theorem record_eq_ok {applied : Applied} {operands : List Number} {token : Token}
    {steps : List Step} {outcome : Outcome} {r : Number × List Step} :
    record applied operands token steps outcome = .ok r ↔
      ∃ x, outcome = .ok x ∧ r = (x, ⟨applied, operands, x, token.start⟩ :: steps) := by
  cases outcome with
  | error e => exact ⟨fun h => (nomatch h), fun ⟨_, h, _⟩ => (nomatch h)⟩
  | ok x =>
      constructor
      · intro h
        cases h
        exact ⟨x, rfl, rfl⟩
      · rintro ⟨_, h, rfl⟩
        cases h
        rfl

namespace Tree

mutual

/-- The value of a tree and the steps behind it, given the steps before. -/
def eval (n : Numerics) : Tree → List Step → Except Reason (Number × List Step)
  | .literal token, steps => do return (← Number.parse n.precision token.text, steps)
  | .constant k token, steps => record (.constant k) [] token steps (k.id.value n.precision)
  | .unary op token t, steps => do
    let (x, steps) ← t.eval n steps
    record (.operator op) [x] token steps (op.apply n.precision [x])
  | .binary op token l r, steps => do
    let (x, steps) ← l.eval n steps
    let (y, steps) ← r.eval n steps
    record (.operator op) [x, y] token steps (op.apply n.precision [x, y])
  | .call f token ts, steps => do
    let (xs, steps) ← evalAll n ts steps
    record (.function f) xs token steps (f.id.apply n.precision (n.draws steps.length) xs)

/-- The values of trees from left to right. -/
def evalAll (n : Numerics) : List Tree → List Step → Except Reason (List Number × List Step)
  | [], steps => .ok ([], steps)
  | t :: ts, steps => do
    let (x, steps) ← t.eval n steps
    let (xs, steps) ← evalAll n ts steps
    return (x :: xs, steps)

end

variable {n : Numerics}

theorem length_of_evalAll {ts : List Tree} {steps steps' : List Step} {xs : List Number}
    (h : evalAll n ts steps = .ok (xs, steps')) : xs.length = ts.length := by
  induction ts generalizing steps steps' xs with
  | nil =>
      cases h
      rfl
  | cons t ts ih =>
      simp only [evalAll, bind_eq_ok, pure_eq_ok, Except.ok.injEq, Prod.mk.injEq] at h
      obtain ⟨⟨x, s⟩, -, ⟨ys, s'⟩, hys, rfl, -⟩ := h
      simp only [List.length_cons, ih hys]

end Tree

end Reckoner
