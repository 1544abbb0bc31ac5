/-
# Applications

Operators, functions and constants are all applied by `Work.perform`: it takes
a number of values, from left to right, and puts the one value that comes out
in their place, with a step on record.  The first lemmas say exactly when one
kind of application gives a value, and what it leaves:

    what                 takes            needs
    operator             its arity        as many values
    constant             nothing          nothing
    function             its arguments    that all values above the base are
                                          its arguments, and that it admits
                                          so many

`Moment.Asks` says at which moments something is applied, and to what, whether
or not a value comes out.  It does not say that the operands are as many as
they should be: that is a property of evaluations, not of its definition.  A
move puts a step on record exactly when something is applied (`Moves.steps`).
-/
import Reckoner.Proofs.Evaluation.Moment

namespace Reckoner

namespace Work

/-- The work behind an application with a given result. -/
def performed (w : Work) (applied : Applied) (count : Nat) (x : Number) (token : Token) : Work :=
  { operands := x :: w.operands.drop count
    steps := ⟨applied, (w.operands.take count).reverse, x, token.start⟩ :: w.steps }

variable {n : Numerics} {w w' : Work}

theorem perform_eq_ok {applied : Applied} {count : Nat} {run : List Number → Outcome}
    {subject : String} {token : Token} :
    w.perform n applied count run subject token = .ok w' ↔
      ∃ x, run (w.operands.take count).reverse = .ok x ∧
        w' = w.performed applied count x token := by
  simp only [perform, bind_eq_ok, value_eq_ok, pure_eq_ok, Except.ok.injEq, performed]
  constructor
  · rintro ⟨x, hx, rfl⟩
    exact ⟨x, hx, rfl⟩
  · rintro ⟨x, hx, rfl⟩
    exact ⟨x, hx, rfl⟩

theorem applyOperator_eq_ok {op : Operator} {token : Token} :
    w.applyOperator n op token = .ok w' ↔
      op.arity.count ≤ w.operands.length ∧
        ∃ x, op.apply n.precision (w.operands.take op.arity.count).reverse = .ok x ∧
          w' = w.performed (.operator op) op.arity.count x token := by
  unfold applyOperator
  split
  · next h => exact ⟨fun h' => (nomatch h'), fun h' => absurd h'.1 (Nat.not_le.mpr h)⟩
  · next h =>
      rw [perform_eq_ok]
      exact ⟨fun h' => ⟨Nat.not_lt.mp h, h'⟩, fun h' => h'.2⟩

theorem applyConstant_eq_ok {k : Constant} {token : Token} :
    w.applyConstant n k token = .ok w' ↔
      ∃ x, k.id.value n.precision = .ok x ∧ w' = w.performed (.constant k) 0 x token :=
  perform_eq_ok

theorem applyFunction_eq_ok {f : Function} {count : Nat} {token : Token} :
    w.applyFunction n f count token = .ok w' ↔
      ∃ x, f.id.apply n.precision (n.draws w.steps.length) (w.operands.take count).reverse =
          .ok x ∧
        w' = w.performed (.function f) count x token :=
  perform_eq_ok

end Work

theorem State.finishCall_eq_ok {n : Numerics} {w w' : Work} {f : Function} {name : Token}
    {base count : Nat} :
    State.finishCall n w f name base count = .ok w' ↔
      w.operands.length = base + count ∧ f.admits count = true ∧
        w.applyFunction n f count name = .ok w' := by
  unfold State.finishCall
  split
  · next h => exact ⟨fun h' => (nomatch h'), fun h' => absurd h'.1 h⟩
  · next h =>
      split
      · next ha => exact ⟨fun h' => ⟨Decidable.not_not.mp h, ha, h'⟩, fun h' => h'.2.2⟩
      · next ha => exact ⟨fun h' => (nomatch h'), fun h' => absurd h'.2.1 ha⟩

/-! ## When something is applied -/

/-- What comes of an application; `draw` is the number that `random` gives. -/
def Applied.outcome (p : Nat) (draw : Decimal) : Applied → List Number → Outcome
  | .operator op, xs => op.apply p xs
  | .function f, xs => f.id.apply p draw xs
  | .constant k, _ => k.id.value p

/-- How something that is applied is written. -/
def Applied.surface : Applied → String
  | .operator op => op.symbol
  | .function f => f.name
  | .constant k => k.name

/-- Whether something is applied to as many operands as it takes. -/
def Applied.Accepts : Applied → List Number → Prop
  | .operator op, xs => xs.length = op.arity.count
  | .function f, xs => f.admits xs.length = true
  | .constant _, xs => xs = []

/-- `m.Asks c a xs`: at the moment `m` it is `a` that is applied, and to `xs`.
A call hands over all the values above its base. -/
inductive Moment.Asks (c : Catalog) : Moment → Applied → List Number → Prop
  | operator {w : Work} {op : Operator} {token : Token} {pending : List Pending}
      {ts : List Token} :
      op.isDue c ts = true →
      Asks c ⟨⟨w, .operator op token :: pending, .operand⟩, ts⟩ (.operator op)
        (w.operands.take op.arity.count).reverse
  | constant {w : Work} {pending : List Pending} {previous : Previous} {token : Token}
      {ts : List Token} {k : Constant} :
      token.kind = .identifier → previous ≠ .operand → c.findConstant? token.text = some k →
      Asks c ⟨⟨w, pending, previous⟩, token :: ts⟩ (.constant k) []
  | call {w : Work} {f : Function} {name token : Token} {b : Brackets} {separators base : Nat}
      {pending : List Pending} {ts : List Token} :
      token.kind = .symbol .closing → b.closing = token.text →
      f.admits (separators + 1) = true →
      Asks c ⟨⟨w, .call f name b separators base :: pending, .operand⟩, token :: ts⟩ (.function f)
        (w.operands.take (w.operands.length - base)).reverse
  | emptyCall {w : Work} {f : Function} {name token : Token} {b : Brackets}
      {separators base : Nat} {pending : List Pending} {ts : List Token} :
      token.kind = .symbol .closing → b.closing = token.text → f.admits 0 = true →
      Asks c ⟨⟨w, .call f name b separators base :: pending, .opening⟩, token :: ts⟩ (.function f)
        (w.operands.take (w.operands.length - base)).reverse

section

variable {c : Catalog} {n : Numerics}

/-- A move records the application that the moment asks for, and nothing else. -/
theorem Moves.steps {m m' : Moment} (h : Moves c n m m') :
    m'.state.work.steps = m.state.work.steps ∨
      ∃ a xs x index, m.Asks c a xs ∧
        a.outcome n.precision (n.draws m.state.work.steps.length) xs = .ok x ∧
        m'.state.work.steps = ⟨a, xs, x, index⟩ :: m.state.work.steps := by
  cases h with
  | apply hd hw =>
      obtain ⟨_, x, hx, rfl⟩ := Work.applyOperator_eq_ok.mp hw
      exact Or.inr ⟨_, _, x, _, .operator hd, hx, rfl⟩
  | constant hk hp _ hc hw =>
      obtain ⟨x, hx, rfl⟩ := Work.applyConstant_eq_ok.mp hw
      exact Or.inr ⟨_, [], x, _, .constant hk hp hc, hx, rfl⟩
  | @closeCall w _ _ _ _ _ f b separators base hk hb hw =>
      obtain ⟨hl, ha, hw⟩ := State.finishCall_eq_ok.mp hw
      obtain ⟨x, hx, rfl⟩ := Work.applyFunction_eq_ok.mp hw
      have hc : separators + 1 = w.operands.length - base := by omega
      rw [hc] at hx ⊢
      exact Or.inr ⟨_, _, x, _, .call hk hb ha, hx, rfl⟩
  | @closeEmptyCall w _ _ _ _ _ f b separators base hk hb hw =>
      obtain ⟨hl, ha, hw⟩ := State.finishCall_eq_ok.mp hw
      obtain ⟨x, hx, rfl⟩ := Work.applyFunction_eq_ok.mp hw
      have hc : 0 = w.operands.length - base := by omega
      rw [hc] at hx ⊢
      exact Or.inr ⟨_, _, x, _, .emptyCall hk hb ha, hx, rfl⟩
  | literal | function | unary | binary | group | separator | closeGroup => exact Or.inl rfl

end

end Reckoner
