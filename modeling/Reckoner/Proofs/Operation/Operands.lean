/-
# Primitives with the operands they need

A primitive that is handed too few operands says so.  Here it is shown that
nothing else makes it say so: an operator with as many operands as its arity,
and a function with an argument, may fail for many reasons, but not for want
of operands.
-/
import Reckoner.Operation
import Reckoner.Proofs.Catalog.Derived
import Reckoner.Proofs.Sequencing

namespace Reckoner

/-- Whether a reason is a want of operands. -/
def Reason.lacksOperands : Reason → Bool
  | .noArguments | .missingArgument | .missingSecond | .operandCount _ _ => true
  | _ => false

/-- Whether an outcome is no failure for want of operands. -/
def Outcome.Supplied (outcome : Outcome) : Prop :=
  ∀ reason, outcome = .error reason → reason.lacksOperands = false

namespace Outcome

theorem supplied_ok (x : Number) : Supplied (.ok x) := nofun

theorem supplied_error {reason : Reason} (h : reason.lacksOperands = false) :
    Supplied (.error reason) := by
  intro _ he
  cases he
  exact h

theorem supplied_ofFinite (doing : String) (x : Number) : (ofFinite doing x).Supplied := by
  cases x with
  | finite => exact supplied_ok _
  | infinite | nan => exact supplied_error rfl

theorem supplied_ofLimited (doing : String) (x : Option Number) :
    (ofLimited doing x).Supplied := by
  cases x with
  | none => exact supplied_error rfl
  | some x => exact supplied_ofFinite doing x

theorem supplied_ite {p : Prop} [Decidable p] {a b : Outcome} (ha : a.Supplied)
    (hb : b.Supplied) : Supplied (if p then a else b) := by
  split
  · exact ha
  · exact hb

end Outcome

open Outcome

theorem Number.supplied_parse (p : Nat) (text : String) : (Number.parse p text).Supplied := by
  unfold Number.parse
  split
  · exact supplied_error rfl
  · exact supplied_ofFinite _ _

theorem OperatorId.supplied_applyTwo (p : Nat) (id : OperatorId) (a b : Number) :
    (id.applyTwo p a b).Supplied := by
  cases id with
  | negate => exact supplied_ok _
  | add | subtract | multiply => exact supplied_ofFinite _ _
  | divide | modulo => exact supplied_ite (supplied_error rfl) (supplied_ofFinite _ _)
  | power =>
      exact supplied_ite (supplied_error rfl)
        (supplied_ite (supplied_error rfl) (supplied_ofLimited _ _))
  | other => exact supplied_error rfl

theorem Operator.supplied_apply {op : Operator} (hop : op.Supplied) {xs : List Number}
    (hx : xs.length = op.arity.count) (p : Nat) : (op.apply p xs).Supplied := by
  obtain ⟨id, symbol, arity, associativity, precedence⟩ := op
  cases arity with
  | unary =>
      obtain ⟨a, rfl⟩ := List.length_eq_one_iff.mp hx
      cases hop rfl
      exact supplied_ok _
  | binary =>
      match xs, hx with
      | [a, b], _ => exact OperatorId.supplied_applyTwo p id a b

namespace FunctionId

theorem supplied_best (better : Number → Number → Bool) (x : Number) (xs : List Number) :
    (best better (x :: xs)).Supplied :=
  supplied_ok _

theorem supplied_apply_cons (p : Nat) (draw : Decimal) (id : FunctionId) (x : Number)
    (xs : List Number) : (id.apply p draw (x :: xs)).Supplied := by
  cases id with
  | abs | ceil | floor | round => exact supplied_ok _
  | sin | cos | tan => exact supplied_ofLimited _ _
  | asin | acos | ln | log => exact supplied_ite (supplied_error rfl) (supplied_ofLimited _ _)
  | atan | sinh | cosh | tanh => exact supplied_ofFinite _ _
  | min | max => exact supplied_best _ _ _
  | sum | average => exact supplied_ofFinite _ _
  | random => exact supplied_ok _
  | other => exact supplied_error rfl

end FunctionId

/-- A function whose least number of arguments is one admits no empty list. -/
theorem Function.not_admits_zero {f : Function} (h : f.least = .ofNat 1) :
    f.admits 0 = false := by
  have hlt : (Number.ofNat 0).lt (Binary64.ofNat 1).toNumber = true := by decide +kernel
  simp only [Function.admits, h, hlt, Bool.not_true, Bool.false_and]

theorem Function.supplied_apply {f : Function} (hf : f.Supplied) {xs : List Number}
    (hx : f.admits xs.length = true) (p : Nat) (draw : Decimal) :
    (f.id.apply p draw xs).Supplied := by
  rcases hf with hr | hl
  · rw [hr]
    exact supplied_ok _
  · cases xs with
    | nil =>
        rw [List.length_nil, Function.not_admits_zero hl] at hx
        cases hx
    | cons x xs => exact FunctionId.supplied_apply_cons p draw f.id x xs

end Reckoner
