/-
# What holds of all numbers of an evaluation

An evaluation makes numbers in two ways only: it reads numerals, and it applies
operators, functions and constants.  Everything else carries numbers around.  So a
property that numerals have when they are read, and that results have if the operands
do (`Numerics.Keeps`), is a property of every number that an evaluation holds, hands
to a primitive, reports or gives back.
-/
import Reckoner.Proofs.Evaluation.Halting
import Reckoner.Proofs.Operation.Digits

namespace Reckoner

/-- A step whose operands and result have a property. -/
structure Step.All (P : Number → Prop) (step : Step) : Prop where
  operands : ∀ x ∈ step.operands, P x
  result : P step.result

/-- Values and steps of which all numbers have a property. -/
structure Work.All (P : Number → Prop) (w : Work) : Prop where
  /-- The values. -/
  operands : ∀ x ∈ w.operands, P x
  /-- The steps. -/
  steps : ∀ step ∈ w.steps, step.All P

/-- `n.Keeps P`: what is read or applied has the property `P`, if what it is applied
to does. -/
structure Numerics.Keeps (n : Numerics) (P : Number → Prop) : Prop where
  literal : ∀ text, (Number.parse n.precision text).All P
  applied : ∀ (a : Applied) (k : Nat) {xs : List Number}, (∀ x ∈ xs, P x) →
    (a.outcome n.precision (n.draws k) xs).All P

variable {P : Number → Prop}

namespace Work

variable {w : Work}

theorem all_initial : State.initial.work.All P := ⟨List.forall_mem_nil _, List.forall_mem_nil _⟩

theorem All.push (h : w.All P) {x : Number} (hx : P x) : (w.push x).All P :=
  ⟨List.forall_mem_cons.mpr ⟨hx, h.operands⟩, h.steps⟩

theorem All.take (h : w.All P) (count : Nat) : ∀ x ∈ (w.operands.take count).reverse, P x :=
  fun x hx => h.operands x (List.mem_of_mem_take (List.mem_reverse.mp hx))

theorem All.performed (h : w.All P) (applied : Applied) (count : Nat) {x : Number} (hx : P x)
    (token : Token) : (w.performed applied count x token).All P where
  operands := List.forall_mem_cons.mpr ⟨hx, fun y hy => h.operands y (List.mem_of_mem_drop hy)⟩
  steps := List.forall_mem_cons.mpr ⟨⟨h.take count, hx⟩, h.steps⟩

end Work

variable {c : Catalog} {n : Numerics}

namespace Numerics.Keeps

theorem finishCall (hn : n.Keeps P) {w w' : Work} {f : Function} {name : Token}
    {base count : Nat} (hw : w.All P) (h : State.finishCall n w f name base count = .ok w') :
    w'.All P := by
  obtain ⟨-, -, h⟩ := State.finishCall_eq_ok.mp h
  obtain ⟨x, hx, rfl⟩ := Work.applyFunction_eq_ok.mp h
  exact hw.performed _ _ (hn.applied (.function f) _ (hw.take count) x hx) name

theorem moves (hn : n.Keeps P) {m m' : Moment} (h : Moves c n m m') (hm : m.state.work.All P) :
    m'.state.work.All P := by
  cases h with
  | apply _ hw =>
      obtain ⟨-, x, hx, rfl⟩ := Work.applyOperator_eq_ok.mp hw
      exact hm.performed _ _ (hn.applied (.operator _) 0 (hm.take _) x hx) _
  | literal _ _ hx => exact hm.push (hn.literal _ _ hx)
  | constant _ _ _ _ hw =>
      obtain ⟨x, hx, rfl⟩ := Work.applyConstant_eq_ok.mp hw
      exact hm.performed _ _ (hn.applied (.constant _) 0 (hm.take 0) x hx) _
  | closeCall _ _ hw | closeEmptyCall _ _ hw => exact hn.finishCall hm hw
  | function | unary | binary | group | separator | closeGroup => exact hm

theorem leads (hn : n.Keeps P) {m m' : Moment} (h : Leads c n m m')
    (hm : m.state.work.All P) : m'.state.work.All P :=
  h.preserves (P := fun m => m.state.work.All P) hn.moves hm

/-- What an evaluation reports, and what it gives. -/
theorem outcome (hn : n.Keeps P) (c : Catalog) (width : Nat) (tokens : List Token) :
    (∀ step ∈ (Evaluation.ofTokens c n width tokens).steps, step.All P) ∧
    ∀ x, (Evaluation.ofTokens c n width tokens).result = .ok x → P x := by
  obtain ⟨m, hl, -, hs, hr⟩ := Evaluation.exists_last c n width tokens
  have hm := hn.leads hl Work.all_initial
  refine ⟨?_, ?_⟩
  · intro step hstep
    rw [hs, List.mem_reverse] at hstep
    exact hm.steps step hstep
  · intro x hx
    rcases hr with ⟨y, hy, hone⟩ | ⟨halt, hh, -⟩
    · cases hx.symm.trans hy
      refine hm.operands x ?_
      rw [hone]
      exact List.mem_singleton_self x
    · rw [hh] at hx
      cases hx

end Numerics.Keeps

end Reckoner
