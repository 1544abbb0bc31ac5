/-
# Operands are balanced

How many values wait is determined by what is pending.  A binary operator
waits above its left operand, and a separator stands behind an argument, so
each of them needs one value; where an operand has just ended there is that
one more:

    pending                    values that it needs
    a unary operator           0
    a binary operator          1
    a group                    0
    a call after k separators  k

The base that a call remembers is what is needed below it.  `State.Balanced`
says all this, and that a call just opened has met no separator.  Every move
keeps the balance, so it holds throughout an evaluation, and it is why what is
applied always gets as many operands as it takes.
-/
import Reckoner.Proofs.Catalog.Lookup
import Reckoner.Proofs.Evaluation.Application

namespace Reckoner

/-- The number of values that a pending list needs. -/
def Pending.need : List Pending → Nat
  | [] => 0
  | .operator op _ :: rest => need rest + (op.arity.count - 1)
  | .call _ _ _ separators _ :: rest => need rest + separators
  | .group _ _ :: rest => need rest

/-- Whether the base of every call is what is needed below it. -/
def Pending.Based : List Pending → Prop
  | [] => True
  | .call _ _ _ _ base :: rest => base = need rest ∧ Based rest
  | .operator _ _ :: rest | .group _ _ :: rest => Based rest

/-- What holds of a state between two tokens, and between two applications. -/
structure State.Balanced (st : State) : Prop where
  /-- There are as many values as are needed, and the operand that has just ended. -/
  height : st.work.operands.length =
    Pending.need st.pending + if st.previous = .operand then 1 else 0
  /-- Calls remember where their arguments start. -/
  based : Pending.Based st.pending
  /-- A call that has just been opened has met no separator. -/
  fresh : st.previous = .opening →
    ∀ f name b separators base rest,
      st.pending = .call f name b separators base :: rest → separators = 0

theorem State.balanced_initial : State.initial.Balanced where
  height := rfl
  based := trivial
  fresh := nofun

section

variable {c : Catalog} {n : Numerics}

theorem Work.length_performed {w : Work} {applied : Applied} {count : Nat} {x : Number}
    {token : Token} :
    (w.performed applied count x token).operands.length = w.operands.length - count + 1 := by
  simp only [performed, List.length_cons, List.length_drop]

theorem Arity.count_pos (a : Arity) : 0 < a.count := by
  cases a <;> decide

theorem State.length_of_finishCall {w w' : Work} {f : Function} {name : Token}
    {base count : Nat} (h : State.finishCall n w f name base count = .ok w') :
    w'.operands.length = base + 1 := by
  obtain ⟨hl, -, hw⟩ := State.finishCall_eq_ok.mp h
  obtain ⟨_, -, rfl⟩ := Work.applyFunction_eq_ok.mp hw
  rw [Work.length_performed]
  omega

/-- A state just behind an operand is balanced if there is one value more than
are needed. -/
theorem State.balanced_operand {w : Work} {pending : List Pending}
    (hl : w.operands.length = Pending.need pending + 1) (hb : Pending.Based pending) :
    State.Balanced ⟨w, pending, .operand⟩ where
  height := hl
  based := hb
  fresh := nofun

/-- Every move keeps the balance. -/
theorem Moves.balanced {m m' : Moment} (h : Moves c n m m') (hm : m.state.Balanced) :
    m'.state.Balanced := by
  obtain ⟨height, based, fresh⟩ := hm
  cases h with
  | @apply w _ op _ pending _ _ hw =>
      obtain ⟨hl, x, -, rfl⟩ := Work.applyOperator_eq_ok.mp hw
      have hpos := op.arity.count_pos
      refine State.balanced_operand ?_ based
      simp only [Pending.need, if_pos] at height
      rw [Work.length_performed]
      omega
  | literal _ hp =>
      refine State.balanced_operand ?_ based
      simp only [hp, if_false] at height
      simp only [Work.push, List.length_cons, height, Nat.add_zero]
  | constant _ hp _ _ hw =>
      obtain ⟨x, -, rfl⟩ := Work.applyConstant_eq_ok.mp hw
      refine State.balanced_operand ?_ based
      simp only [hp, if_false] at height
      rw [Work.length_performed, height]
      rfl
  | function _ hp =>
      -- a call remembers the height, and that is what the pending list below it needs
      simp only [hp, if_false] at height
      refine ⟨height, ⟨height, based⟩, fun _ _ _ _ _ _ _ he => ?_⟩
      cases he
      rfl
  | unary _ hp hu =>
      simp only [hp, if_false] at height
      refine ⟨?_, based, nofun⟩
      simp only [Pending.need, c.arity_of_findOperator? hu, reduceCtorEq, if_false]
      exact height
  | binary _ ho =>
      refine ⟨?_, based, nofun⟩
      simp only [Pending.need, c.arity_of_findOperator? ho, reduceCtorEq, if_false]
      exact height
  | group _ hp =>
      simp only [hp, if_false] at height
      refine ⟨height, based, fun _ _ _ _ _ _ _ he => ?_⟩
      cases he
  | separator =>
      refine ⟨?_, based, nofun⟩
      simp only [Pending.need, if_pos] at height
      simp only [Pending.need, reduceCtorEq, if_false]
      omega
  | closeGroup => exact State.balanced_operand height based
  | closeCall _ _ hw | closeEmptyCall _ _ hw =>
      refine State.balanced_operand ?_ based.2
      rw [State.length_of_finishCall hw, based.1]

/-- An evaluation is balanced throughout. -/
theorem Leads.balanced {m m' : Moment} (h : Leads c n m m') (hm : m.state.Balanced) :
    m'.state.Balanced :=
  h.preserves Moves.balanced hm

/-! ## What is pending is in the catalog -/

/-- Whether what waits in a pending list is in the catalog. -/
def Pending.Listed (c : Catalog) : Pending → Prop
  | .operator op _ => op ∈ c.operators
  | .call f _ _ _ _ => f ∈ c.functions
  | .group _ _ => True

/-- Every move leaves pending what is in the catalog. -/
theorem Moves.listed {m m' : Moment} (h : Moves c n m m')
    (hm : ∀ p ∈ m.state.pending, p.Listed c) : ∀ p ∈ m'.state.pending, p.Listed c := by
  cases h with
  | apply | closeGroup | closeCall | closeEmptyCall => exact (List.forall_mem_cons.mp hm).2
  | literal | constant => exact hm
  | function _ _ hf => exact List.forall_mem_cons.mpr ⟨List.mem_of_find?_eq_some hf, hm⟩
  | unary _ _ ho | binary _ ho =>
      exact List.forall_mem_cons.mpr ⟨List.mem_of_find?_eq_some ho, hm⟩
  | group => exact List.forall_mem_cons.mpr ⟨trivial, hm⟩
  | separator =>
      obtain ⟨hcall, hrest⟩ := List.forall_mem_cons.mp hm
      exact List.forall_mem_cons.mpr ⟨hcall, hrest⟩

/-- Whether what is applied is in the catalog. -/
def Applied.Listed (c : Catalog) : Applied → Prop
  | .operator op => op ∈ c.operators
  | .function f => f ∈ c.functions
  | .constant k => k ∈ c.constants

theorem Moment.Asks.listed {m : Moment} {a : Applied} {xs : List Number} (h : m.Asks c a xs)
    (hm : ∀ p ∈ m.state.pending, p.Listed c) : a.Listed c := by
  cases h with
  | operator | call | emptyCall => exact (List.forall_mem_cons.mp hm).1
  | constant _ _ hc => exact List.mem_of_find?_eq_some hc

/-! ## Operands of applications -/

theorem List.length_reverse_take {α : Type} {k : Nat} {xs : List α} (h : k ≤ xs.length) :
    (xs.take k).reverse.length = k := by
  rw [List.length_reverse, List.length_take, Nat.min_eq_left h]

/-- Where an operator is due, its operands wait. -/
theorem State.Balanced.arity_le {w : Work} {op : Operator} {token : Token}
    {pending : List Pending} (h : State.Balanced ⟨w, .operator op token :: pending, .operand⟩) :
    op.arity.count ≤ w.operands.length := by
  have height := h.height
  simp only [Pending.need, if_pos] at height
  omega

/-- Where a call may be closed behind an operand, its arguments are the values
above its base. -/
theorem State.Balanced.length_of_call {w : Work} {f : Function} {name : Token} {b : Brackets}
    {separators base : Nat} {pending : List Pending}
    (h : State.Balanced ⟨w, .call f name b separators base :: pending, .operand⟩) :
    w.operands.length = base + (separators + 1) := by
  have height := h.height
  have based := h.based.1
  simp only [Pending.need, if_pos] at height
  omega

theorem State.Balanced.length_of_emptyCall {w : Work} {f : Function} {name : Token}
    {b : Brackets} {separators base : Nat} {pending : List Pending}
    (h : State.Balanced ⟨w, .call f name b separators base :: pending, .opening⟩) :
    w.operands.length = base + 0 := by
  have height := h.height
  have based := h.based.1
  have fresh := h.fresh rfl _ _ _ _ _ _ rfl
  simp only [Pending.need, reduceCtorEq, if_false] at height
  omega

/-- In a balanced state, what is applied takes as many operands as it gets. -/
theorem Moment.Asks.accepts {m : Moment} {a : Applied} {xs : List Number} (h : m.Asks c a xs)
    (hm : m.state.Balanced) : a.Accepts xs := by
  cases h with
  | operator => exact List.length_reverse_take hm.arity_le
  | constant => rfl
  | call _ _ ha =>
      have hl := hm.length_of_call
      show Function.admits _ (List.length _) = true
      rw [List.length_reverse_take (Nat.sub_le _ _), hl, Nat.add_sub_cancel_left]
      exact ha
  | emptyCall _ _ ha =>
      have hl := hm.length_of_emptyCall
      show Function.admits _ (List.length _) = true
      rw [List.length_reverse_take (Nat.sub_le _ _), hl, Nat.add_sub_cancel_left]
      exact ha

/-- Every step on record has as many operands as what was applied takes. -/
theorem Leads.steps_accept {m m' : Moment} (h : Leads c n m m') (hm : m.state.Balanced)
    (hs : ∀ s ∈ m.state.work.steps, s.applied.Accepts s.operands) :
    ∀ s ∈ m'.state.work.steps, s.applied.Accepts s.operands := by
  refine (h.preserves (P := fun m => m.state.Balanced ∧
    ∀ s ∈ m.state.work.steps, s.applied.Accepts s.operands) ?_ ⟨hm, hs⟩).2
  rintro m m' hmm' ⟨hb, hs⟩
  refine ⟨hmm'.balanced hb, ?_⟩
  rcases hmm'.steps with he | ⟨a, xs, x, index, ha, -, he⟩
  · rw [he]
    exact hs
  · rw [he]
    intro s hs'
    rcases List.mem_cons.mp hs' with rfl | hs'
    · exact ha.accepts hb
    · exact hs s hs'

end

end Reckoner
