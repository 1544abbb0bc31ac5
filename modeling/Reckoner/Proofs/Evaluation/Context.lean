/-
# Parts of an evaluation within others

What is below on the two lists of an evaluation, what was recorded before and
what stands behind are not looked at by its moves.  So a part of an evaluation
stays what it is when its frame is another one:

    a part in a frame      is the part, with
    operands               those of the frame below
    pending                that of the frame below, behind a barrier
    steps                  those of the frame before
    tokens                 others behind, which make due what was due

A call counts the values below it, so in another frame its base is raised.  And
`random` draws by the number of steps before, so the numbers drawn must be the
same (`Numerics.Redraws`).

**Proved here.**

    a move is a move in another frame                    (`Moves.framed`)
    so are the moves from one moment to another          (`Leads.framed`)
    what moves lead over is handled token by token,
    up to a moment where nothing is due                  (`Leads.handled`)
    moves lead to any literal, and on from behind it     (`Leads.exists_literal`)
-/
import Reckoner.Proofs.Evaluation.Bookkeeping
import Reckoner.Proofs.Evaluation.Draws
import Reckoner.Proofs.Evaluation.Viability

namespace Reckoner

/-- Whether a number was drawn in a step. -/
def Step.isDraw (s : Step) : Bool :=
  match s.applied with
  | .function f => f.id = .random
  | .operator _ | .constant _ => false

/-- What is not finished, with `k` more values below. -/
def Pending.raise (k : Nat) : Pending → Pending
  | .operator op token => .operator op token
  | .call f token b separators base => .call f token b separators (base + k)
  | .group b token => .group b token

/-- What is around a part of an evaluation. -/
structure Frame where
  /-- The values below. -/
  operands : List Number
  /-- The steps before. -/
  steps : List Step
  /-- What is not finished below. -/
  pending : List Pending
  /-- A barrier keeps the part from what is below. -/
  barrier : Pending.top pending = none

/-- `w'` is `w` in a frame, if `base` are the steps before it otherwise. -/
structure Work.Framed (frame : Frame) (base : List Step) (w w' : Work) : Prop where
  operands : w'.operands = w.operands ++ frame.operands
  steps : ∃ made, w.steps = made ++ base ∧ w'.steps = made ++ frame.steps

/-- What the latest token was, in a frame: there, the first token may have an
opening bracket before it. -/
def Previous.Framed (p p' : Previous) : Prop := p' = p ∨ p = .start ∧ p' = .opening

/-- `st'` is `st` in a frame, if `base` are the steps before it otherwise. -/
structure State.Framed (frame : Frame) (base : List Step) (st st' : State) : Prop where
  work : st.work.Framed frame base st'.work
  pending : st'.pending = st.pending.map (.raise frame.operands.length) ++ frame.pending
  previous : st.previous.Framed st'.previous

/-- `n.Redraws n' base base' steps`: the numbers that are drawn in the steps
behind `base` are drawn by `n'` behind `base'`. -/
def Numerics.Redraws (n n' : Numerics) (base base' steps : List Step) : Prop :=
  ∀ step made, step :: (made ++ base) <:+ steps → step.isDraw = true →
    n'.draws (made ++ base').length = n.draws (made ++ base).length

section

variable {c : Catalog} {n n' : Numerics} {frame : Frame} {base : List Step}

theorem Numerics.Redraws.mono {base' steps steps' : List Step}
    (h : n.Redraws n' base base' steps) (hs : steps' <:+ steps) : n.Redraws n' base base' steps' :=
  fun step made hmade => h step made (hmade.trans hs)

namespace Previous.Framed

variable {p p' : Previous} (h : p.Framed p')

include h

theorem ne_operand (hp : p ≠ .operand) : p' ≠ .operand := by
  rcases h with rfl | ⟨-, rfl⟩
  · exact hp
  · decide

theorem eq_of_ne (hp : p ≠ .start) : p' = p :=
  h.resolve_right fun h => hp h.1

end Previous.Framed

/-! ## Applications in a frame -/

namespace Work.Framed

variable {w w' w₁ : Work} (hw : w.Framed frame base w')

include hw

theorem take_eq {count : Nat} (hc : count ≤ w.operands.length) :
    w'.operands.take count = w.operands.take count := by
  rw [hw.operands, List.take_append_of_le_length hc]

theorem performed (a : Applied) {count : Nat} (hc : count ≤ w.operands.length) (x : Number)
    (token : Token) : (w.performed a count x token).Framed frame base
      (w'.performed a count x token) := by
  obtain ⟨made, hs, hs'⟩ := hw.steps
  refine ⟨?_, ⟨a, (w.operands.take count).reverse, x, token.start⟩ :: made, ?_, ?_⟩
  · simp only [Work.performed, hw.operands, List.drop_append_of_le_length hc, List.cons_append]
  · simp only [Work.performed, hs, List.cons_append]
  · simp only [Work.performed, hw.take_eq hc, hs', List.cons_append]

theorem applyOperator (hp : n'.precision = n.precision) {op : Operator} {token : Token}
    (h : w.applyOperator n op token = .ok w₁) :
    ∃ w₁', w'.applyOperator n' op token = .ok w₁' ∧ w₁.Framed frame base w₁' := by
  obtain ⟨hc, x, hx, rfl⟩ := Work.applyOperator_eq_ok.mp h
  refine ⟨_, Work.applyOperator_eq_ok.mpr ⟨?_, x, ?_, rfl⟩, hw.performed _ hc x token⟩
  · rw [hw.operands, List.length_append]
    omega
  · rw [hw.take_eq hc, hp]
    exact hx

theorem applyConstant (hp : n'.precision = n.precision) {k : Constant} {token : Token}
    (h : w.applyConstant n k token = .ok w₁) :
    ∃ w₁', w'.applyConstant n' k token = .ok w₁' ∧ w₁.Framed frame base w₁' := by
  obtain ⟨x, hx, rfl⟩ := Work.applyConstant_eq_ok.mp h
  exact ⟨_, Work.applyConstant_eq_ok.mpr ⟨x, by rw [hp]; exact hx, rfl⟩,
    hw.performed _ (Nat.zero_le _) x token⟩

theorem finishCall (hp : n'.precision = n.precision) {f : Function} {name : Token}
    {below count : Nat} (h : State.finishCall n w f name below count = .ok w₁)
    (hdraws : n.Redraws n' base frame.steps w₁.steps) :
    ∃ w₁', State.finishCall n' w' f name (below + frame.operands.length) count = .ok w₁' ∧
      w₁.Framed frame base w₁' := by
  obtain ⟨hlength, hadmits, h⟩ := State.finishCall_eq_ok.mp h
  obtain ⟨x, hx, rfl⟩ := Work.applyFunction_eq_ok.mp h
  have hc : count ≤ w.operands.length := by omega
  refine ⟨_, State.finishCall_eq_ok.mpr ⟨?_, hadmits, Work.applyFunction_eq_ok.mpr ⟨x, ?_, rfl⟩⟩,
    hw.performed _ hc x name⟩
  · rw [hw.operands, List.length_append]
    omega
  · obtain ⟨made, hs, hs'⟩ := hw.steps
    rw [hw.take_eq hc, hp, ← hx]
    by_cases hf : f.id = .random
    · have hstep : ⟨.function f, (w.operands.take count).reverse, x, name.start⟩ ::
          (made ++ base) = (w.performed (.function f) count x name).steps := by
        rw [Work.performed, hs]
      have hsuffix := List.suffix_refl (w.performed (.function f) count x name).steps
      rw [← hstep] at hsuffix hdraws
      rw [hs, hs', hdraws _ made hsuffix (decide_eq_true hf)]
    · exact FunctionId.apply_draw hf _ _ _ _

end Work.Framed

/-- What a state behind an operand is in a frame. -/
theorem State.Framed.eq_behind {st st' : State} {made : List Step} (h : st.Framed frame base st')
    (hs : st.work.steps = made ++ base) (hp : st.previous = .operand) :
    st' = ⟨⟨st.work.operands ++ frame.operands, made ++ frame.steps⟩,
      st.pending.map (.raise frame.operands.length) ++ frame.pending, .operand⟩ := by
  obtain ⟨⟨_, _⟩, _, _⟩ := st'
  obtain ⟨⟨hoperands, made', hmade, hmade'⟩, hpending, hprevious⟩ := h
  obtain rfl : made' = made := List.append_cancel_right (hmade.symm.trans hs)
  cases hoperands
  cases hmade'
  cases hpending
  cases (hprevious.eq_of_ne (by rw [hp]; decide)).trans hp
  rfl

/-! ## Moves in a frame -/

theorem Pending.top_framed (frame : Frame) (pending : List Pending) :
    Pending.top (pending.map (.raise frame.operands.length) ++ frame.pending) =
      Pending.top pending := by
  match pending with
  | [] => exact frame.barrier
  | .operator .. :: _ => rfl
  | .call .. :: _ | .group .. :: _ => rfl

/-- A move is a move in a frame.  Of the tokens that are left behind it, no more
counts than what they make due. -/
theorem Moves.framed {m m₁ : Moment} {st' : State} {later : List Token} (h : Moves c n m m₁)
    (hf : m.state.Framed frame base st') (hp : n'.precision = n.precision)
    (hdue : ∀ op : Operator, op.isDue c m₁.tokens = true → op.isDue c later = true)
    (hdraws : n.Redraws n' base frame.steps m₁.state.work.steps) :
    ∃ front st₁', Moves c n' ⟨st', front ++ later⟩ ⟨st₁', later⟩ ∧
      m.tokens = front ++ m₁.tokens ∧ m₁.state.Framed frame base st₁' := by
  obtain ⟨w', pending', previous'⟩ := st'
  obtain ⟨hw, hpending, hprevious⟩ := hf
  dsimp only at hw hpending hprevious
  subst hpending
  have hoperand : m.state.previous = .operand → previous' = .operand := fun hprev =>
    hprev ▸ hprevious.eq_of_ne (by rw [hprev]; decide)
  cases h with
  | apply hd ha =>
      obtain ⟨w₁', ha', hw'⟩ := hw.applyOperator hp ha
      obtain rfl := hoperand rfl
      exact ⟨[], _, .apply (hdue _ hd) ha', rfl, hw', rfl, .inl rfl⟩
  | @literal w pending previous token ts x hk hprev hx =>
      refine ⟨[token], _, .literal hk (hprevious.ne_operand hprev) (by rw [hp]; exact hx), rfl,
        ⟨?_, hw.steps⟩, rfl, .inl rfl⟩
      exact congrArg (x :: ·) hw.operands
  | @constant _ _ _ _ token _ _ hk hprev hnone hc ha =>
      obtain ⟨w₁', ha', hw'⟩ := hw.applyConstant hp ha
      exact ⟨[token], _, .constant hk (hprevious.ne_operand hprev) hnone hc ha', rfl, hw', rfl,
        .inl rfl⟩
  | @function w _ _ token next _ f b hk hprev hfind hkn hb =>
      refine ⟨[token, next], _, .function hk (hprevious.ne_operand hprev) hfind hkn hb, rfl, hw,
        ?_, .inl rfl⟩
      dsimp only
      rw [hw.operands, List.length_append, List.map_cons, Pending.raise, List.cons_append]
  | @unary _ _ _ token _ _ hk hprev ho =>
      exact ⟨[token], _, .unary hk (hprevious.ne_operand hprev) ho, rfl, hw, rfl, .inl rfl⟩
  | @binary _ pending token _ _ hk ho hr =>
      obtain rfl := hoperand rfl
      rw [← Pending.top_framed frame pending] at hr
      exact ⟨[token], _, .binary hk ho hr, rfl, hw, rfl, .inl rfl⟩
  | @group _ _ _ token _ _ hk hprev hb =>
      exact ⟨[token], _, .group hk (hprevious.ne_operand hprev) hb, rfl, hw, rfl, .inl rfl⟩
  | @separator _ _ token _ _ _ _ _ _ hk =>
      obtain rfl := hoperand rfl
      exact ⟨[token], _, .separator hk, rfl, hw, rfl, .inl rfl⟩
  | @closeGroup _ _ token _ _ _ hk hb =>
      obtain rfl := hoperand rfl
      exact ⟨[token], _, .closeGroup hk hb, rfl, hw, rfl, .inl rfl⟩
  | @closeCall _ _ _ token _ _ _ _ _ _ hk hb ha =>
      obtain rfl := hoperand rfl
      obtain ⟨w₁', ha', hw'⟩ := hw.finishCall hp ha hdraws
      exact ⟨[token], _, .closeCall hk hb ha', rfl, hw', rfl, .inl rfl⟩
  | @closeEmptyCall _ _ _ token _ _ _ _ _ _ hk hb ha =>
      obtain rfl : previous' = .opening :=
        hprevious.eq_of_ne (show Previous.opening ≠ .start by decide)
      obtain ⟨w₁', ha', hw'⟩ := hw.finishCall hp ha hdraws
      exact ⟨[token], _, .closeEmptyCall hk hb ha', rfl, hw', rfl, .inl rfl⟩

/-! ## Moves from one moment to another -/

theorem Moves.steps_suffix {m m₁ : Moment} (h : Moves c n m m₁) :
    m.state.work.steps <:+ m₁.state.work.steps := by
  rcases h.steps with hs | ⟨_, _, _, _, -, -, hs⟩
  · exact hs.symm ▸ List.suffix_refl _
  · exact hs.symm ▸ List.suffix_cons _ _

theorem Leads.steps_suffix {m m₁ : Moment} (h : Leads c n m m₁) :
    m.state.work.steps <:+ m₁.state.work.steps := by
  induction h with
  | refl => exact List.suffix_refl _
  | step h₁ _ ih => exact h₁.steps_suffix.trans ih

/-- More tokens in front of others do not change what is due, except through
the first of the others. -/
theorem Operator.isDue_append {rest later : List Token}
    (hdue : ∀ op : Operator, op.isDue c rest = true → op.isDue c later = true)
    (front : List Token) (op : Operator) (h : op.isDue c (front ++ rest) = true) :
    op.isDue c (front ++ later) = true := by
  cases front with
  | nil => exact hdue op h
  | cons => exact h

/-- What moves lead over in one frame, moves lead over in another. -/
theorem Leads.framed {m m₁ : Moment} {st' : State} {front : List Token} (later : List Token)
    (h : Leads c n m m₁) (hfront : m.tokens = front ++ m₁.tokens)
    (hf : m.state.Framed frame base st') (hp : n'.precision = n.precision)
    (hdue : ∀ op : Operator, op.isDue c m₁.tokens = true → op.isDue c later = true)
    (hdraws : n.Redraws n' base frame.steps m₁.state.work.steps) :
    ∃ st₁', Leads c n' ⟨st', front ++ later⟩ ⟨st₁', later⟩ ∧ m₁.state.Framed frame base st₁' := by
  induction h generalizing front st' with
  | refl m =>
      obtain rfl : front = [] := List.self_eq_append_left.mp hfront
      exact ⟨st', .refl _, hf⟩
  | @step m m₂ m₁ h₁ hl ih =>
      obtain ⟨mid, hmid⟩ := hl.tokens_suffix
      obtain ⟨first, st₂', hm, hfirst, hf₂⟩ := h₁.framed hf hp
        (by rw [← hmid]; exact Operator.isDue_append hdue mid)
        (hdraws.mono hl.steps_suffix)
      obtain ⟨st₁', hl', hf₁⟩ := ih hmid.symm hf₂ hdue hdraws
      rw [← hmid, hfront, ← List.append_assoc] at hfirst
      rw [List.append_cancel_right hfirst, List.append_assoc]
      exact ⟨st₁', .step hm hl', hf₁⟩

/-! ## Token after token -/

theorem Moves.handled {m m₂ m₁ : Moment} (h : Moves c n m m₂) (hh : Handled c n m₂ m₁)
    (hlast : m₁.tokens = m.tokens → ∀ op : Operator, op.isDue c m₁.tokens = false) :
    Handled c n m m₁ := by
  rcases h.apply_or_handle with ⟨w, w', op, token, pending, ts, hd, ha, rfl, rfl⟩ |
    ⟨token, ts, used, ht, hhandle, ht₂⟩
  · cases hh with
    | refl => cases hd.symm.trans (hlast rfl op)
    | step hhandle hrest =>
        refine .step ?_ hrest
        rw [State.handle_due hd, ha]
        exact hhandle
  · obtain ⟨st, _⟩ := m
    obtain ⟨st₂, _⟩ := m₂
    cases ht
    cases ht₂
    exact .step hhandle hh

/-- What moves lead over is handled token by token.  Operators are applied when
the next token is handled, so in the end none may be due, unless a token is
handled there. -/
theorem Leads.handled {m m₀ m₁ : Moment} (h : Leads c n m m₀) (hh : Handled c n m₀ m₁)
    (hlast : m₁.tokens.length < m₀.tokens.length ∨
      ∀ op : Operator, op.isDue c m₁.tokens = false) : Handled c n m m₁ := by
  induction h with
  | refl => exact hh
  | step h₁ hl ih =>
      refine h₁.handled (ih hh hlast) fun hsame => hlast.resolve_left ?_
      rw [hsame]
      exact Nat.not_lt.mpr (hl.tokens_suffix.trans h₁.tokens_suffix).length_le

/-- A move over a list of tokens leaves a literal among them alone, or pushes
its value. -/
theorem Moves.literal_cases {m m₁ : Moment} {before after : List Token} {token : Token}
    (h : Moves c n m m₁) (ht : m.tokens = before ++ token :: after) (hk : token.kind = .literal) :
    (∃ before', m₁.tokens = before' ++ token :: after) ∨
      ∃ x, Number.parse n.precision token.text = .ok x ∧ m.state.previous ≠ .operand ∧
        m = ⟨m.state, token :: after⟩ ∧
        m₁ = ⟨⟨m.state.work.push x, m.state.pending, .operand⟩, after⟩ := by
  cases before with
  | nil =>
      cases h with
      | apply hd _ =>
          rw [List.nil_append] at ht
          dsimp only at ht
          rw [ht, Operator.isDue, hk] at hd
          cases hd
      | literal _ hp hx =>
          cases ht
          exact .inr ⟨_, hx, hp, rfl, rfl⟩
      | constant hk' | function hk' | unary hk' | binary hk' | group hk' | separator hk'
      | closeGroup hk' | closeCall hk' | closeEmptyCall hk' =>
          cases ht
          cases hk.symm.trans hk'
  | cons first before =>
      cases h with
      | apply => exact .inl ⟨first :: before, ht⟩
      | function _ _ _ hkn _ =>
          cases before with
          | nil =>
              cases ht
              cases hk.symm.trans hkn
          | cons _ before => exact .inl ⟨before, (List.cons.inj (List.cons.inj ht).2).2⟩
      | _ => exact .inl ⟨before, (List.cons.inj ht).2⟩

/-- Moves that lead to the end lead to every literal, push its value, and go on
from there. -/
theorem Leads.exists_literal {m m₁ : Moment} {before after : List Token} {token : Token}
    (h : Leads c n m m₁) (ht : m.tokens = before ++ token :: after) (hk : token.kind = .literal)
    (hend : m₁.tokens = []) :
    ∃ st x, Number.parse n.precision token.text = .ok x ∧ st.previous ≠ .operand ∧
      Leads c n m ⟨st, token :: after⟩ ∧
      Leads c n ⟨⟨st.work.push x, st.pending, .operand⟩, after⟩ m₁ := by
  induction h generalizing before with
  | refl =>
      rw [hend] at ht
      cases (List.append_eq_nil_iff.mp ht.symm).2
  | @step m m₂ m₁ h₁ hl ih =>
      rcases h₁.literal_cases ht hk with ⟨before', hbefore'⟩ | ⟨x, hx, hp, hm, rfl⟩
      · obtain ⟨st, x, hx, hp, hlead, hrest⟩ := ih hbefore' hend
        exact ⟨st, x, hx, hp, .step h₁ hlead, hrest⟩
      · rw [hm]
        exact ⟨_, x, hx, hp, .refl _, hl⟩

end

end Reckoner
