/-
# What is read is evaluated

If a phrase can be read from the next tokens and its tree has a value, then
moves lead over its tokens, and behind them its value is in front of the
operands and its steps are on record; what was pending before is pending
again.

The `leads_` lemmas do this for one node of a tree, given moves over its
parts.  They ask for no more than the node needs, so the converse uses them
too.  `Reads.evaluated` puts them together along a reading.  There the tokens
behind a phrase must end it: an operator that waits for its right operand is
due at the end, at a separator, at a closing bracket and at an infix operator
before which it is reduced, and nowhere else.
-/
import Reckoner.Proofs.Evaluation.Application
import Reckoner.Proofs.Grammar.Reading

namespace Reckoner

/-- The state behind an operand that began at a state. -/
def State.hold (st : State) (x : Number) (steps : List Step) : State :=
  ⟨⟨x :: st.work.operands, steps⟩, st.pending, .operand⟩

/-- Whether the next token, if there is one, may stand behind an operand. -/
def Catalog.endsOperand (c : Catalog) : List Token → Bool
  | [] => true
  | token :: ts =>
    match token.kind with
    | .symbol .closing | .symbol .separator => true
    | _ => (c.infix? (token :: ts)).isSome

variable {c : Catalog} {n : Numerics}

theorem Catalog.endsOperand_of_infix? {ts : List Token} {b : Operator}
    (h : c.infix? ts = some b) : c.endsOperand ts = true := by
  cases ts with
  | nil => cases h
  | cons token ts =>
      simp only [endsOperand]
      split
      · rfl
      · rfl
      · simp only [h, Option.isSome_some]

theorem Catalog.infix?_eq_some {token : Token} {ts : List Token} {b : Operator} :
    c.infix? (token :: ts) = some b ↔
      token.kind = .symbol .operator ∧ c.findOperator? token.text .binary = some b := by
  unfold Catalog.infix?
  dsimp only
  split
  · next hk => exact ⟨fun h => ⟨hk, h⟩, fun h => h.2⟩
  · next hk => exact ⟨fun h => (nomatch h), fun h => absurd h.1 hk⟩

theorem Catalog.exists_cons_of_infix? {ts : List Token} {b : Operator}
    (h : c.infix? ts = some b) : ∃ token ts', ts = token :: ts' := by
  cases ts with
  | nil => cases h
  | cons token ts => exact ⟨token, ts, rfl⟩

/-- Behind an operand, an operator that every infix operator reduces is due. -/
theorem Operator.isDue_of_endsOperand {op : Operator} {ts : List Token}
    (he : c.endsOperand ts = true)
    (h : ∀ b, c.infix? ts = some b → Operator.reduces (some op) b = true) :
    op.isDue c ts = true := by
  cases ts with
  | nil => rfl
  | cons token ts =>
      simp only [Catalog.endsOperand] at he
      simp only [Operator.isDue]
      split at he
      · next hk => simp only [hk]
      · next hk => simp only [hk]
      · obtain ⟨b, hb⟩ := Option.isSome_iff_exists.mp he
        obtain ⟨hk, ho⟩ := Catalog.infix?_eq_some.mp hb
        simpa only [hk, ho, Operator.reduces, Option.any_some] using h b hb

/-! ## Applications to the values of a tree's parts -/

theorem Work.perform_append (run : List Number → Outcome) (xs ys : List Number)
    {applied : Applied} {steps : List Step} {subject : String} {token : Token} {w' : Work} :
    (Work.mk (xs.reverse ++ ys) steps).perform n applied xs.length run subject token = .ok w' ↔
      ∃ z steps', record applied xs token steps (run xs) = .ok (z, steps') ∧
        w' = ⟨z :: ys, steps'⟩ := by
  have ht : ((xs.reverse ++ ys).take xs.length).reverse = xs := by
    rw [← List.length_reverse, List.take_left, List.reverse_reverse]
  have hd : (xs.reverse ++ ys).drop xs.length = ys := by
    rw [← List.length_reverse, List.drop_left]
  simp only [Work.perform_eq_ok, Work.performed, ht, hd, record_eq_ok, Prod.mk.injEq]
  constructor
  · rintro ⟨x, hx, rfl⟩
    exact ⟨x, _, ⟨x, hx, rfl, rfl⟩, rfl⟩
  · rintro ⟨x, _, ⟨_, hx, rfl, rfl⟩, rfl⟩
    exact ⟨x, hx, rfl⟩

theorem Work.applyOperator_append {op : Operator} {xs : List Number} (ys : List Number)
    {steps : List Step} {token : Token} {w' : Work} (h : op.arity.count = xs.length) :
    (Work.mk (xs.reverse ++ ys) steps).applyOperator n op token = .ok w' ↔
      ∃ z steps', record (.operator op) xs token steps (op.apply n.precision xs) =
          .ok (z, steps') ∧
        w' = ⟨z :: ys, steps'⟩ := by
  have hl : ¬ (xs.reverse ++ ys).length < op.arity.count := by
    rw [List.length_append, List.length_reverse, h]
    omega
  unfold Work.applyOperator
  rw [if_neg hl, h]
  exact Work.perform_append (op.apply n.precision) xs ys

theorem Work.applyConstant_append {w w' : Work} {k : Constant} {token : Token} :
    w.applyConstant n k token = .ok w' ↔
      ∃ z steps', record (.constant k) [] token w.steps (k.id.value n.precision) =
          .ok (z, steps') ∧
        w' = ⟨z :: w.operands, steps'⟩ :=
  Work.perform_append (fun _ => k.id.value n.precision) [] w.operands

theorem State.finishCall_append (xs ys : List Number) {f : Function} {name : Token}
    {steps : List Step} {w' : Work} :
    State.finishCall n ⟨xs.reverse ++ ys, steps⟩ f name ys.length xs.length = .ok w' ↔
      f.admits xs.length = true ∧
        ∃ z steps', record (.function f) xs name steps
            (f.id.apply n.precision (n.draws steps.length) xs) = .ok (z, steps') ∧
          w' = ⟨z :: ys, steps'⟩ := by
  rw [State.finishCall_eq_ok, List.length_append, List.length_reverse]
  constructor
  · rintro ⟨-, ha, hw⟩
    exact ⟨ha, (Work.perform_append _ xs ys).mp hw⟩
  · rintro ⟨ha, hw⟩
    exact ⟨Nat.add_comm _ _, ha, (Work.perform_append _ xs ys).mpr hw⟩

/-! ## The moves over one node -/

section

variable {w : Work} {pending : List Pending} {previous : Previous} {token : Token}
  {ts mid rest : List Token} {x y z : Number} {steps steps' : List Step}

theorem leads_unary {u : Operator} (hk : token.kind = .symbol .operator)
    (hp : previous ≠ .operand) (hu : c.findOperator? token.text .unary = some u)
    (h : Leads c n ⟨⟨w, .operator u token :: pending, .operator⟩, ts⟩
      ⟨⟨⟨x :: w.operands, steps⟩, .operator u token :: pending, .operand⟩, rest⟩)
    (hd : u.isDue c rest = true)
    (hz : record (.operator u) [x] token steps (u.apply n.precision [x]) = .ok (z, steps')) :
    Leads c n ⟨⟨w, pending, previous⟩, token :: ts⟩
      ⟨⟨⟨z :: w.operands, steps'⟩, pending, .operand⟩, rest⟩ := by
  have ha : u.arity.count = [x].length := by
    rw [c.arity_of_findOperator? hu]
    rfl
  have hw := (Work.applyOperator_append w.operands (n := n) ha).mpr ⟨z, steps', hz, rfl⟩
  exact .step (.unary hk hp hu) (h.trans (.step (.apply hd hw) (.refl _)))

theorem leads_binary {b : Operator} (hb : c.infix? (token :: ts) = some b)
    (hr : Operator.reduces (Pending.top pending) b = false) {xs : List Number}
    (h : Leads c n ⟨⟨⟨x :: xs, steps⟩, .operator b token :: pending, .operator⟩, ts⟩
      ⟨⟨⟨y :: x :: xs, steps'⟩, .operator b token :: pending, .operand⟩, rest⟩)
    (hd : b.isDue c rest = true) {steps'' : List Step}
    (hz : record (.operator b) [x, y] token steps' (b.apply n.precision [x, y]) =
      .ok (z, steps'')) :
    Leads c n ⟨⟨⟨x :: xs, steps⟩, pending, .operand⟩, token :: ts⟩
      ⟨⟨⟨z :: xs, steps''⟩, pending, .operand⟩, rest⟩ := by
  obtain ⟨hk, ho⟩ := Catalog.infix?_eq_some.mp hb
  have ha : b.arity.count = [x, y].length := by
    rw [c.arity_of_findOperator? ho]
    rfl
  have hw := (Work.applyOperator_append xs (n := n) ha).mpr ⟨z, steps'', hz, rfl⟩
  exact .step (.binary hk ho hr) (h.trans (.step (.apply hd hw) (.refl _)))

theorem leads_constant {k : Constant} (hk : token.kind = .identifier)
    (hp : previous ≠ .operand) (hc : c.findConstant? token.text = some k)
    (hz : record (.constant k) [] token w.steps (k.id.value n.precision) = .ok (z, steps')) :
    Leads c n ⟨⟨w, pending, previous⟩, token :: ts⟩
      ⟨⟨⟨z :: w.operands, steps'⟩, pending, .operand⟩, ts⟩ := by
  have hw : w.applyConstant n k token = .ok ⟨z :: w.operands, steps'⟩ :=
    Work.applyConstant_append.mpr ⟨z, steps', hz, rfl⟩
  exact .step (.constant hk hp (c.findFunction?_eq_none hc) hc hw) (.refl _)

theorem leads_group {b : Brackets} {close : Token} (hk : token.kind = .symbol .opening)
    (hp : previous ≠ .operand) (hb : c.findExpressionBrackets? token.text = some b)
    (h : Leads c n ⟨⟨w, .group b token :: pending, .opening⟩, ts⟩
      ⟨⟨⟨x :: w.operands, steps⟩, .group b token :: pending, .operand⟩, close :: rest⟩)
    (hkc : close.kind = .symbol .closing) (hbc : b.closing = close.text) :
    Leads c n ⟨⟨w, pending, previous⟩, token :: ts⟩
      ⟨⟨⟨x :: w.operands, steps⟩, pending, .operand⟩, rest⟩ :=
  .step (.group hk hp hb) (h.trans (.step (.closeGroup hkc hbc) (.refl _)))

theorem leads_call {f : Function} {b : Brackets} {next close : Token} {xs : List Number}
    {separators : Nat} (hk : token.kind = .identifier) (hp : previous ≠ .operand)
    (hf : c.findFunction? token.text = some f) (hkn : next.kind = .symbol .opening)
    (hb : c.findFunctionBrackets? next.text = some b)
    (h : Leads c n ⟨⟨w, .call f token b 0 w.operands.length :: pending, .opening⟩, ts⟩
      ⟨⟨⟨xs.reverse ++ w.operands, steps⟩,
        .call f token b separators w.operands.length :: pending, .operand⟩, close :: rest⟩)
    (hs : separators + 1 = xs.length) (hkc : close.kind = .symbol .closing)
    (hbc : b.closing = close.text) (ha : f.admits xs.length = true)
    (hz : record (.function f) xs token steps
      (f.id.apply n.precision (n.draws steps.length) xs) = .ok (z, steps')) :
    Leads c n ⟨⟨w, pending, previous⟩, token :: next :: ts⟩
      ⟨⟨⟨z :: w.operands, steps'⟩, pending, .operand⟩, rest⟩ := by
  have hw := (State.finishCall_append xs w.operands).mpr ⟨ha, z, steps', hz, rfl⟩
  rw [← hs] at hw
  exact .step (.function hk hp hf hkn hb) (h.trans (.step (.closeCall hkc hbc hw) (.refl _)))

theorem leads_emptyCall {f : Function} {b : Brackets} {next close : Token}
    (hk : token.kind = .identifier) (hp : previous ≠ .operand)
    (hf : c.findFunction? token.text = some f) (hkn : next.kind = .symbol .opening)
    (hb : c.findFunctionBrackets? next.text = some b) (hkc : close.kind = .symbol .closing)
    (hbc : b.closing = close.text) (ha : f.admits 0 = true)
    (hz : record (.function f) [] token w.steps
      (f.id.apply n.precision (n.draws w.steps.length) []) = .ok (z, steps')) :
    Leads c n ⟨⟨w, pending, previous⟩, token :: next :: close :: rest⟩
      ⟨⟨⟨z :: w.operands, steps'⟩, pending, .operand⟩, rest⟩ := by
  have hw := (State.finishCall_append [] w.operands).mpr ⟨ha, z, steps', hz, rfl⟩
  exact .step (.function hk hp hf hkn hb) (.step (.closeEmptyCall hkc hbc hw) (.refl _))

end

/-! ## The moves over a phrase -/

/-- What a reading promises of an evaluation that comes to its tokens. -/
def Phrase.Evaluated (c : Catalog) (n : Numerics) : Phrase → List Token → List Token → Prop
  | .expression top t, ts, rest =>
    ∀ (st : State) (x : Number) (steps : List Step),
      st.previous ≠ .operand → Pending.top st.pending = top → c.endsOperand rest = true →
      t.eval n st.work.steps = .ok (x, steps) → Leads c n ⟨st, ts⟩ ⟨st.hold x steps, rest⟩
  | .chain top left t, ts, rest =>
    ∀ (st : State) (x y : Number) (steps steps' : List Step),
      Pending.top st.pending = top → c.endsOperand rest = true →
      left.eval n st.work.steps = .ok (x, steps) → t.eval n st.work.steps = .ok (y, steps') →
      Leads c n ⟨st.hold x steps, ts⟩ ⟨st.hold y steps', rest⟩
  | .operand t, ts, rest =>
    ∀ (st : State) (x : Number) (steps : List Step),
      st.previous ≠ .operand → c.endsOperand rest = true →
      t.eval n st.work.steps = .ok (x, steps) → Leads c n ⟨st, ts⟩ ⟨st.hold x steps, rest⟩
  | .arguments b args, ts, rest =>
    ∀ (w : Work) (f : Function) (name : Token) (separators base : Nat) (pending : List Pending)
      (previous : Previous) (xs : List Number) (steps : List Step),
      previous ≠ .operand → Tree.evalAll n args w.steps = .ok (xs, steps) →
      ∃ close separators', close.kind = .symbol .closing ∧ b.closing = close.text ∧
        separators' + 1 = separators + xs.length ∧
        Leads c n ⟨⟨w, .call f name b separators base :: pending, previous⟩, ts⟩
          ⟨⟨⟨xs.reverse ++ w.operands, steps⟩, .call f name b separators' base :: pending,
            .operand⟩, close :: rest⟩

/-- What a left operand grows to has a value only if the left operand has. -/
theorem Reads.eval_left {p : Phrase} {ts rest : List Token} (h : Reads c p ts rest) :
    match p with
    | .chain _ left t => ∀ steps r, t.eval n steps = .ok r → ∃ r', left.eval n steps = .ok r'
    | _ => True := by
  induction h with
  | stop => exact fun _ r hr => ⟨r, hr⟩
  | extend _ _ _ _ _ ih =>
      intro steps r hr
      obtain ⟨r', hr'⟩ := ih steps r hr
      simp only [Tree.eval, bind_eq_ok] at hr'
      obtain ⟨a, ha, -⟩ := hr'
      exact ⟨a, ha⟩
  | _ => trivial

/-- A phrase is continued only by what may stand behind an operand. -/
theorem Reads.endsOperand_of_chain {top : Option Operator} {left t : Tree}
    {ts rest : List Token} (h : Reads c (.chain top left t) ts rest)
    (he : c.endsOperand rest = true) : c.endsOperand ts = true := by
  cases h with
  | stop => exact he
  | extend hb => exact Catalog.endsOperand_of_infix? hb

/-- Behind an expression below an operator, the operator is due. -/
theorem Reads.reduces_of_infix? {p : Phrase} {ts rest : List Token} (h : Reads c p ts rest) :
    match p with
    | .expression top _ | .chain top _ _ =>
      ∀ b, c.infix? rest = some b → Operator.reduces top b = true
    | _ => True := by
  induction h with
  | expression _ _ _ ih => exact ih
  | stop hs => exact hs
  | extend _ _ _ _ _ ih => exact ih
  | _ => trivial

theorem Reads.evaluated {p : Phrase} {ts rest : List Token} (h : Reads c p ts rest) :
    p.Evaluated c n ts rest := by
  induction h with
  | expression h₁ h₂ ih₁ ih₂ =>
      intro st x steps hp htop he hx
      obtain ⟨⟨y, s⟩, hy⟩ := h₂.eval_left st.work.steps _ hx
      exact (ih₁ st y s hp (h₂.endsOperand_of_chain he) hy).trans
        (ih₂ st y x s steps htop he hy hx)
  | stop =>
      intro st x y steps steps' _ _ hx hy
      cases hx.symm.trans hy
      exact .refl _
  | extend hb hr h₁ h₂ ih₁ ih₂ =>
      intro st x y steps steps' htop he hx hy
      obtain ⟨⟨z, s⟩, hz⟩ := h₂.eval_left st.work.steps _ hy
      refine .trans ?_ (ih₂ st z y s steps' htop he hz hy)
      simp only [Tree.eval, bind_eq_ok] at hz
      obtain ⟨_, hx', ⟨y', s'⟩, hy', hz⟩ := hz
      cases hx.symm.trans hx'
      have hmid := h₂.endsOperand_of_chain he
      subst htop
      exact leads_binary hb hr
        (ih₁ ⟨⟨x :: st.work.operands, steps⟩, .operator _ _ :: st.pending, .operator⟩ y' s'
          (show Previous.operator ≠ .operand by decide) rfl hmid hy')
        (Operator.isDue_of_endsOperand hmid h₁.reduces_of_infix?) hz
  | literal hk =>
      intro st x steps hp _ hx
      simp only [Tree.eval, bind_eq_ok, pure_eq_ok, Except.ok.injEq, Prod.mk.injEq] at hx
      obtain ⟨_, hx, rfl, rfl⟩ := hx
      exact .step (.literal hk hp hx) (.refl _)
  | constant hk hc =>
      intro st x steps hp _ hx
      exact leads_constant hk hp hc hx
  | unary hk hu h₁ ih =>
      intro st x steps hp he hx
      simp only [Tree.eval, bind_eq_ok] at hx
      obtain ⟨⟨y, s⟩, hy, hz⟩ := hx
      exact leads_unary hk hp hu
        (ih ⟨st.work, .operator _ _ :: st.pending, .operator⟩ y s
          (show Previous.operator ≠ .operand by decide) rfl he hy)
        (Operator.isDue_of_endsOperand he h₁.reduces_of_infix?) hz
  | group hk hb _ hkc hbc ih =>
      intro st x steps hp _ hx
      exact leads_group hk hp hb
        (ih ⟨st.work, .group _ _ :: st.pending, .opening⟩ x steps
          (show Previous.opening ≠ .operand by decide) rfl
          (by simp only [Catalog.endsOperand, hkc]) hx) hkc hbc
  | call hk hf hkn hb _ ha ih =>
      intro st x steps hp _ hx
      simp only [Tree.eval, bind_eq_ok] at hx
      obtain ⟨⟨xs, s⟩, hxs, hz⟩ := hx
      obtain ⟨close, separators, hkc, hbc, hs, hl⟩ :=
        ih st.work _ _ 0 st.work.operands.length st.pending .opening xs s (by decide) hxs
      rw [← Tree.length_of_evalAll hxs] at ha
      exact leads_call hk hp hf hkn hb hl (by omega) hkc hbc ha hz
  | emptyCall hk hf hkn hb hkc hbc ha =>
      intro st x steps hp _ hx
      simp only [Tree.eval, bind_eq_ok, Tree.evalAll, Except.ok.injEq] at hx
      obtain ⟨_, rfl, hz⟩ := hx
      exact leads_emptyCall hk hp hf hkn hb hkc hbc ha hz
  | last _ hkc hbc ih =>
      intro w f name separators base pending previous xs steps hp hxs
      simp only [Tree.evalAll, bind_eq_ok, pure_eq_ok, Except.ok.injEq, Prod.mk.injEq] at hxs
      obtain ⟨⟨x, s⟩, hx, _, rfl, rfl, rfl⟩ := hxs
      exact ⟨_, separators, hkc, hbc, rfl,
        ih ⟨w, .call f name _ separators base :: pending, previous⟩ x s hp rfl
          (by simp only [Catalog.endsOperand, hkc]) hx⟩
  | more _ hks _ ih₁ ih₂ =>
      intro w f name separators base pending previous xs steps hp hxs
      simp only [Tree.evalAll, bind_eq_ok, pure_eq_ok, Except.ok.injEq, Prod.mk.injEq] at hxs
      obtain ⟨⟨x, s⟩, hx, ⟨ys, s'⟩, hys, rfl, rfl⟩ := hxs
      obtain ⟨close, separators', hkc, hbc, hs, hl⟩ :=
        ih₂ ⟨x :: w.operands, s⟩ f name (separators + 1) base pending .separator ys s'
          (by decide) hys
      refine ⟨close, separators', hkc, hbc, ?_, ?_⟩
      · simp only [List.length_cons]
        omega
      · rw [List.reverse_cons, List.append_assoc, List.singleton_append]
        exact (ih₁ ⟨w, .call f name _ separators base :: pending, previous⟩ x s hp rfl
          (by simp only [Catalog.endsOperand, hks]) hx).trans (.step (.separator hks) hl)

end Reckoner
