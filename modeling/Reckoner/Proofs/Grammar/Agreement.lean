/-
# The evaluation agrees with precedence climbing

An evaluation never builds a tree: it keeps two lists and looks one token
ahead.  It gives a value exactly if the tokens can be read by precedence
climbing and the tree so read has that value; the steps agree as well, and the
tree is the only one.

`Reads.evaluated` is one direction.  The other is proved here: along a run
that gives a value, the next tokens can be read, with moves over them.  The
four statements, one for each kind of phrase, are proved together by recursion
on the tokens that are left:

    operand       the first move tells which operand it is
    chain         an infix operator that comes next is reduced before, or taken
    expression    an operand, then a chain
    arguments     an expression, then a separator or the closing bracket

The `run_` lemmas before them say what a run that gives a value must do where
an operand has just ended and the operators behind it are settled.
-/
import Reckoner.Proofs.Grammar.Evaluating

namespace Reckoner

variable {c : Catalog} {n : Numerics} {width : Nat} {r : Number × Work}

/-! ## Runs behind a complete expression -/

section

variable {w : Work} {pending : List Pending} {ts : List Token}

theorem run_unclosed {u : Operator} {token : Token}
    (hi : ∀ b, c.infix? ts = some b → Operator.reduces (some u) b = true)
    (h : Moment.run c n width ⟨⟨w, .operator u token :: pending, .operand⟩, ts⟩ = .ok r) :
    u.isDue c ts = true ∧ ∃ w', w.applyOperator n u token = .ok w' := by
  rcases Moment.moves_or_done h with ⟨_, hm⟩ | ⟨_, _, hm, _⟩
  · cases hm with
    | apply hd hw => exact ⟨hd, _, hw⟩
    | binary hk ho hr =>
        have := hi _ (Catalog.infix?_eq_some.mpr ⟨hk, ho⟩)
        simp only [Pending.top] at hr
        rw [this] at hr
        cases hr
    | literal _ hp | constant _ hp | function _ hp | unary _ hp | group _ hp =>
        exact absurd rfl hp
  · cases hm

theorem run_group {b : Brackets} {opener : Token}
    (hi : ∀ op, c.infix? ts = some op → Operator.reduces none op = true)
    (h : Moment.run c n width ⟨⟨w, .group b opener :: pending, .operand⟩, ts⟩ = .ok r) :
    ∃ close rest, ts = close :: rest ∧ close.kind = .symbol .closing ∧
      b.closing = close.text := by
  rcases Moment.moves_or_done h with ⟨_, hm⟩ | ⟨_, _, hm, _⟩
  · cases hm with
    | closeGroup hk hb => exact ⟨_, _, rfl, hk, hb⟩
    | binary hk ho => cases hi _ (Catalog.infix?_eq_some.mpr ⟨hk, ho⟩)
    | literal _ hp | constant _ hp | function _ hp | unary _ hp | group _ hp =>
        exact absurd rfl hp
  · cases hm

theorem run_call {f : Function} {name : Token} {b : Brackets} {separators base : Nat}
    (hi : ∀ op, c.infix? ts = some op → Operator.reduces none op = true)
    (h : Moment.run c n width
      ⟨⟨w, .call f name b separators base :: pending, .operand⟩, ts⟩ = .ok r) :
    ∃ next rest, ts = next :: rest ∧
      (next.kind = .symbol .separator ∨
        next.kind = .symbol .closing ∧ b.closing = next.text ∧
          ∃ w', State.finishCall n w f name base (separators + 1) = .ok w') := by
  rcases Moment.moves_or_done h with ⟨_, hm⟩ | ⟨_, _, hm, _⟩
  · cases hm with
    | separator hk => exact ⟨_, _, rfl, Or.inl hk⟩
    | closeCall hk hb hw => exact ⟨_, _, rfl, Or.inr ⟨hk, hb, _, hw⟩⟩
    | binary hk ho => cases hi _ (Catalog.infix?_eq_some.mpr ⟨hk, ho⟩)
    | literal _ hp | constant _ hp | function _ hp | unary _ hp | group _ hp =>
        exact absurd rfl hp
  · cases hm

theorem run_nothing
    (hi : ∀ op, c.infix? ts = some op → Operator.reduces none op = true)
    (h : Moment.run c n width ⟨⟨w, [], .operand⟩, ts⟩ = .ok r) :
    ts = [] ∧ ∃ x, w.operands = [x] ∧ r = (x, w) := by
  rcases Moment.moves_or_done h with ⟨_, hm⟩ | ⟨x, steps, hm, hr⟩
  · cases hm with
    | binary hk ho => cases hi _ (Catalog.infix?_eq_some.mpr ⟨hk, ho⟩)
    | literal _ hp | constant _ hp | function _ hp | unary _ hp | group _ hp =>
        exact absurd rfl hp
  · cases hm
    exact ⟨rfl, x, rfl, hr⟩

theorem run_emptyCall {f : Function} {name close : Token} {b : Brackets}
    {separators base : Nat} (hk : close.kind = .symbol .closing)
    (h : Moment.run c n width
      ⟨⟨w, .call f name b separators base :: pending, .opening⟩, close :: ts⟩ = .ok r) :
    b.closing = close.text ∧ ∃ w', State.finishCall n w f name base 0 = .ok w' := by
  rcases Moment.moves_or_done h with ⟨_, hm⟩ | ⟨_, _, hm, _⟩
  · cases hm with
    | closeEmptyCall _ hb hw => exact ⟨hb, _, hw⟩
    | literal hk' | constant hk' | function hk' | unary hk' | group hk' =>
        cases hk.symm.trans hk'
  · cases hm

end

theorem run_closeCall {w : Work} {pending : List Pending} {ts : List Token} {f : Function}
    {name close : Token} {b : Brackets} {separators base : Nat}
    (hk : close.kind = .symbol .closing)
    (h : Moment.run c n width
      ⟨⟨w, .call f name b separators base :: pending, .operand⟩, close :: ts⟩ = .ok r) :
    ∃ w', State.finishCall n w f name base (separators + 1) = .ok w' := by
  obtain ⟨next, rest, he, hks | ⟨-, -, hw⟩⟩ := run_call (fun op hop => by
    cases hk.symm.trans (Catalog.infix?_eq_some.mp hop).1) h
  · cases he
    cases hk.symm.trans hks
  · exact hw

/-! ## What is evaluated can be read -/

/-- What holds where an operand is to begin in a run that gives a value. -/
structure Awaits (c : Catalog) (n : Numerics) (width : Nat) (r : Number × Work) (st : State)
    (ts : List Token) : Prop where
  /-- No operand has just ended. -/
  previous : st.previous ≠ .operand
  /-- It is not the closing bracket of an empty call that comes next. -/
  notEmpty : st.isAtEmptyCall = true →
    ∀ close rest, ts = close :: rest → close.kind ≠ .symbol .closing
  /-- The run gives a value. -/
  run : Moment.run c n width ⟨st, ts⟩ = .ok r

/-- A tree has been found at the front of the tokens, and moves over them put
its value in front. -/
def Found (c : Catalog) (n : Numerics) (phrase : Tree → Phrase) (st : State) (m : Moment)
    (ts : List Token) : Prop :=
  ∃ t x steps rest, Reads c (phrase t) ts rest ∧ t.eval n st.work.steps = .ok (x, steps) ∧
    Leads c n m ⟨st.hold x steps, rest⟩

mutual

theorem found_operand {st : State} {ts : List Token} (h : Awaits c n width r st ts) :
    Found c n .operand st ⟨st, ts⟩ ts := by
  obtain ⟨hp, hne, hrun⟩ := h
  rcases Moment.moves_or_done hrun with ⟨m', hm⟩ | ⟨_, _, hm, _⟩
  · have hrun' : m'.run c n width = .ok r := hm.run_eq.symm.trans hrun
    cases hm with
    | apply | binary | separator | closeGroup | closeCall => exact absurd rfl hp
    | closeEmptyCall hk => exact absurd hk (hne rfl _ _ rfl)
    | @literal w _ _ token ts x hk _ hx =>
        refine ⟨.literal token, x, w.steps, ts, .literal hk, ?_,
          .step (.literal hk hp hx) (.refl _)⟩
        simp only [Tree.eval, hx, ok_bind, pure_eq_ok]
    | @constant w _ _ _ token ts k hk _ hf hc hw =>
        obtain ⟨z, s, hz, rfl⟩ := Work.applyConstant_append.mp hw
        exact ⟨.constant k token, z, s, ts, .constant hk hc, hz, leads_constant hk hp hc hz⟩
    | @function w pending _ token next ts f b hk _ hf hkn hb =>
        by_cases hclose : ∃ close rest, ts = close :: rest ∧ close.kind = .symbol .closing
        · obtain ⟨close, rest, rfl, hkc⟩ := hclose
          obtain ⟨hbc, w', hw⟩ := run_emptyCall hkc hrun'
          obtain ⟨ha, z, s, hz, rfl⟩ :=
            (State.finishCall_append [] w.operands).mp hw
          refine ⟨.call f token [], z, s, rest, .emptyCall hk hf hkn hb hkc hbc ha, ?_,
            leads_emptyCall hk hp hf hkn hb hkc hbc ha hz⟩
          simp only [Tree.eval, Tree.evalAll, ok_bind]
          exact hz
        · have hnext : Awaits c n width r
              ⟨w, .call f token b 0 w.operands.length :: pending, .opening⟩ ts :=
            ⟨nofun, fun _ close rest he hkc => hclose ⟨close, rest, he, hkc⟩, hrun'⟩
          obtain ⟨args, xs, s, close, separators, rest, hr, hxs, hs, hkc, hbc, hl⟩ :=
            found_arguments hnext
          obtain ⟨w', hw⟩ := run_closeCall hkc (hl.run_eq.symm.trans hrun')
          rw [hs, Nat.zero_add] at hw
          obtain ⟨ha, z, s', hz, rfl⟩ := (State.finishCall_append _ _).mp hw
          refine ⟨.call f token args, z, s', rest, .call hk hf hkn hb hr ?_, ?_,
            leads_call hk hp hf hkn hb hl (by omega) hkc hbc ha hz⟩
          · rw [← Tree.length_of_evalAll hxs]
            exact ha
          · simp only [Tree.eval, hxs, ok_bind]
            exact hz
    | @unary w pending _ token ts u hk _ hu =>
        have hnext : Awaits c n width r ⟨w, .operator u token :: pending, .operator⟩ ts :=
          ⟨nofun, nofun, hrun'⟩
        obtain ⟨t, x, s, rest, hr, hx, hl⟩ := found_expression hnext
        obtain ⟨hd, w', hw⟩ := run_unclosed hr.reduces_of_infix? (hl.run_eq.symm.trans hrun')
        have ha : u.arity.count = [x].length := by
          rw [c.arity_of_findOperator? hu]
          rfl
        obtain ⟨z, s', hz, rfl⟩ := (Work.applyOperator_append _ ha).mp hw
        refine ⟨.unary u token t, z, s', rest, .unary hk hu hr, ?_,
          leads_unary hk hp hu hl hd hz⟩
        simp only [Tree.eval, hx, ok_bind]
        exact hz
    | @group w pending _ token ts b hk _ hb =>
        have hnext : Awaits c n width r ⟨w, .group b token :: pending, .opening⟩ ts :=
          ⟨nofun, nofun, hrun'⟩
        obtain ⟨t, x, s, rest, hr, hx, hl⟩ := found_expression hnext
        obtain ⟨close, rest', rfl, hkc, hbc⟩ :=
          run_group hr.reduces_of_infix? (hl.run_eq.symm.trans hrun')
        exact ⟨t, x, s, rest', .group hk hb hr hkc hbc, hx, leads_group hk hp hb hl hkc hbc⟩
  · cases hm
    exact absurd rfl hp
termination_by 3 * ts.length

theorem found_chain {st : State} {left : Tree} {x : Number} {steps : List Step}
    {ts : List Token} (hx : left.eval n st.work.steps = .ok (x, steps))
    (hrun : Moment.run c n width ⟨st.hold x steps, ts⟩ = .ok r) :
    Found c n (.chain (Pending.top st.pending) left) st ⟨st.hold x steps, ts⟩ ts := by
  cases hb : c.infix? ts with
  | none =>
      have hnone : ∀ b, c.infix? ts = some b →
          Operator.reduces (Pending.top st.pending) b = true := by
        simp only [hb, reduceCtorEq, false_implies, implies_true]
      exact ⟨left, x, steps, ts, .stop hnone, hx, .refl _⟩
  | some b =>
      cases hr : Operator.reduces (Pending.top st.pending) b with
      | true =>
          refine ⟨left, x, steps, ts, .stop ?_, hx, .refl _⟩
          intro b' hb'
          cases hb.symm.trans hb'
          exact hr
      | false =>
          obtain ⟨token, ts', hts⟩ := Catalog.exists_cons_of_infix? hb
          rw [hts] at hb hrun ⊢
          obtain ⟨hk, ho⟩ := Catalog.infix?_eq_some.mp hb
          have hnext : Awaits c n width r
              ⟨⟨x :: st.work.operands, steps⟩, .operator b token :: st.pending, .operator⟩ ts' :=
            ⟨nofun, nofun, (Moves.binary hk ho hr).run_eq.symm.trans hrun⟩
          obtain ⟨right, y, s, mid, hright, hy, hl⟩ := found_expression hnext
          have hlen := hright.length_le
          have hlt : ts'.length < ts.length := by
            rw [hts, List.length_cons]
            omega
          obtain ⟨hd, w', hw⟩ :=
            run_unclosed hright.reduces_of_infix? (hl.run_eq.symm.trans hnext.run)
          have ha : b.arity.count = [x, y].length := by
            rw [c.arity_of_findOperator? ho]
            rfl
          obtain ⟨z, s', hz, rfl⟩ := (Work.applyOperator_append _ ha).mp hw
          have hlb := leads_binary hb hr hl hd hz
          have hxy : (Tree.binary b token left right).eval n st.work.steps = .ok (z, s') := by
            simp only [Tree.eval, hx, ok_bind]
            rw [hy]
            exact hz
          obtain ⟨t, u, s'', rest, ht, hu, hm⟩ := found_chain hxy (hlb.run_eq.symm.trans hrun)
          exact ⟨t, u, s'', rest, .extend hb hr hright ht, hu, hlb.trans hm⟩
termination_by 3 * ts.length

theorem found_expression {st : State} {ts : List Token} (h : Awaits c n width r st ts) :
    Found c n (.expression (Pending.top st.pending)) st ⟨st, ts⟩ ts := by
  obtain ⟨left, x, steps, mid, hl, hx, hm⟩ := found_operand h
  have hlen := hl.length_le
  obtain ⟨t, y, steps', rest, ht, hy, hm'⟩ := found_chain hx (hm.run_eq.symm.trans h.run)
  exact ⟨t, y, steps', rest, .expression hl ht, hy, hm.trans hm'⟩
termination_by 3 * ts.length + 1

theorem found_arguments {w : Work} {f : Function} {name : Token} {b : Brackets}
    {separators base : Nat} {pending : List Pending} {previous : Previous} {ts : List Token}
    (h : Awaits c n width r ⟨w, .call f name b separators base :: pending, previous⟩ ts) :
    ∃ args xs steps close separators' rest,
      Reads c (.arguments b args) ts rest ∧ Tree.evalAll n args w.steps = .ok (xs, steps) ∧
      separators' + 1 = separators + xs.length ∧ close.kind = .symbol .closing ∧
      b.closing = close.text ∧
      Leads c n ⟨⟨w, .call f name b separators base :: pending, previous⟩, ts⟩
        ⟨⟨⟨xs.reverse ++ w.operands, steps⟩, .call f name b separators' base :: pending,
          .operand⟩, close :: rest⟩ := by
  obtain ⟨t, x, s, mid, ht, hx, hl⟩ := found_expression h
  have hlen := ht.length_le
  have hrun := hl.run_eq.symm.trans h.run
  obtain ⟨next, rest, rfl, hks | ⟨hkc, hbc, w', hw⟩⟩ := run_call ht.reduces_of_infix? hrun
  · have hlt : rest.length < ts.length := by
      rw [List.length_cons] at hlen
      omega
    have hnext : Awaits c n width r
        ⟨⟨x :: w.operands, s⟩, .call f name b (separators + 1) base :: pending, .separator⟩ rest :=
      ⟨nofun, nofun, (Moves.separator hks).run_eq.symm.trans hrun⟩
    obtain ⟨args, xs, s', close, separators', rest', hr, hxs, hs, hkc, hbc, hl'⟩ :=
      found_arguments hnext
    refine ⟨t :: args, x :: xs, s', close, separators', rest', .more ht hks hr, ?_, ?_, hkc, hbc,
      ?_⟩
    · simp only [Tree.evalAll, hx, ok_bind, pure_eq_ok]
      rw [hxs, ok_bind]
    · simp only [List.length_cons]
      omega
    · rw [List.reverse_cons, List.append_assoc, List.singleton_append]
      exact hl.trans (.step (.separator hks) hl')
  · refine ⟨[t], [x], s, next, separators, rest, .last ht hkc hbc, ?_, rfl, hkc, hbc, hl⟩
    simp only [Tree.evalAll, hx, ok_bind, pure_eq_ok]
termination_by 3 * ts.length + 2

end

/-! ## Agreement -/

/-- An evaluation gives a value by certain steps just where the tokens are read
as a tree that has the value by these steps. -/
theorem Evaluation.ofTokens_eq_ok_iff {tokens : List Token} {x : Number} {steps : List Step} :
    Evaluation.ofTokens c n width tokens = ⟨steps, .ok x⟩ ↔
      ∃ t, c.Accepts tokens t ∧ t.eval n [] = .ok (x, steps.reverse) := by
  constructor
  · intro h
    obtain ⟨w, hrun, rfl⟩ := Evaluation.ofTokens_eq_ok.mp h
    -- a run that gives a value finds an expression, and nothing is left behind it
    have hstart : Awaits c n width (x, w) State.initial tokens := ⟨nofun, nofun, hrun⟩
    obtain ⟨t, y, s, rest, ht, hy, hl⟩ := found_expression hstart
    obtain ⟨rfl, z, hz, he⟩ := run_nothing ht.reduces_of_infix? (hl.run_eq.symm.trans hrun)
    cases hz
    cases he
    rw [List.reverse_reverse]
    exact ⟨t, ht, hy⟩
  · rintro ⟨t, ht, hx⟩
    have hl := ht.evaluated State.initial x steps.reverse nofun rfl rfl hx
    rw [hl.ofTokens_eq, List.reverse_reverse]

theorem Catalog.Accepts.unique {tokens : List Token} {t t' : Tree} (h : c.Accepts tokens t)
    (h' : c.Accepts tokens t') : t = t' := by
  cases (Reads.unique h h' rfl).1
  rfl

/-- An evaluation gives a value, with certain steps, if and only if precedence
climbing reads the tokens as a tree whose operands, taken from left to right
before what they are the operands of, give that value with those steps; and
there is no more than one such tree. -/
theorem evaluates_iff_accepts (c : Catalog) (n : Numerics) (width : Nat) (tokens : List Token) :
    (∀ t t', c.Accepts tokens t → c.Accepts tokens t' → t = t') ∧
      ∀ x steps, Evaluation.ofTokens c n width tokens = ⟨steps, .ok x⟩ ↔
        ∃ t, c.Accepts tokens t ∧ t.eval n [] = .ok (x, steps.reverse) := by
  refine ⟨fun t t' h h' => ?_, fun x steps => ?_⟩
  · exact h.unique h'
  · exact Evaluation.ofTokens_eq_ok_iff

end Reckoner
