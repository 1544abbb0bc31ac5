/-
# Failures at the first impossible token

A sequence of tokens is viable if more tokens behind it can make it an
expression.  While tokens are handled without a problem, what has been handled
is viable; and a token that is refused for the shape of the expression makes it
viable no more, so that no failure of this kind comes too early or too late:

    a token is handled               what was handled is viable
    a token is refused               with it, nothing is viable
    the end is refused, or the       the whole is viable, but no expression
    name of a function at the end

The last name of a function belongs to the third line only where calls can be
written.  In a catalog without brackets for them it belongs to the second
(`sineName_not_viable`).
-/
import Reckoner.Catalog.Preset
import Reckoner.Proofs.Evaluation.Refusal

namespace Reckoner

/-- `Handled c n m m'`: from `m` to `m'`, token after token is handled without
a problem. -/
inductive Handled (c : Catalog) (n : Numerics) : Moment → Moment → Prop
  | refl (m : Moment) : Handled c n m m
  | step {st st' : State} {token : Token} {ts : List Token} {used : Bool} {m : Moment} :
      st.handle c n token ts.head? = .ok (st', used) →
      Handled c n ⟨st', if used then ts.tail else ts⟩ m → Handled c n ⟨st, token :: ts⟩ m

/-- `FailsAtEnd c n width tokens`: all is handled up to the end, and a failure
of the structure is raised there, or for the name of a function that stands
last and lacks its bracket. -/
inductive FailsAtEnd (c : Catalog) (n : Numerics) (width : Nat) (tokens : List Token) : Prop
  | finish {st : State} {halt : Halt} :
      Handled c n (.start tokens) ⟨st, []⟩ → st.finish n width = .error halt →
      halt.problem.cause.category = .structural → FailsAtEnd c n width tokens
  | name {st : State} {token : Token} {halt : Halt} :
      Handled c n (.start tokens) ⟨st, [token]⟩ → st.lacksBracket c token [] = true →
      st.handle c n token none = .error halt →
      halt.problem.cause.category = .structural → FailsAtEnd c n width tokens

variable {c : Catalog} {n : Numerics} {width : Nat}

/-! ## Handling a token goes by moves -/

theorem leads_of_handle {st st' : State} {token : Token} {ts : List Token} {used : Bool}
    (h : st.handle c n token ts.head? = .ok (st', used)) :
    Leads c n ⟨st, token :: ts⟩ ⟨st', if used then ts.tail else ts⟩ := by
  rcases Moment.settled_or_due (c := c) ⟨st, token :: ts⟩ with hs | ⟨w, op, t, pending, ts', hm, hd⟩
  · exact .step (moves_of_handle hs h) (.refl _)
  · cases hm
    rw [State.handle_due hd] at h
    obtain ⟨w', hw, h⟩ := bind_eq_ok.mp h
    exact .step (.apply hd hw) (leads_of_handle h)
termination_by st.pending.length

/-- A token that is refused is refused at a last moment, with the operators
that it makes due applied. -/
theorem ends_of_handle (width : Nat) {st : State} {token : Token} {ts : List Token} {halt : Halt}
    (h : st.handle c n token ts.head? = .error halt) :
    ∃ st', Leads c n ⟨st, token :: ts⟩ ⟨st', token :: ts⟩ ∧ st'.previous = st.previous ∧
      Moment.Ends c n width ⟨st', token :: ts⟩ (.error halt) := by
  rcases Moment.settled_or_due (c := c) ⟨st, token :: ts⟩ with hs | ⟨w, op, t, pending, ts', hm, hd⟩
  · exact ⟨st, .refl _, rfl, .token hs h⟩
  · cases hm
    rw [State.handle_due hd] at h
    rcases bind_eq_error.mp h with hw | ⟨w', hw, h⟩
    · exact ⟨_, .refl _, rfl, .apply hd hw⟩
    · obtain ⟨st', hl, hp, he⟩ := ends_of_handle width h
      exact ⟨st', .step (.apply hd hw) hl, hp, he⟩
termination_by st.pending.length

theorem Handled.leads {m m' : Moment} (h : Handled c n m m') : Leads c n m m' := by
  induction h with
  | refl m => exact .refl m
  | step h _ ih => exact (leads_of_handle h).trans ih

/-- Tokens are handled up to the end, or up to one that is refused. -/
theorem Handled.exists_stop (c : Catalog) (n : Numerics) (st : State) (tokens : List Token) :
    (∃ st', Handled c n ⟨st, tokens⟩ ⟨st', []⟩) ∨
      ∃ st' token ts halt, Handled c n ⟨st, tokens⟩ ⟨st', token :: ts⟩ ∧
        st'.handle c n token ts.head? = .error halt := by
  match tokens with
  | [] => exact Or.inl ⟨st, .refl _⟩
  | token :: ts =>
      cases h : st.handle c n token ts.head? with
      | error halt => exact Or.inr ⟨st, token, ts, halt, .refl _, h⟩
      | ok r =>
          have hlen : (if r.2 then ts.tail else ts).length ≤ ts.length := by
            split
            · rw [List.length_tail]
              exact Nat.sub_le _ _
            · exact Nat.le_refl _
          rcases exists_stop c n r.1 (if r.2 then ts.tail else ts) with
            ⟨st', hh⟩ | ⟨st', token', ts', halt, hh, herror⟩
          · exact Or.inl ⟨st', .step h hh⟩
          · exact Or.inr ⟨st', token', ts', halt, .step h hh, herror⟩
termination_by tokens.length
decreasing_by
  simp only [List.length_cons]
  omega

/-! ## What has been handled, and what completes it -/

/-- Behind the tokens that moves lead over, those that complete the state are
those that make an expression of them. -/
theorem Leads.exists_before {tokens ts : List Token} {st : State}
    (h : Leads c n (.start tokens) ⟨st, ts⟩) :
    ∃ before, tokens = before ++ ts ∧
      ∀ more, c.IsExpression (before ++ more) ↔ st.Completes c more := by
  obtain ⟨before, ht, hc⟩ := h.completes_iff
  exact ⟨before, ht, fun more => State.completes_initial.symm.trans (hc more)⟩

theorem Moment.Ends.apply_concernsShape {w : Work} {op : Operator} {token : Token}
    {pending : List Pending} {halt : Halt} (h : w.applyOperator n op token = .error halt)
    (hb : State.Balanced ⟨w, .operator op token :: pending, .operand⟩) :
    halt.problem.cause.category.concernsShape = false := by
  unfold Work.applyOperator at h
  rw [if_neg (Nat.not_lt.mpr hb.arity_le)] at h
  obtain ⟨reason, -, -, hc⟩ := Work.perform_eq_error h
  rw [hc]
  exact Cause.concernsShape_noValue _ _ _

/-- What is refused for the shape is refused because of the structure, unless a
token is of no kind that a source can hold. -/
theorem Explains.structural {m : Moment} {cause : Cause} (h : Explains c n m cause)
    (hs : cause.category.concernsShape = true) :
    cause.category = .structural ∨
      ∃ token ts name, m.tokens = token :: ts ∧ token.kind = .other name := by
  cases h with
  | form hf =>
      cases cause with
      | noOperandFor | outOfStep | notSingle | noValue | unknownToken | stray | tooLong => cases hf
      | argumentCount => cases hs
      | _ => exact Or.inl rfl
  | kind ht hk => exact Or.inr ⟨_, _, _, ht, hk⟩
  | numeral | application =>
      rw [Cause.concernsShape_noValue] at hs
      cases hs

/-- A token refused for the shape makes no expression of those before it. -/
theorem not_isExpression_of_handle {before ts : List Token} {st : State} {token : Token}
    {halt : Halt} (hh : Handled c n (.start (before ++ token :: ts)) ⟨st, token :: ts⟩)
    (h : st.handle c n token ts.head? = .error halt)
    (hs : halt.problem.cause.category.concernsShape = true)
    (hl : st.lacksBracket c token ts = false) (after : List Token) :
    ¬ c.IsExpression (before ++ token :: (st.inspected c token ts ++ after)) := by
  obtain ⟨st', hlead, hp, he⟩ := ends_of_handle 0 h
  have hlead := hh.leads.trans hlead
  have hb := hlead.balanced State.balanced_initial
  have hbegins : st.beginsCall c token = st'.beginsCall c token := by
    simp only [State.beginsCall, hp]
  obtain ⟨before', ht, hiff⟩ := hlead.exists_before
  cases List.append_cancel_right ht
  rw [hiff]
  generalize hr : Except.error halt = r at he
  cases he with
  | apply _ ha =>
      cases hr
      rw [Moment.Ends.apply_concernsShape ha hb] at hs
      cases hs
  | token hset herror =>
      cases hr
      simp only [State.inspected, State.lacksBracket, hbegins] at hl ⊢
      exact refused_handle hset hb herror hs hl after

/-- Behind the last token, the operators that are still due are applied before
the end is accepted or refused. -/
theorem ends_of_finish (width : Nat) {tokens : List Token} {st : State}
    (hh : Handled c n (.start tokens) ⟨st, []⟩) :
    ∃ st', st'.Balanced ∧ (c.IsExpression tokens ↔ st'.Completes c []) ∧
      Moment.Ends c n width ⟨st', []⟩ (st.finish n width) := by
  obtain ⟨⟨st', ts⟩, hm, he⟩ := Moment.exists_ends c n width ⟨st, []⟩
  obtain ⟨taken, ht, -⟩ := hm.completes_iff
  obtain ⟨rfl, hts⟩ := List.append_eq_nil_iff.mp ht.symm
  cases hts
  have hlead := hh.leads.trans hm
  obtain ⟨before, rfl, hiff⟩ := hlead.exists_before
  exact ⟨st', hlead.balanced State.balanced_initial, hiff [], he⟩

theorem isExpression_of_finish {tokens : List Token} {st : State} {r : Number × Work}
    (hh : Handled c n (.start tokens) ⟨st, []⟩) (h : st.finish n width = .ok r) :
    c.IsExpression tokens := by
  obtain ⟨st', -, hiff, he⟩ := ends_of_finish width hh
  rw [h] at he
  obtain ⟨x, steps, hm, -⟩ := he.done
  cases hm
  exact hiff.mpr (.behind .stop .nothing)

/-- Tokens whose end is refused for the shape are no expression. -/
theorem not_isExpression_of_finish {tokens : List Token} {st : State} {halt : Halt}
    (hh : Handled c n (.start tokens) ⟨st, []⟩) (h : st.finish n width = .error halt)
    (hs : halt.problem.cause.category.concernsShape = true) : ¬ c.IsExpression tokens := by
  obtain ⟨st', hb, hiff, he⟩ := ends_of_finish width hh
  rw [hiff]
  rw [h] at he
  generalize hr : Except.error halt = r at he
  cases he with
  | apply _ ha =>
      cases hr
      rw [Moment.Ends.apply_concernsShape ha hb] at hs
      cases hs
  | finish hset => exact refused_finish hset hb hr.symm

theorem structural_of_finish {tokens : List Token} {st : State} {halt : Halt}
    (hh : Handled c n (.start tokens) ⟨st, []⟩) (h : st.finish n width = .error halt)
    (hs : halt.problem.cause.category.concernsShape = true) :
    halt.problem.cause.category = .structural := by
  obtain ⟨st', hb, -, he⟩ := ends_of_finish width hh
  rw [h] at he
  rcases (he.stops hb).cause.structural hs with hc | ⟨_, _, _, ht, _⟩
  · exact hc
  · cases ht

/-! ## The name of a function at the end -/

section

variable {st : State} {token : Token}

theorem State.lacksBracket_eq_true {ts : List Token} :
    st.lacksBracket c token ts = true ↔
      st.previous ≠ .operand ∧ token.kind = .identifier ∧
        (∃ f, c.findFunction? token.text = some f) ∧ ts = [] ∧ c.functionBrackets ≠ [] := by
  simp only [lacksBracket, beginsCall, Bool.and_eq_true, decide_eq_true_eq, List.isEmpty_iff,
    Bool.not_eq_eq_eq_not, Bool.not_true, List.isEmpty_eq_false_iff, Option.isSome_iff_exists,
    and_assoc]

/-- A bracket behind it would do. -/
theorem State.exists_completes_name (hl : st.lacksBracket c token [] = true) :
    ∃ more, st.Completes c (token :: more) := by
  obtain ⟨w, pending, previous⟩ := st
  obtain ⟨hp, hk, ⟨f, hf⟩, -, hb⟩ := lacksBracket_eq_true.mp hl
  obtain ⟨b, rest, hbrackets⟩ := List.exists_cons_of_ne_nil hb
  have hfind : c.findFunctionBrackets? b.opening = some b := by
    simp only [Definition.findFunctionBrackets?, hbrackets, decide_true, List.find?_cons_of_pos]
  obtain ⟨more, hmore⟩ := exists_completes c ⟨w, .call f token b 0 0 :: pending, .opening⟩
  refine ⟨⟨.symbol .opening, b.opening, 0, 0⟩ :: more, ?_⟩
  rw [completes_before_iff hp (ne_of_kind hk (by decide))]
  exact (derives_call hk hf rfl hfind).mpr hmore

theorem State.not_completes_name (hl : st.lacksBracket c token [] = true) :
    ¬ st.Completes c [token] := by
  obtain ⟨hp, hk, ⟨f, hf⟩, -, -⟩ := lacksBracket_eq_true.mp hl
  refine not_completes_before hp (ne_of_kind hk (by decide)) fun mid h => ?_
  exact h.callBrackets?_ne_none hf hk rfl

/-- It is refused because of the structure. -/
theorem State.handle_name (hl : st.lacksBracket c token [] = true) {halt : Halt}
    (h : st.handle c n token none = .error halt) : halt.problem.cause.category = .structural := by
  obtain ⟨hp, hk, ⟨f, hf⟩, -, -⟩ := lacksBracket_eq_true.mp hl
  simp only [handle, hk, identifier, expectOperand, hp, if_false, hf, function, callBrackets?,
    ok_bind] at h
  cases h
  rfl

end

/-! ## Failures -/

/-- What fails at the end is viable, but no expression. -/
theorem FailsAtEnd.viable {tokens : List Token} (h : FailsAtEnd c n width tokens) :
    (∃ after, c.IsExpression (tokens ++ after)) ∧ ¬ c.IsExpression tokens := by
  cases h with
  | @finish st halt hh hfin hs =>
      refine ⟨?_, not_isExpression_of_finish hh hfin (by rw [hs]; rfl)⟩
      obtain ⟨before, rfl, hiff⟩ := hh.leads.exists_before
      obtain ⟨after, hafter⟩ := st.exists_completes c
      rw [List.append_nil]
      exact ⟨after, (hiff after).mpr hafter⟩
  | @name st token halt hh hl _ _ =>
      obtain ⟨before, rfl, hiff⟩ := hh.leads.exists_before
      obtain ⟨after, hafter⟩ := State.exists_completes_name hl
      refine ⟨⟨after, ?_⟩, fun h => State.not_completes_name hl ((hiff [token]).mp h)⟩
      rw [List.append_assoc]
      exact (hiff _).mpr hafter

/-- What is viable but no expression fails at the end, unless it fails for a
number. -/
theorem FailsAtEnd.of_viable {tokens after : List Token}
    (hs : ∀ problem, (Evaluation.ofTokens c n width tokens).result = .error problem →
      problem.cause.category.concernsShape = true)
    (hv : c.IsExpression (tokens ++ after)) (hne : ¬ c.IsExpression tokens) :
    FailsAtEnd c n width tokens := by
  have hresult : ∀ halt, (Moment.start tokens).run c n width = .error halt →
      halt.problem.cause.category.concernsShape = true := by
    intro halt h
    refine hs halt.problem ?_
    simp only [Moment.run, Moment.start] at h
    simp only [Evaluation.ofTokens, Evaluation.ofLexing, h]
  rcases Handled.exists_stop c n State.initial tokens with
    ⟨st, hh⟩ | ⟨st, token, ts, halt, hh, h⟩
  · have hrun : (Moment.start tokens).run c n width = st.finish n width := hh.leads.run_eq
    cases hfin : st.finish n width with
    | ok r => exact absurd (isExpression_of_finish hh hfin) hne
    | error halt =>
        exact .finish hh hfin (structural_of_finish hh hfin (hresult halt (hrun.trans hfin)))
  · have hshape : halt.problem.cause.category.concernsShape = true := by
      refine hresult halt (hh.leads.run_eq.trans ?_)
      simp only [Moment.run, State.run_cons, h]
      rfl
    cases hl : st.lacksBracket c token ts with
    | true =>
        obtain ⟨-, -, -, rfl, -⟩ := State.lacksBracket_eq_true.mp hl
        exact .name hh hl h (State.handle_name hl h)
    | false =>
        -- the token that was looked at is among those behind
        obtain ⟨rest, hrest⟩ : ∃ rest, ts = st.inspected c token ts ++ rest := by
          unfold State.inspected
          split
          · exact ⟨ts.drop 1, (List.take_append_drop 1 ts).symm⟩
          · exact ⟨ts, rfl⟩
        obtain ⟨before, rfl, -⟩ := hh.leads.exists_before
        refine absurd hv ?_
        rw [List.append_assoc, List.cons_append]
        conv => rhs; rhs; rhs; rw [hrest, List.append_assoc]
        exact not_isExpression_of_handle hh h hshape hl (rest ++ after)

/-- Failures of the structure are raised exactly at the first impossible token.
If one is raised for a token, then no tokens that begin with those up to it are
an expression, together with the token behind a name of a function where that
was looked at; tokens that are handled without a problem can be made an
expression by others behind them; and unless the evaluation fails for a number,
one is raised at the end, or for a name of a function there that lacks its
bracket, exactly if the tokens can be made an expression but are none. -/
theorem fails_at_first_impossible (c : Catalog) (n : Numerics) (width : Nat)
    (tokens : List Token) :
    (∀ before st token ts halt, tokens = before ++ token :: ts →
      Handled c n (.start tokens) ⟨st, token :: ts⟩ →
      st.handle c n token ts.head? = .error halt →
      halt.problem.cause.category = .structural → st.lacksBracket c token ts = false →
      ∀ after, ¬ c.IsExpression (before ++ token :: (st.inspected c token ts ++ after))) ∧
    (∀ before st ts, tokens = before ++ ts → Handled c n (.start tokens) ⟨st, ts⟩ →
      ∃ after, c.IsExpression (before ++ after)) ∧
    ((∀ problem, (Evaluation.ofTokens c n width tokens).result = .error problem →
        problem.cause.category.concernsShape = true) →
      (FailsAtEnd c n width tokens ↔
        (∃ after, c.IsExpression (tokens ++ after)) ∧ ¬ c.IsExpression tokens)) := by
  refine ⟨?_, ?_, ?_⟩
  · rintro before st token ts halt rfl hh h hs hl after
    exact not_isExpression_of_handle hh h (by rw [hs]; rfl) hl after
  · rintro before st ts rfl hh
    obtain ⟨before', ht, hiff⟩ := hh.leads.exists_before
    cases List.append_cancel_right ht
    obtain ⟨after, hafter⟩ := st.exists_completes c
    exact ⟨after, (hiff after).mpr hafter⟩
  · intro hs
    exact ⟨FailsAtEnd.viable, fun ⟨⟨_, hv⟩, hne⟩ => .of_viable hs hv hne⟩

/-! ## A catalog without calls -/

/-- The standard catalog without brackets that could open a call. -/
def withoutCalls : Catalog where
  toDefinition := { Preset.definition .standard with functionBrackets := [] }
  symbols := Preset.symbols
  consistent := Preset.eq_of_yields (by decide +kernel)

/-- The name of the sine at the start of a source. -/
def sineName : Token := ⟨.identifier, "sin", 0, 3⟩

/-- Where calls cannot be written, the name of a function at the end fails
because of the structure, as everywhere, but no tokens behind it would help. -/
theorem sineName_not_viable :
    State.initial.beginsCall withoutCalls sineName = true ∧
      (Evaluation.ofTokens withoutCalls ⟨20, fun _ => Decimal.zero⟩ 3 [sineName]).result =
        .error ⟨.noArgumentList "sin" none, some ⟨3, 1⟩⟩ ∧
      (Cause.noArgumentList "sin" none).category = .structural ∧
      ∀ after, ¬ withoutCalls.IsExpression ([sineName] ++ after) := by
  refine ⟨by decide, rfl, rfl, fun after h => ?_⟩
  cases h with
  | expression ho _ =>
      have hf : withoutCalls.findFunction? sineName.text = some (Preset.single .sin "sin") := rfl
      exact ho.callBrackets?_ne_none hf rfl (State.callBrackets?_of_no_brackets rfl _)

end Reckoner
