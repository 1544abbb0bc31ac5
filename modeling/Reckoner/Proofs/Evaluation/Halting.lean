/-
# Where an evaluation stops

An evaluation that gives no value stops at its last moment, and only for one
of these reasons:

    the form       the tokens there are no expression, or a call has a number
                   of arguments that its function does not admit
    the kind       the next token is of no kind that a source can hold
    a numeral      the next token is a numeral without a value
    an application what is applied has no value for its operands

The bookkeeping is never the reason: in a balanced state no operator lacks
operands, no call is out of step, and a single value is left at the end
(`Moment.Ends.stops`).  The steps reported are those on record there.
-/
import Reckoner.Proofs.Evaluation.Balance

namespace Reckoner

/-- Whether a cause is about the form of an expression. -/
def Cause.isFormal : Cause → Bool
  | .behindOperand _ | .noArgumentList _ _ | .unknownName _ _ | .notBinary _
  | .noOperandBefore _ | .opensCallsOnly _ | .noArgumentBefore _ | .separatorOutsideCall _
  | .emptyBrackets _ | .unmatched _ | .mismatched _ _ _ | .emptyExpression | .unexpectedEnd
  | .unclosed _ | .argumentCount _ _ => true
  | _ => false

/-- `Explains c n m cause`: something at the moment `m` is the cause. -/
inductive Explains (c : Catalog) (n : Numerics) (m : Moment) : Cause → Prop
  | form {cause : Cause} : cause.isFormal = true → Explains c n m cause
  | kind {token : Token} {ts : List Token} {name : String} :
      m.tokens = token :: ts → token.kind = .other name → Explains c n m (.unknownToken token)
  | numeral {token : Token} {ts : List Token} {reason : Reason} :
      m.tokens = token :: ts → token.kind = .literal →
      Number.parse n.precision token.text = .error reason →
      Explains c n m (.noValue token.text n.precision reason)
  | application {a : Applied} {xs : List Number} {reason : Reason} :
      m.Asks c a xs →
      a.outcome n.precision (n.draws m.state.work.steps.length) xs = .error reason →
      Explains c n m (.noValue a.surface n.precision reason)

/-- How an evaluation stops at a moment. -/
structure Stops (c : Catalog) (n : Numerics) (m : Moment) (halt : Halt) : Prop where
  /-- The steps are those on record. -/
  steps : halt.steps = m.state.work.steps
  /-- The cause is there. -/
  cause : Explains c n m halt.problem.cause

variable {c : Catalog} {n : Numerics} {width : Nat}

theorem stops_of_halt {α : Type} {w : Work} {pending : List Pending} {previous : Previous}
    {ts : List Token} {cause : Cause} {start : Int} {length : Nat} {halt : Halt}
    (h : w.halt (α := α) cause start length = .error halt) (hf : cause.isFormal = true) :
    Stops c n ⟨⟨w, pending, previous⟩, ts⟩ halt := by
  cases h
  exact ⟨rfl, .form hf⟩

theorem Work.value_eq_error {w : Work} {outcome : Outcome} {subject : String} {token : Token}
    {halt : Halt} (h : w.value n outcome subject token = .error halt) :
    ∃ reason, outcome = .error reason ∧ halt.steps = w.steps ∧
      halt.problem.cause = .noValue subject n.precision reason := by
  cases outcome with
  | ok x => cases h
  | error reason =>
      cases h
      exact ⟨reason, rfl, rfl, rfl⟩

theorem Work.perform_eq_error {w : Work} {applied : Applied} {count : Nat}
    {run : List Number → Outcome} {subject : String} {token : Token} {halt : Halt}
    (h : w.perform n applied count run subject token = .error halt) :
    ∃ reason, run (w.operands.take count).reverse = .error reason ∧ halt.steps = w.steps ∧
      halt.problem.cause = .noValue subject n.precision reason := by
  simp only [perform, bind_eq_error, pure_eq_ok, reduceCtorEq, and_false, exists_false,
    or_false] at h
  exact value_eq_error h

theorem stops_of_apply {w : Work} {op : Operator} {token : Token} {pending : List Pending}
    {ts : List Token} {halt : Halt} (hd : op.isDue c ts = true)
    (h : w.applyOperator n op token = .error halt)
    (hb : State.Balanced ⟨w, .operator op token :: pending, .operand⟩) :
    Stops c n ⟨⟨w, .operator op token :: pending, .operand⟩, ts⟩ halt := by
  unfold Work.applyOperator at h
  rw [if_neg (Nat.not_lt.mpr hb.arity_le)] at h
  obtain ⟨reason, hr, hs, hc⟩ := Work.perform_eq_error h
  refine ⟨hs, ?_⟩
  rw [hc]
  exact .application (.operator hd) hr

theorem stops_of_literal {st : State} {token : Token} {ts : List Token} {halt : Halt}
    (hk : token.kind = .literal) (h : st.literal n token = .error halt) :
    Stops c n ⟨st, token :: ts⟩ halt := by
  simp only [State.literal, bind_eq_error, pure_eq_ok, reduceCtorEq, and_false, exists_false,
    or_false] at h
  rcases h with h | ⟨_, -, h⟩
  · unfold State.expectOperand at h
    split at h
    · exact stops_of_halt h rfl
    · cases h
  · obtain ⟨reason, hr, hs, hc⟩ := Work.value_eq_error h
    refine ⟨hs, ?_⟩
    rw [hc]
    exact .numeral rfl hk hr

theorem stops_of_identifier {st : State} {token : Token} {ts : List Token} {halt : Halt}
    (hk : token.kind = .identifier)
    (h : st.identifier c n token ts.head? = .error halt) :
    Stops c n ⟨st, token :: ts⟩ halt := by
  simp only [State.identifier, bind_eq_error] at h
  rcases h with h | ⟨_, hp, h⟩
  · unfold State.expectOperand at h
    split at h
    · exact stops_of_halt h rfl
    · cases h
  · split at h
    · simp only [State.function, bind_eq_error, pure_eq_ok, reduceCtorEq, and_false,
        exists_false, or_false] at h
      split at h
      · exact stops_of_halt h rfl
      · cases h
    · simp only [State.constant, bind_eq_error, pure_eq_ok, reduceCtorEq, and_false,
        exists_false, or_false] at h
      split at h
      · next k hc =>
          simp only [bind_eq_error, reduceCtorEq, and_false, exists_false, or_false] at h
          obtain ⟨reason, hr, hs, hcause⟩ := Work.perform_eq_error h
          refine ⟨hs, ?_⟩
          rw [hcause]
          exact .application (.constant hk (State.expectOperand_eq_ok.mp hp) hc) hr
      · exact stops_of_halt h rfl

theorem stops_of_operator {st : State} {token : Token} {ts : List Token} {halt : Halt}
    (hs : Moment.Settled c ⟨st, token :: ts⟩) (hk : token.kind = .symbol .operator)
    (h : st.operator c n token = .error halt) : Stops c n ⟨st, token :: ts⟩ halt := by
  obtain ⟨w, pending, previous⟩ := st
  unfold State.operator at h
  split at h
  · next hp =>
      cases hp
      split at h
      · exact stops_of_halt h rfl
      · next op ho =>
          have hd : ∀ top, Pending.top pending = some top → top.yieldsTo op = false := by
            intro top ht
            simpa only [Operator.isDue, hk, ho] using hs rfl top ht
          rw [State.reduce_of_not_due (·.yieldsTo op) hd] at h
          cases h
  · split at h
    · exact stops_of_halt h rfl
    · cases h

theorem stops_of_opening {st : State} {token : Token} {ts : List Token} {halt : Halt}
    (h : st.opening c token = .error halt) : Stops c n ⟨st, token :: ts⟩ halt := by
  simp only [State.opening, bind_eq_error] at h
  rcases h with h | ⟨_, -, h⟩
  · unfold State.expectOperand at h
    split at h
    · exact stops_of_halt h rfl
    · cases h
  · split at h
    · exact stops_of_halt h rfl
    · cases h

theorem stops_of_separator {st : State} {token : Token} {ts : List Token} {halt : Halt}
    (hs : Moment.Settled c ⟨st, token :: ts⟩) (hk : token.kind = .symbol .separator)
    (h : st.separator n token = .error halt) : Stops c n ⟨st, token :: ts⟩ halt := by
  obtain ⟨w, pending, previous⟩ := st
  unfold State.separator at h
  split at h
  · next hp =>
      cases hp
      simp only [hs.reduce_eq (by simp only [Operator.isDue, hk, implies_true]), ok_bind] at h
      split at h
      · cases h
      · exact stops_of_halt h rfl
  · exact stops_of_halt h rfl

/-- A call whose arguments are in step is refused only for what it is, or by
its function. -/
theorem State.finishCall_eq_error {w : Work} {f : Function} {name : Token} {base count : Nat}
    {halt : Halt} (hl : w.operands.length = base + count)
    (h : State.finishCall n w f name base count = .error halt) :
    halt.steps = w.steps ∧
      (halt.problem.cause = .argumentCount f count ∨
        f.admits count = true ∧ ∃ reason,
          (Applied.function f).outcome n.precision (n.draws w.steps.length)
              (w.operands.take (w.operands.length - base)).reverse = .error reason ∧
            halt.problem.cause = .noValue f.name n.precision reason) := by
  unfold State.finishCall at h
  rw [if_neg (not_not_intro hl)] at h
  split at h
  · next ha =>
      obtain ⟨reason, hr, hs, hc⟩ := Work.perform_eq_error h
      refine ⟨hs, Or.inr ⟨ha, reason, ?_, hc⟩⟩
      rw [hl, Nat.add_sub_cancel_left]
      exact hr
  · cases h
    exact ⟨rfl, Or.inl rfl⟩

theorem stops_of_closing {st : State} {token : Token} {ts : List Token} {halt : Halt}
    (hs : Moment.Settled c ⟨st, token :: ts⟩) (hk : token.kind = .symbol .closing)
    (hb : st.Balanced) (h : st.closing n token = .error halt) :
    Stops c n ⟨st, token :: ts⟩ halt := by
  obtain ⟨w, pending, previous⟩ := st
  unfold State.closing at h
  split at h
  · next hp =>
      rw [Bool.or_eq_true, decide_eq_true_eq] at hp
      rcases hp with rfl | hp
      · simp only [hs.reduce_eq (by simp only [Operator.isDue, hk, implies_true]), ok_bind] at h
        split at h
        · split at h
          · next hc =>
              simp only [State.isAtEmptyCall, Bool.false_eq_true, if_false, bind_eq_error,
                pure_eq_ok, reduceCtorEq, and_false, exists_false, or_false] at h
              obtain ⟨hst, hcause | ⟨ha, reason, hr, hcause⟩⟩ :=
                State.finishCall_eq_error hb.length_of_call h
              · exact ⟨hst, hcause ▸ .form rfl⟩
              · exact ⟨hst, hcause ▸ .application (.call hk hc ha) hr⟩
          · exact stops_of_halt h rfl
        · split at h
          · cases h
          · exact stops_of_halt h rfl
        · exact stops_of_halt h rfl
      · obtain ⟨rfl, f, name, b, separators, base, rest, rfl⟩ := State.isAtEmptyCall_eq_true hp
        simp only [Work.reduce, ok_bind] at h
        split at h
        · next hc =>
            simp only [bind_eq_error, pure_eq_ok, reduceCtorEq, and_false, exists_false,
              or_false] at h
            obtain ⟨hst, hcause | ⟨ha, reason, hr, hcause⟩⟩ :=
              State.finishCall_eq_error hb.length_of_emptyCall h
            · exact ⟨hst, hcause ▸ .form rfl⟩
            · exact ⟨hst, hcause ▸ .application (.emptyCall hk hc ha) hr⟩
        · exact stops_of_halt h rfl
  · split at h
    · exact stops_of_halt h rfl
    · exact stops_of_halt h rfl

theorem stops_of_handle {st : State} {token : Token} {ts : List Token} {halt : Halt}
    (hs : Moment.Settled c ⟨st, token :: ts⟩) (hb : st.Balanced)
    (h : st.handle c n token ts.head? = .error halt) : Stops c n ⟨st, token :: ts⟩ halt := by
  unfold State.handle at h
  split at h
  · next hk =>
      simp only [bind_eq_error, pure_eq_ok, reduceCtorEq, and_false, exists_false, or_false] at h
      exact stops_of_literal hk h
  · next hk => exact stops_of_identifier hk h
  · next hk =>
      simp only [bind_eq_error, pure_eq_ok, reduceCtorEq, and_false, exists_false, or_false] at h
      exact stops_of_operator hs hk h
  · simp only [bind_eq_error, pure_eq_ok, reduceCtorEq, and_false, exists_false, or_false] at h
    exact stops_of_opening h
  · next hk =>
      simp only [bind_eq_error, pure_eq_ok, reduceCtorEq, and_false, exists_false, or_false] at h
      exact stops_of_closing hs hk hb h
  · next hk =>
      simp only [bind_eq_error, pure_eq_ok, reduceCtorEq, and_false, exists_false, or_false] at h
      exact stops_of_separator hs hk h
  · next hk =>
      cases h
      exact ⟨rfl, .kind rfl hk⟩

theorem stops_of_finish {st : State} {halt : Halt} (hs : Moment.Settled c ⟨st, []⟩)
    (hb : st.Balanced) (h : st.finish n width = .error halt) : Stops c n ⟨st, []⟩ halt := by
  obtain ⟨⟨operands, steps⟩, pending, previous⟩ := st
  unfold State.finish at h
  split at h
  · exact stops_of_halt h rfl
  · next hp =>
      cases hp
      simp only [hs.reduce_eq (by simp only [Operator.isDue, implies_true]), ok_bind] at h
      split at h
      · exact stops_of_halt h rfl
      · next hu =>
          cases pending with
          | nil =>
              -- nothing is pending, so the operand that has ended is the only value
              obtain ⟨x, rfl⟩ := List.length_eq_one_iff.mp hb.height
              cases h
          | cons entry rest =>
              cases entry with
              | operator op => cases hs rfl op rfl
              | call | group => cases hu
  · exact stops_of_halt h rfl

/-- At its last moment an evaluation that was balanced stops for one of the
reasons given, and never because its bookkeeping is wrong. -/
theorem Moment.Ends.stops {m : Moment} {halt : Halt} (h : m.Ends c n width (.error halt))
    (hb : m.state.Balanced) : Stops c n m halt := by
  generalize hr : Except.error halt = r at h
  cases h with
  | apply hd h =>
      cases hr
      exact stops_of_apply hd h hb
  | token hs h =>
      cases hr
      exact stops_of_handle hs hb h
  | finish hs => exact stops_of_finish hs hb hr.symm

/-! ## The last moment of an evaluation -/

/-- An evaluation goes by moves to a last moment.  The steps are those on
record there, and either a single value is left and nothing is pending, or the
evaluation stops there. -/
theorem Evaluation.exists_last (c : Catalog) (n : Numerics) (width : Nat) (tokens : List Token) :
    ∃ m, Leads c n (Moment.start tokens) m ∧ m.state.Balanced ∧
      (Evaluation.ofTokens c n width tokens).steps = m.state.work.steps.reverse ∧
      ((∃ x, (Evaluation.ofTokens c n width tokens).result = .ok x ∧
          m.state.work.operands = [x]) ∨
        ∃ halt, (Evaluation.ofTokens c n width tokens).result = .error halt.problem ∧
          Stops c n m halt) := by
  obtain ⟨m, hl, he⟩ := (Moment.start tokens).exists_ends c n width
  have hb := hl.balanced State.balanced_initial
  refine ⟨m, hl, hb, ?_⟩
  have hrun : State.run c n width none State.initial tokens =
    (Moment.start tokens).run c n width := rfl
  simp only [Evaluation.ofTokens, Evaluation.ofLexing, hrun]
  cases hr : (Moment.start tokens).run c n width with
  | error halt =>
      rw [hr] at he
      have hs := he.stops hb
      exact ⟨congrArg List.reverse hs.steps, Or.inr ⟨halt, rfl, hs⟩⟩
  | ok r =>
      rw [hr] at he
      obtain ⟨x, steps, rfl, rfl⟩ := he.done
      exact ⟨rfl, Or.inl ⟨x, rfl, rfl⟩⟩

end Reckoner
