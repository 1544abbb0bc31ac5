/-
# What is refused

A token is refused for the shape that it would give to the expression, unless
it is refused for a number: for arguments too few or too many, for a numeral or
an application without a value.  Here it is shown that a token refused for the
shape completes no state, whatever follows it:

    behind an operand   what neither continues the expression nor ends it
    before an operand   what begins no operand, with the token behind it if it
                        is the name of a function
    a separator         outside a call, or without an argument before it
    a closing bracket   that closes nothing, or not what is open, or behind
                        which an operand is missing

The end of the tokens is refused in the same way where they are no expression.
One name of a function is refused too early to tell: the last token, where
calls can be written, since a bracket behind it would do.
-/
import Reckoner.Proofs.Evaluation.Halting
import Reckoner.Proofs.Grammar.Completion

namespace Reckoner

/-- Whether a failure is about the shape of an expression: neither about a
number of arguments nor about a number without a value. -/
def Category.concernsShape : Category → Bool
  | arity _ _ _ _ | operand _ | precision _ _ => false
  | lexical _ | structural | internal => true

namespace State

/-- Whether a token is the name of a function where an operand is due. -/
def beginsCall (c : Catalog) (st : State) (token : Token) : Bool :=
  st.previous ≠ .operand && token.kind = .identifier && (c.findFunction? token.text).isSome

/-- The token behind one that is handled, if that is looked at as well. -/
def inspected (c : Catalog) (st : State) (token : Token) (ts : List Token) : List Token :=
  if st.beginsCall c token then ts.take 1 else []

/-- Whether a token is the last one, and only a bracket behind it is missing:
the name of a function where an operand is due, if calls can be written. -/
def lacksBracket (c : Catalog) (st : State) (token : Token) (ts : List Token) : Bool :=
  st.beginsCall c token && ts.isEmpty && !c.functionBrackets.isEmpty

end State

variable {c : Catalog} {n : Numerics} {width : Nat}

theorem Cause.concernsShape_noValue (subject : String) (p : Nat) (reason : Reason) :
    (Cause.noValue subject p reason).category.concernsShape = false := by
  simp only [Cause.category]
  split
  · rfl
  · rfl

/-! ## Nothing completes -/

section

variable {st : State} {token : Token} {ts : List Token}

theorem not_completes_behind (hp : st.previous = .operand) (hi : c.infix? (token :: ts) = none)
    (hc : token.kind ≠ .symbol .closing) (hs : token.kind ≠ .symbol .separator) :
    ¬ st.Completes c (token :: ts) := by
  obtain ⟨w, pending, previous⟩ := st
  cases hp
  intro h
  rcases ((completes_behind_end hi).mp h).kind_eq with h | h
  · exact hc h
  · exact hs h

theorem not_completes_before (hp : st.previous ≠ .operand) (hc : token.kind ≠ .symbol .closing)
    (ho : ∀ mid, ¬ Derives c .operand (token :: ts) mid) : ¬ st.Completes c (token :: ts) := by
  intro h
  obtain ⟨mid, he, -⟩ := (completes_before_iff hp hc).mp h
  cases he with
  | expression h₁ => exact ho _ h₁

/-- Where an operand is due, a token that begins none completes nothing. -/
theorem not_completes_of_startsOperand (hp : st.previous ≠ .operand)
    (hc : token.kind ≠ .symbol .closing) (hs : startsOperand (token :: ts) = false) :
    ¬ st.Completes c (token :: ts) := by
  refine not_completes_before hp hc fun mid h => ?_
  have := h.startsOperand_eq nofun
  rw [hs] at this
  cases this

end

/-! ## A token that is refused -/

section

variable {st : State} {token : Token} {ts : List Token} {halt : Halt}

theorem State.expectOperand_eq_error (h : st.expectOperand token = .error halt) :
    st.previous = .operand := by
  unfold State.expectOperand at h
  split at h
  · next hp => exact hp
  · cases h

theorem refused_literal (hk : token.kind = .literal) (h : st.literal n token = .error halt)
    (hs : halt.problem.cause.category.concernsShape = true) (more : List Token) :
    ¬ st.Completes c (token :: more) := by
  simp only [State.literal, bind_eq_error, pure_eq_ok, reduceCtorEq, and_false, exists_false,
    or_false] at h
  rcases h with h | ⟨_, -, h⟩
  · exact not_completes_behind (State.expectOperand_eq_error h)
      (Catalog.infix?_eq_none (ne_of_kind hk (by decide))) (ne_of_kind hk (by decide))
      (ne_of_kind hk (by decide))
  · obtain ⟨reason, -, -, hc⟩ := Work.value_eq_error h
    rw [hc, Cause.concernsShape_noValue] at hs
    cases hs

/-- The name of a function is followed by a bracket that may open a call. -/
theorem Derives.callBrackets?_ne_none {f : Function} {mid : List Token}
    (hf : c.findFunction? token.text = some f) (hk : token.kind = .identifier)
    (h : Derives c .operand (token :: ts) mid) : State.callBrackets? c ts.head? ≠ none := by
  cases h with
  | call _ _ hkn hb | emptyCall _ _ hkn hb =>
      rw [List.head?_cons, State.callBrackets?_some hkn hb]
      exact nofun
  | constant _ hc => cases (c.findFunction?_eq_none hc).symm.trans hf
  | literal hk' | unary hk' | group hk' => cases hk.symm.trans hk'

theorem State.callBrackets?_of_no_brackets (hb : c.functionBrackets = []) (next : Option Token) :
    State.callBrackets? c next = none := by
  cases h : State.callBrackets? c next with
  | none => rfl
  | some b =>
      obtain ⟨_, _, _, hfind⟩ := State.callBrackets?_eq_some h
      simp only [Definition.findFunctionBrackets?, hb, List.find?_nil, reduceCtorEq] at hfind

theorem refused_identifier (hk : token.kind = .identifier)
    (h : st.identifier c n token ts.head? = .error halt)
    (hs : halt.problem.cause.category.concernsShape = true)
    (hl : st.lacksBracket c token ts = false) (more : List Token) :
    ¬ st.Completes c (token :: (st.inspected c token ts ++ more)) := by
  simp only [State.identifier, bind_eq_error] at h
  rcases h with h | ⟨_, hp, h⟩
  · exact not_completes_behind (State.expectOperand_eq_error h)
      (Catalog.infix?_eq_none (ne_of_kind hk (by decide))) (ne_of_kind hk (by decide))
      (ne_of_kind hk (by decide))
  · have hp := State.expectOperand_eq_ok.mp hp
    refine not_completes_before hp (ne_of_kind hk (by decide)) fun mid hd => ?_
    split at h
    · next f hf =>
        simp only [State.function, bind_eq_error, pure_eq_ok, reduceCtorEq, and_false,
          exists_false, or_false] at h
        have hbegins : st.beginsCall c token = true := by
          simp only [State.beginsCall, hp, hk, hf, ne_eq, not_false_eq_true, decide_true,
            Option.isSome_some, Bool.and_self]
        split at h
        · next hnone =>
            refine hd.callBrackets?_ne_none hf hk ?_
            cases ts with
            | cons next rest =>
                simp only [State.inspected, hbegins, if_true, List.take_succ_cons, List.take_zero,
                  List.singleton_append, List.head?_cons] at hnone ⊢
                exact hnone
            | nil =>
                -- nothing follows, so calls cannot be written at all
                refine State.callBrackets?_of_no_brackets ?_ _
                simpa only [State.lacksBracket, hbegins, List.isEmpty_nil, Bool.and_self,
                  Bool.true_and, Bool.not_eq_false', List.isEmpty_iff] using hl
        · cases h
    · next hf =>
        simp only [State.constant, bind_eq_error, pure_eq_ok, reduceCtorEq, and_false,
          exists_false, or_false] at h
        split at h
        · simp only [bind_eq_error, reduceCtorEq, and_false, exists_false, or_false] at h
          obtain ⟨reason, -, -, hc⟩ := Work.perform_eq_error h
          rw [hc, Cause.concernsShape_noValue] at hs
          cases hs
        · next hconst =>
            generalize State.inspected c st token ts ++ more = rest at hd
            cases hd with
            | constant _ hc => cases hconst.symm.trans hc
            | call _ hf' | emptyCall _ hf' => cases hf.symm.trans hf'
            | literal hk' | unary hk' | group hk' => cases hk.symm.trans hk'

theorem refused_operator (hset : Moment.Settled c ⟨st, token :: ts⟩)
    (hk : token.kind = .symbol .operator) (h : st.operator c n token = .error halt)
    (more : List Token) : ¬ st.Completes c (token :: more) := by
  obtain ⟨w, pending, previous⟩ := st
  unfold State.operator at h
  split at h
  · next hp =>
      cases hp
      split at h
      · next hnone =>
          refine not_completes_behind rfl ?_ (ne_of_kind hk (by decide)) (ne_of_kind hk (by decide))
          simp only [Catalog.infix?, hk, hnone]
      · next op ho =>
          have hd : ∀ top, Pending.top pending = some top → top.yieldsTo op = false := by
            intro top ht
            simpa only [Operator.isDue, hk, ho] using hset rfl top ht
          rw [State.reduce_of_not_due (·.yieldsTo op) hd] at h
          cases h
  · next hp =>
      split at h
      · next hnone =>
          refine not_completes_before hp (ne_of_kind hk (by decide)) fun mid hd => ?_
          cases hd with
          | unary _ hu => cases hnone.symm.trans hu
          | literal hk' | constant hk' | group hk' | call hk' | emptyCall hk' =>
              cases hk.symm.trans hk'
      · cases h

theorem refused_opening (hk : token.kind = .symbol .opening)
    (h : st.opening c token = .error halt) (more : List Token) :
    ¬ st.Completes c (token :: more) := by
  simp only [State.opening, bind_eq_error] at h
  rcases h with h | ⟨_, hp, h⟩
  · exact not_completes_behind (State.expectOperand_eq_error h)
      (Catalog.infix?_eq_none (ne_of_kind hk (by decide))) (ne_of_kind hk (by decide))
      (ne_of_kind hk (by decide))
  · refine not_completes_before (State.expectOperand_eq_ok.mp hp) (ne_of_kind hk (by decide))
      fun mid hd => ?_
    split at h
    · next hnone =>
        cases hd with
        | group _ hb => cases hnone.symm.trans hb
        | literal hk' | constant hk' | unary hk' | call hk' | emptyCall hk' =>
            cases hk.symm.trans hk'
    · cases h

theorem refused_separator (hset : Moment.Settled c ⟨st, token :: ts⟩)
    (hk : token.kind = .symbol .separator) (h : st.separator n token = .error halt)
    (more : List Token) : ¬ st.Completes c (token :: more) := by
  obtain ⟨w, pending, previous⟩ := st
  unfold State.separator at h
  split at h
  · next hp =>
      cases hp
      simp only [hset.reduce_eq (by simp only [Operator.isDue, hk, implies_true]), ok_bind] at h
      rw [completes_behind_end (Catalog.infix?_eq_none (ne_of_kind hk (by decide)))]
      intro hf
      cases hf with
      | operator =>
          have := hset rfl _ rfl
          simp only [Operator.isDue, hk, Bool.true_eq_false] at this
      | group hk' | call hk' => cases hk.symm.trans hk'
      | separator => cases h
  · next hp =>
      refine not_completes_of_startsOperand hp (ne_of_kind hk (by decide)) ?_
      simp only [startsOperand, hk]

/-- A call that is in step and closed is refused for a number only. -/
theorem Cause.concernsShape_finishCall {w : Work} {f : Function} {name : Token}
    {base count : Nat} (hl : w.operands.length = base + count)
    (h : State.finishCall n w f name base count = .error halt) :
    halt.problem.cause.category.concernsShape = false := by
  obtain ⟨-, hc | ⟨-, reason, -, hc⟩⟩ := State.finishCall_eq_error hl h
  · rw [hc]
    rfl
  · rw [hc]
    exact Cause.concernsShape_noValue _ _ _

theorem refused_closing_behind {w : Work} {pending : List Pending}
    (hset : Moment.Settled c ⟨⟨w, pending, .operand⟩, token :: ts⟩)
    (hb : State.Balanced ⟨w, pending, .operand⟩) (hk : token.kind = .symbol .closing)
    (h : State.closing n ⟨w, pending, .operand⟩ token = .error halt)
    (hs : halt.problem.cause.category.concernsShape = true) (more : List Token) :
    ¬ State.Completes c ⟨w, pending, .operand⟩ (token :: more) := by
  rw [completes_behind_end (Catalog.infix?_eq_none (ne_of_kind hk (by decide)))]
  intro hf
  simp only [State.closing, decide_true, Bool.true_or, if_true,
    hset.reduce_eq (by simp only [Operator.isDue, hk, implies_true]), ok_bind] at h
  cases hf with
  | operator =>
      have := hset rfl _ rfl
      simp only [Operator.isDue, hk, Bool.true_eq_false] at this
  | group _ hbc => simp only [hbc, if_true, pure_eq_ok, reduceCtorEq] at h
  | call _ hbc =>
      simp only [hbc, if_true, State.isAtEmptyCall, Bool.false_eq_true, if_false, bind_eq_error,
        pure_eq_ok, reduceCtorEq, and_false, exists_false, or_false] at h
      rw [Cause.concernsShape_finishCall hb.length_of_call h] at hs
      cases hs
  | separator hk' => cases hk.symm.trans hk'

theorem refused_closing (hset : Moment.Settled c ⟨st, token :: ts⟩) (hb : st.Balanced)
    (hk : token.kind = .symbol .closing) (h : st.closing n token = .error halt)
    (hs : halt.problem.cause.category.concernsShape = true) (more : List Token) :
    ¬ st.Completes c (token :: more) := by
  obtain ⟨w, pending, previous⟩ := st
  intro hcomplete
  cases hcomplete with
  | behind hc hf => exact refused_closing_behind hset hb hk h hs more (.behind hc hf)
  | before _ he =>
      have hstart := he.startsOperand_eq nofun
      simp only [startsOperand, hk, Bool.false_eq_true] at hstart
  | emptyCall _ hbc =>
      simp only [State.closing, State.isAtEmptyCall, Bool.or_true, if_true, Work.reduce, ok_bind,
        hbc, bind_eq_error, pure_eq_ok, reduceCtorEq, and_false, exists_false, or_false] at h
      rw [Cause.concernsShape_finishCall hb.length_of_emptyCall h] at hs
      cases hs

theorem refused_other {name : String} (hk : token.kind = .other name) (more : List Token) :
    ¬ st.Completes c (token :: more) := by
  by_cases hp : st.previous = .operand
  · exact not_completes_behind hp (Catalog.infix?_eq_none (ne_of_kind hk nofun))
      (ne_of_kind hk nofun) (ne_of_kind hk nofun)
  · refine not_completes_of_startsOperand hp (ne_of_kind hk nofun) ?_
    simp only [startsOperand, hk]

theorem State.inspected_of_ne (hk : token.kind ≠ .identifier) :
    st.inspected c token ts = [] := by
  simp only [inspected, beginsCall, hk, decide_false, Bool.and_false, Bool.false_and,
    Bool.false_eq_true, if_false]

/-- A token that is refused for the shape completes nothing, together with the
token behind it that was looked at. -/
theorem refused_handle (hset : Moment.Settled c ⟨st, token :: ts⟩) (hb : st.Balanced)
    (h : st.handle c n token ts.head? = .error halt)
    (hs : halt.problem.cause.category.concernsShape = true)
    (hl : st.lacksBracket c token ts = false) (more : List Token) :
    ¬ st.Completes c (token :: (st.inspected c token ts ++ more)) := by
  unfold State.handle at h
  split at h
  · next hk =>
      rw [State.inspected_of_ne (ne_of_kind hk (by decide)), List.nil_append]
      simp only [bind_eq_error, pure_eq_ok, reduceCtorEq, and_false, exists_false, or_false] at h
      exact refused_literal hk h hs more
  · next hk => exact refused_identifier hk h hs hl more
  · next hk =>
      rw [State.inspected_of_ne (ne_of_kind hk (by decide)), List.nil_append]
      simp only [bind_eq_error, pure_eq_ok, reduceCtorEq, and_false, exists_false, or_false] at h
      exact refused_operator hset hk h more
  · next hk =>
      rw [State.inspected_of_ne (ne_of_kind hk (by decide)), List.nil_append]
      simp only [bind_eq_error, pure_eq_ok, reduceCtorEq, and_false, exists_false, or_false] at h
      exact refused_opening hk h more
  · next hk =>
      rw [State.inspected_of_ne (ne_of_kind hk (by decide)), List.nil_append]
      simp only [bind_eq_error, pure_eq_ok, reduceCtorEq, and_false, exists_false, or_false] at h
      exact refused_closing hset hb hk h hs more
  · next hk =>
      rw [State.inspected_of_ne (ne_of_kind hk (by decide)), List.nil_append]
      simp only [bind_eq_error, pure_eq_ok, reduceCtorEq, and_false, exists_false, or_false] at h
      exact refused_separator hset hk h more
  · next hk =>
      rw [State.inspected_of_ne (ne_of_kind hk nofun), List.nil_append]
      exact refused_other hk more

end

/-! ## The end -/

/-- Where the end is refused, the tokens are no expression. -/
theorem refused_finish {st : State} {halt : Halt} (hset : Moment.Settled c ⟨st, []⟩)
    (hb : st.Balanced) (h : st.finish n width = .error halt) : ¬ st.Completes c [] := by
  obtain ⟨⟨operands, steps⟩, pending, previous⟩ := st
  intro hcomplete
  cases hcomplete with
  | before _ he => cases he.startsOperand_eq nofun
  | behind hc hf =>
      cases hc
      simp only [State.finish, hset.reduce_eq (by simp only [Operator.isDue, implies_true]),
        ok_bind] at h
      cases hf with
      | operator => cases hset rfl _ rfl
      | nothing =>
          -- nothing is pending, so the operand that has ended is the only value
          obtain ⟨x, rfl⟩ := List.length_eq_one_iff.mp hb.height
          cases h

end Reckoner
