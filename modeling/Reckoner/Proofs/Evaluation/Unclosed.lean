/-
# Brackets that are not closed

An evaluation keeps a barrier for every bracket that is open.  What the tokens
handled so far look like can therefore be read off what is pending:

    pending            the tokens handled
    nothing            Nested
    an operator :: P   those of P
    a group :: P       those of P, the bracket, Nested
    a call :: P        those of P, the name, the bracket, Nested

where `Nested` tokens are those whose brackets match.  Every move keeps this
(`Moves.tracked`), so the barrier in front of the list is that of the innermost
bracket still open, whatever stands behind it.

Only the end of the tokens misses a bracket (`Moment.Ends.exists_barrier`), and
when the operators in front have been applied, the barrier says which one and
where.  A group keeps the token of its bracket.  A call keeps the token of its
name, and the place that it gives is where the name ends.  That is where the
bracket starts, unless something stands between them, and that can only be
spacing.
-/
import Reckoner.Proofs.Evaluation.Attribution

namespace Reckoner

/-! ## Brackets that match -/

/-- Tokens in which every bracket is closed, and none is closed that was not opened. -/
inductive Nested : List Token → Prop
  | nil : Nested []
  | token {t : Token} :
      t.kind ≠ .symbol .opening → t.kind ≠ .symbol .closing → Nested [t]
  | append {ts us : List Token} : Nested ts → Nested us → Nested (ts ++ us)
  | brackets {opener closer : Token} {ts : List Token} :
      opener.kind = .symbol .opening → closer.kind = .symbol .closing → Nested ts →
      Nested (opener :: (ts ++ [closer]))

/-- Whether the last of some tokens, if there is one, is no name. -/
def Nameless (ts : List Token) : Prop := ∀ t, ts.getLast? = some t → t.kind ≠ .identifier

theorem nameless_concat {t : Token} (ts : List Token) (h : t.kind ≠ .identifier) :
    Nameless (ts ++ [t]) := by
  intro u hu
  rw [List.getLast?_concat] at hu
  exact Option.some.inj hu ▸ h

/-- `Opened ts P`: in the tokens `ts`, the brackets that are not closed are those of the
barriers in the pending list `P`. -/
inductive Opened : List Token → List Pending → Prop
  | nothing {ts : List Token} : Nested ts → Opened ts []
  | operator {ts : List Token} {P : List Pending} {op : Operator} {token : Token} :
      Opened ts P → Opened ts (.operator op token :: P)
  | group {before inside : List Token} {P : List Pending} {b : Brackets} {opener : Token} :
      Opened before P → Nameless before → opener.kind = .symbol .opening →
      b.opening = opener.text → Nested inside →
      Opened (before ++ opener :: inside) (.group b opener :: P)
  | call {before inside : List Token} {P : List Pending} {f : Function} {b : Brackets}
      {name opener : Token} {separators base : Nat} :
      Opened before P → name.kind = .identifier → opener.kind = .symbol .opening →
      b.opening = opener.text → Nested inside →
      Opened (before ++ name :: opener :: inside) (.call f name b separators base :: P)

namespace Opened

variable {ts us : List Token} {P : List Pending} {b : Brackets} {opener closer name token : Token}
  {f : Function} {separators base : Nat}

/-- Behind the innermost bracket, tokens whose brackets match open and close nothing. -/
theorem append (h : Opened ts P) (hu : Nested us) : Opened (ts ++ us) P := by
  induction h with
  | nothing hn => exact .nothing (hn.append hu)
  | operator _ ih => exact .operator ih
  | group h hlast hk hb hn =>
      rw [List.append_assoc, List.cons_append]
      exact .group h hlast hk hb (hn.append hu)
  | call h hname hk hb hn =>
      rw [List.append_assoc, List.cons_append, List.cons_append]
      exact .call h hname hk hb (hn.append hu)

theorem concat (h : Opened ts P) (ho : token.kind ≠ .symbol .opening)
    (hc : token.kind ≠ .symbol .closing) : Opened (ts ++ [token]) P :=
  h.append (.token ho hc)

/-- A separator changes only how many the barrier of a call has counted. -/
theorem recount (h : Opened ts (.call f name b separators base :: P)) (k : Nat) :
    Opened ts (.call f name b k base :: P) := by
  cases h with
  | call h hname hk hb hn => exact .call h hname hk hb hn

/-- A closing bracket takes the barrier of a group away. -/
theorem close_group (h : Opened ts (.group b opener :: P)) (hc : closer.kind = .symbol .closing) :
    Opened (ts ++ [closer]) P := by
  cases h with
  | group h _ hk _ hn =>
      rw [List.append_assoc, List.cons_append]
      exact h.append (.brackets hk hc hn)

/-- A closing bracket takes the barrier of a call away. -/
theorem close_call (h : Opened ts (.call f name b separators base :: P))
    (hc : closer.kind = .symbol .closing) : Opened (ts ++ [closer]) P := by
  cases h with
  | call h hname hk _ hn =>
      have hplain : Nested [name] := .token (by rw [hname]; decide) (by rw [hname]; decide)
      rw [List.append_assoc, List.cons_append, List.cons_append]
      exact h.append (hplain.append (.brackets hk hc hn))

end Opened

/-! ## Throughout an evaluation -/

section

variable {c : Catalog} {n : Numerics} {width : Nat} {tokens : List Token}

theorem Definition.opening_of_find {brackets : List Brackets} {text : String} {b : Brackets}
    (h : brackets.find? (fun b => b.opening = text) = some b) : b.opening = text := by
  have hb := List.find?_some h
  rwa [decide_eq_true_eq] at hb

/-- `m.Tracks tokens`: the tokens before the moment `m` are all of `tokens` but those that
it has left, and the brackets that are open there are those that are pending. -/
def Moment.Tracks (tokens : List Token) (m : Moment) : Prop :=
  ∃ handled, handled ++ m.tokens = tokens ∧ Opened handled m.state.pending ∧
    (m.state.previous ≠ .operand → Nameless handled)

/-- Every move keeps track of the brackets. -/
theorem Moves.tracked {m m' : Moment} (h : Moves c n m m') (hm : m.Tracks tokens) :
    m'.Tracks tokens := by
  obtain ⟨handled, hall, hopened, hlast⟩ := hm
  -- one more token has been handled
  have hnext : ∀ {token : Token} {ts : List Token}, handled ++ token :: ts = tokens →
      (handled ++ [token]) ++ ts = tokens := by
    intro token ts hall
    rwa [List.append_assoc, List.singleton_append]
  cases h with
  | apply =>
      cases hopened with
      | operator h => exact ⟨handled, hall, h, nofun⟩
  | literal hk | constant hk =>
      refine ⟨_, hnext hall, hopened.concat ?_ ?_, nofun⟩ <;> rw [hk] <;> decide
  | @function w pending previous token next ts f b hk hp _ hkn hb =>
      refine ⟨handled ++ token :: [next], ?_, ?_, fun _ => ?_⟩
      · rwa [List.append_assoc, List.cons_append, List.singleton_append]
      · exact .call hopened hk hkn (Definition.opening_of_find hb) .nil
      · rw [List.append_cons]
        exact nameless_concat _ (by rw [hkn]; decide)
  | unary hk | binary hk =>
      refine ⟨_, hnext hall, .operator (hopened.concat ?_ ?_), fun _ => nameless_concat _ ?_⟩ <;>
        rw [hk] <;> decide
  | group hk hp hb =>
      refine ⟨_, hnext hall, .group hopened (hlast hp) hk (Definition.opening_of_find hb) .nil, ?_⟩
      exact fun _ => nameless_concat _ (by rw [hk]; decide)
  | separator hk =>
      refine ⟨_, hnext hall, (hopened.concat ?_ ?_).recount _, fun _ => nameless_concat _ ?_⟩ <;>
        rw [hk] <;> decide
  | closeGroup hk => exact ⟨_, hnext hall, hopened.close_group hk, nofun⟩
  | closeCall hk | closeEmptyCall hk => exact ⟨_, hnext hall, hopened.close_call hk, nofun⟩

theorem Leads.tracked {m : Moment} (h : Leads c n (.start tokens) m) : m.Tracks tokens :=
  h.preserves Moves.tracked ⟨[], rfl, .nothing .nil, fun _ _ hlast => nomatch hlast⟩

/-! ## The end of the tokens -/

/-- Whether a cause is that something is missing where the tokens end. -/
def Cause.concernsEnd : Cause → Bool
  | .emptyExpression | .unexpectedEnd | .unclosed _ | .notSingle _ => true
  | _ => false

/-- `NeverShort x`: if `x` stops, then not for something that is missing at the end. -/
def NeverShort {α : Type} (x : Except Halt α) : Prop :=
  Accounts (fun p => p.cause.concernsEnd = false) (fun _ => True) x

section

variable {α β : Type} {x : Except Halt α} {f : α → Except Halt β} {token : Token}

theorem NeverShort.bind (h : NeverShort x) (hf : ∀ a, NeverShort (f a)) : NeverShort (x >>= f) :=
  Accounts.bind h fun a _ => hf a

namespace Work

theorem neverShort_halt (w : Work) {cause : Cause} {start : Int} {length : Nat}
    (h : cause.concernsEnd = false) : NeverShort (w.halt (α := α) cause start length) := h

theorem neverShort_perform (w : Work) (applied : Applied) (count : Nat)
    (run : List Number → Outcome) (subject : String) :
    NeverShort (w.perform n applied count run subject token) := by
  unfold perform
  refine NeverShort.bind ?_ fun _ => trivial
  cases run (w.operands.take count).reverse with
  | ok x => trivial
  | error reason => exact rfl

theorem neverShort_applyOperator (w : Work) (op : Operator) :
    NeverShort (w.applyOperator n op token) := by
  unfold applyOperator
  split
  · exact w.neverShort_halt rfl
  · exact w.neverShort_perform _ _ _ _

theorem neverShort_reduce (due : Operator → Bool) (w : Work) (pending : List Pending) :
    NeverShort (w.reduce n due pending) := by
  induction pending generalizing w with
  | nil => trivial
  | cons entry rest ih =>
      cases entry with
      | call | group => trivial
      | operator op t =>
          unfold reduce
          split
          · exact (w.neverShort_applyOperator op).bind ih
          · trivial

end Work

namespace State

variable (st : State)

theorem neverShort_expectOperand : NeverShort (st.expectOperand token) := by
  unfold expectOperand
  split
  · exact st.work.neverShort_halt rfl
  · trivial

theorem neverShort_literal : NeverShort (st.literal n token) := by
  refine st.neverShort_expectOperand.bind fun _ => ?_
  refine NeverShort.bind ?_ fun _ => trivial
  cases Number.parse n.precision token.text with
  | ok x => trivial
  | error reason => exact rfl

theorem neverShort_identifier (next : Option Token) :
    NeverShort (st.identifier c n token next) := by
  refine st.neverShort_expectOperand.bind fun _ => ?_
  split
  · refine NeverShort.bind ?_ fun _ => trivial
    unfold function
    split
    · exact st.work.neverShort_halt rfl
    · trivial
  · refine NeverShort.bind ?_ fun _ => trivial
    unfold constant
    split
    · exact (st.work.neverShort_perform _ _ _ _).bind fun _ => trivial
    · exact st.work.neverShort_halt rfl

theorem neverShort_operator : NeverShort (st.operator c n token) := by
  unfold operator
  split
  · split
    · exact st.work.neverShort_halt rfl
    · exact (st.work.neverShort_reduce _ _).bind fun _ => trivial
  · split
    · exact st.work.neverShort_halt rfl
    · trivial

theorem neverShort_opening : NeverShort (st.opening c token) := by
  refine st.neverShort_expectOperand.bind fun _ => ?_
  split
  · exact st.work.neverShort_halt rfl
  · trivial

theorem neverShort_separator : NeverShort (st.separator n token) := by
  unfold separator
  split
  · refine (st.work.neverShort_reduce _ _).bind fun r => ?_
    dsimp only
    split
    · trivial
    · exact r.1.neverShort_halt rfl
  · exact st.work.neverShort_halt rfl

theorem neverShort_finishCall (w : Work) (f : Function) (base count : Nat) :
    NeverShort (finishCall n w f token base count) := by
  unfold finishCall
  split
  · exact w.neverShort_halt rfl
  · split
    · exact w.neverShort_perform _ _ _ _
    · exact w.neverShort_halt rfl

theorem neverShort_closing : NeverShort (st.closing n token) := by
  unfold closing
  split
  · refine (st.work.neverShort_reduce _ _).bind fun r => ?_
    dsimp only
    split
    · split
      · exact (neverShort_finishCall r.1 _ _ _).bind fun _ => trivial
      · exact r.1.neverShort_halt rfl
    · split
      · trivial
      · exact r.1.neverShort_halt rfl
    · exact r.1.neverShort_halt rfl
  · split
    · exact st.work.neverShort_halt rfl
    · exact st.work.neverShort_halt rfl

/-- No token is refused for something that is missing at the end. -/
theorem neverShort_handle (next : Option Token) : NeverShort (st.handle c n token next) := by
  unfold handle
  split
  · exact st.neverShort_literal.bind fun _ => trivial
  · exact st.neverShort_identifier next
  · exact st.neverShort_operator.bind fun _ => trivial
  · exact st.neverShort_opening.bind fun _ => trivial
  · exact st.neverShort_closing.bind fun _ => trivial
  · exact st.neverShort_separator.bind fun _ => trivial
  · exact rfl

end State

end

/-- Where a bracket is found not to be closed, all tokens have been handled, and the
barrier in front of the pending list says which bracket it is, and where. -/
theorem Moment.Ends.exists_barrier {m : Moment} {r : Except Halt (Number × Work)} {halt : Halt}
    {b : String} (h : m.Ends c n width r) (hr : r = .error halt)
    (hc : halt.problem.cause = .unclosed b) :
    m.tokens = [] ∧ ∃ entry rest start, m.state.pending = entry :: rest ∧
      State.unclosedAt entry = some (b, start) ∧ halt.problem = ⟨.unclosed b, some ⟨start, 1⟩⟩ := by
  have hnever : ∀ {α : Type} {x : Except Halt α}, NeverShort x → x ≠ .error halt := by
    intro α x hx hhalt
    have hend := hx.error hhalt
    rw [hc] at hend
    cases hend
  cases h with
  | apply _ ha =>
      cases hr
      exact absurd ha (hnever (Work.neverShort_applyOperator _ _))
  | @token st _ _ _ _ hh =>
      cases hr
      exact absurd hh (hnever (st.neverShort_handle _))
  | @finish st hs =>
      obtain ⟨w, pending, previous⟩ := st
      refine ⟨rfl, ?_⟩
      unfold State.finish at hr
      split at hr
      · cases hr
        cases hc
      · next hp =>
          cases hp
          simp only [hs.reduce_eq (by simp only [Operator.isDue, implies_true]), ok_bind] at hr
          split at hr
          · next opening start hu =>
              cases hr
              cases hc
              cases pending with
              | nil => cases hu
              | cons entry rest => exact ⟨entry, rest, start, rfl, hu, rfl⟩
          · split at hr
            · cases hr
            · cases hr
              cases hc
      · cases hr
        cases hc

/-- `tokens.Lacks b i`: the innermost bracket that is open at the end of the tokens has
the text `b`, and `i` is what is said to be its place: for the bracket of a call the end
of the name, for that of a group its start. -/
def Lacks (tokens : List Token) (b : String) (i : Int) : Prop :=
  ∃ before opener inside, tokens = before ++ opener :: inside ∧
    opener.kind = .symbol .opening ∧ opener.text = b ∧ Nested inside ∧
    (∀ t, before.getLast? = some t → t.kind = .identifier → i = t.stop) ∧
    (Nameless before → i = opener.start)

/-- A barrier tells which bracket it is, and where. -/
theorem Opened.lacks {ts : List Token} {entry : Pending} {rest : List Pending} {b : String}
    {start : Int} (h : Opened ts (entry :: rest)) (hu : State.unclosedAt entry = some (b, start)) :
    Lacks ts b start := by
  cases h with
  | operator => cases hu
  | @group before inside _ brackets opener _ hlast hk hb hn =>
      cases hu
      exact ⟨before, opener, inside, rfl, hk, hb.symm, hn,
        fun t ht hident => absurd hident (hlast t ht), fun _ => rfl⟩
  | @call before inside _ f brackets name opener _ _ _ hname hk hb hn =>
      cases hu
      refine ⟨before ++ [name], opener, inside, ?_, hk, hb.symm, hn, fun t ht _ => ?_,
        fun hno => ?_⟩
      · rw [List.append_assoc, List.singleton_append]
      · rw [List.getLast?_concat] at ht
        rw [Option.some.inj ht]
      · exact absurd hname (hno name List.getLast?_concat)

/-- An evaluation that finds a bracket not closed names the innermost one. -/
theorem Evaluation.lacks_of_ofTokens {tokens : List Token} {problem : Problem} {b : String}
    (h : (Evaluation.ofTokens c n width tokens).result = .error problem)
    (hc : problem.cause = .unclosed b) :
    ∃ i, Lacks tokens b i ∧ problem = ⟨.unclosed b, some ⟨i, 1⟩⟩ := by
  obtain ⟨m, hl, hend⟩ := (Moment.start tokens).exists_ends c n width
  simp only [ofTokens, ofLexing] at h
  cases hr : State.run c n width none State.initial tokens with
  | ok r =>
      rw [hr] at h
      cases h
  | error halt =>
      rw [hr] at h
      cases h
      obtain ⟨hdone, entry, rest, start, hpending, hu, hproblem⟩ := hend.exists_barrier hr hc
      obtain ⟨handled, hall, hopened, -⟩ := hl.tracked
      rw [hdone, List.append_nil] at hall
      rw [hpending, hall] at hopened
      exact ⟨start, hopened.lacks hu, hproblem⟩

end

/-! ## What the message tells -/

/-- What a text begins with, it begins with whatever follows. -/
theorem begins_append {p q : String} (h : p.toList <+: q.toList) (s : String) :
    p.toList <+: (q ++ s).toList := by
  rw [String.toList_append]
  exact h.trans (List.prefix_append _ _)

/-- The message tells the cause from all others that are structural: none of theirs
begins with the same word. -/
theorem Cause.eq_unclosed {cause : Cause} {b : String} (hs : cause.category = .structural)
    (hm : cause.message = "unclosed \"" ++ b ++ "\"") : cause = .unclosed b := by
  have hbegins : "unclosed".toList <+: cause.message.toList := by
    rw [hm]
    exact begins_append (begins_append (by decide +kernel) _) _
  have hother : ∀ p : String, p.toList <+: cause.message.toList →
      p.toList <+: "unclosed".toList ∨ "unclosed".toList <+: p.toList :=
    fun p hp => List.prefix_or_prefix_of_prefix hp hbegins
  have hquoted : ∀ p s t : String, cause.message = p ++ s ++ t →
      p.toList <+: "unclosed".toList ∨ "unclosed".toList <+: p.toList := by
    intro p s t hp
    refine hother p ?_
    rw [hp]
    exact begins_append (begins_append (List.prefix_refl _) s) t
  cases cause with
  | unclosed s =>
      have hs : s = b := (String.append_right_inj _).mp ((String.append_left_inj _).mp hm)
      rw [hs]
  | noValue s p reason =>
      unfold category at hs
      dsimp only at hs
      split at hs <;> cases hs
  | stray | outOfStep | notSingle | unknownToken | argumentCount => cases hs
  | emptyExpression | unexpectedEnd =>
      exact absurd (hother _ (List.prefix_refl _)) (by decide +kernel)
  | mismatched opener closer expected =>
      have hquote : "\"".toList <+: (Cause.mismatched opener closer expected).message.toList :=
        begins_append (begins_append (begins_append (begins_append (begins_append
          (begins_append (List.prefix_refl _) _) _) _) _) _) _
      exact absurd (hother _ hquote) (by decide +kernel)
  | _ => exact absurd (hquoted _ _ _ rfl) (by decide +kernel)

end Reckoner
