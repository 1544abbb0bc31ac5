/-
# An evaluation as a sequence of moves

`State.run` handles one token after another, and the handling of one token may
apply any number of operators before it does anything of its own.  Here the
same evaluation goes by single moves.  A `Moment` is a state together with the
tokens that have not been handled, and a move either applies the one operator
in front of the pending list, because the next token makes it due, or it takes
the next token while nothing is due:

    rule             state before             next token            after
    apply            operand, op :: P         makes op due          P
    literal          not operand              numeral               operand
    constant         not operand              name of a constant    operand
    function         not operand              name, bracket         call :: P
    unary            not operand              unary operator        op :: P
    binary           operand, top not due     binary operator       op :: P
    group            not operand              bracket               group :: P
    separator        operand, call :: P       separator             call :: P
    closeGroup       operand, group :: P      its closing bracket   P
    closeCall        operand, call :: P       its closing bracket   P
    closeEmptyCall   opening, call :: P       its closing bracket   P

So a move performs at most one application.

**Proved here.**

    a move does not change what comes of the run                  (`Moves.run_eq`)
    from every moment the run goes by moves to a last moment,
    where it stops with a problem or finishes                     (`Moment.exists_ends`)

What holds at every moment that moves lead to therefore holds throughout a run,
and what comes of the run can be read off its last moment.
-/
import Reckoner.Evaluation.Run
import Reckoner.Proofs.Sequencing

namespace Reckoner

/-! ## Operators that are due -/

/-- Whether an operator in front of the pending list is applied before the
next token is looked at further, given that an operand has just ended. -/
def Operator.isDue (c : Catalog) (op : Operator) : List Token → Bool
  | [] => true
  | token :: _ =>
    match token.kind with
    | .symbol .operator =>
      match c.findOperator? token.text .binary with
      | some next => op.yieldsTo next
      | none => false
    | .symbol .closing | .symbol .separator => true
    | _ => false

/-- The operator in front of a pending list, if no barrier stands there. -/
def Pending.top : List Pending → Option Operator
  | .operator op _ :: _ => some op
  | _ => none

/-- Whether the operator in front, if there is one, is applied before another
one is put there. -/
def Operator.reduces (top : Option Operator) (next : Operator) : Bool := top.any (·.yieldsTo next)

namespace State

variable {c : Catalog} {n : Numerics} {width : Nat}

/-- One token of a run whose source was lexed to the end. -/
theorem run_cons (st : State) (token : Token) (ts : List Token) :
    run c n width none st (token :: ts) =
      st.handle c n token ts.head? >>= fun r =>
        run c n width none r.1 (if r.2 then ts.tail else ts) := by
  cases ts with
  | nil => simp only [run, List.head?_nil, List.tail_nil, ite_self]
  | cons next rest =>
      simp only [run, List.head?_cons, List.tail_cons]
      congr 1
      funext r
      obtain ⟨st', used⟩ := r
      cases used <;> rfl

theorem reduce_operator (due : Operator → Bool) {op : Operator} (h : due op = true)
    (w : Work) (token : Token) (pending : List Pending) :
    w.reduce n due (.operator op token :: pending) =
      w.applyOperator n op token >>= fun w => w.reduce n due pending := by
  simp only [Work.reduce, h, if_pos]

/-- Where the front of the pending list is no operator that is due, reducing
does nothing. -/
theorem reduce_of_not_due (due : Operator → Bool) {pending : List Pending}
    (h : ∀ op, Pending.top pending = some op → due op = false) (w : Work) :
    w.reduce n due pending = .ok (w, pending) := by
  match pending with
  | [] => rfl
  | .call .. :: _ => rfl
  | .group .. :: _ => rfl
  | .operator op token :: rest =>
      simp only [Work.reduce, h op rfl, Bool.false_eq_true, if_false]

/-- Handling a token that makes the operator in front due applies that
operator first and then goes on as if it had not been there. -/
theorem handle_due {op : Operator} {next : Token} {ts : List Token}
    (h : op.isDue c (next :: ts) = true) (w : Work) (token : Token) (pending : List Pending)
    (after : Option Token) :
    (State.mk w (.operator op token :: pending) .operand).handle c n next after =
      w.applyOperator n op token >>= fun w =>
        (State.mk w pending .operand).handle c n next after := by
  simp only [Operator.isDue] at h
  split at h
  · next hk =>
      split at h
      · next b hb =>
          simp only [handle, hk, operator, if_pos, hb,
            reduce_operator (·.yieldsTo b) h, bind_assoc]
      · cases h
  · next hk =>
      simp only [handle, hk, closing, isAtEmptyCall, decide_true, Bool.true_or, if_pos,
        reduce_operator (fun _ => true) rfl, bind_assoc]
      rfl
  · next hk =>
      simp only [handle, hk, separator, if_pos,
        reduce_operator (fun _ => true) rfl, bind_assoc]
  · cases h

/-- As `handle_due`, at the end of the tokens. -/
theorem finish_due (op : Operator) (w : Work) (token : Token) (pending : List Pending) :
    (State.mk w (.operator op token :: pending) .operand).finish n width =
      w.applyOperator n op token >>= fun w => (State.mk w pending .operand).finish n width := by
  simp only [finish, reduce_operator (fun _ => true) rfl, bind_assoc]

theorem run_due {op : Operator} {ts : List Token} (h : op.isDue c ts = true) (w : Work)
    (token : Token) (pending : List Pending) :
    run c n width none ⟨w, .operator op token :: pending, .operand⟩ ts =
      w.applyOperator n op token >>= fun w => run c n width none ⟨w, pending, .operand⟩ ts := by
  cases ts with
  | nil => simp only [run, finish_due]
  | cons next ts => simp only [run_cons, handle_due h, bind_assoc]

end State

/-! ## Moments and moves -/

/-- A state, and the tokens that have not been handled. -/
structure Moment where
  /-- The state. -/
  state : State
  /-- The tokens, the next one in front. -/
  tokens : List Token

/-- The moment before the first token. -/
def Moment.start (tokens : List Token) : Moment := ⟨State.initial, tokens⟩

/-- What comes of the run from a moment on. -/
def Moment.run (c : Catalog) (n : Numerics) (width : Nat) (m : Moment) :
    Except Halt (Number × Work) :=
  State.run c n width none m.state m.tokens

/-- `Moves c n m m'`: the evaluation goes from `m` to `m'` by a single move. -/
inductive Moves (c : Catalog) (n : Numerics) : Moment → Moment → Prop
  | apply {w w' : Work} {op : Operator} {token : Token} {pending : List Pending}
      {ts : List Token} :
      op.isDue c ts = true → w.applyOperator n op token = .ok w' →
      Moves c n ⟨⟨w, .operator op token :: pending, .operand⟩, ts⟩ ⟨⟨w', pending, .operand⟩, ts⟩
  | literal {w : Work} {pending : List Pending} {previous : Previous} {token : Token}
      {ts : List Token} {x : Number} :
      token.kind = .literal → previous ≠ .operand →
      Number.parse n.precision token.text = .ok x →
      Moves c n ⟨⟨w, pending, previous⟩, token :: ts⟩ ⟨⟨w.push x, pending, .operand⟩, ts⟩
  | constant {w w' : Work} {pending : List Pending} {previous : Previous} {token : Token}
      {ts : List Token} {k : Constant} :
      token.kind = .identifier → previous ≠ .operand → c.findFunction? token.text = none →
      c.findConstant? token.text = some k → w.applyConstant n k token = .ok w' →
      Moves c n ⟨⟨w, pending, previous⟩, token :: ts⟩ ⟨⟨w', pending, .operand⟩, ts⟩
  | function {w : Work} {pending : List Pending} {previous : Previous} {token next : Token}
      {ts : List Token} {f : Function} {b : Brackets} :
      token.kind = .identifier → previous ≠ .operand → c.findFunction? token.text = some f →
      next.kind = .symbol .opening → c.findFunctionBrackets? next.text = some b →
      Moves c n ⟨⟨w, pending, previous⟩, token :: next :: ts⟩
        ⟨⟨w, .call f token b 0 w.operands.length :: pending, .opening⟩, ts⟩
  | unary {w : Work} {pending : List Pending} {previous : Previous} {token : Token}
      {ts : List Token} {op : Operator} :
      token.kind = .symbol .operator → previous ≠ .operand →
      c.findOperator? token.text .unary = some op →
      Moves c n ⟨⟨w, pending, previous⟩, token :: ts⟩
        ⟨⟨w, .operator op token :: pending, .operator⟩, ts⟩
  | binary {w : Work} {pending : List Pending} {token : Token} {ts : List Token}
      {op : Operator} :
      token.kind = .symbol .operator → c.findOperator? token.text .binary = some op →
      Operator.reduces (Pending.top pending) op = false →
      Moves c n ⟨⟨w, pending, .operand⟩, token :: ts⟩
        ⟨⟨w, .operator op token :: pending, .operator⟩, ts⟩
  | group {w : Work} {pending : List Pending} {previous : Previous} {token : Token}
      {ts : List Token} {b : Brackets} :
      token.kind = .symbol .opening → previous ≠ .operand →
      c.findExpressionBrackets? token.text = some b →
      Moves c n ⟨⟨w, pending, previous⟩, token :: ts⟩
        ⟨⟨w, .group b token :: pending, .opening⟩, ts⟩
  | separator {w : Work} {pending : List Pending} {token name : Token} {ts : List Token}
      {f : Function} {b : Brackets} {separators base : Nat} :
      token.kind = .symbol .separator →
      Moves c n ⟨⟨w, .call f name b separators base :: pending, .operand⟩, token :: ts⟩
        ⟨⟨w, .call f name b (separators + 1) base :: pending, .separator⟩, ts⟩
  | closeGroup {w : Work} {pending : List Pending} {token opener : Token} {ts : List Token}
      {b : Brackets} :
      token.kind = .symbol .closing → b.closing = token.text →
      Moves c n ⟨⟨w, .group b opener :: pending, .operand⟩, token :: ts⟩
        ⟨⟨w, pending, .operand⟩, ts⟩
  | closeCall {w w' : Work} {pending : List Pending} {token name : Token} {ts : List Token}
      {f : Function} {b : Brackets} {separators base : Nat} :
      token.kind = .symbol .closing → b.closing = token.text →
      State.finishCall n w f name base (separators + 1) = .ok w' →
      Moves c n ⟨⟨w, .call f name b separators base :: pending, .operand⟩, token :: ts⟩
        ⟨⟨w', pending, .operand⟩, ts⟩
  | closeEmptyCall {w w' : Work} {pending : List Pending} {token name : Token}
      {ts : List Token} {f : Function} {b : Brackets} {separators base : Nat} :
      token.kind = .symbol .closing → b.closing = token.text →
      State.finishCall n w f name base 0 = .ok w' →
      Moves c n ⟨⟨w, .call f name b separators base :: pending, .opening⟩, token :: ts⟩
        ⟨⟨w', pending, .operand⟩, ts⟩

section

variable {c : Catalog} {n : Numerics} {width : Nat}

theorem State.callBrackets?_some {next : Token} {b : Brackets}
    (hk : next.kind = .symbol .opening) (hb : c.findFunctionBrackets? next.text = some b) :
    State.callBrackets? c (some next) = some b := by
  obtain ⟨kind, text, start, stop⟩ := next
  cases hk
  exact hb

theorem Operator.reduces_eq_false {pending : List Pending} {next : Operator}
    (h : Operator.reduces (Pending.top pending) next = false) :
    ∀ op, Pending.top pending = some op → op.yieldsTo next = false := by
  intro op hop
  simpa only [Operator.reduces, hop, Option.any_some] using h

/-- A move applies an operator that is due, or handles the next token. -/
theorem Moves.apply_or_handle {m m' : Moment} (h : Moves c n m m') :
    (∃ w w' op token pending ts, Operator.isDue c op ts = true ∧
        w.applyOperator n op token = .ok w' ∧
        m = ⟨⟨w, .operator op token :: pending, .operand⟩, ts⟩ ∧
        m' = ⟨⟨w', pending, .operand⟩, ts⟩) ∨
      ∃ token ts used, m.tokens = token :: ts ∧
        m.state.handle c n token ts.head? = .ok (m'.state, used) ∧
        m'.tokens = if used then ts.tail else ts := by
  cases h with
  | apply hd ha => exact .inl ⟨_, _, _, _, _, _, hd, ha, rfl, rfl⟩
  | literal hk hp hx =>
      refine .inr ⟨_, _, false, rfl, ?_, rfl⟩
      simp only [State.handle, hk, State.literal, State.expectOperand, hp, if_false, hx, Work.value]
      rfl
  | constant hk hp hf hc ha =>
      refine .inr ⟨_, _, false, rfl, ?_, rfl⟩
      simp only [State.handle, hk, State.identifier, State.expectOperand, hp, if_false, hf,
        State.constant, hc, ha]
      rfl
  | function hk hp hf hn hb =>
      refine .inr ⟨_, _, true, rfl, ?_, rfl⟩
      simp only [State.handle, hk, State.identifier, State.expectOperand, hp, if_false, hf,
        State.function, List.head?_cons, State.callBrackets?_some hn hb]
      rfl
  | unary hk hp ho =>
      refine .inr ⟨_, _, false, rfl, ?_, rfl⟩
      simp only [State.handle, hk, State.operator, hp, if_false, ho]
      rfl
  | binary hk ho hr =>
      refine .inr ⟨_, _, false, rfl, ?_, rfl⟩
      simp only [State.handle, hk, State.operator, if_pos, ho,
        State.reduce_of_not_due _ (Operator.reduces_eq_false hr)]
      rfl
  | group hk hp hb =>
      refine .inr ⟨_, _, false, rfl, ?_, rfl⟩
      simp only [State.handle, hk, State.opening, State.expectOperand, hp, if_false, hb]
      rfl
  | separator hk =>
      refine .inr ⟨_, _, false, rfl, ?_, rfl⟩
      simp only [State.handle, hk, State.separator, if_pos, Work.reduce]
      rfl
  | closeGroup hk hb =>
      refine .inr ⟨_, _, false, rfl, ?_, rfl⟩
      simp only [State.handle, hk, State.closing, State.isAtEmptyCall, decide_true, Bool.true_or,
        if_pos, Work.reduce, hb, ok_bind, pure_eq_ok]
  | closeCall hk hb ha =>
      refine .inr ⟨_, _, false, rfl, ?_, rfl⟩
      simp only [State.handle, hk, State.closing, State.isAtEmptyCall, decide_true, Bool.true_or,
        if_pos, Work.reduce, hb, ok_bind, pure_eq_ok, Bool.false_eq_true, if_false, ha]
  | closeEmptyCall hk hb ha =>
      refine .inr ⟨_, _, false, rfl, ?_, rfl⟩
      simp only [State.handle, hk, State.closing, State.isAtEmptyCall, Bool.or_true, if_pos,
        Work.reduce, hb, ok_bind, pure_eq_ok, ha]

/-- A move does not change what comes of the run. -/
theorem Moves.run_eq {m m' : Moment} (h : Moves c n m m') : m.run c n width = m'.run c n width := by
  rcases h.apply_or_handle with ⟨w, w', op, token, pending, ts, hd, ha, rfl, rfl⟩ |
    ⟨token, ts, used, ht, hh, ht'⟩
  · simp only [Moment.run, State.run_due hd, ha, ok_bind]
  · simp only [Moment.run, ht, State.run_cons, hh, ok_bind, ht']

/-! ## The last moment of a run -/

/-- Whether no operator is due. -/
def Moment.Settled (c : Catalog) (m : Moment) : Prop :=
  m.state.previous = .operand →
    ∀ op, Pending.top m.state.pending = some op → op.isDue c m.tokens = false

/-- `Ends c n width m r`: no move leads on from `m`, and `r` comes of the run. -/
inductive Moment.Ends (c : Catalog) (n : Numerics) (width : Nat) :
    Moment → Except Halt (Number × Work) → Prop
  | apply {w : Work} {op : Operator} {token : Token} {pending : List Pending}
      {ts : List Token} {halt : Halt} :
      op.isDue c ts = true → w.applyOperator n op token = .error halt →
      Ends c n width ⟨⟨w, .operator op token :: pending, .operand⟩, ts⟩ (.error halt)
  | token {st : State} {token : Token} {ts : List Token} {halt : Halt} :
      Moment.Settled c ⟨st, token :: ts⟩ → st.handle c n token ts.head? = .error halt →
      Ends c n width ⟨st, token :: ts⟩ (.error halt)
  | finish {st : State} :
      Moment.Settled c ⟨st, []⟩ → Ends c n width ⟨st, []⟩ (st.finish n width)

theorem State.expectOperand_eq_ok {st : State} {token : Token} {u : Unit} :
    st.expectOperand token = .ok u ↔ st.previous ≠ .operand := by
  unfold State.expectOperand
  split
  · next h => exact ⟨fun h' => (nomatch h'), fun h' => absurd h h'⟩
  · next h => exact ⟨fun _ => h, fun _ => rfl⟩

theorem Work.value_eq_ok {w : Work} {outcome : Outcome} {subject : String} {token : Token}
    {x : Number} : w.value n outcome subject token = .ok x ↔ outcome = .ok x := by
  cases outcome with
  | ok y => exact Iff.of_eq (by simp only [Work.value, Except.ok.injEq])
  | error e => exact ⟨fun h => (nomatch h), fun h => (nomatch h)⟩

theorem State.callBrackets?_eq_some {next : Option Token} {b : Brackets}
    (h : State.callBrackets? c next = some b) :
    ∃ token, next = some token ∧ token.kind = .symbol .opening ∧
      c.findFunctionBrackets? token.text = some b := by
  unfold State.callBrackets? at h
  split at h
  · next text start stop => exact ⟨_, rfl, rfl, h⟩
  · cases h

/-- A pending list in front of which no operator waits starts with a barrier,
or is empty, where a closing bracket or a separator makes all operators due. -/
theorem Moment.Settled.reduce_eq {w : Work} {pending : List Pending} {ts : List Token}
    (hs : Moment.Settled c ⟨⟨w, pending, .operand⟩, ts⟩)
    (hd : ∀ op : Operator, op.isDue c ts = true) :
    w.reduce n (fun _ => true) pending = .ok (w, pending) := by
  refine State.reduce_of_not_due _ ?_ w
  intro op hop
  have h := hs rfl op hop
  rw [hd op] at h
  cases h

theorem moves_of_literal {st st' : State} {token : Token} {ts : List Token}
    (hk : token.kind = .literal) (h : st.literal n token = .ok st') :
    Moves c n ⟨st, token :: ts⟩ ⟨st', ts⟩ := by
  simp only [State.literal, bind_eq_ok, State.expectOperand_eq_ok, Work.value_eq_ok,
    pure_eq_ok, Except.ok.injEq] at h
  obtain ⟨_, hp, x, hx, rfl⟩ := h
  exact .literal hk hp hx

theorem moves_of_identifier {st st' : State} {token : Token} {ts : List Token} {used : Bool}
    (hk : token.kind = .identifier)
    (h : st.identifier c n token ts.head? = .ok (st', used)) :
    Moves c n ⟨st, token :: ts⟩ ⟨st', if used then ts.tail else ts⟩ := by
  simp only [State.identifier, bind_eq_ok, State.expectOperand_eq_ok] at h
  obtain ⟨_, hp, h⟩ := h
  split at h
  · next f hf =>
      simp only [State.function, bind_eq_ok, pure_eq_ok, Except.ok.injEq, Prod.mk.injEq] at h
      obtain ⟨_, h, rfl, rfl⟩ := h
      split at h
      · cases h
      · next b hb =>
          obtain ⟨next, hn, hkn, hfb⟩ := State.callBrackets?_eq_some hb
          cases h
          cases ts with
          | nil => cases hn
          | cons _ ts =>
              cases hn
              exact .function hk hp hf hkn hfb
  · next hf =>
      simp only [State.constant, bind_eq_ok, pure_eq_ok, Except.ok.injEq, Prod.mk.injEq] at h
      obtain ⟨_, h, rfl, rfl⟩ := h
      split at h
      · next k hc =>
          simp only [bind_eq_ok, Except.ok.injEq] at h
          obtain ⟨w', ha, rfl⟩ := h
          exact .constant hk hp hf hc ha
      · cases h

theorem moves_of_operator {st st' : State} {token : Token} {ts : List Token}
    (hs : Moment.Settled c ⟨st, token :: ts⟩) (hk : token.kind = .symbol .operator)
    (h : st.operator c n token = .ok st') : Moves c n ⟨st, token :: ts⟩ ⟨st', ts⟩ := by
  obtain ⟨w, pending, previous⟩ := st
  unfold State.operator at h
  split at h
  · next hp =>
      cases hp
      split at h
      · cases h
      · next op ho =>
          have hd : ∀ top, Pending.top pending = some top → top.yieldsTo op = false := by
            intro top ht
            simpa only [Operator.isDue, hk, ho] using hs rfl top ht
          rw [State.reduce_of_not_due (·.yieldsTo op) hd] at h
          cases h
          refine .binary hk ho ?_
          cases ht : Pending.top pending with
          | none => rfl
          | some top => simpa only [Operator.reduces, Option.any_some] using hd top ht
  · next hp =>
      split at h
      · cases h
      · next op ho =>
          cases h
          exact .unary hk hp ho

theorem moves_of_opening {st st' : State} {token : Token} {ts : List Token}
    (hk : token.kind = .symbol .opening) (h : st.opening c token = .ok st') :
    Moves c n ⟨st, token :: ts⟩ ⟨st', ts⟩ := by
  simp only [State.opening, bind_eq_ok, State.expectOperand_eq_ok] at h
  obtain ⟨_, hp, h⟩ := h
  split at h
  · cases h
  · next b hb =>
      cases h
      exact .group hk hp hb

theorem moves_of_separator {st st' : State} {token : Token} {ts : List Token}
    (hs : Moment.Settled c ⟨st, token :: ts⟩) (hk : token.kind = .symbol .separator)
    (h : st.separator n token = .ok st') : Moves c n ⟨st, token :: ts⟩ ⟨st', ts⟩ := by
  obtain ⟨w, pending, previous⟩ := st
  unfold State.separator at h
  split at h
  · next hp =>
      cases hp
      simp only [hs.reduce_eq (by simp only [Operator.isDue, hk, implies_true]), ok_bind] at h
      split at h
      · next f name b separators base rest =>
          cases h
          exact .separator hk
      · cases h
  · cases h

theorem State.isAtEmptyCall_eq_true {st : State} (h : st.isAtEmptyCall = true) :
    st.previous = .opening ∧
      ∃ f name b separators base rest, st.pending = .call f name b separators base :: rest := by
  unfold State.isAtEmptyCall at h
  split at h
  · next hp hr => exact ⟨hp, _, _, _, _, _, _, hr⟩
  · cases h

theorem moves_of_closing {st st' : State} {token : Token} {ts : List Token}
    (hs : Moment.Settled c ⟨st, token :: ts⟩) (hk : token.kind = .symbol .closing)
    (h : st.closing n token = .ok st') : Moves c n ⟨st, token :: ts⟩ ⟨st', ts⟩ := by
  obtain ⟨w, pending, previous⟩ := st
  unfold State.closing at h
  split at h
  · next hp =>
      rw [Bool.or_eq_true, decide_eq_true_eq] at hp
      rcases hp with rfl | hp
      · simp only [hs.reduce_eq (by simp only [Operator.isDue, hk, implies_true]), ok_bind] at h
        split at h
        · next f name b separators base rest =>
            split at h
            · next hb =>
                simp only [State.isAtEmptyCall, Bool.false_eq_true, if_false, bind_eq_ok,
                  pure_eq_ok, Except.ok.injEq] at h
                obtain ⟨w', ha, rfl⟩ := h
                exact .closeCall hk hb ha
            · cases h
        · next b opener rest =>
            split at h
            · next hb =>
                cases h
                exact .closeGroup hk hb
            · cases h
        · cases h
      · obtain ⟨rfl, f, name, b, separators, base, rest, rfl⟩ := State.isAtEmptyCall_eq_true hp
        simp only [Work.reduce, ok_bind] at h
        split at h
        · next hb =>
            simp only [bind_eq_ok, pure_eq_ok, Except.ok.injEq] at h
            obtain ⟨w', ha, rfl⟩ := h
            exact .closeEmptyCall hk hb ha
        · cases h
  · split at h
    · cases h
    · cases h

/-- A token that is handled while nothing is due is handled by a single move. -/
theorem moves_of_handle {st st' : State} {token : Token} {ts : List Token} {used : Bool}
    (hs : Moment.Settled c ⟨st, token :: ts⟩)
    (h : st.handle c n token ts.head? = .ok (st', used)) :
    Moves c n ⟨st, token :: ts⟩ ⟨st', if used then ts.tail else ts⟩ := by
  unfold State.handle at h
  split at h
  · next hk =>
      simp only [bind_eq_ok, pure_eq_ok, Except.ok.injEq, Prod.mk.injEq] at h
      obtain ⟨_, h, rfl, rfl⟩ := h
      exact moves_of_literal hk h
  · next hk => exact moves_of_identifier hk h
  · next hk =>
      simp only [bind_eq_ok, pure_eq_ok, Except.ok.injEq, Prod.mk.injEq] at h
      obtain ⟨_, h, rfl, rfl⟩ := h
      exact moves_of_operator hs hk h
  · next hk =>
      simp only [bind_eq_ok, pure_eq_ok, Except.ok.injEq, Prod.mk.injEq] at h
      obtain ⟨_, h, rfl, rfl⟩ := h
      exact moves_of_opening hk h
  · next hk =>
      simp only [bind_eq_ok, pure_eq_ok, Except.ok.injEq, Prod.mk.injEq] at h
      obtain ⟨_, h, rfl, rfl⟩ := h
      exact moves_of_closing hs hk h
  · next hk =>
      simp only [bind_eq_ok, pure_eq_ok, Except.ok.injEq, Prod.mk.injEq] at h
      obtain ⟨_, h, rfl, rfl⟩ := h
      exact moves_of_separator hs hk h
  · cases h

/-- Whether an operator is due at a moment, and which one. -/
theorem Moment.settled_or_due (m : Moment) :
    m.Settled c ∨ ∃ w op token pending ts,
      m = ⟨⟨w, .operator op token :: pending, .operand⟩, ts⟩ ∧ op.isDue c ts = true := by
  obtain ⟨⟨w, pending, previous⟩, ts⟩ := m
  by_cases hp : previous = .operand
  · subst hp
    match pending with
    | .operator op token :: rest =>
        cases hd : op.isDue c ts with
        | true => exact Or.inr ⟨w, op, token, rest, ts, rfl, hd⟩
        | false =>
            refine Or.inl fun _ top ht => ?_
            cases ht
            exact hd
    | [] | .call .. :: _ | .group .. :: _ => exact Or.inl fun _ _ ht => nomatch ht
  · exact Or.inl fun h => absurd h hp

theorem Moment.progress (c : Catalog) (n : Numerics) (width : Nat) (m : Moment) :
    (∃ m', Moves c n m m') ∨ m.Ends c n width (m.run c n width) := by
  rcases m.settled_or_due (c := c) with hs | ⟨w, op, token, pending, ts, rfl, hd⟩
  · obtain ⟨st, ts⟩ := m
    cases ts with
    | nil => exact Or.inr (.finish hs)
    | cons token ts =>
        cases h : st.handle c n token ts.head? with
        | ok r => exact Or.inl ⟨_, moves_of_handle hs h⟩
        | error halt =>
            simp only [Moment.run, State.run_cons, h]
            exact Or.inr (.token hs h)
  · cases h : w.applyOperator n op token with
    | ok w' => exact Or.inl ⟨_, .apply hd h⟩
    | error halt =>
        simp only [Moment.run, State.run_due hd, h]
        exact Or.inr (.apply hd h)

/-- While no operator is due, only a single value with nothing pending is the
value of an expression. -/
theorem State.finish_eq_ok {st : State} {r : Number × Work} (hs : Moment.Settled c ⟨st, []⟩)
    (h : st.finish n width = .ok r) :
    ∃ x steps, st = ⟨⟨[x], steps⟩, [], .operand⟩ ∧ r = (x, ⟨[x], steps⟩) := by
  obtain ⟨⟨operands, steps⟩, pending, previous⟩ := st
  unfold State.finish at h
  split at h
  · cases h
  · next hp =>
      cases hp
      simp only [hs.reduce_eq (by simp only [Operator.isDue, implies_true]), ok_bind] at h
      split at h
      · cases h
      · next hu =>
          match pending with
          | .operator op token :: rest => cases hs rfl op rfl
          | .call .. :: _ | .group .. :: _ => cases hu
          | [] =>
              split at h
              · next x =>
                  cases h
                  exact ⟨x, steps, rfl, rfl⟩
              · cases h
  · cases h

/-- At the last moment of a run that gives a value, that value is all that is
left. -/
theorem Moment.Ends.done {m : Moment} {r : Number × Work} (h : m.Ends c n width (.ok r)) :
    ∃ x steps, m = ⟨⟨⟨[x], steps⟩, [], .operand⟩, []⟩ ∧ r = (x, ⟨[x], steps⟩) := by
  generalize hr : Except.ok r = out at h
  cases h with
  | apply => cases hr
  | token => cases hr
  | finish hs =>
      obtain ⟨x, steps, rfl, rfl⟩ := State.finish_eq_ok hs hr.symm
      exact ⟨x, steps, rfl, rfl⟩

theorem Moment.moves_or_done {m : Moment} {r : Number × Work} (h : m.run c n width = .ok r) :
    (∃ m', Moves c n m m') ∨
      ∃ x steps, m = ⟨⟨⟨[x], steps⟩, [], .operand⟩, []⟩ ∧ r = (x, ⟨[x], steps⟩) := by
  rcases m.progress c n width with hm | he
  · exact Or.inl hm
  · rw [h] at he
    exact Or.inr he.done

theorem Evaluation.ofTokens_eq_ok {tokens : List Token} {steps : List Step} {x : Number} :
    Evaluation.ofTokens c n width tokens = ⟨steps, .ok x⟩ ↔
      ∃ w, (Moment.start tokens).run c n width = .ok (x, w) ∧ steps = w.steps.reverse := by
  simp only [Evaluation.ofTokens, Evaluation.ofLexing, Moment.run, Moment.start]
  cases State.initial.run c n width none tokens with
  | error halt =>
      constructor
      · intro h
        cases h
      · rintro ⟨_, h, _⟩
        cases h
  | ok r =>
      constructor
      · intro h
        cases h
        exact ⟨r.2, rfl, rfl⟩
      · rintro ⟨_, h, rfl⟩
        cases h
        rfl

/-- `Leads c n m m'`: moves lead from `m` to `m'`. -/
inductive Leads (c : Catalog) (n : Numerics) : Moment → Moment → Prop
  | refl (m : Moment) : Leads c n m m
  | step {m m' m'' : Moment} : Moves c n m m' → Leads c n m' m'' → Leads c n m m''

theorem Leads.run_eq {m m' : Moment} (h : Leads c n m m') : m.run c n width = m'.run c n width := by
  induction h with
  | refl => rfl
  | step h₁ _ ih => exact h₁.run_eq.trans ih

/-- Where moves lead to a single value with nothing pending, that is what comes
of the evaluation. -/
theorem Leads.ofTokens_eq {tokens : List Token} {x : Number} {steps : List Step}
    (h : Leads c n (Moment.start tokens) ⟨⟨⟨[x], steps⟩, [], .operand⟩, []⟩) :
    Evaluation.ofTokens c n width tokens = ⟨steps.reverse, .ok x⟩ :=
  Evaluation.ofTokens_eq_ok.mpr ⟨⟨[x], steps⟩, h.run_eq.trans rfl, rfl⟩

theorem Leads.trans {m m' m'' : Moment} (h : Leads c n m m') (h' : Leads c n m' m'') :
    Leads c n m m'' := by
  induction h with
  | refl => exact h'
  | step h₁ _ ih => exact .step h₁ (ih h')

/-- What every move preserves holds of every moment that moves lead to. -/
theorem Leads.preserves {P : Moment → Prop} (hP : ∀ {m m'}, Moves c n m m' → P m → P m')
    {m m' : Moment} (h : Leads c n m m') : P m → P m' := by
  induction h with
  | refl => exact id
  | step h₁ _ ih => exact fun hm => ih (hP h₁ hm)

/-- What shrinks with every move: an operator that is applied leaves the
pending list, and a token enters it at most once. -/
def Moment.size (m : Moment) : Nat := 2 * m.tokens.length + m.state.pending.length

theorem Moves.size_lt {m m' : Moment} (h : Moves c n m m') : m'.size < m.size := by
  cases h <;> simp only [Moment.size, List.length_cons] <;> omega

/-- A run goes by moves to a last moment, and what comes of it comes of that
moment. -/
theorem Moment.exists_ends (c : Catalog) (n : Numerics) (width : Nat) (m : Moment) :
    ∃ m', Leads c n m m' ∧ m'.Ends c n width (m.run c n width) := by
  rcases m.progress c n width with ⟨m', h⟩ | h
  · have := h.size_lt
    obtain ⟨m'', hl, he⟩ := m'.exists_ends c n width
    rw [← h.run_eq] at he
    exact ⟨m'', .step h hl, he⟩
  · exact ⟨m, .refl m, h⟩
termination_by m.size

/-- Moves lead over the tokens of an evaluation to the value that it gives. -/
theorem Leads.exists_of_ok {tokens : List Token} {x : Number}
    (h : (Evaluation.ofTokens c n width tokens).result = .ok x) :
    ∃ steps, Leads c n (.start tokens) ⟨⟨⟨[x], steps⟩, [], .operand⟩, []⟩ := by
  have he : Evaluation.ofTokens c n width tokens =
      ⟨(Evaluation.ofTokens c n width tokens).steps, .ok x⟩ := by rw [← h]
  obtain ⟨w, hrun, -⟩ := Evaluation.ofTokens_eq_ok.mp he
  obtain ⟨m, hl, hend⟩ := (Moment.start tokens).exists_ends c n width
  rw [hrun] at hend
  obtain ⟨_, steps, rfl, hr⟩ := hend.done
  cases hr
  exact ⟨steps, hl⟩

/-! ## Sources that give a value -/

/-- A character that starts no token stops the run before its end, unless something
in front of it does. -/
theorem State.run_stray (c : Catalog) (n : Numerics) (width : Nat) (s : Stray) (st : State)
    (tokens : List Token) :
    ∃ halt, run c n width (some s) st tokens = .error halt ∧
      (halt.problem = s.problem ∨ run c n width none st tokens = .error halt) := by
  match tokens with
  | [] => exact ⟨_, rfl, .inl rfl⟩
  | [_] => exact ⟨_, rfl, .inl rfl⟩
  | token :: next :: rest =>
      simp only [run]
      cases st.handle c n token (some next) with
      | error halt => exact ⟨halt, rfl, .inr rfl⟩
      | ok r =>
          obtain ⟨st', used⟩ := r
          cases used
          · exact run_stray c n width s st' (next :: rest)
          · exact run_stray c n width s st' rest
termination_by tokens.length

/-- A source that is lexed to its end is evaluated as its tokens are. -/
theorem Evaluation.ofSource_of_stray {source : String} (h : (c.lex source).stray = none) :
    Evaluation.ofSource c n source =
      Evaluation.ofTokens c n (Text.units source) (c.lex source).tokens := by
  rw [ofSource, ofTokens, ← h]

/-- A source that gives a value has been lexed to its end. -/
theorem Evaluation.stray_of_ok {source : String} {x : Number}
    (h : (Evaluation.ofSource c n source).result = .ok x) : (c.lex source).stray = none := by
  cases hs : (c.lex source).stray with
  | none => rfl
  | some s =>
      obtain ⟨halt, hr, -⟩ := State.run_stray c n (Text.units source) s State.initial
        (c.lex source).tokens
      simp only [ofSource, ofLexing, hs, hr, reduceCtorEq] at h

/-- What is wrong with a source is a character that starts no token, or it is wrong with
the tokens. -/
theorem Evaluation.problem_of_ofSource {source : String} {problem : Problem}
    (h : (Evaluation.ofSource c n source).result = .error problem) :
    (∃ s, (c.lex source).stray = some s ∧ problem = s.problem) ∨
      (Evaluation.ofTokens c n (Text.units source) (c.lex source).tokens).result =
        .error problem := by
  cases hs : (c.lex source).stray with
  | none =>
      rw [ofSource_of_stray hs] at h
      exact .inr h
  | some s =>
      obtain ⟨halt, hr, hhalt⟩ := State.run_stray c n (Text.units source) s State.initial
        (c.lex source).tokens
      simp only [ofSource, ofLexing, hs, hr, Except.error.injEq] at h
      rcases hhalt with hhalt | hhalt
      · exact .inl ⟨s, rfl, h ▸ hhalt⟩
      · refine .inr ?_
        simp only [ofTokens, ofLexing, hhalt, h]

theorem Evaluation.ofSource_eq_ofTokens {source : String} {x : Number}
    (h : (Evaluation.ofSource c n source).result = .ok x) :
    Evaluation.ofSource c n source =
      Evaluation.ofTokens c n (Text.units source) (c.lex source).tokens :=
  ofSource_of_stray (stray_of_ok h)

end

end Reckoner
