/-
# What completes an expression

A state in the middle of an evaluation determines which tokens would make an
expression of those before it.  Where a complete expression has ended inside
what is open, `Finishes` says what may follow, from the innermost entry of the
pending list on:

    pending          next                 then
    nothing          nothing
    an operator      as if it were not there
    a group          its closing bracket  a chain
    a call           its closing bracket  a chain
                     a separator          an expression, in the same call

`State.Completes` adds what has to come before that: a chain behind an
operand, an expression where an operand is due, and for a call just opened also
its closing bracket.

**Proved here.**

    a move takes away just the tokens that its state demands      (`Moves.completes_iff`)
    every state can be completed                                  (`State.exists_completes`)

So the tokens that complete the state behind some tokens are those that make an
expression of them.
-/
import Reckoner.Proofs.Grammar.Evaluating
import Reckoner.Proofs.Grammar.Shape

namespace Reckoner

/-- `Finishes c pending ts`: where a complete expression has ended, `ts`
finishes all that is pending. -/
inductive Finishes (c : Catalog) : List Pending → List Token → Prop
  | nothing : Finishes c [] []
  | operator {op : Operator} {token : Token} {pending : List Pending} {ts : List Token} :
      Finishes c pending ts → Finishes c (.operator op token :: pending) ts
  | group {b : Brackets} {opener close : Token} {pending : List Pending} {ts mid : List Token} :
      close.kind = .symbol .closing → b.closing = close.text →
      Derives c .chain ts mid → Finishes c pending mid →
      Finishes c (.group b opener :: pending) (close :: ts)
  | call {f : Function} {name close : Token} {b : Brackets} {separators base : Nat}
      {pending : List Pending} {ts mid : List Token} :
      close.kind = .symbol .closing → b.closing = close.text →
      Derives c .chain ts mid → Finishes c pending mid →
      Finishes c (.call f name b separators base :: pending) (close :: ts)
  | separator {f : Function} {name next : Token} {b : Brackets} {separators base : Nat}
      {pending : List Pending} {ts mid : List Token} :
      next.kind = .symbol .separator → Derives c .expression ts mid →
      Finishes c (.call f name b (separators + 1) base :: pending) mid →
      Finishes c (.call f name b separators base :: pending) (next :: ts)

/-- `st.Completes c ts`: the tokens `ts`, handled from the state on, would make
an expression of what has been handled before. -/
inductive State.Completes (c : Catalog) : State → List Token → Prop
  | behind {w : Work} {pending : List Pending} {ts mid : List Token} :
      Derives c .chain ts mid → Finishes c pending mid → Completes c ⟨w, pending, .operand⟩ ts
  | before {w : Work} {pending : List Pending} {previous : Previous} {ts mid : List Token} :
      previous ≠ .operand → Derives c .expression ts mid → Finishes c pending mid →
      Completes c ⟨w, pending, previous⟩ ts
  | emptyCall {w : Work} {f : Function} {name close : Token} {b : Brackets}
      {separators base : Nat} {pending : List Pending} {ts mid : List Token} :
      close.kind = .symbol .closing → b.closing = close.text →
      Derives c .chain ts mid → Finishes c pending mid →
      Completes c ⟨w, .call f name b separators base :: pending, .opening⟩ (close :: ts)

variable {c : Catalog} {n : Numerics}

/-- The tokens that complete the state before the first one are the
expressions. -/
theorem State.completes_initial {ts : List Token} :
    State.initial.Completes c ts ↔ c.IsExpression ts := by
  constructor
  · intro h
    cases h with
    | before _ he hf =>
        cases hf
        exact he
  · exact fun h => .before nofun h .nothing

/-! ## How a part begins -/

theorem Derives.startsOperand_eq {part : Part} {ts rest : List Token}
    (h : Derives c part ts rest) (hp : part ≠ .chain) : startsOperand ts = true := by
  induction h with
  | expression _ _ ih _ => exact ih (by simp only [ne_eq, reduceCtorEq, not_false_eq_true])
  | stop | extend => exact absurd rfl hp
  | literal hk | constant hk _ | unary hk _ _ | group hk _ _ _ _ | call hk _ _ _ _
  | emptyCall hk _ _ _ _ _ => simp only [startsOperand, hk]
  | last _ _ _ ih | more _ _ _ ih _ =>
      exact ih (by simp only [ne_eq, reduceCtorEq, not_false_eq_true])

/-- What finishes pending entries is empty, or begins with a closing bracket or
a separator. -/
theorem Finishes.kind_eq {pending : List Pending} {token : Token} {ts : List Token}
    (h : Finishes c pending (token :: ts)) :
    token.kind = .symbol .closing ∨ token.kind = .symbol .separator := by
  generalize he : token :: ts = tokens at h
  induction h with
  | nothing => cases he
  | operator _ ih => exact ih he
  | group hk | call hk =>
      cases he
      exact Or.inl hk
  | separator hk =>
      cases he
      exact Or.inr hk

/-- A chain goes on only with a binary operator. -/
theorem Derives.chain_eq {token : Token} {ts mid : List Token}
    (h : Derives c .chain (token :: ts) mid) (hi : c.infix? (token :: ts) = none) :
    mid = token :: ts := by
  cases h with
  | stop => rfl
  | extend hop =>
      rw [hi] at hop
      cases hop

theorem Catalog.infix?_eq_none {token : Token} {ts : List Token}
    (h : token.kind ≠ .symbol .operator) : c.infix? (token :: ts) = none := by
  cases hi : c.infix? (token :: ts) with
  | none => rfl
  | some op => exact absurd (Catalog.infix?_eq_some.mp hi).1 h

theorem Finishes.infix?_eq_none {pending : List Pending} {ts : List Token}
    (h : Finishes c pending ts) : c.infix? ts = none := by
  cases ts with
  | nil => rfl
  | cons token ts =>
      refine Catalog.infix?_eq_none fun hk => ?_
      rcases h.kind_eq with h | h <;> cases hk.symm.trans h

section

variable {pending : List Pending} {token : Token} {ts : List Token} {b : Brackets}

theorem Finishes.operator_iff {op : Operator} :
    Finishes c (.operator op token :: pending) ts ↔ Finishes c pending ts := by
  constructor
  · intro h
    cases h with
    | operator h => exact h
  · exact .operator

theorem Finishes.group_iff {opener : Token} (hk : token.kind = .symbol .closing)
    (hb : b.closing = token.text) :
    Finishes c (.group b opener :: pending) (token :: ts) ↔
      ∃ mid, Derives c .chain ts mid ∧ Finishes c pending mid := by
  constructor
  · intro h
    cases h with
    | group _ _ hc hf => exact ⟨_, hc, hf⟩
  · rintro ⟨_, hc, hf⟩
    exact .group hk hb hc hf

variable {f : Function} {name : Token} {separators base : Nat}

theorem Finishes.call_iff (hk : token.kind = .symbol .closing) (hb : b.closing = token.text) :
    Finishes c (.call f name b separators base :: pending) (token :: ts) ↔
      ∃ mid, Derives c .chain ts mid ∧ Finishes c pending mid := by
  constructor
  · intro h
    cases h with
    | call _ _ hc hf => exact ⟨_, hc, hf⟩
    | separator hk' => cases hk.symm.trans hk'
  · rintro ⟨_, hc, hf⟩
    exact .call hk hb hc hf

theorem Finishes.separator_iff (hk : token.kind = .symbol .separator) :
    Finishes c (.call f name b separators base :: pending) (token :: ts) ↔
      ∃ mid, Derives c .expression ts mid ∧
        Finishes c (.call f name b (separators + 1) base :: pending) mid := by
  constructor
  · intro h
    cases h with
    | call hk' => cases hk.symm.trans hk'
    | separator _ he hf => exact ⟨_, he, hf⟩
  · rintro ⟨_, he, hf⟩
    exact .separator hk he hf

end

/-! ## What follows an operand -/

section

variable {w : Work} {pending : List Pending} {previous : Previous} {token : Token}
  {ts : List Token}

theorem completes_behind_iff :
    State.Completes c ⟨w, pending, .operand⟩ ts ↔
      ∃ mid, Derives c .chain ts mid ∧ Finishes c pending mid := by
  constructor
  · intro h
    cases h with
    | behind hc hf => exact ⟨_, hc, hf⟩
    | before hp => exact absurd rfl hp
  · rintro ⟨_, hc, hf⟩
    exact .behind hc hf

theorem completes_before_iff (hp : previous ≠ .operand)
    (hk : token.kind ≠ .symbol .closing) :
    State.Completes c ⟨w, pending, previous⟩ (token :: ts) ↔
      ∃ mid, Derives c .expression (token :: ts) mid ∧ Finishes c pending mid := by
  constructor
  · intro h
    cases h with
    | behind => exact absurd rfl hp
    | before _ he hf => exact ⟨_, he, hf⟩
    | emptyCall hk' => exact absurd hk' hk
  · rintro ⟨_, he, hf⟩
    exact .before hp he hf

/-- Where an operand is due and no call has just been opened, an expression
comes. -/
theorem completes_due_iff (hp : previous ≠ .operand)
    (he : State.isAtEmptyCall ⟨w, pending, previous⟩ = false) :
    State.Completes c ⟨w, pending, previous⟩ ts ↔
      ∃ mid, Derives c .expression ts mid ∧ Finishes c pending mid := by
  constructor
  · intro h
    cases h with
    | behind => exact absurd rfl hp
    | before _ he hf => exact ⟨_, he, hf⟩
    | emptyCall => cases he
  · rintro ⟨_, he, hf⟩
    exact .before hp he hf

/-- Behind an operand, a token that is no binary operator ends the expression. -/
theorem completes_behind_end (hi : c.infix? (token :: ts) = none) :
    State.Completes c ⟨w, pending, .operand⟩ (token :: ts) ↔ Finishes c pending (token :: ts) := by
  rw [completes_behind_iff]
  constructor
  · rintro ⟨mid, hc, hf⟩
    rwa [hc.chain_eq hi] at hf
  · exact fun hf => ⟨_, .stop, hf⟩

/-- A binary operator behind an operand is followed by an expression. -/
theorem completes_behind_infix {op : Operator} (hi : c.infix? (token :: ts) = some op) :
    State.Completes c ⟨w, pending, .operand⟩ (token :: ts) ↔
      ∃ mid, Derives c .expression ts mid ∧ Finishes c pending mid := by
  rw [completes_behind_iff]
  constructor
  · rintro ⟨mid, hc, hf⟩
    cases hc with
    | stop =>
        rw [hf.infix?_eq_none] at hi
        cases hi
    | extend _ he => exact ⟨mid, he, hf⟩
  · rintro ⟨mid, he, hf⟩
    exact ⟨mid, .extend hi he, hf⟩

end

/-! ## What begins an expression -/

section

variable {token next : Token} {ts mid : List Token}

theorem derives_literal (hk : token.kind = .literal) :
    Derives c .expression (token :: ts) mid ↔ Derives c .chain ts mid := by
  constructor
  · intro h
    cases h with
    | expression ho hc =>
        cases ho with
        | literal => exact hc
        | constant hk' | unary hk' | group hk' | call hk' | emptyCall hk' =>
            cases hk.symm.trans hk'
  · exact fun hc => .expression (.literal hk) hc

theorem derives_constant {k : Constant} (hk : token.kind = .identifier)
    (hconst : c.findConstant? token.text = some k) :
    Derives c .expression (token :: ts) mid ↔ Derives c .chain ts mid := by
  have hf := c.findFunction?_eq_none hconst
  constructor
  · intro h
    cases h with
    | expression ho hc =>
        cases ho with
        | constant => exact hc
        | call _ hf' | emptyCall _ hf' => cases hf.symm.trans hf'
        | literal hk' | unary hk' | group hk' => cases hk.symm.trans hk'
  · exact fun hc => .expression (.constant hk hconst) hc

theorem derives_unary {u : Operator} (hk : token.kind = .symbol .operator)
    (hu : c.findOperator? token.text .unary = some u) :
    Derives c .expression (token :: ts) mid ↔ Derives c .expression ts mid := by
  constructor
  · intro h
    cases h with
    | expression ho hc =>
        cases ho with
        | unary _ _ ho => exact .expression ho hc
        | literal hk' | constant hk' | group hk' | call hk' | emptyCall hk' =>
            cases hk.symm.trans hk'
  · intro h
    cases h with
    | expression ho hc => exact .expression (.unary hk hu ho) hc

/-- Inside a group an expression is due that its closing bracket ends. -/
theorem derives_group {pending : List Pending} {b : Brackets} (hk : token.kind = .symbol .opening)
    (hb : c.findExpressionBrackets? token.text = some b) :
    (∃ mid, Derives c .expression (token :: ts) mid ∧ Finishes c pending mid) ↔
      ∃ mid, Derives c .expression ts mid ∧ Finishes c (.group b token :: pending) mid := by
  constructor
  · rintro ⟨mid, h, hf⟩
    cases h with
    | expression ho hc =>
        cases ho with
        | group _ hb' he hkc hbc =>
            cases hb.symm.trans hb'
            exact ⟨_, he, .group hkc hbc hc hf⟩
        | literal hk' | constant hk' | unary hk' | call hk' | emptyCall hk' =>
            cases hk.symm.trans hk'
  · rintro ⟨mid, he, hf⟩
    cases hf with
    | group hkc hbc hc hf => exact ⟨_, .expression (.group hk hb he hkc hbc) hc, hf⟩

end

/-! ## Calls -/

section

variable {f : Function} {name : Token} {b : Brackets} {separators base : Nat}
  {pending : List Pending}

/-- Arguments with what comes behind the call are an expression with what
finishes the call. -/
theorem Derives.exists_finishes {ts mid mid' : List Token} (h : Derives c (.arguments b) ts mid)
    (hc : Derives c .chain mid mid') (hf : Finishes c pending mid') :
    ∃ rest, Derives c .expression ts rest ∧
      Finishes c (.call f name b separators base :: pending) rest := by
  generalize hp : Part.arguments b = part at h
  induction h generalizing separators with
  | last he hk hb =>
      cases hp
      exact ⟨_, he, .call hk hb hc hf⟩
  | more he hk _ _ ih =>
      cases hp
      obtain ⟨rest, he', hf'⟩ := ih hc rfl
      exact ⟨_, he, .separator hk he' hf'⟩
  | _ => cases hp

theorem Finishes.exists_arguments {rest : List Token}
    (h : Finishes c (.call f name b separators base :: pending) rest) {ts : List Token}
    (he : Derives c .expression ts rest) :
    ∃ mid mid', Derives c (.arguments b) ts mid ∧ Derives c .chain mid mid' ∧
      Finishes c pending mid' := by
  generalize hp : Pending.call f name b separators base :: pending = entries at h
  induction h generalizing separators ts with
  | call hk hb hc hf =>
      cases hp
      exact ⟨_, _, .last he hk hb, hc, hf⟩
  | separator hk he' _ ih =>
      cases hp
      obtain ⟨mid, mid', ha, hc, hf⟩ := ih he' rfl
      exact ⟨mid, mid', .more he hk ha, hc, hf⟩
  | _ => cases hp

/-- The name of a function and its bracket are followed by what completes the
call. -/
theorem derives_call {w : Work} {token next : Token} {ts : List Token}
    (hk : token.kind = .identifier) (hfn : c.findFunction? token.text = some f)
    (hkn : next.kind = .symbol .opening) (hb : c.findFunctionBrackets? next.text = some b) :
    (∃ mid, Derives c .expression (token :: next :: ts) mid ∧ Finishes c pending mid) ↔
      State.Completes c ⟨w, .call f token b separators base :: pending, .opening⟩ ts := by
  constructor
  · rintro ⟨mid, h, hf⟩
    cases h with
    | expression ho hc =>
        cases ho with
        | call _ _ _ hb' ha =>
            cases hb.symm.trans hb'
            obtain ⟨rest, he, hf⟩ := ha.exists_finishes hc hf
            exact .before nofun he hf
        | emptyCall _ _ _ hb' hkc hbc =>
            cases hb.symm.trans hb'
            exact .emptyCall hkc hbc hc hf
        | constant _ hc' => cases (c.findFunction?_eq_none hc').symm.trans hfn
        | literal hk' | unary hk' | group hk' => cases hk.symm.trans hk'
  · intro h
    cases h with
    | before _ he hf =>
        obtain ⟨mid, mid', ha, hc, hf⟩ := hf.exists_arguments he
        exact ⟨mid', .expression (.call hk hfn hkn hb ha) hc, hf⟩
    | emptyCall hkc hbc hc hf =>
        exact ⟨_, .expression (.emptyCall hk hfn hkn hb hkc hbc) hc, hf⟩

end

/-! ## One move -/

theorem ne_of_kind {token : Token} {kind kind' : Token.Kind} (hk : token.kind = kind)
    (hne : kind ≠ kind') : token.kind ≠ kind' := by
  rw [hk]
  exact hne

/-- A move takes tokens away, and what completes the state before it is these
tokens followed by what completes the state behind it. -/
theorem Moves.completes_iff {m m' : Moment} (h : Moves c n m m') :
    ∃ taken, m.tokens = taken ++ m'.tokens ∧
      ∀ more, m.state.Completes c (taken ++ more) ↔ m'.state.Completes c more := by
  cases h with
  | @apply w w' op token pending ts =>
      refine ⟨[], rfl, fun more => ?_⟩
      simp only [List.nil_append, completes_behind_iff, Finishes.operator_iff]
  | @literal w pending previous token ts x hk hp =>
      refine ⟨[token], rfl, fun more => ?_⟩
      simp only [List.singleton_append, completes_before_iff hp (ne_of_kind hk (by decide)),
        derives_literal hk, completes_behind_iff]
  | @constant w w' pending previous token ts k hk hp _ hconst =>
      refine ⟨[token], rfl, fun more => ?_⟩
      simp only [List.singleton_append, completes_before_iff hp (ne_of_kind hk (by decide)),
        derives_constant hk hconst, completes_behind_iff]
  | @function w pending previous token next ts f b hk hp hf hkn hb =>
      refine ⟨[token, next], rfl, fun more => ?_⟩
      simp only [List.cons_append, List.nil_append,
        completes_before_iff hp (ne_of_kind hk (by decide))]
      exact derives_call hk hf hkn hb
  | @unary w pending previous token ts op hk hp hu =>
      refine ⟨[token], rfl, fun more => ?_⟩
      simp only [List.singleton_append, completes_before_iff hp (ne_of_kind hk (by decide)),
        derives_unary hk hu]
      refine Iff.trans ?_ (completes_due_iff ?_ rfl).symm
      · simp only [Finishes.operator_iff]
      · exact nofun
  | @binary w pending token ts op hk ho =>
      refine ⟨[token], rfl, fun more => ?_⟩
      simp only [List.singleton_append,
        completes_behind_infix (Catalog.infix?_eq_some.mpr ⟨hk, ho⟩)]
      refine Iff.trans ?_ (completes_due_iff ?_ rfl).symm
      · simp only [Finishes.operator_iff]
      · exact nofun
  | @group w pending previous token ts b hk hp hb =>
      refine ⟨[token], rfl, fun more => ?_⟩
      simp only [List.singleton_append, completes_before_iff hp (ne_of_kind hk (by decide)),
        derives_group hk hb]
      refine (completes_due_iff ?_ rfl).symm
      exact nofun
  | @separator w pending token name ts f b separators base hk =>
      refine ⟨[token], rfl, fun more => ?_⟩
      simp only [List.singleton_append,
        completes_behind_end (Catalog.infix?_eq_none (ne_of_kind hk (by decide))),
        Finishes.separator_iff hk]
      refine (completes_due_iff ?_ rfl).symm
      exact nofun
  | @closeGroup w pending token opener ts b hk hb =>
      refine ⟨[token], rfl, fun more => ?_⟩
      simp only [List.singleton_append,
        completes_behind_end (Catalog.infix?_eq_none (ne_of_kind hk (by decide))),
        Finishes.group_iff hk hb, completes_behind_iff]
  | @closeCall w w' pending token name ts f b separators base hk hb =>
      refine ⟨[token], rfl, fun more => ?_⟩
      simp only [List.singleton_append,
        completes_behind_end (Catalog.infix?_eq_none (ne_of_kind hk (by decide))),
        Finishes.call_iff hk hb, completes_behind_iff]
  | @closeEmptyCall w w' pending token name ts f b separators base hk hb =>
      refine ⟨[token], rfl, fun more => ?_⟩
      simp only [List.singleton_append, completes_behind_iff]
      constructor
      · intro h
        cases h with
        | before _ he =>
            have hs := he.startsOperand_eq nofun
            simp only [startsOperand, hk, Bool.false_eq_true] at hs
        | emptyCall _ _ hc hf => exact ⟨_, hc, hf⟩
      · rintro ⟨_, hc, hf⟩
        exact .emptyCall hk hb hc hf

/-- As `Moves.completes_iff`, for any number of moves. -/
theorem Leads.completes_iff {m m' : Moment} (h : Leads c n m m') :
    ∃ taken, m.tokens = taken ++ m'.tokens ∧
      ∀ more, m.state.Completes c (taken ++ more) ↔ m'.state.Completes c more := by
  induction h with
  | refl m => exact ⟨[], rfl, fun _ => Iff.rfl⟩
  | step h₁ _ ih =>
      obtain ⟨taken₁, ht₁, hc₁⟩ := h₁.completes_iff
      obtain ⟨taken₂, ht₂, hc₂⟩ := ih
      refine ⟨taken₁ ++ taken₂, ?_, fun more => ?_⟩
      · rw [ht₁, ht₂, List.append_assoc]
      · rw [List.append_assoc, hc₁, hc₂]

/-! ## Every state can be completed -/

theorem Finishes.exists (c : Catalog) (pending : List Pending) : ∃ ts, Finishes c pending ts := by
  induction pending with
  | nil => exact ⟨[], .nothing⟩
  | cons entry pending ih =>
      obtain ⟨ts, hts⟩ := ih
      cases entry with
      | operator => exact ⟨ts, .operator hts⟩
      | call f name b => exact ⟨⟨.symbol .closing, b.closing, 0, 0⟩ :: ts, .call rfl rfl .stop hts⟩
      | group b => exact ⟨⟨.symbol .closing, b.closing, 0, 0⟩ :: ts, .group rfl rfl .stop hts⟩

/-- Whatever the state, a numeral if an operand is due and the closing brackets
of what is open complete it. -/
theorem State.exists_completes (c : Catalog) (st : State) : ∃ ts, st.Completes c ts := by
  obtain ⟨w, pending, previous⟩ := st
  obtain ⟨ts, hts⟩ := Finishes.exists c pending
  by_cases hp : previous = .operand
  · subst hp
    exact ⟨ts, .behind .stop hts⟩
  · exact ⟨⟨.literal, "0", 0, 0⟩ :: ts, .before hp (.expression (.literal rfl) .stop) hts⟩

end Reckoner
