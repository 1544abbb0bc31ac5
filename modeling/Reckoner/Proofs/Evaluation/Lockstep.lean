/-
# Evaluations in lockstep

What an evaluation does next is told by the kinds of the tokens and by the texts
of all but the literals.  So two evaluations whose tokens differ in the numbers
written there, and in where they stand, do the same step after step, whatever
numbers they compute with and at whatever precisions.  Both have

    operands    as many
    steps       as many, the same applied, asked for by tokens that correspond
    pending     the same, for tokens that correspond

and only one thing sets them apart: a number that has no result in one of the
evaluations stops it there.  `Abreast R x x'` is the judgement about the two:
either one of them stopped for a number, or both stopped with problems that
match, or both go on with results that are related by `R`.  One lemma for each
function of the evaluation says that it keeps the two abreast.
-/
import Mathlib.Data.List.Forall2
import Reckoner.Catalog.Preset
import Reckoner.Proofs.Evaluation.Moment

namespace Reckoner

/-- Tokens that differ in nothing but where they stand and, if they are
literals, in their texts. -/
structure Token.Resembles (t t' : Token) : Prop where
  kind : t'.kind = t.kind
  text : t.kind ≠ .literal → t'.text = t.text

/-- Whether failures of a category are about the numbers computed with. -/
def Category.isNumeric : Category → Bool
  | .operand _ | .precision _ _ => true
  | .lexical _ | .structural | .arity _ _ _ _ | .internal => false

/-- Whether an evaluation stopped for the numbers that it computed with. -/
def Evaluation.stopsAtNumber (e : Evaluation) : Bool :=
  match e.result with
  | .ok _ => false
  | .error problem => problem.cause.category.isNumeric

/-- `Paired ts ts' t t'`: the tokens stand at one place in two lists. -/
def Paired (ts ts' : List Token) (t t' : Token) : Prop :=
  ∃ k : Nat, ts[k]? = some t ∧ ts'[k]? = some t'

/-! ## What matches

Throughout, `P` tells which tokens of two evaluations correspond. -/

/-- Steps in which the same is applied to as many operands, for tokens that
correspond. -/
structure Step.Matches (P : Token → Token → Prop) (s s' : Step) : Prop where
  applied : s'.applied = s.applied
  operands : s'.operands.length = s.operands.length
  token : ∃ t t', P t t' ∧ s.index = t.start ∧ s'.index = t'.start

/-- Places at tokens that correspond, or at the same ends of two sources. -/
inductive Place.Matches (P : Token → Token → Prop) (width width' : Nat) :
    Option Place → Option Place → Prop
  | start {t t' : Token} (length length' : Nat) :
      P t t' → Matches P width width' (some ⟨t.start, length⟩) (some ⟨t'.start, length'⟩)
  | stop {t t' : Token} (length length' : Nat) :
      P t t' → Matches P width width' (some ⟨t.stop, length⟩) (some ⟨t'.stop, length'⟩)
  | front (length length' : Nat) :
      Matches P width width' (some ⟨0, length⟩) (some ⟨0, length'⟩)
  | back (length length' : Nat) :
      Matches P width width' (some ⟨width, length⟩) (some ⟨width', length'⟩)
  | nowhere : Matches P width width' none none

/-- Problems with one code, at places that match. -/
structure Problem.Matches (P : Token → Token → Prop) (width width' : Nat) (p p' : Problem) :
    Prop where
  code : p'.cause.category.code = p.cause.category.code
  place : Place.Matches P width width' p.place p'.place

/-- As many operands wait, and the steps match. -/
structure Work.Matches (P : Token → Token → Prop) (w w' : Work) : Prop where
  operands : w'.operands.length = w.operands.length
  steps : List.Forall₂ (Step.Matches P) w.steps w'.steps

/-- The same is not finished, for tokens that correspond. -/
inductive Pending.Matches (P : Token → Token → Prop) : Pending → Pending → Prop
  | operator (op : Operator) {t t' : Token} : P t t' → Matches P (.operator op t) (.operator op t')
  | call (f : Function) (b : Brackets) (separators base : Nat) {t t' : Token} :
      P t t' → Matches P (.call f t b separators base) (.call f t' b separators base)
  | group (b : Brackets) {t t' : Token} : P t t' → Matches P (.group b t) (.group b t')

structure State.Matches (P : Token → Token → Prop) (st st' : State) : Prop where
  work : st.work.Matches P st'.work
  pending : List.Forall₂ (Pending.Matches P) st.pending st'.pending
  previous : st'.previous = st.previous

/-! ## The judgement -/

/-- `Abreast P width width' R x x'`: one of the two stopped for a number, or
both stopped with problems that match, or both have results related by `R`. -/
inductive Abreast (P : Token → Token → Prop) (width width' : Nat) {α β : Type}
    (R : α → β → Prop) : Except Halt α → Except Halt β → Prop
  | ok {a : α} {b : β} : R a b → Abreast P width width' R (.ok a) (.ok b)
  | error {halt halt' : Halt} :
      halt.problem.Matches P width width' halt'.problem →
      List.Forall₂ (Step.Matches P) halt.steps halt'.steps →
      Abreast P width width' R (.error halt) (.error halt')
  | first {halt : Halt} (x' : Except Halt β) :
      halt.problem.cause.category.isNumeric = true → Abreast P width width' R (.error halt) x'
  | second {halt' : Halt} (x : Except Halt α) :
      halt'.problem.cause.category.isNumeric = true → Abreast P width width' R x (.error halt')

section

variable {P : Token → Token → Prop} {width width' : Nat}

theorem Abreast.bind {α β γ δ : Type} {R : α → β → Prop} {S : γ → δ → Prop}
    {x : Except Halt α} {x' : Except Halt β} {f : α → Except Halt γ} {f' : β → Except Halt δ}
    (h : Abreast P width width' R x x')
    (hf : ∀ a b, R a b → Abreast P width width' S (f a) (f' b)) :
    Abreast P width width' S (x >>= f) (x' >>= f') := by
  cases h with
  | ok hr => exact hf _ _ hr
  | error hp hs => exact .error hp hs
  | first _ hc => exact .first _ hc
  | second _ hc => exact .second _ hc

/-! ## Each part of an evaluation -/

section

variable {n n' : Numerics} {w w' : Work} {t t' : Token}

theorem Cause.isNumeric_noValue (subject : String) (p : Nat) (reason : Reason) :
    (Cause.noValue subject p reason).category.isNumeric = true := by
  simp only [Cause.category]
  split
  · rfl
  · rfl

/-- The numbers may differ; if one has no value, its evaluation stops. -/
theorem Work.abreast_value (w w' : Work) (outcome outcome' : Outcome) (subject subject' : String)
    (t t' : Token) :
    Abreast P width width' (fun _ _ => True) (w.value n outcome subject t)
      (w'.value n' outcome' subject' t') := by
  cases outcome with
  | error reason => exact .first _ (Cause.isNumeric_noValue _ _ _)
  | ok x =>
      cases outcome' with
      | error reason => exact .second _ (Cause.isNumeric_noValue _ _ _)
      | ok x' => exact .ok trivial

namespace Work.Matches

variable (hw : w.Matches P w')

include hw

theorem halt {α β : Type} {R : α → β → Prop} {cause cause' : Cause} {start start' : Int}
    {length length' : Nat} (hcode : cause'.category.code = cause.category.code)
    (hplace : Place.Matches P width width' (some ⟨start, length⟩) (some ⟨start', length'⟩)) :
    Abreast P width width' R (w.halt cause start length) (w'.halt cause' start' length') :=
  .error ⟨hcode, hplace⟩ hw.steps

theorem haltAt {α β : Type} {R : α → β → Prop} {cause cause' : Cause} (ht : P t t')
    (hcode : cause'.category.code = cause.category.code) :
    Abreast P width width' R (w.haltAt cause t) (w'.haltAt cause' t') :=
  hw.halt hcode (.start _ _ ht)

theorem push (x x' : Number) : (w.push x).Matches P (w'.push x') :=
  ⟨congrArg (· + 1) hw.operands, hw.steps⟩

theorem perform (applied : Applied) (count : Nat) (run run' : List Number → Outcome)
    (subject : String) (ht : P t t') :
    Abreast P width width' (Work.Matches P) (w.perform n applied count run subject t)
      (w'.perform n' applied count run' subject t') := by
  refine (abreast_value _ _ _ _ _ _ _ _).bind fun x x' _ =>
    .ok ⟨?_, .cons ⟨rfl, ?_, t, t', ht, rfl, rfl⟩ hw.steps⟩
  · simp only [List.length_cons, List.length_drop, hw.operands]
  · simp only [List.length_reverse, List.length_take, hw.operands]

theorem applyOperator (op : Operator) (ht : P t t') :
    Abreast P width width' (Work.Matches P) (w.applyOperator n op t)
      (w'.applyOperator n' op t') := by
  unfold Work.applyOperator
  rw [hw.operands]
  split
  · exact hw.halt rfl (.start _ _ ht)
  · exact hw.perform _ _ _ _ _ ht

theorem reduce (due : Operator → Bool) {pending pending' : List Pending}
    (hp : List.Forall₂ (Pending.Matches P) pending pending') :
    Abreast P width width'
      (fun r r' => r.1.Matches P r'.1 ∧ List.Forall₂ (Pending.Matches P) r.2 r'.2)
      (w.reduce n due pending) (w'.reduce n' due pending') := by
  induction hp generalizing w w' with
  | nil => exact .ok ⟨hw, .nil⟩
  | cons hentry hrest ih =>
      cases hentry with
      | call f b separators base ht => exact .ok ⟨hw, .cons (.call f b separators base ht) hrest⟩
      | group b ht => exact .ok ⟨hw, .cons (.group b ht) hrest⟩
      | operator op ht =>
          unfold Work.reduce
          split
          · exact (hw.applyOperator op ht).bind fun _ _ hw₁ => ih hw₁
          · exact .ok ⟨hw, .cons (.operator op ht) hrest⟩

/-- Where there is not a single value, there is none in the other evaluation. -/
theorem single :
    Abreast P width width' (fun r r' => r.2.Matches P r'.2)
      (match w.operands with
        | [x] => return (x, w)
        | operands => w.halt (.notSingle operands.length) 0 1)
      (match w'.operands with
        | [x] => return (x, w')
        | operands => w'.halt (.notSingle operands.length) 0 1) := by
  have hlength := hw.operands
  split
  · next x hx =>
      rw [hx] at hlength
      obtain ⟨x', hx'⟩ := List.length_eq_one_iff.mp hlength
      rw [hx']
      exact .ok hw
  · next hne =>
      split
      · next x' hx' =>
          rw [hx'] at hlength
          obtain ⟨x, hx⟩ := List.length_eq_one_iff.mp hlength.symm
          exact absurd hx (hne x)
      · exact hw.halt rfl (.front _ _)

end Work.Matches

namespace State.Matches

variable {c : Catalog} {st st' : State} (h : st.Matches P st') (ht : P t t')

include h ht

theorem expectOperand :
    Abreast P width width' (fun _ _ => True) (st.expectOperand t) (st'.expectOperand t') := by
  unfold State.expectOperand
  rw [h.previous]
  split
  · exact h.work.haltAt ht rfl
  · exact .ok trivial

theorem literal : Abreast P width width' (State.Matches P) (st.literal n t) (st'.literal n' t') :=
  (h.expectOperand ht).bind fun _ _ _ =>
    (Work.abreast_value _ _ _ _ _ _ _ _).bind fun _ _ _ => .ok ⟨h.work.push _ _, h.pending, rfl⟩

theorem function (f : Function) {next next' : Option Token}
    (hnext : callBrackets? c next' = callBrackets? c next) :
    Abreast P width width' (State.Matches P) (st.function c f t next)
      (st'.function c f t' next') := by
  unfold State.function
  rw [hnext, h.work.operands]
  split
  · exact h.work.halt rfl (.stop _ _ ht)
  · exact .ok ⟨h.work, .cons (.call _ _ _ _ ht) h.pending, rfl⟩

theorem constant (htext : t'.text = t.text) :
    Abreast P width width' (State.Matches P) (st.constant c n t) (st'.constant c n' t') := by
  unfold State.constant
  rw [htext]
  split
  · exact (h.work.perform _ _ _ _ _ ht).bind fun _ _ hw => .ok ⟨hw, h.pending, rfl⟩
  · exact h.work.haltAt ht rfl

theorem identifier (htext : t'.text = t.text) {next next' : Option Token}
    (hnext : callBrackets? c next' = callBrackets? c next) :
    Abreast P width width' (fun r r' => r.1.Matches P r'.1 ∧ r'.2 = r.2)
      (st.identifier c n t next) (st'.identifier c n' t' next') := by
  refine (h.expectOperand ht).bind fun _ _ _ => ?_
  rw [htext]
  split
  · exact (h.function ht _ hnext).bind fun _ _ h' => .ok ⟨h', rfl⟩
  · exact (h.constant ht htext).bind fun _ _ h' => .ok ⟨h', rfl⟩

theorem operator (htext : t'.text = t.text) :
    Abreast P width width' (State.Matches P) (st.operator c n t) (st'.operator c n' t') := by
  unfold State.operator
  rw [htext, h.previous]
  split
  · split
    · exact h.work.haltAt ht rfl
    · next op _ =>
        exact (h.work.reduce _ h.pending).bind fun _ _ hr =>
          .ok ⟨hr.1, .cons (.operator op ht) hr.2, rfl⟩
  · split
    · exact h.work.haltAt ht rfl
    · next op _ => exact .ok ⟨h.work, .cons (.operator op ht) h.pending, rfl⟩

theorem opening (htext : t'.text = t.text) :
    Abreast P width width' (State.Matches P) (st.opening c t) (st'.opening c t') := by
  refine (h.expectOperand ht).bind fun _ _ _ => ?_
  rw [htext]
  split
  · exact h.work.haltAt ht rfl
  · next b _ => exact .ok ⟨h.work, .cons (.group b ht) h.pending, rfl⟩

theorem separator :
    Abreast P width width' (State.Matches P) (st.separator n t) (st'.separator n' t') := by
  unfold State.separator
  rw [h.previous]
  split
  · refine (h.work.reduce _ h.pending).bind ?_
    rintro ⟨w, pending⟩ ⟨w', pending'⟩ ⟨hw, hp⟩
    dsimp only at hw hp ⊢
    cases hp with
    | nil => exact hw.halt rfl (.start _ _ ht)
    | cons hentry hrest =>
        cases hentry with
        | call f b separators base hname =>
            exact .ok ⟨hw, .cons (.call f b (separators + 1) base hname) hrest, rfl⟩
        | operator | group => exact hw.halt rfl (.start _ _ ht)
  · exact h.work.halt rfl (.start _ _ ht)

omit ht in
theorem isAtEmptyCall : st'.isAtEmptyCall = st.isAtEmptyCall := by
  obtain ⟨-, hp, hprevious⟩ := h
  unfold State.isAtEmptyCall
  rw [hprevious]
  generalize st.pending = pending at hp ⊢
  generalize st'.pending = pending' at hp ⊢
  cases st.previous with
  | start | operand | operator | separator => rfl
  | opening =>
      cases hp with
      | nil => rfl
      | cons hentry _ => cases hentry <;> rfl

omit h in
theorem finishCall {w w' : Work} (hw : w.Matches P w') (f : Function) (base count : Nat) :
    Abreast P width width' (Work.Matches P) (State.finishCall n w f t base count)
      (State.finishCall n' w' f t' base count) := by
  unfold State.finishCall
  rw [hw.operands]
  split
  · exact hw.halt rfl (.start _ _ ht)
  · split
    · exact hw.perform _ _ _ _ _ ht
    · exact hw.haltAt ht rfl

theorem closing (htext : t'.text = t.text) :
    Abreast P width width' (State.Matches P) (st.closing n t) (st'.closing n' t') := by
  unfold State.closing
  rw [htext, h.previous, h.isAtEmptyCall]
  split
  · refine (h.work.reduce _ h.pending).bind ?_
    rintro ⟨w, pending⟩ ⟨w', pending'⟩ ⟨hw, hp⟩
    dsimp only at hw hp ⊢
    cases hp with
    | nil => exact hw.halt rfl (.start _ _ ht)
    | cons hentry hrest =>
        cases hentry with
        | operator => exact hw.halt rfl (.start _ _ ht)
        | call f b separators base hname =>
            dsimp only
            split
            · exact (finishCall hname hw f _ _).bind fun _ _ hw' => .ok ⟨hw', hrest, rfl⟩
            · exact hw.halt rfl (.start _ _ ht)
        | group b hopener =>
            dsimp only
            split
            · exact .ok ⟨hw, hrest, rfl⟩
            · exact hw.halt rfl (.start _ _ ht)
  · split
    · exact h.work.halt rfl (.start _ _ ht)
    · exact h.work.halt rfl (.start _ _ ht)

/-- Tokens that resemble each other keep two evaluations abreast. -/
theorem handle (hr : t.Resembles t') {next next' : Option Token}
    (hnext : callBrackets? c next' = callBrackets? c next) :
    Abreast P width width' (fun r r' => r.1.Matches P r'.1 ∧ r'.2 = r.2)
      (st.handle c n t next) (st'.handle c n' t' next') := by
  unfold State.handle
  rw [hr.kind]
  split
  · exact (h.literal ht).bind fun _ _ h' => .ok ⟨h', rfl⟩
  · next hk => exact h.identifier ht (hr.text (by rw [hk]; decide)) hnext
  · next hk =>
      exact (h.operator ht (hr.text (by rw [hk]; decide))).bind fun _ _ h' => .ok ⟨h', rfl⟩
  · next hk =>
      exact (h.opening ht (hr.text (by rw [hk]; decide))).bind fun _ _ h' => .ok ⟨h', rfl⟩
  · next hk =>
      exact (h.closing ht (hr.text (by rw [hk]; decide))).bind fun _ _ h' => .ok ⟨h', rfl⟩
  · exact (h.separator ht).bind fun _ _ h' => .ok ⟨h', rfl⟩
  · exact .error ⟨rfl, .nowhere⟩ h.work.steps

omit ht in
theorem finish :
    Abreast P width width' (fun r r' => r.2.Matches P r'.2) (st.finish n width)
      (st'.finish n' width') := by
  unfold State.finish
  rw [h.previous]
  split
  · exact h.work.halt rfl (.front _ _)
  · refine (h.work.reduce _ h.pending).bind ?_
    rintro ⟨w, pending⟩ ⟨w', pending'⟩ ⟨hw, hp⟩
    dsimp only at hw hp ⊢
    cases hp with
    | nil => exact hw.single
    | cons hentry _ =>
        cases hentry with
        | operator => exact hw.single
        | call _ _ _ _ hname => exact hw.halt rfl (.stop _ _ hname)
        | group _ hopener => exact hw.halt rfl (.start _ _ hopener)
  · exact h.work.halt rfl (.back _ _)

end State.Matches

end

/-! ## Whole evaluations -/

theorem callBrackets?_of_resembles {c : Catalog} {ts ts' : List Token}
    (h : List.Forall₂ Token.Resembles ts ts') :
    State.callBrackets? c ts'.head? = State.callBrackets? c ts.head? := by
  cases h with
  | nil => rfl
  | @cons t t' _ _ hr _ =>
      obtain ⟨kind, text, _, _⟩ := t
      obtain ⟨kind', text', _, _⟩ := t'
      obtain rfl : kind' = kind := hr.kind
      cases kind' with
      | literal | identifier | other => rfl
      | symbol role =>
          obtain rfl : text' = text := hr.text fun hk => by cases hk
          cases role <;> rfl

/-- Evaluations of tokens that correspond and resemble each other stay abreast
to the end. -/
theorem State.Matches.run {c : Catalog} {n n' : Numerics} {st st' : State} {ts ts' : List Token}
    (h : st.Matches P st') (ht : List.Forall₂ (fun t t' => P t t' ∧ t.Resembles t') ts ts') :
    Abreast P width width' (fun r r' => r.2.Matches P r'.2) (State.run c n width none st ts)
      (State.run c n' width' none st' ts') := by
  match ts, ts', ht with
  | _, _, .nil => exact h.finish
  | _ :: rest, _ :: rest', .cons hhead hrest =>
      have hnext := callBrackets?_of_resembles (c := c) (hrest.imp fun _ _ h => h.2)
      rw [State.run_cons, State.run_cons]
      refine (h.handle hhead.1 hhead.2 hnext).bind ?_
      rintro ⟨st₁, used⟩ ⟨st₁', used'⟩ ⟨h₁, rfl⟩
      cases used' with
      | false => exact h₁.run hrest
      | true =>
          cases hrest with
          | nil => exact h₁.run .nil
          | cons _ hrest => exact h₁.run hrest
termination_by ts.length
decreasing_by
  · exact Nat.lt_succ_self _
  · exact Nat.zero_lt_succ _
  · exact Nat.lt_succ_of_lt (Nat.lt_succ_self _)

end

theorem paired_of_resembles {ts ts' : List Token} (h : List.Forall₂ Token.Resembles ts ts') :
    List.Forall₂ (fun t t' => Paired ts ts' t t' ∧ t.Resembles t') ts ts' := by
  induction h with
  | nil => exact .nil
  | cons hr _ ih =>
      refine .cons ⟨⟨0, rfl, rfl⟩, hr⟩ (ih.imp ?_)
      rintro t t' ⟨⟨k, hk, hk'⟩, hr⟩
      exact ⟨⟨k + 1, hk, hk'⟩, hr⟩

/-- For every catalog, any two precisions and any two lists of tokens that
differ in the texts of literals and in their places only: unless a number stops
one of the evaluations, both have a value, or both stop with problems of one
code, at tokens that have the same place in the lists; and step by step they
apply the same to as many operands, for tokens that have the same place. -/
theorem evaluations_in_lockstep (c : Catalog) (n n' : Numerics) (width width' : Nat)
    {tokens tokens' : List Token} (ht : List.Forall₂ Token.Resembles tokens tokens')
    (h : (Evaluation.ofTokens c n width tokens).stopsAtNumber = false)
    (h' : (Evaluation.ofTokens c n' width' tokens').stopsAtNumber = false) :
    List.Forall₂ (Step.Matches (Paired tokens tokens'))
        (Evaluation.ofTokens c n width tokens).steps
        (Evaluation.ofTokens c n' width' tokens').steps ∧
      match (Evaluation.ofTokens c n width tokens).result,
        (Evaluation.ofTokens c n' width' tokens').result with
      | .ok _, .ok _ => True
      | .error p, .error p' => p.Matches (Paired tokens tokens') width width' p'
      | _, _ => False := by
  have hstart : State.initial.Matches (Paired tokens tokens') State.initial :=
    ⟨⟨rfl, .nil⟩, .nil, rfl⟩
  have habreast : Abreast (Paired tokens tokens') width width'
      (fun r r' => r.2.Matches (Paired tokens tokens') r'.2)
      (State.run c n width none .initial tokens) (State.run c n' width' none .initial tokens') :=
    hstart.run (paired_of_resembles ht)
  unfold Evaluation.ofTokens Evaluation.ofLexing at h h' ⊢
  dsimp only at h h' ⊢
  generalize State.run c n width none .initial tokens = r at h habreast ⊢
  generalize State.run c n' width' none .initial tokens' = r' at h' habreast ⊢
  cases habreast with
  | ok hr => exact ⟨List.rel_reverse hr.steps, trivial⟩
  | error hp hs => exact ⟨List.rel_reverse hs, hp⟩
  | first _ hc => cases hc.symm.trans h
  | second _ hc => cases hc.symm.trans h'

/-- A sum with a product, and a bracket that nothing opens, each token as wide
as the next. -/
def sumThenBracket (x y z : String) (width : Int) : List Token :=
  [⟨.literal, x, 0, width⟩, ⟨.symbol .operator, "+", width, 2 * width⟩,
   ⟨.literal, y, 2 * width, 3 * width⟩, ⟨.symbol .operator, "*", 3 * width, 4 * width⟩,
   ⟨.literal, z, 4 * width, 5 * width⟩, ⟨.symbol .closing, ")", 5 * width, 6 * width⟩]

theorem sumThenBracket_in_lockstep :
    let c := Preset.catalog .standard
    let tokens := sumThenBracket "1" "2" "3" 1
    let tokens' := sumThenBracket "0.5" "1000" "7" 4
    let e := Evaluation.ofTokens c ⟨5, fun _ => .zero⟩ 6 tokens
    let e' := Evaluation.ofTokens c ⟨20, fun _ => .zero⟩ 24 tokens'
    e.steps.length = 2 ∧ List.Forall₂ (Step.Matches (Paired tokens tokens')) e.steps e'.steps ∧
      match e.result, e'.result with
      | .ok _, .ok _ => True
      | .error p, .error p' => p.Matches (Paired tokens tokens') 6 24 p'
      | _, _ => False := by
  have ht : List.Forall₂ Token.Resembles (sumThenBracket "1" "2" "3" 1)
      (sumThenBracket "0.5" "1000" "7" 4) :=
    .cons ⟨rfl, fun h => absurd rfl h⟩ (.cons ⟨rfl, fun _ => rfl⟩
      (.cons ⟨rfl, fun h => absurd rfl h⟩ (.cons ⟨rfl, fun _ => rfl⟩
        (.cons ⟨rfl, fun h => absurd rfl h⟩ (.cons ⟨rfl, fun _ => rfl⟩ .nil)))))
  refine ⟨by decide +kernel, evaluations_in_lockstep _ _ _ _ _ ht ?_ ?_⟩
  · decide +kernel
  · decide +kernel

end Reckoner
