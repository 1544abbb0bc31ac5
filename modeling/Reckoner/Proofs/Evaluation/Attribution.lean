/-
# What a problem points at

A problem comes up long after the token that it is about was read: an operator
is applied when a later token makes it due, and a call when its bracket closes.
So everything that is pending keeps its token, and while a run goes on

    pending            its token is one of the run's, and it is
    an operator        a symbol, with the text of the operator
    a call             a name, with the text of the function
    a group            a bracket

A problem then points at one of these tokens, or at the token that is being
handled, or at an end of the source (`State.accounts_run`).  If its category
names something, it points at the start of a token, with the token's length,
and what it names is the text of the token.

`Accounts Q P x` is the judgement by which this is proved, one lemma for each
function of the evaluation: `x` stops with a problem that has `Q`, or it results
in something that has `P`.
-/
import Reckoner.Proofs.Evaluation.Moment

namespace Reckoner

namespace Category

/-- What a failure of a category is about: the text of a token. -/
def subject? : Category → Option String
  | .arity name _ _ _ => some name
  | .operand subject | .precision subject _ => some subject
  | .lexical _ | .structural | .internal => none

/-- What a failure of a category names: a piece of the source. -/
def named? : Category → Option String
  | .lexical text => some text
  | category => category.subject?

theorem named?_of_subject? {category : Category} {text : String}
    (h : category.subject? = some text) :
    category.named? = some text ∧ ∀ text', category ≠ .lexical text' := by
  cases category with
  | lexical => cases h
  | structural | arity | operand | precision | internal => exact ⟨h, fun _ hc => by cases hc⟩

end Category

/-- Whether tokens of a kind are named by problems. -/
def Token.Kind.isNamed : Token.Kind → Bool
  | .literal | .identifier | .symbol .operator => true
  | _ => false

/-- `PointsAt tokens width p`: the problem `p` points at one of the tokens, or
at an end of a source of `width` units. -/
inductive PointsAt (tokens : List Token) (width : Nat) : Problem → Prop
  /-- At a token that it names. -/
  | named {cause : Cause} {t : Token} :
      t ∈ tokens → t.kind.isNamed = true → cause.category.subject? = some t.text →
      PointsAt tokens width ⟨cause, some ⟨t.start, t.length⟩⟩
  /-- At the start of a token. -/
  | start {cause : Cause} {t : Token} (length : Nat) :
      t ∈ tokens → cause.category.named? = none →
      PointsAt tokens width ⟨cause, some ⟨t.start, length⟩⟩
  /-- Behind the end of a token. -/
  | stop {cause : Cause} {t : Token} (length : Nat) :
      t ∈ tokens → cause.category.named? = none →
      PointsAt tokens width ⟨cause, some ⟨t.stop, length⟩⟩
  /-- At the start of the source. -/
  | front {cause : Cause} (length : Nat) :
      cause.category.named? = none → PointsAt tokens width ⟨cause, some ⟨0, length⟩⟩
  /-- Behind the end of the source. -/
  | back {cause : Cause} (length : Nat) :
      cause.category.named? = none → PointsAt tokens width ⟨cause, some ⟨width, length⟩⟩

/-- Whether what is pending keeps a token that it has its text from. -/
def Pending.Sourced (tokens : List Token) : Pending → Prop
  | .operator op t => t ∈ tokens ∧ t.kind = .symbol .operator ∧ op.symbol = t.text
  | .call f t _ _ _ => t ∈ tokens ∧ t.kind = .identifier ∧ f.name = t.text
  | .group _ t => t ∈ tokens

/-- Whether all that is pending in a state keeps its token. -/
def State.Sourced (tokens : List Token) (st : State) : Prop :=
  ∀ entry ∈ st.pending, entry.Sourced tokens

/-! ## The judgement -/

/-- `Accounts Q P x`: `x` stops with a problem that has `Q`, or results in
something that has `P`. -/
def Accounts {α : Type} (Q : Problem → Prop) (P : α → Prop) : Except Halt α → Prop
  | .ok a => P a
  | .error halt => Q halt.problem

theorem Accounts.bind {α β : Type} {Q : Problem → Prop} {P : α → Prop} {R : β → Prop}
    {x : Except Halt α} {f : α → Except Halt β} (h : Accounts Q P x)
    (hf : ∀ a, P a → Accounts Q R (f a)) : Accounts Q R (x >>= f) := by
  cases x with
  | ok a => exact hf a h
  | error halt => exact h

theorem Accounts.error {α : Type} {Q : Problem → Prop} {P : α → Prop} {x : Except Halt α}
    {halt : Halt} (h : Accounts Q P x) (hx : x = .error halt) : Q halt.problem := by
  rw [hx] at h
  exact h

/-! ## Texts -/

section

variable {d : Definition} {text : String}

theorem Definition.symbol_of_find {arity : Arity} {op : Operator}
    (h : d.findOperator? text arity = some op) : op.symbol = text := by
  have h' := List.find?_some h
  rw [Bool.and_eq_true, decide_eq_true_eq] at h'
  exact h'.1

theorem Definition.name_of_findFunction {f : Function} (h : d.findFunction? text = some f) :
    f.name = text := by
  have h' := List.find?_some h
  rwa [decide_eq_true_eq] at h'

theorem Definition.name_of_findConstant {k : Constant} (h : d.findConstant? text = some k) :
    k.name = text := by
  have h' := List.find?_some h
  rwa [decide_eq_true_eq] at h'

theorem Cause.subject?_noValue (subject : String) (p : Nat) (reason : Reason) :
    (Cause.noValue subject p reason).category.subject? = some subject := by
  simp only [Cause.category]
  split
  · rfl
  · rfl

end

/-! ## Each part of an evaluation -/

section

variable {c : Catalog} {n : Numerics} {tokens : List Token} {width : Nat} {token : Token}

theorem Work.accounts_value (w : Work) (outcome : Outcome) {subject : String}
    (ht : token ∈ tokens) (hk : token.kind.isNamed = true) (hs : subject = token.text) :
    Accounts (PointsAt tokens width) (fun _ => True) (w.value n outcome subject token) := by
  cases outcome with
  | ok x => trivial
  | error reason =>
      subst hs
      exact .named ht hk (Cause.subject?_noValue _ _ _)

theorem Work.accounts_perform (w : Work) (applied : Applied) (count : Nat)
    (run : List Number → Outcome) {subject : String} (ht : token ∈ tokens)
    (hk : token.kind.isNamed = true) (hs : subject = token.text) :
    Accounts (PointsAt tokens width) (fun _ => True)
      (w.perform n applied count run subject token) :=
  (w.accounts_value _ ht hk hs).bind fun _ _ => trivial

theorem Work.accounts_applyOperator (w : Work) {op : Operator} (ht : token ∈ tokens)
    (hk : token.kind = .symbol .operator) (hs : op.symbol = token.text) :
    Accounts (PointsAt tokens width) (fun _ => True) (w.applyOperator n op token) := by
  unfold applyOperator
  split
  · exact .start 1 ht rfl
  · exact w.accounts_perform _ _ _ ht (by rw [hk]; rfl) hs

/-- Of what was pending, reducing leaves the rest. -/
theorem Work.accounts_reduce (due : Operator → Bool) (w : Work) {pending : List Pending}
    (h : ∀ entry ∈ pending, entry.Sourced tokens) :
    Accounts (PointsAt tokens width) (fun r => ∀ entry ∈ r.2, entry.Sourced tokens)
      (w.reduce n due pending) := by
  induction pending generalizing w with
  | nil => exact h
  | cons entry rest ih =>
      obtain ⟨hentry, hrest⟩ := List.forall_mem_cons.mp h
      cases entry with
      | call | group => exact h
      | operator op t =>
          unfold reduce
          split
          · obtain ⟨ht, hk, hs⟩ := hentry
            exact (w.accounts_applyOperator ht hk hs).bind fun w' _ => ih w' hrest
          · exact h

namespace State

variable {st : State}

theorem accounts_expectOperand (st : State) (ht : token ∈ tokens) :
    Accounts (PointsAt tokens width) (fun _ => True) (st.expectOperand token) := by
  unfold expectOperand
  split
  · exact .start _ ht rfl
  · trivial

theorem accounts_literal (h : st.Sourced tokens) (ht : token ∈ tokens)
    (hk : token.kind = .literal) :
    Accounts (PointsAt tokens width) (State.Sourced tokens) (st.literal n token) :=
  (st.accounts_expectOperand ht).bind fun _ _ =>
    (st.work.accounts_value _ ht (by rw [hk]; rfl) rfl).bind fun _ _ => h

theorem accounts_identifier (h : st.Sourced tokens) (ht : token ∈ tokens)
    (hk : token.kind = .identifier) (next : Option Token) :
    Accounts (PointsAt tokens width) (fun r => r.1.Sourced tokens)
      (st.identifier c n token next) := by
  refine (st.accounts_expectOperand ht).bind fun _ _ => ?_
  split
  · next f hf =>
      refine Accounts.bind (P := State.Sourced tokens) ?_ fun _ h' => h'
      unfold function
      split
      · exact .stop 1 ht rfl
      · exact List.forall_mem_cons.mpr ⟨⟨ht, hk, Definition.name_of_findFunction hf⟩, h⟩
  · refine Accounts.bind (P := State.Sourced tokens) ?_ fun _ h' => h'
    unfold constant
    split
    · next k hc =>
        exact (st.work.accounts_perform _ _ _ ht (by rw [hk]; rfl)
          (Definition.name_of_findConstant hc)).bind fun _ _ => h
    · exact .start _ ht rfl

theorem accounts_operator (h : st.Sourced tokens) (ht : token ∈ tokens)
    (hk : token.kind = .symbol .operator) :
    Accounts (PointsAt tokens width) (State.Sourced tokens) (st.operator c n token) := by
  unfold operator
  split
  · split
    · exact .start _ ht rfl
    · next op ho =>
        exact (st.work.accounts_reduce _ h).bind fun _ hr =>
          List.forall_mem_cons.mpr ⟨⟨ht, hk, Definition.symbol_of_find ho⟩, hr⟩
  · split
    · exact .start _ ht rfl
    · next op ho => exact List.forall_mem_cons.mpr ⟨⟨ht, hk, Definition.symbol_of_find ho⟩, h⟩

theorem accounts_opening (h : st.Sourced tokens) (ht : token ∈ tokens) :
    Accounts (PointsAt tokens width) (State.Sourced tokens) (st.opening c token) := by
  refine (st.accounts_expectOperand ht).bind fun _ _ => ?_
  split
  · exact .start _ ht rfl
  · exact List.forall_mem_cons.mpr ⟨ht, h⟩

theorem accounts_separator (h : st.Sourced tokens) (ht : token ∈ tokens) :
    Accounts (PointsAt tokens width) (State.Sourced tokens) (st.separator n token) := by
  unfold separator
  split
  · refine (st.work.accounts_reduce _ h).bind fun r hr => ?_
    obtain ⟨w, pending⟩ := r
    dsimp only at hr ⊢
    split
    · obtain ⟨hcall, hrest⟩ := List.forall_mem_cons.mp hr
      exact List.forall_mem_cons.mpr ⟨hcall, hrest⟩
    · exact .start 1 ht rfl
  · exact .start 1 ht rfl

theorem accounts_finishCall (w : Work) {f : Function} (base count : Nat) (ht : token ∈ tokens)
    (hk : token.kind = .identifier) (hs : f.name = token.text) :
    Accounts (PointsAt tokens width) (fun _ => True) (finishCall n w f token base count) := by
  unfold finishCall
  split
  · exact .start 1 ht rfl
  · split
    · exact w.accounts_perform _ _ _ ht (by rw [hk]; rfl) hs
    · exact .named ht (by rw [hk]; rfl) (congrArg some hs)

theorem accounts_closing (h : st.Sourced tokens) (ht : token ∈ tokens) :
    Accounts (PointsAt tokens width) (State.Sourced tokens) (st.closing n token) := by
  unfold closing
  split
  · refine (st.work.accounts_reduce _ h).bind fun r hr => ?_
    obtain ⟨w, pending⟩ := r
    dsimp only at hr ⊢
    split
    · obtain ⟨⟨hname, hk, hs⟩, hrest⟩ := List.forall_mem_cons.mp hr
      split
      · exact (accounts_finishCall w _ _ hname hk hs).bind fun _ _ => hrest
      · exact .start 1 ht rfl
    · split
      · exact (List.forall_mem_cons.mp hr).2
      · exact .start 1 ht rfl
    · exact .start 1 ht rfl
  · split
    · exact .start 1 ht rfl
    · exact .start 1 ht rfl

/-- A token of a kind that a source can hold is handled, and what is pending
behind it keeps its token, or a problem points at a token. -/
theorem accounts_handle (h : st.Sourced tokens) (ht : token ∈ tokens)
    (hk : token.kind ∈ Token.Kind.known) (next : Option Token) :
    Accounts (PointsAt tokens width) (fun r => r.1.Sourced tokens)
      (st.handle c n token next) := by
  unfold handle
  split
  · next hk => exact (accounts_literal h ht hk).bind fun _ h' => h'
  · next hk => exact accounts_identifier h ht hk next
  · next hk => exact (accounts_operator h ht hk).bind fun _ h' => h'
  · exact (accounts_opening h ht).bind fun _ h' => h'
  · exact (accounts_closing h ht).bind fun _ h' => h'
  · exact (accounts_separator h ht).bind fun _ h' => h'
  · next hother =>
      rw [hother] at hk
      simp only [Token.Kind.known, List.mem_cons, List.not_mem_nil, reduceCtorEq, or_false] at hk

theorem accounts_finish (h : st.Sourced tokens) :
    Accounts (PointsAt tokens width) (fun _ => True) (st.finish n width) := by
  unfold finish
  split
  · exact .front 1 rfl
  · refine (st.work.accounts_reduce _ h).bind fun r hr => ?_
    obtain ⟨w, pending⟩ := r
    dsimp only at hr ⊢
    split
    · next opening start hu =>
        obtain ⟨entry, hhead, hentry⟩ := Option.bind_eq_some_iff.mp hu
        have hsourced := hr entry (List.mem_of_head? hhead)
        cases entry with
        | operator => cases hentry
        | call f t b separators base =>
            cases hentry
            exact .stop 1 hsourced.1 rfl
        | group b t =>
            cases hentry
            exact .start 1 hsourced rfl
    · split
      · trivial
      · exact .front 1 rfl
  · exact .back 1 rfl

/-- A run over tokens of a source stops only with a problem that points at one
of them or at an end of the source. -/
theorem accounts_run {st : State} {ts : List Token} (h : st.Sourced tokens)
    (hts : ∀ t ∈ ts, t ∈ tokens) (hk : ∀ t ∈ ts, t.kind ∈ Token.Kind.known) :
    Accounts (PointsAt tokens width) (fun _ => True) (run c n width none st ts) := by
  match ts with
  | [] => exact accounts_finish h
  | [token] =>
      exact (accounts_handle h (hts token List.mem_cons_self) (hk token List.mem_cons_self)
        none).bind fun _ h' => accounts_finish h'
  | token :: next :: rest =>
      obtain ⟨htoken, hts⟩ := List.forall_mem_cons.mp hts
      obtain ⟨hktoken, hk⟩ := List.forall_mem_cons.mp hk
      refine (accounts_handle h htoken hktoken (some next)).bind fun r h' => ?_
      obtain ⟨st', used⟩ := r
      cases used with
      | true =>
          exact accounts_run h' (List.forall_mem_cons.mp hts).2 (List.forall_mem_cons.mp hk).2
      | false => exact accounts_run h' hts hk
termination_by ts.length

end State

end

end Reckoner
