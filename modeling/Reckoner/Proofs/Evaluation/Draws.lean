/-
# Sources that draw no numbers

What `random` gives comes from outside, and it is all of the outside that an
evaluation looks at.  A source that does not name it is evaluated alike
whatever the draws are: with the same value or the same problem, and with the
same steps.

Draws are handed to functions only, and only to those of open calls.  The
invariant is therefore about the pending list: none of its calls is one of
`random`.  It holds before the first token, and a token that is no name of
`random` keeps it.
-/
import Reckoner.Proofs.Evaluation.Moment

namespace Reckoner

/-- Whether a token names a function that draws a number. -/
def Definition.drawsAt (d : Definition) (t : Token) : Bool :=
  (d.findFunction? t.text).any fun f => f.id = .random

/-- Whether a source names a function that draws a number. -/
def Catalog.draws (c : Catalog) (source : String) : Bool :=
  (c.lex source).tokens.any c.drawsAt

/-- The same precision, with other draws. -/
def Numerics.withDraws (n : Numerics) (draws : Nat → Decimal) : Numerics :=
  { n with draws := draws }

/-- Whether what is pending will not draw a number. -/
def Pending.Settles : Pending → Prop
  | .call f _ _ _ _ => f.id ≠ .random
  | .operator _ _ | .group _ _ => True

theorem FunctionId.apply_draw {id : FunctionId} (h : id ≠ .random) (p : Nat)
    (draw draw' : Decimal) (xs : List Number) : id.apply p draw xs = id.apply p draw' xs := by
  cases id with
  | random => exact absurd rfl h
  | _ => rfl

theorem Definition.ne_random_of_find {d : Definition} {t : Token} {f : Function}
    (ht : d.drawsAt t = false) (hf : d.findFunction? t.text = some f) : f.id ≠ .random := by
  intro h
  simp only [drawsAt, hf, Option.any_some, h, decide_true, Bool.true_eq_false] at ht

variable {c : Catalog} {n : Numerics} {width : Nat} {stray : Option Stray}

/-! ## What each part of an evaluation does -/

namespace Work

theorem reduce_withDraws (draws : Nat → Decimal) (due : Operator → Bool) (w : Work)
    (pending : List Pending) :
    w.reduce (n.withDraws draws) due pending = w.reduce n due pending := by
  induction pending generalizing w with
  | nil => rfl
  | cons entry rest ih =>
      cases entry with
      | call | group => rfl
      | operator op token =>
          have happly : w.applyOperator (n.withDraws draws) op token =
              w.applyOperator n op token := rfl
          simp only [reduce, ih, happly]

theorem reduce_suffix {due : Operator → Bool} {w w' : Work} {pending pending' : List Pending}
    (h : w.reduce n due pending = .ok (w', pending')) : pending' <:+ pending := by
  induction pending generalizing w with
  | nil =>
      cases h
      exact List.suffix_refl _
  | cons entry rest ih =>
      cases entry with
      | call | group =>
          cases h
          exact List.suffix_refl _
      | operator op token =>
          unfold reduce at h
          split at h
          · obtain ⟨w₁, -, h⟩ := bind_eq_ok.mp h
            exact (ih h).trans (List.suffix_cons _ _)
          · cases h
            exact List.suffix_refl _

theorem settles_of_reduce {due : Operator → Bool} {w w' : Work} {pending pending' : List Pending}
    (hp : ∀ entry ∈ pending, entry.Settles) (h : w.reduce n due pending = .ok (w', pending')) :
    ∀ entry ∈ pending', entry.Settles :=
  fun entry he => hp entry ((reduce_suffix h).mem he)

end Work

namespace State

theorem finishCall_withDraws (draws : Nat → Decimal) {f : Function} (hf : f.id ≠ .random)
    (w : Work) (name : Token) (base count : Nat) :
    finishCall (n.withDraws draws) w f name base count = finishCall n w f name base count := by
  have hrun : f.id.apply n.precision (draws w.steps.length) =
      f.id.apply n.precision (n.draws w.steps.length) :=
    funext fun xs => FunctionId.apply_draw hf _ _ _ xs
  have happly : w.applyFunction (n.withDraws draws) f count name = w.applyFunction n f count name :=
    congrArg (fun run => w.perform n (.function f) count run f.name name) hrun
  simp only [finishCall, happly]

theorem closing_withDraws (draws : Nat → Decimal) {st : State}
    (hp : ∀ entry ∈ st.pending, entry.Settles) (token : Token) :
    st.closing (n.withDraws draws) token = st.closing n token := by
  simp only [closing, Work.reduce_withDraws]
  split
  · cases hr : st.work.reduce n (fun _ => true) st.pending with
    | error halt => rfl
    | ok r =>
        obtain ⟨w, pending⟩ := r
        simp only [ok_bind]
        split
        · next f name b separators base rest =>
            have hf : Pending.Settles (.call f name b separators base) :=
              Work.settles_of_reduce hp hr _ List.mem_cons_self
            simp only [finishCall_withDraws draws hf]
        · rfl
        · rfl
  · rfl

/-- While no open call draws a number, a token is handled alike. -/
theorem handle_withDraws (draws : Nat → Decimal) {st : State}
    (hp : ∀ entry ∈ st.pending, entry.Settles) (token : Token) (next : Option Token) :
    st.handle c (n.withDraws draws) token next = st.handle c n token next := by
  unfold handle
  split
  · rfl
  · rfl
  · simp only [operator, Work.reduce_withDraws]
  · rfl
  · rw [closing_withDraws draws hp]
  · simp only [separator, Work.reduce_withDraws]
  · rfl

theorem finish_withDraws (draws : Nat → Decimal) (st : State) :
    st.finish (n.withDraws draws) width = st.finish n width := by
  simp only [finish, Work.reduce_withDraws]

/-! ### Calls that are opened -/

section

variable {st st' : State} {token : Token} {used : Bool}

theorem settles_of_identifier {next : Option Token} (hp : ∀ entry ∈ st.pending, entry.Settles)
    (ht : c.drawsAt token = false) (h : st.identifier c n token next = .ok (st', used)) :
    ∀ entry ∈ st'.pending, entry.Settles := by
  simp only [identifier, bind_eq_ok] at h
  obtain ⟨_, -, h⟩ := h
  split at h
  · next f hf =>
      simp only [function, bind_eq_ok, pure_eq_ok, Except.ok.injEq, Prod.mk.injEq] at h
      obtain ⟨_, h, rfl, -⟩ := h
      split at h
      · cases h
      · cases h
        exact List.forall_mem_cons.mpr ⟨c.ne_random_of_find ht hf, hp⟩
  · simp only [constant, bind_eq_ok, pure_eq_ok, Except.ok.injEq, Prod.mk.injEq] at h
    obtain ⟨_, h, rfl, -⟩ := h
    split at h
    · simp only [bind_eq_ok, Except.ok.injEq] at h
      obtain ⟨_, -, rfl⟩ := h
      exact hp
    · cases h

theorem settles_of_operator (hp : ∀ entry ∈ st.pending, entry.Settles)
    (h : st.operator c n token = .ok st') : ∀ entry ∈ st'.pending, entry.Settles := by
  unfold operator at h
  split at h
  · split at h
    · cases h
    · simp only [bind_eq_ok, pure_eq_ok, Except.ok.injEq] at h
      obtain ⟨⟨w, pending⟩, hr, rfl⟩ := h
      exact List.forall_mem_cons.mpr ⟨trivial, Work.settles_of_reduce hp hr⟩
  · split at h
    · cases h
    · cases h
      exact List.forall_mem_cons.mpr ⟨trivial, hp⟩

theorem settles_of_opening (hp : ∀ entry ∈ st.pending, entry.Settles)
    (h : st.opening c token = .ok st') : ∀ entry ∈ st'.pending, entry.Settles := by
  simp only [opening, bind_eq_ok] at h
  obtain ⟨_, -, h⟩ := h
  split at h
  · cases h
  · cases h
    exact List.forall_mem_cons.mpr ⟨trivial, hp⟩

theorem settles_of_closing (hp : ∀ entry ∈ st.pending, entry.Settles)
    (h : st.closing n token = .ok st') : ∀ entry ∈ st'.pending, entry.Settles := by
  unfold closing at h
  split at h
  · simp only [bind_eq_ok] at h
    obtain ⟨⟨w, pending⟩, hr, h⟩ := h
    have hrest := Work.settles_of_reduce hp hr
    dsimp only at h
    split at h
    · split at h
      · simp only [bind_eq_ok, pure_eq_ok, Except.ok.injEq] at h
        obtain ⟨_, -, rfl⟩ := h
        exact (List.forall_mem_cons.mp hrest).2
      · cases h
    · split at h
      · cases h
        exact (List.forall_mem_cons.mp hrest).2
      · cases h
    · cases h
  · split at h
    · cases h
    · cases h

theorem settles_of_separator (hp : ∀ entry ∈ st.pending, entry.Settles)
    (h : st.separator n token = .ok st') : ∀ entry ∈ st'.pending, entry.Settles := by
  unfold separator at h
  split at h
  · simp only [bind_eq_ok] at h
    obtain ⟨⟨w, pending⟩, hr, h⟩ := h
    have hrest := Work.settles_of_reduce hp hr
    dsimp only at h
    split at h
    · cases h
      obtain ⟨hcall, hrest⟩ := List.forall_mem_cons.mp hrest
      exact List.forall_mem_cons.mpr ⟨hcall, hrest⟩
    · cases h
  · cases h

/-- A token that does not name `random` opens no call that draws a number. -/
theorem settles_of_handle {next : Option Token} (hp : ∀ entry ∈ st.pending, entry.Settles)
    (ht : c.drawsAt token = false) (h : st.handle c n token next = .ok (st', used)) :
    ∀ entry ∈ st'.pending, entry.Settles := by
  unfold handle at h
  split at h
  · -- a numeral changes nothing that is pending
    simp only [literal, bind_eq_ok, pure_eq_ok, Except.ok.injEq, Prod.mk.injEq] at h
    obtain ⟨_, ⟨_, -, _, -, rfl⟩, rfl, -⟩ := h
    exact hp
  · exact settles_of_identifier hp ht h
  · simp only [bind_eq_ok, pure_eq_ok, Except.ok.injEq, Prod.mk.injEq] at h
    obtain ⟨_, h, rfl, -⟩ := h
    exact settles_of_operator hp h
  · simp only [bind_eq_ok, pure_eq_ok, Except.ok.injEq, Prod.mk.injEq] at h
    obtain ⟨_, h, rfl, -⟩ := h
    exact settles_of_opening hp h
  · simp only [bind_eq_ok, pure_eq_ok, Except.ok.injEq, Prod.mk.injEq] at h
    obtain ⟨_, h, rfl, -⟩ := h
    exact settles_of_closing hp h
  · simp only [bind_eq_ok, pure_eq_ok, Except.ok.injEq, Prod.mk.injEq] at h
    obtain ⟨_, h, rfl, -⟩ := h
    exact settles_of_separator hp h
  · cases h

end

/-! ## What comes of a run -/

theorem run_withDraws (draws : Nat → Decimal) {st : State} {ts : List Token}
    (hp : ∀ entry ∈ st.pending, entry.Settles) (ht : ∀ t ∈ ts, c.drawsAt t = false) :
    run c (n.withDraws draws) width stray st ts = run c n width stray st ts := by
  match ts with
  | [] => simp only [run, finish_withDraws]
  | [token] => simp only [run, handle_withDraws draws hp, finish_withDraws]
  | token :: next :: rest =>
      obtain ⟨htoken, hrest⟩ := List.forall_mem_cons.mp ht
      simp only [run, handle_withDraws draws hp]
      cases h : st.handle c n token (some next) with
      | error halt => rfl
      | ok r =>
          obtain ⟨st', used⟩ := r
          have hp' := settles_of_handle hp htoken h
          cases used with
          | true => exact run_withDraws draws hp' (List.forall_mem_cons.mp hrest).2
          | false => exact run_withDraws draws hp' hrest
termination_by ts.length

end State

/-- A source that does not name `random` is evaluated alike whatever the draws
are. -/
theorem Evaluation.ofSource_withDraws {source : String} (h : c.draws source = false)
    (draws : Nat → Decimal) :
    Evaluation.ofSource c (n.withDraws draws) source = Evaluation.ofSource c n source := by
  have ht : ∀ t ∈ (c.lex source).tokens, c.drawsAt t = false :=
    fun t ht => Bool.eq_false_iff.mpr (List.any_eq_false.mp h t ht)
  have hp : ∀ entry ∈ State.initial.pending, entry.Settles := List.forall_mem_nil _
  simp only [ofSource, ofLexing, State.run_withDraws draws hp ht]

end Reckoner
