/-
# Nothing of a session reaches into an evaluation

A session is what engines share: a precision, a table of number systems, and
how often each hook was told of something.  All of it changes from request to
request, and a hook may change it in the middle of an evaluation.  Here it is
proved that a call is not affected:

    what comes of a call    is what comes of the source under the catalog, the
                            limit on lengths and one precision, and nothing else
    that precision          is the engine's own or, without one, the one that is
                            shared when the call starts

`Catalog.outcome` has no other arguments, so this is what its use in
`calls_isolated` says.  Three things could spoil it.  The number system comes
from the table, which may hold anything: but what is found there for a precision
has that precision.  The hook asks for precisions while the steps are made, and a
session tells it of all of them behind the evaluation: but one that tells it of
each step when it is made passes through the same steps, whatever the hook asks
for, and leaves the same behind (`Passes.tell_eq`).  And `random` looks outside:
sources that draw numbers are left out.
-/
import Reckoner.Proofs.Evaluation.Draws
import Reckoner.Proofs.Evaluation.Viability
import Reckoner.Proofs.Session.Quiet

namespace Reckoner

/-- What comes of a source under a catalog and a limit on lengths at a
precision, if no number is drawn. -/
def Catalog.outcome (c : Catalog) (limit : Option Nat) (p : Precision) (source : String) :
    Evaluation :=
  { Engine.plain with catalog := c, maxLength := limit }.evaluate ⟨p.digits, fun _ => .zero⟩ source

/-! ## Hooks in the middle of an evaluation -/

/-- An evaluation under way, with what its hook has made of it so far. -/
structure Underway where
  moment : Moment
  /-- How often the hook was told of a step, in all. -/
  told : Nat
  /-- The precision that is shared at this moment. -/
  shared : Precision

/-- `Proceeds c n hook u u'`: the evaluation makes a move, and if the move
records a step, the hook is told of it before the next move. -/
inductive Proceeds (c : Catalog) (n : Numerics) (hook : Hook) : Underway → Underway → Prop
  | silent {m m' : Moment} {told : Nat} {shared : Precision} :
      Moves c n m m' → m'.state.work.steps = m.state.work.steps →
      Proceeds c n hook ⟨m, told, shared⟩ ⟨m', told, shared⟩
  | heard {m m' : Moment} {told : Nat} {shared : Precision} {step : Step} :
      Moves c n m m' → m'.state.work.steps = step :: m.state.work.steps →
      (hook.react told step).raises = none →
      Proceeds c n hook ⟨m, told, shared⟩ ⟨m', told + 1,
        ((hook.react told step).precision.bind Precision.ofBinary64?).getD shared⟩

/-- `Passes c n hook u u'`: the evaluation goes on from `u` to `u'`. -/
inductive Passes (c : Catalog) (n : Numerics) (hook : Hook) : Underway → Underway → Prop
  | refl (u : Underway) : Passes c n hook u u
  | step {u u' u'' : Underway} :
      Proceeds c n hook u u' → Passes c n hook u' u'' → Passes c n hook u u''

section

variable {c : Catalog} {n : Numerics} {hook : Hook} {width : Nat}

/-- Telling a hook of each step when it is made comes to the same as telling it
of all of them behind the evaluation. -/
theorem Passes.tell_eq {u u' : Underway} (h : Passes c n hook u u') :
    ∃ heard, u'.moment.state.work.steps.reverse = u.moment.state.work.steps.reverse ++ heard ∧
      hook.tell u.told u.shared heard = ⟨heard, u'.told, u'.shared, none⟩ := by
  induction h with
  | refl => exact ⟨[], (List.append_nil _).symm, rfl⟩
  | step hp _ ih =>
      obtain ⟨heard, hsteps, htell⟩ := ih
      cases hp with
      | silent _ hsame =>
          dsimp only at hsteps htell ⊢
          exact ⟨heard, by rw [hsteps, hsame], htell⟩
      | @heard m m' told shared step _ hmade hquiet =>
          dsimp only at hsteps htell ⊢
          refine ⟨step :: heard, ?_, ?_⟩
          · rw [hsteps, hmade, List.reverse_cons, List.append_assoc, List.singleton_append]
          · simp only [Hook.tell, hquiet, htell]

/-- A quiet hook stops no evaluation. -/
theorem Leads.exists_passes {m m' : Moment} (h : Leads c n m m') (hquiet : hook.react.Quiet)
    (told : Nat) (shared : Precision) :
    ∃ told' shared', Passes c n hook ⟨m, told, shared⟩ ⟨m', told', shared'⟩ := by
  induction h generalizing told shared with
  | refl m => exact ⟨told, shared, .refl _⟩
  | step hm _ ih =>
      rcases hm.steps with hsame | ⟨a, xs, x, index, -, -, hmade⟩
      · obtain ⟨told', shared', hrest⟩ := ih told shared
        exact ⟨told', shared', .step (.silent hm hsame) hrest⟩
      · obtain ⟨told', shared', hrest⟩ := ih (told + 1) _
        exact ⟨told', shared', .step (.heard hm hmade (hquiet told _)) hrest⟩

/-! ## The steps of an evaluation -/

/-- Up to a character that starts no token, an evaluation goes by moves. -/
theorem Leads.exists_of_run_stray {start : List Token} {st : State} {tokens : List Token}
    {s : Stray} {halt : Halt} (hl : Leads c n (.start start) ⟨st, tokens⟩)
    (h : State.run c n width (some s) st tokens = .error halt) :
    ∃ m, Leads c n (.start start) m ∧ halt.steps = m.state.work.steps := by
  match tokens with
  | [] | [_] =>
      cases h
      exact ⟨_, hl, rfl⟩
  | token :: next :: rest =>
      simp only [State.run] at h
      rw [← List.head?_cons (a := next) (l := rest)] at h
      cases hh : st.handle c n token (next :: rest).head? with
      | error halt' =>
          rw [hh] at h
          cases h
          obtain ⟨st', hl', -, he⟩ := ends_of_handle width hh
          have hl'' := hl.trans hl'
          exact ⟨_, hl'', (he.stops (hl''.balanced State.balanced_initial)).steps⟩
      | ok r =>
          obtain ⟨st', used⟩ := r
          have hl' := hl.trans (leads_of_handle hh)
          rw [hh] at h
          cases used with
          | false => exact exists_of_run_stray hl' h
          | true => exact exists_of_run_stray hl' h
termination_by tokens.length

/-- The steps of an evaluation are those on record at a moment that moves lead to. -/
theorem Evaluation.exists_moment (c : Catalog) (n : Numerics) (source : String) :
    ∃ m, Leads c n (.start (c.lex source).tokens) m ∧
      (Evaluation.ofSource c n source).steps = m.state.work.steps.reverse := by
  cases hs : (c.lex source).stray with
  | none =>
      rw [ofSource_of_stray hs]
      obtain ⟨m, hl, -, hsteps, -⟩ := exists_last c n (Text.units source) (c.lex source).tokens
      exact ⟨m, hl, hsteps⟩
  | some s =>
      obtain ⟨halt, hr, -⟩ := State.run_stray c n (Text.units source) s State.initial
        (c.lex source).tokens
      obtain ⟨m, hl, hsteps⟩ := Leads.exists_of_run_stray (.refl _) hr
      refine ⟨m, hl, ?_⟩
      simp only [ofSource, ofLexing, hs, hr, hsteps]

end

/-! ## One call -/

theorem Engine.evaluate_eq_outcome {e : Engine} {source : String}
    (h : e.catalog.draws source = false) (p : Precision) (draws : Nat → Decimal) :
    e.evaluate ⟨p.digits, draws⟩ source = e.catalog.outcome e.maxLength p source := by
  have hlength : e.lengthProblem? source =
      lengthProblem? { plain with catalog := e.catalog, maxLength := e.maxLength } source := rfl
  let n : Numerics := ⟨p.digits, fun _ => .zero⟩
  have hdraws : Evaluation.ofSource e.catalog (n.withDraws draws) source =
      Evaluation.ofSource e.catalog n source := Evaluation.ofSource_withDraws h draws
  unfold Catalog.outcome evaluate
  rw [← hlength]
  cases e.lengthProblem? source with
  | some problem => rfl
  | none => exact hdraws

/-- In the middle of an evaluation a quiet hook hears of the steps that it is told of
behind it, and leaves the same precision. -/
theorem Engine.exists_passes {hook : Hook} (hquiet : hook.react.Quiet) (e : Engine) (n : Numerics)
    (source : String) (told : Nat) (shared : Precision) :
    ∃ u, Passes e.catalog n hook ⟨.start (e.catalog.lex source).tokens, told, shared⟩ u ∧
      u.moment.state.work.steps.reverse = (e.evaluate n source).steps ∧
      hook.tell told shared (e.evaluate n source).steps =
        ⟨(e.evaluate n source).steps, u.told, u.shared, none⟩ := by
  unfold evaluate
  cases e.lengthProblem? source with
  | some problem => exact ⟨_, .refl _, rfl, rfl⟩
  | none =>
      obtain ⟨m, hl, hsteps⟩ := Evaluation.exists_moment e.catalog n source
      obtain ⟨told', shared', hpasses⟩ := hl.exists_passes hquiet told shared
      obtain ⟨heard, hheard, htell⟩ := hpasses.tell_eq
      have hsame : m.state.work.steps.reverse = heard := hheard
      dsimp only
      rw [hsteps, hsame]
      exact ⟨_, hpasses, hsame, htell⟩

namespace Session

/-- What comes of a call depends on the session for no more than the precision,
and on the engine for its catalog, its limit and a precision of its own. -/
theorem evaluate_quiet {e : Engine} (he : e.Quiet) {source : String}
    (h : e.catalog.draws source = false) (s : Session) (draws : Draws) :
    let outcome := e.catalog.outcome e.maxLength (e.precision.getD s.precision) source
    (s.evaluate draws e source).1.result = resultOf source none outcome.result ∧
      (s.evaluate draws e source).1.told = if e.hook.isSome then outcome.steps else [] := by
  dsimp only
  rw [← Engine.evaluate_eq_outcome h _ (draws (e.precision.getD s.precision).digits)]
  exact evaluate_eq he s draws source

/-! ## The calls of a session -/

/-- The engine and the source that a request is about if it asks for an
evaluation, and what answer it makes of a value. -/
def evaluates? {κ : Type} : Request κ → Option (String × String × (Number → Except Thrown Answer))
  | .evaluate engine source _ => some (engine, source, fun x => .ok (.value x))
  | .display engine source _ display =>
    some (engine, source, fun x => (x.display display).map .text)
  | _ => none

/-- `Call draws requests e p source answer reply`: one of the requests has a
source evaluated with the engine `e`, while `p` is the precision that the call
takes up, and asks for an answer made of the value; `reply` is what comes of it. -/
inductive Call {κ : Type} (draws : Draws) (requests : List (Request κ)) :
    Engine → Precision → String → (Number → Except Thrown Answer) → Reply κ → Prop
  | mk {before after : List (Request κ)} {request : Request κ} {name source : String} {e : Engine}
      {answer : Number → Except Thrown Answer} {reply : Reply κ} :
      requests = before ++ request :: after →
      evaluates? request = some (name, source, answer) →
      (answerAll {} draws before).2.findEngine name = .ok e →
      (answerAll {} draws requests).1[before.length]? = some reply →
      Call draws requests e (e.precision.getD (answerAll {} draws before).2.precision) source answer
        reply

variable {κ : Type} {s : Session} {draws : Draws}

theorem answerAll_append (before after : List (Request κ)) :
    s.answerAll draws (before ++ after) =
      ((s.answerAll draws before).1 ++ ((s.answerAll draws before).2.answerAll draws after).1,
        ((s.answerAll draws before).2.answerAll draws after).2) := by
  induction before generalizing s with
  | nil => rfl
  | cons request before ih => simp only [List.cons_append, answerAll, ih]

theorem length_answerAll (requests : List (Request κ)) :
    (s.answerAll draws requests).1.length = requests.length := by
  induction requests generalizing s with
  | nil => rfl
  | cons request requests ih => simp only [answerAll, List.length_cons, ih]

/-- Each request is answered from what the requests before it have left. -/
theorem getElem?_answerAll (before after : List (Request κ)) (request : Request κ) :
    (s.answerAll draws (before ++ request :: after)).1[before.length]? =
      some ((s.answerAll draws before).2.answer draws request).1 := by
  have hlength : (s.answerAll draws before).1.length = before.length := length_answerAll before
  simp only [answerAll_append]
  rw [List.getElem?_append_right (Nat.le_of_eq hlength), hlength, Nat.sub_self]
  rfl

/-- A request for an evaluation is answered by what comes of the evaluation. -/
theorem answer_evaluates (draws : Draws) {request : Request κ} {name source : String} {e : Engine}
    {answer : Number → Except Thrown Answer}
    (h : evaluates? request = some (name, source, answer)) (he : s.findEngine name = .ok e) :
    ∃ context, (s.answer draws request).1 =
      { answer := (s.evaluate draws e source).1.result.bind answer
        told := (s.evaluate draws e source).1.told.map fun step => (step, context)
        records := (s.evaluate draws e source).1.records } := by
  cases request with
  | evaluate _ _ context | display _ _ context =>
      cases h
      refine ⟨context, ?_⟩
      simp only [Session.answer, withEngine, he]
      rfl
  | _ => cases h

theorem Call.quiet {requests : List (Request κ)} {e : Engine} {p : Precision} {source : String}
    {answer : Number → Except Thrown Answer} {reply : Reply κ}
    (h : Call draws requests e p source answer reply)
    (hquiet : ∀ request ∈ requests, request.Quiet) : e.Quiet := by
  cases h with
  | @mk before after _ _ _ _ _ _ hrequests _ he _ =>
      subst hrequests
      have hempty : Session.Quiet {} := List.forall_mem_nil _
      exact quiet_of_findEngine
        (hempty.answerAll draws fun r hr => hquiet r (List.mem_append_left _ hr)) he

/-- What comes of a call in a session with quiet hooks. -/
theorem Call.reply_eq {requests : List (Request κ)} {e : Engine} {p : Precision} {source : String}
    {answer : Number → Except Thrown Answer} {reply : Reply κ}
    (h : Call draws requests e p source answer reply)
    (hquiet : ∀ request ∈ requests, request.Quiet) (hdraws : e.catalog.draws source = false) :
    reply.answer =
        (resultOf source none (e.catalog.outcome e.maxLength p source).result).bind answer ∧
      reply.told.map (·.1) =
        if e.hook.isSome then (e.catalog.outcome e.maxLength p source).steps else [] := by
  have he := h.quiet hquiet
  cases h with
  | @mk before after request _ _ _ _ _ hrequests hasks hfind hreply =>
      subst hrequests
      rw [getElem?_answerAll] at hreply
      cases hreply
      obtain ⟨hresult, htold⟩ := evaluate_quiet he hdraws _ draws
      obtain ⟨context, hr⟩ := answer_evaluates draws hasks hfind
      rw [hr]
      refine ⟨by rw [hresult], ?_⟩
      rw [← htold, List.map_map]
      exact List.map_id'' (fun _ => rfl) _

theorem Call.precision_eq {requests : List (Request κ)} {e : Engine} {p q : Precision}
    {source : String} {answer : Number → Except Thrown Answer} {reply : Reply κ}
    (h : Call draws requests e p source answer reply) (he : e.precision = some q) : p = q := by
  cases h
  rw [he]
  rfl

end Session

/-- In a session with quiet hooks, what comes of a call on a source that draws no
numbers is what comes of the source under the engine's catalog and limit at the
precision that the call takes up, which is the engine's own if it has one; a hook
hears of just these steps.  Told of each of them in the middle of the evaluation, it
would have heard of the same ones and left the same precision, whatever it asks for
and whatever was shared.  So a call in any other session, with an engine of the
same catalog and limit and at the same precision, is answered alike and has the
same steps; and if both engines have that precision of their own, whatever the
shared precisions are. -/
theorem calls_isolated {κ : Type} (draws : Draws) (requests : List (Request κ))
    (hquiet : ∀ request ∈ requests, request.Quiet) {e : Engine} {p : Precision} {source : String}
    {answer : Number → Except Thrown Answer} {reply : Reply κ}
    (h : Session.Call draws requests e p source answer reply)
    (hdraws : e.catalog.draws source = false) :
    (reply.answer = (Session.resultOf source none
        (e.catalog.outcome e.maxLength p source).result).bind answer ∧
      reply.told.map (·.1) =
        if e.hook.isSome then (e.catalog.outcome e.maxLength p source).steps else []) ∧
    (∀ hook, e.hook = some hook → ∀ (told : Nat) (shared : Precision), ∃ u,
      Passes e.catalog ⟨p.digits, draws p.digits⟩ hook
        ⟨.start (e.catalog.lex source).tokens, told, shared⟩ u ∧
      u.moment.state.work.steps.reverse = reply.told.map (·.1) ∧
      hook.tell told shared (reply.told.map (·.1)) =
        ⟨reply.told.map (·.1), u.told, u.shared, none⟩) ∧
    (∀ q, e.precision = some q → p = q) ∧
    ∀ {κ' : Type} (draws' : Draws) (requests' : List (Request κ')) (e' : Engine) (p' : Precision)
      (reply' : Reply κ'), (∀ request ∈ requests', request.Quiet) →
      Session.Call draws' requests' e' p' source answer reply' →
      e'.catalog = e.catalog → e'.maxLength = e.maxLength →
      (p' = p ∨ ∃ q, e'.precision = some q ∧ e.precision = some q) →
      reply'.answer = reply.answer ∧
        (e'.hook.isSome = e.hook.isSome → reply'.told.map (·.1) = reply.told.map (·.1)) := by
  obtain ⟨hanswer, htold⟩ := h.reply_eq hquiet hdraws
  refine ⟨⟨hanswer, htold⟩, ?_, fun q hq => h.precision_eq hq, ?_⟩
  · intro hook hhook told shared
    rw [htold, hhook, Option.isSome_some, if_pos rfl,
      ← Engine.evaluate_eq_outcome hdraws p (draws p.digits)]
    exact Engine.exists_passes (h.quiet hquiet hook hhook) e _ source told shared
  intro κ' draws' requests' e' p' reply' hquiet' h' hcatalog hlimit hp
  obtain ⟨hanswer', htold'⟩ := h'.reply_eq hquiet' (by rw [hcatalog]; exact hdraws)
  have hsame : p' = p := by
    rcases hp with hp | ⟨q, hq', hq⟩
    · exact hp
    · exact (h'.precision_eq hq').trans (h.precision_eq hq).symm
  rw [hcatalog, hlimit, hsame] at hanswer' htold'
  exact ⟨hanswer'.trans hanswer.symm, fun hhook => by rw [htold', htold, hhook]⟩

/-! ## Two sessions -/

/-- A hook that asks for three digits at every step. -/
def askThree : Behaviour := fun _ _ => { precision := some (.ofNat 3) }

/-- Requests that leave an engine whose hook meddles with the shared precision,
behind an evaluation that failed. -/
def meddled : List (Request Empty) :=
  [.create "a" { hook := .set askThree }, .evaluate "a" "1+1/0" none, .system (.ofNat 9),
   .setPrecision (.ofNat 20)]

/-- Requests that leave an engine with a precision of its own. -/
def settled : List (Request Empty) := [.create "b" { precision := .set (.ofNat 20) }]

theorem quiet_meddled (source : String) :
    ∀ request ∈ meddled ++ [.evaluate "a" source none], request.Quiet := by
  intro request h
  simp only [meddled, List.cons_append, List.nil_append, List.mem_cons, List.not_mem_nil,
    or_false] at h
  rcases h with rfl | rfl | rfl | rfl | rfl
  · intro react hreact
    cases hreact
    exact fun _ _ => rfl
  all_goals trivial

theorem quiet_settled (source : String) :
    ∀ request ∈ settled ++ [.evaluate "b" source none], request.Quiet := by
  intro request h
  simp only [settled, List.cons_append, List.nil_append, List.mem_cons, List.not_mem_nil,
    or_false] at h
  rcases h with rfl | rfl
  · intro react hreact
    cases hreact
  · trivial

/-- Two thirds, at twenty digits. -/
def twoThirds : Number := .finite ⟨false, 66666666666666666666, -20⟩

theorem twoThirds_isolated :
    ∃ e p e' p', ∃ reply reply' : Reply Empty,
      Session.Call (fun _ _ => .zero) (meddled ++ [.evaluate "a" "1/3+1/3" none]) e p "1/3+1/3"
        (fun x => .ok (.value x)) reply ∧
      Session.Call (fun _ _ => .zero) (settled ++ [.evaluate "b" "1/3+1/3" none]) e' p' "1/3+1/3"
        (fun x => .ok (.value x)) reply' ∧
      e.catalog.draws "1/3+1/3" = false ∧ reply.answer = .ok (.value twoThirds) ∧
      reply.told.length = 3 ∧ reply'.answer = reply.answer := by
  have hfind : (Session.answerAll {} (fun _ _ => .zero) meddled).2.findEngine "a" =
      .ok { Engine.plain with hook := some ⟨0, askThree⟩ } := by with_unfolding_all rfl
  have hfind' : (Session.answerAll {} (fun _ _ => .zero) settled).2.findEngine "b" =
      .ok { Engine.plain with precision := some { digits := 20 } } := by with_unfolding_all rfl
  have hcall : Session.Call (fun _ _ => .zero) (meddled ++ [.evaluate "a" "1/3+1/3" none]) _ _
      "1/3+1/3" (fun x => .ok (.value x)) _ :=
    .mk rfl rfl hfind (Session.getElem?_answerAll _ _ _)
  have hcall' : Session.Call (fun _ _ => .zero) (settled ++ [.evaluate "b" "1/3+1/3" none]) _ _
      "1/3+1/3" (fun x => .ok (.value x)) _ :=
    .mk rfl rfl hfind' (Session.getElem?_answerAll _ _ _)
  have hdraws : (Preset.catalog .standard).draws "1/3+1/3" = false := by decide +kernel
  have hp : (Session.answerAll {} (fun _ _ => .zero) meddled).2.precision = { digits := 20 } := by
    decide +kernel
  have hresult := toOption_eq_some.mp (show ((Preset.catalog .standard).outcome none
    { digits := 20 } "1/3+1/3").result.toOption = some twoThirds by decide +kernel)
  have hsteps : ((Preset.catalog .standard).outcome none { digits := 20 } "1/3+1/3").steps.length =
    3 := by decide +kernel
  obtain ⟨⟨hanswer, htold⟩, -, -, hother⟩ := calls_isolated _ _ (quiet_meddled _) hcall hdraws
  have hsame := hother _ _ _ _ _ (quiet_settled _) hcall' rfl rfl (Or.inl hp.symm)
  refine ⟨_, _, _, _, _, _, hcall, hcall', hdraws, ?_, ?_, hsame.1⟩
  · rw [hanswer, hp]
    exact congrArg (fun r => (Session.resultOf "1/3+1/3" none r).bind _) hresult
  · rw [← List.length_map, htold, hp]
    exact hsteps

end Reckoner
