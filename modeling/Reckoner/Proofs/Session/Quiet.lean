/-
# Hooks that never raise an error

A hook is quiet if it never raises an error; what precision it asks for is left
open.  A quiet hook hears of every step of an evaluation and takes nothing away
from what comes of it.

Hooks enter a session with the settings of an engine, and engines are made from
engines, so a session all of whose requests bring quiet hooks has quiet engines
only.  One request keeps that (`Session.Quiet.answer`), and so does any number
of them (`Session.Quiet.answerAll`).
-/
import Reckoner.Proofs.Sequencing
import Reckoner.Proofs.Session.Systems
import Reckoner.Session.Request

namespace Reckoner

/-- Whether what behaves so never raises an error. -/
def Behaviour.Quiet (react : Behaviour) : Prop := ∀ earlier step, (react earlier step).raises = none

/-- Whether an engine's hook, if it has one, is quiet. -/
def Engine.Quiet (e : Engine) : Prop := ∀ hook, e.hook = some hook → hook.react.Quiet

/-- Whether all engines of a session are quiet. -/
def Session.Quiet (s : Session) : Prop := ∀ entry ∈ s.engines, entry.2.Quiet

/-- Whether settings bring no hook but a quiet one. -/
def Settings.Quiet (settings : Settings Behaviour) : Prop :=
  ∀ react, settings.hook = .set react → react.Quiet

/-- Whether a request brings no hook but a quiet one. -/
def Request.Quiet {κ : Type} : Request κ → Prop
  | .create _ settings => settings.Quiet
  | .adjust _ _ settings => settings.Quiet
  | _ => True

/-! ## What a quiet hook hears -/

theorem Hook.tell_quiet {hook : Hook} (h : hook.react.Quiet) (told : Nat) (p : Precision)
    (steps : List Step) :
    (hook.tell told p steps).steps = steps ∧ (hook.tell told p steps).raised = none := by
  induction steps generalizing told p with
  | nil => exact ⟨rfl, rfl⟩
  | cons step rest ih =>
      simp only [tell, h told step]
      exact ⟨congrArg (step :: ·) (ih _ _).1, (ih _ _).2⟩

namespace Session

theorem tell_quiet {e : Engine} (h : e.Quiet) (s : Session) (steps : List Step) :
    (s.tell e.hook steps).1.steps = (if e.hook.isSome then steps else []) ∧
      (s.tell e.hook steps).1.raised = none := by
  cases hh : e.hook with
  | none => exact ⟨rfl, rfl⟩
  | some hook => exact Hook.tell_quiet (h hook hh) _ _ _

theorem engines_tell (s : Session) (hook : Option Hook) (steps : List Step) :
    (s.tell hook steps).2.engines = s.engines := by
  cases hook <;> rfl

/-- A quiet hook hears of every step of an evaluation at the precision that the
engine takes up, and what comes of the evaluation is the result. -/
theorem evaluate_eq {e : Engine} (he : e.Quiet) (s : Session) (draws : Draws) (source : String) :
    let p := e.precision.getD s.precision
    let evaluation := e.evaluate ⟨p.digits, draws p.digits⟩ source
    (s.evaluate draws e source).1.result = resultOf source none evaluation.result ∧
      (s.evaluate draws e source).1.told = if e.hook.isSome then evaluation.steps else [] := by
  unfold evaluate Engine.evaluate
  cases e.lengthProblem? source with
  | some problem => exact ⟨rfl, (ite_self []).symm⟩
  | none =>
      have ht := tell_quiet he
        { s with systems := (s.systems.request (e.precision.getD s.precision)).2 }
      simp only [Systems.precision_request]
      exact ⟨congrArg (resultOf source · _) (ht _).2, (ht _).1⟩

/-! ## Engines of a session -/

theorem engines_evaluate (s : Session) (draws : Draws) (e : Engine) (source : String) :
    (s.evaluate draws e source).2.engines = s.engines := by
  unfold evaluate
  split
  · rfl
  · exact engines_tell _ _ _

theorem engines_requestSystem {s s' : Session} {x : Binary64} {system : NumberSystem}
    (h : s.requestSystem x = .ok (system, s')) : s'.engines = s.engines := by
  unfold requestSystem at h
  dsimp only at h
  cases hd : (s.systems.demand x).1 with
  | error m =>
      rw [hd] at h
      cases h
  | ok system' =>
      rw [hd] at h
      cases h
      rfl

theorem engines_register (s : Session) (settings : Settings Behaviour) :
    (s.register settings).2.engines = s.engines := by
  unfold register
  split <;> rfl

/-- What is registered changes the hook to none but a quiet one. -/
theorem quiet_register {settings : Settings Behaviour} (h : settings.Quiet) (s : Session)
    (hook : Hook) (hh : (s.register settings).1.hook = .set hook) : hook.react.Quiet := by
  unfold register at hh
  split at hh
  · cases hh
  · cases hh
  · next react hr =>
      cases hh
      exact h react hr

end Session

theorem Engine.hook_adjust {e e' : Engine} {settings : Settings Hook}
    (h : e.adjust settings = .ok e') : e'.hook = settings.hook.apply e.hook := by
  simp only [adjust, bind_eq_ok, pure_eq_ok, Except.ok.injEq] at h
  obtain ⟨_, -, _, -, rfl⟩ := h
  rfl

theorem Engine.Quiet.adjust {e e' : Engine} {settings : Settings Hook} (he : e.Quiet)
    (hs : ∀ hook, settings.hook = .set hook → hook.react.Quiet)
    (h : e.adjust settings = .ok e') : e'.Quiet := by
  intro hook hh
  rw [Engine.hook_adjust h] at hh
  cases hc : settings.hook with
  | keep =>
      rw [hc] at hh
      exact he hook hh
  | clear =>
      rw [hc] at hh
      cases hh
  | set hook' =>
      rw [hc] at hh
      cases hh
      exact hs hook hc

namespace Session

variable {s : Session} {κ : Type}

theorem quiet_of_findEngine (hs : s.Quiet) {name : String} {e : Engine}
    (h : s.findEngine name = .ok e) : e.Quiet := by
  unfold findEngine at h
  split at h
  · next hl =>
      cases h
      obtain ⟨l₁, l₂, hsplit, -⟩ := List.lookup_eq_some_iff.mp hl
      exact hs (name, e) (hsplit ▸ List.mem_append_right _ List.mem_cons_self)
  · cases h

theorem Quiet.of_engines {s' : Session} (hs : s.Quiet) (h : s'.engines = s.engines) : s'.Quiet := by
  unfold Quiet
  rw [h]
  exact hs

theorem Quiet.makeEngine (hs : s.Quiet) {e : Engine} (he : e.Quiet) (name : String)
    {settings : Settings Behaviour} (h : settings.Quiet) :
    (s.makeEngine (κ := κ) e name settings).2.Quiet := by
  have hregistered := hs.of_engines (engines_register s settings)
  simp only [Session.makeEngine]
  split
  · next e' he' =>
      exact List.forall_mem_cons.mpr ⟨he.adjust (quiet_register h s) he', hregistered⟩
  · exact hregistered

theorem Quiet.withEngine (hs : s.Quiet) (name : String) {answer : Engine → Reply κ × Session}
    (h : ∀ e, e.Quiet → (answer e).2.Quiet) : (s.withEngine name answer).2.Quiet := by
  unfold Session.withEngine
  split
  · next e he => exact h e (quiet_of_findEngine hs he)
  · exact hs

theorem Quiet.answerAt (hs : s.Quiet) (x : Binary64) (answer : NumberSystem → Answer) :
    (s.answerAt (κ := κ) x answer).2.Quiet := by
  unfold Session.answerAt
  split
  · next hr => exact hs.of_engines (engines_requestSystem hr)
  · exact hs

/-- A request that brings no hook but a quiet one leaves quiet engines only. -/
theorem Quiet.answer (hs : s.Quiet) (draws : Draws) {request : Request κ} (h : request.Quiet) :
    (s.answer draws request).2.Quiet := by
  cases request with
  | create name settings =>
      exact hs.makeEngine (fun hook hh => by cases hh) name h
  | adjust engine name settings =>
      exact hs.withEngine engine fun e he => hs.makeEngine he name h
  | evaluate engine source context | display engine source context display =>
      exact hs.withEngine engine fun e _ => hs.of_engines (engines_evaluate s draws e source)
  | lex engine source => exact hs.withEngine engine fun _ _ => hs
  | setPrecision | resetPrecision | precision | isPrecision => exact hs
  | system x | pi x | primitive _ x => exact hs.answerAt x _

theorem Quiet.answerAll (hs : s.Quiet) (draws : Draws) {requests : List (Request κ)}
    (h : ∀ request ∈ requests, request.Quiet) : (s.answerAll draws requests).2.Quiet := by
  induction requests generalizing s with
  | nil => exact hs
  | cons request rest ih =>
      obtain ⟨hrequest, hrest⟩ := List.forall_mem_cons.mp h
      exact ih (hs.answer draws hrequest) hrest

end Session

end Reckoner
