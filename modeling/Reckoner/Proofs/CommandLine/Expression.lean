/-
# One expression on the command line

A shell's engine has no precision and no limit of its own, and its hook, if it
has one, only takes note.  So the value of an expression is what the evaluator
gives at the precision that is shared, and the evaluation leaves that precision
as it was (`Shell.evaluate_eq`).

A value is finite, and so the display can refuse it for one reason only, a
number of digits that is too large (`exists_display`, `exists_misuse`).  That
refusal is no failure of an expression.
-/
import Reckoner.CommandLine.Shell
import Reckoner.Proofs.Display.Rounding
import Reckoner.Proofs.Evaluation.Digits
import Reckoner.Proofs.Session.Quiet

namespace Reckoner

/-! ## A hook that only takes note -/

theorem CommandLine.observer_quiet : observer.Quiet := fun _ _ => rfl

theorem Hook.precision_tell {hook : Hook} (h : hook.react = CommandLine.observer) (told : Nat)
    (p : Precision) (steps : List Step) : (hook.tell told p steps).precision = p := by
  induction steps generalizing told with
  | nil => rfl
  | cons step rest ih =>
      simp only [tell, h, CommandLine.observer, Option.bind_none, Option.getD_none]
      exact ih (told + 1)

/-- An evaluation whose hook only takes note leaves the shared precision as it was. -/
theorem Session.precision_evaluate {e : Engine}
    (h : ∀ hook, e.hook = some hook → hook.react = CommandLine.observer) (s : Session)
    (draws : Draws) (source : String) :
    (s.evaluate draws e source).2.precision = s.precision := by
  unfold evaluate
  cases e.lengthProblem? source with
  | some problem => rfl
  | none =>
      cases hh : e.hook with
      | none => rfl
      | some hook => exact Hook.precision_tell (h hook hh) _ _ _

/-! ## Displaying -/

/-- Whether a value can be displayed with a number of significant digits, if one
is asked for. -/
def Display.Fits (d : Display) : Prop :=
  ∀ x, d.significant = some x → ∃ n, x.toNat? = some n ∧ 1 ≤ n ∧ n ≤ most

namespace Display

variable {d : Display}

/-- Displaying a finite number is no failure. -/
theorem display_cases (d : Display) (x : Decimal) :
    (∃ text, (Number.finite x).display d = .ok text) ∨
      ∃ m, (Number.finite x).display d = .error (.misuse m) := by
  simp only [Number.display, Number.isFinite, if_true]
  cases d.round (.finite x) with
  | ok y => exact Or.inl ⟨_, rfl⟩
  | error m => exact Or.inr ⟨m, rfl⟩

/-- A finite number is displayed if the number of digits is usable. -/
theorem exists_display (hd : d.Fits) (hfraction : d.fraction = none) (x : Decimal) :
    ∃ text, (Number.finite x).display d = .ok text := by
  obtain ⟨y, hy⟩ : ∃ y, d.round (.finite x) = .ok y := by
    unfold round
    rw [hfraction]
    cases hs : d.significant with
    | none => exact ⟨_, rfl⟩
    | some digits =>
        obtain ⟨n, hn⟩ := hd digits hs
        have hcount : count "significantDigits" 1 digits = .ok n := count_eq_ok.mpr hn
        simp only [roundSignificant, hcount]
        exact ⟨_, rfl⟩
  exact ⟨plain y, by simp only [Number.display, Number.isFinite, if_true, hy]⟩

/-- A finite number is not displayed, and a misuse stops the program, if the
number of digits is not usable. -/
theorem exists_misuse (hd : ¬ d.Fits) (x : Decimal) :
    ∃ m, (Number.finite x).display d = .error (.misuse m) := by
  obtain ⟨digits, hs, hn⟩ : ∃ digits, d.significant = some digits ∧
      ∀ n, count "significantDigits" 1 digits ≠ .ok n := by
    simp only [Fits, Classical.not_forall] at hd
    obtain ⟨digits, hs, hnot⟩ := hd
    exact ⟨digits, hs, fun n hn => hnot ⟨n, count_eq_ok.mp hn⟩⟩
  obtain ⟨m, hm⟩ : ∃ m, d.round (.finite x) = .error m := by
    unfold round
    rw [hs]
    cases hc : count "significantDigits" 1 digits with
    | ok n => exact absurd hc (hn n)
    | error m =>
        simp only [roundSignificant, hc]
        exact ⟨m, rfl⟩
  exact ⟨m, by simp only [Number.display, Number.isFinite, if_true, hm]⟩

end Display

namespace CommandLine

/-- What comes of a source under a catalog at a precision, drawn numbers given. -/
def valueOf (c : Catalog) (draws : Draws) (p : Precision) (source : String) :
    Except Thrown Number :=
  Session.resultOf source none (Evaluation.ofSource c ⟨p.digits, draws p.digits⟩ source).result

/-- Whether something is a value or a failure. -/
def Settled (v : Except Thrown Number) : Prop :=
  (∃ x : Decimal, v = .ok (.finite x)) ∨ ∃ f, v = .error (.failure f)

/-- What comes of a source is a finite number or a failure. -/
theorem settled_valueOf {c : Catalog} {draws : Draws} {p : Precision}
    (hd : ∀ step, (draws p.digits step).IsDraw) (source : String) :
    Settled (valueOf c draws p source) := by
  unfold valueOf
  cases h : (Evaluation.ofSource c ⟨p.digits, draws p.digits⟩ source).result with
  | error problem => exact Or.inr ⟨_, rfl⟩
  | ok x =>
      have htokens := Evaluation.ofSource_eq_ofTokens h
      rw [htokens] at h
      cases ((Numerics.keeps_within hd).outcome _ _ _).2 x h with
      | finite => exact Or.inl ⟨_, rfl⟩

namespace Shell

variable {sh : Shell} {c : Catalog}

/-- Whether a shell takes sources of any length, under a catalog and at the
precision that is shared. -/
structure Serves (c : Catalog) (sh : Shell) : Prop where
  /-- The catalog. -/
  catalog : sh.engine.catalog = c
  /-- There is no precision of its own. -/
  precision : sh.engine.precision = none
  /-- There is no limit on lengths. -/
  maxLength : sh.engine.maxLength = none
  /-- The hook, if there is one, only takes note. -/
  hook : ∀ hook, sh.engine.hook = some hook → hook.react = observer

theorem serves_start (o : Options) (env : Environment) :
    (start o env).2.Serves (Preset.catalog o.style) := by
  refine ⟨rfl, rfl, rfl, ?_⟩
  intro hook h
  simp only [start] at h
  split at h
  · cases h
    rfl
  · cases h

theorem Serves.quiet (h : sh.Serves c) : sh.engine.Quiet := fun hook hh => by
  rw [h.hook hook hh]
  exact observer_quiet

/-- What is evaluated is the source at the precision that is shared, and nothing
of the shell changes but what is counted behind it. -/
theorem evaluate_eq (h : sh.Serves c) (draws : Draws) (source : String) :
    ∃ records session, session.precision = sh.session.precision ∧
      sh.evaluate draws source = (List.map .record records,
        valueOf c draws sh.session.precision source, { sh with session := session }) := by
  have hp : sh.engine.precision.getD sh.session.precision = sh.session.precision := by
    rw [h.precision]
    rfl
  have hlimit : sh.engine.lengthProblem? source = none := by
    rw [Engine.lengthProblem?, h.maxLength]
  have hresult := (Session.evaluate_eq h.quiet sh.session draws source).1
  simp only [hp, Engine.evaluate, hlimit, h.catalog] at hresult
  generalize hattempt : sh.session.evaluate draws sh.engine source = came at hresult
  obtain ⟨attempt, session⟩ := came
  have hshared := Session.precision_evaluate h.hook sh.session draws source
  rw [hattempt] at hshared
  refine ⟨Log.keep sh.engine.threshold (attempt.told.map .applied) ++ attempt.records, session,
    hshared, ?_⟩
  rw [evaluate, hattempt]
  exact congrArg (fun result => (_, result, _)) hresult

end Shell

end CommandLine

end Reckoner
