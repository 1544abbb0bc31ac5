/-
# Sessions

The engines of a session share a precision, which those without one of their
own take at the start of every evaluation, and the table of number systems.

A hook is told of each step of an evaluation in order.  It may ask for another
shared precision, which the evaluation under way does not take up, and it may
raise an error, which ends the evaluation after the step in question.
-/
import Reckoner.Engine
import Reckoner.Session.Systems

namespace Reckoner

/-- What engines share. -/
structure Session where
  /-- The precision of engines without one of their own. -/
  precision : Precision := .standard
  systems : Systems := {}
  /-- How often each hook was told of a step, by serial number. -/
  told : List Nat := []
  /-- The engines by name, the latest first. -/
  engines : List (String × Engine) := []

/-- What came of telling a hook of steps. -/
structure Telling where
  steps : List Step
  /-- How often it was told of a step, in all. -/
  told : Nat
  precision : Precision
  /-- The message of the error that it raised. -/
  raised : Option String

/-- Tells a hook of steps until it raises an error. -/
def Hook.tell (hook : Hook) : (told : Nat) → Precision → List Step → Telling
  | told, precision, [] => ⟨[], told, precision, none⟩
  | told, precision, step :: rest =>
    let reaction := hook.react told step
    let precision := (reaction.precision.bind Precision.ofBinary64?).getD precision
    match reaction.raises with
    | some message => ⟨[step], told + 1, precision, some message⟩
    | none =>
      let telling := hook.tell (told + 1) precision rest
      { telling with steps := step :: telling.steps }

/-- The numbers that `random` gives in an evaluation, by the precision and the
number of steps before. -/
abbrev Draws := (precision steps : Nat) → Decimal

/-- One evaluation of a source. -/
structure Attempt where
  /-- The value, or what stopped the evaluation. -/
  result : Except Thrown Number
  /-- The steps that the engine's hook was told of. -/
  told : List Step
  records : List Log.Record

namespace Session

/-- Sets the shared precision; a number out of range changes nothing. -/
def setPrecision (s : Session) (x : Binary64) : Session :=
  { s with precision := (Precision.ofBinary64? x).getD s.precision }

/-- Sets the shared precision to the standard one. -/
def resetPrecision (s : Session) : Session := { s with precision := .standard }

/-- How often a hook was told of a step. -/
def timesTold (s : Session) (hook : Hook) : Nat := (s.told[hook.serial]?).getD 0

/-- A hook that was told of nothing yet. -/
def addHook (s : Session) (react : Behaviour) : Hook × Session :=
  (⟨s.told.length, react⟩, { s with told := s.told ++ [0] })

/-- Tells an engine's hook, if it has one, of steps. -/
def tell (s : Session) (hook : Option Hook) (steps : List Step) : Telling × Session :=
  match hook with
  | none => (⟨[], 0, s.precision, none⟩, s)
  | some hook =>
    let telling := hook.tell (s.timesTold hook) s.precision steps
    (telling, { s with
      precision := telling.precision, told := s.told.set hook.serial telling.told })

/-- The value of an evaluation, or what stopped it: an error that a hook
raised comes before a problem behind it. -/
def resultOf (source : String) (raised : Option String) (result : Except Problem Number) :
    Except Thrown Number :=
  match raised, result with
  | some message, _ => .error (.foreign message)
  | none, .ok x => .ok x
  | none, .error problem => .error (.failure (problem.failure source))

def recordsOf (p : Precision) (source : String) : Except Thrown Number → List Log.Record
  | .ok _ => [.evaluated p (Text.units source)]
  | .error (.failure f) => [.rejected p (Text.units source) f]
  | .error _ => []

/-- Evaluates a source with an engine.  A source that is too long is refused
before anything else happens. -/
def evaluate (s : Session) (draws : Draws) (e : Engine) (source : String) : Attempt × Session :=
  match e.lengthProblem? source with
  | some problem => (⟨.error (.failure (problem.failure source)), [], []⟩, s)
  | none =>
    let p := e.precision.getD s.precision
    let (system, systems) := s.systems.request p
    let s := { s with systems := systems }
    let digits := system.precision.digits
    let evaluation := Evaluation.ofSource e.catalog ⟨digits, draws digits⟩ source
    let (telling, s) := s.tell e.hook evaluation.steps
    let result := resultOf source telling.raised evaluation.result
    (⟨result, telling.steps, Log.keep e.threshold (recordsOf p source result)⟩, s)

end Session

end Reckoner
