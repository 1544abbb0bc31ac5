/-
# Engines

An engine evaluates sources under a catalog.  It may have a precision of its
own, a limit on the length of sources, a threshold for its log, and a hook
that is told of every step.  An engine never changes; `Engine.adjust` makes
another one that differs in some settings.
-/
import Reckoner.Catalog.Preset
import Reckoner.Log

namespace Reckoner

/-- What a hook does when it is told of a step, besides taking note of it. -/
structure Reaction where
  /-- The precision that it asks the session for. -/
  precision : Option Binary64 := none
  /-- The message of an error that it raises. -/
  raises : Option String := none
deriving DecidableEq, Repr

/-- The behaviour of a hook, by the number of steps it was told of before. -/
abbrev Behaviour := (earlier : Nat) → Step → Reaction

/-- Something that is told of the steps of evaluations. -/
structure Hook where
  /-- The number of hooks made before it. -/
  serial : Nat
  react : Behaviour

/-- An evaluator of sources with its settings. -/
structure Engine where
  catalog : Catalog
  /-- The precision of its own; without one it takes the session's. -/
  precision : Option Precision
  /-- The greatest number of units of a source. -/
  maxLength : Option Nat
  /-- Where its log begins to keep records. -/
  threshold : Log.Level
  hook : Option Hook

/-- What to do with a setting. -/
inductive Change (α : Type) where
  /-- Leave it as it is. -/
  | keep
  /-- Leave it out. -/
  | clear
  /-- Give it a value. -/
  | set (x : α)
deriving DecidableEq, Repr

/-- The setting after a change. -/
def Change.apply {α : Type} (before : Option α) : Change α → Option α
  | keep => before
  | clear => none
  | set x => some x

/-- Changes of an engine's settings. -/
structure Settings (H : Type) where
  /-- The preset whose catalog to take, unless a catalog is given. -/
  style : Option Style := none
  catalog : Option Catalog := none
  precision : Change Binary64 := .keep
  /-- The greatest number of units of a source. -/
  maxLength : Change Binary64 := .keep
  threshold : Option Log.Level := none
  /-- The hook. -/
  hook : Change H := .keep

namespace Engine

/-- The engine without any settings. -/
def plain : Engine := ⟨Preset.catalog .standard, none, none, .silent, none⟩

/-- The precision after a change, if it is in range. -/
def adjustPrecision (before : Option Precision) : Change Binary64 → Except Misuse (Option Precision)
  | .keep => .ok before
  | .clear => .ok none
  | .set x =>
    match Precision.ofBinary64? x with
    | some p => .ok (some p)
    | none => .error (.precision x)

/-- The limit on lengths after a change, if it is a natural number. -/
def adjustLength (before : Option Nat) : Change Binary64 → Except Misuse (Option Nat)
  | .keep => .ok before
  | .clear => .ok none
  | .set x =>
    match x.toNat? with
    | some n => .ok (some n)
    | none => .error (.maxLength x)

/-- The catalog after a change. -/
def adjustCatalog {H : Type} (before : Catalog) (s : Settings H) : Catalog :=
  match s.catalog, s.style with
  | some catalog, _ => catalog
  | none, some style => Preset.catalog style
  | none, none => before

/-- The engine with some settings changed, or the first value out of range. -/
def adjust (e : Engine) (s : Settings Hook) : Except Misuse Engine := do
  return {
    precision := ← adjustPrecision e.precision s.precision
    maxLength := ← adjustLength e.maxLength s.maxLength
    catalog := adjustCatalog e.catalog s
    threshold := s.threshold.getD e.threshold
    hook := s.hook.apply e.hook }

def make (s : Settings Hook) : Except Misuse Engine := plain.adjust s

/-- The problem of a source with too many units for the engine. -/
def lengthProblem? (e : Engine) (source : String) : Option Problem :=
  match e.maxLength with
  | some limit =>
    if limit < Text.units source then some ⟨.tooLong limit, some ⟨limit, 1⟩⟩ else none
  | none => none

/-- Evaluates a source at a precision; a source that is too long is not read. -/
def evaluate (e : Engine) (n : Numerics) (source : String) : Evaluation :=
  match e.lengthProblem? source with
  | some problem => ⟨[], .error problem⟩
  | none => Evaluation.ofSource e.catalog n source

end Engine

end Reckoner
