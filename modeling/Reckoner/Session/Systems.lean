/-
# The table of number systems

There is one number system for a precision, made when it is first asked for
and kept while it is among the sixteen asked for most recently.  A system made
anew after it was dropped is another one; the serial number tells them apart.

The table keeps its entries in the order in which they were entered.  One that is
asked for again is taken out and entered anew, so the first entry is the one that
was not asked for the longest; it is dropped when there are too many.

A system is no more here than its precision.  The settings with which it computes,
which a function may raise for the steps in between, are those of the precision again
when the next function is asked for, also after a refusal, and are left out.
-/
import Reckoner.Elementary.Machin
import Reckoner.Misuse
import Reckoner.Precision

namespace Reckoner

/-- A number system. -/
structure NumberSystem where
  precision : Precision
  /-- The number of systems made before it. -/
  serial : Nat
deriving DecidableEq, Repr

/-- π to the precision of the system. -/
def NumberSystem.pi (system : NumberSystem) : Number :=
  .fit (Elementary.pi system.precision.digits)

/-- The number systems that are kept. -/
structure Systems where
  /-- The systems by precision, the one entered last at the end. -/
  entries : List (Precision × NumberSystem) := []
  /-- The number of systems made so far. -/
  made : Nat := 0
  /-- Every system stands under its own precision. -/
  keyed : ∀ entry ∈ entries, entry.2.precision = entry.1 := by decide
deriving DecidableEq, Repr

namespace Systems

def capacity : Nat := 16

/-- The system that is kept for a precision. -/
def get? (s : Systems) (p : Precision) : Option NumberSystem := s.entries.lookup p

theorem precision_of_get? {s : Systems} {p : Precision} {system : NumberSystem}
    (h : s.get? p = some system) : system.precision = p := by
  obtain ⟨before, behind, hentries, -⟩ := List.lookup_eq_some_iff.mp h
  exact s.keyed (p, system) (hentries ▸ List.mem_append_right _ List.mem_cons_self)

/-- Takes the system of a precision out. -/
def delete (s : Systems) (p : Precision) : Systems :=
  { s with
    entries := s.entries.filter fun entry => entry.1 ≠ p
    keyed := fun entry h => s.keyed entry (List.mem_filter.mp h).1 }

/-- Enters a system for a precision that has none. -/
def enter (s : Systems) (p : Precision) (system : NumberSystem) (h : system.precision = p) :
    Systems :=
  { s with
    entries := s.entries ++ [(p, system)]
    keyed := fun entry hentry => by
      rcases List.mem_append.mp hentry with hold | hnew
      · exact s.keyed entry hold
      · rw [List.mem_singleton.mp hnew]
        exact h }

/-- Drops the first entry if there are too many. -/
def trim (s : Systems) : Systems :=
  if capacity < s.entries.length then
    match s.entries with
    | [] => s
    | (oldest, _) :: _ => s.delete oldest
  else s

/-- The system of a precision, which thereby is the one asked for last. -/
def request (s : Systems) (p : Precision) : NumberSystem × Systems :=
  match h : s.get? p with
  | some system => (system, (s.delete p).enter p system (precision_of_get? h))
  | none =>
    let system : NumberSystem := ⟨p, s.made⟩
    (system, (enter { s with made := s.made + 1 } p system rfl).trim)

/-- The system of a number that is a precision; another number changes nothing. -/
def demand (s : Systems) (x : Binary64) : Except Misuse NumberSystem × Systems :=
  match Precision.ofBinary64? x with
  | some p =>
    let (system, s) := s.request p
    (.ok system, s)
  | none => (.error (.digits x), s)

end Systems

end Reckoner
