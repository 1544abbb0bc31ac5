/-
# Numbers for `random`

Decimals from zero up to but not including one, with as many digits as the
precision.  They come from a linear congruential generator that is started
anew for each draw, from a seed, the line and the step it is for, so that a
run is a function of its seed.  This is one supply of draws among others: an
evaluation takes any.
-/
import Reckoner.Session.State

namespace Reckoner

namespace CommandLine

def advance (state : Nat) : Nat :=
  (state * 6364136223846793005 + 1442695040888963407) % 18446744073709551616

/-- Appends digits to a number, each from the upper half of a state. -/
def appendDigits : (count state n : Nat) → Nat
  | 0, _, n => n
  | count + 1, state, n =>
    let state := advance state
    appendDigits count state (10 * n + state / 4294967296 % 10)

/-- The draws of a run, by the line they are for. -/
def drawsOfSeed (seed : Nat) (line : Nat) : Draws := fun p step =>
  let state := advance (advance (advance seed + line) + step)
  ⟨false, appendDigits p state 0, -p⟩

end CommandLine

end Reckoner
