/-
# The program

Hands words, environment and lines to the command line and writes what comes
out.  Lines are taken up one at a time, so each is answered before the next
one is read.
-/
import Reckoner.CommandLine.Draws
import Reckoner.CommandLine.Shell
import Reckoner.Log.Line

namespace Reckoner

namespace CommandLine

/-- Writes an output where it belongs. -/
def Output.write : Output → IO Unit
  | result text => do
    (← IO.getStdout).putStr text
    (← IO.getStdout).flush
  | complaint text => do (← IO.getStderr).putStr text
  | record r => do (← IO.getStderr).putStrLn r.line

/-- Writes outputs in order. -/
def writeAll (outputs : List Output) : IO Unit := outputs.forM Output.write

/-- The exit code, once what stopped the program has been reported. -/
def conclude : Except Thrown Nat → IO UInt32
  | .ok code => return code.toUInt32
  | .error t => do
    (← IO.getStderr).putStrLn ("decimath: " ++ (Report.ofThrown t none).summary)
    return 1

partial def readLines (draws : Nat → Draws) (sh : Shell) (before : Nat) : IO UInt32 := do
  let chunk ← (← IO.getStdin).getLine
  if chunk.isEmpty then return sh.exitCode.toUInt32
  takeUp sh before ((Text.linesOf chunk.toList).map String.ofList)
where
  /-- Takes up the lines that were read at once and then reads on. -/
  takeUp (sh : Shell) (before : Nat) : List String → IO UInt32
    | [] => readLines draws sh before
    | raw :: rest => do
      let turn := sh.line (draws before) raw
      writeAll turn.outputs
      match turn.next with
      | .more => takeUp turn.shell (before + 1) rest
      | .quit => return turn.shell.exitCode.toUInt32
      | .raised t => conclude (.error t)

end CommandLine

end Reckoner

open Reckoner.CommandLine in
/-- Runs the program on words from the command line. -/
def main (words : List String) : IO UInt32 := do
  let env : Environment :=
    ⟨← IO.getEnv "LOG_LEVEL", ← IO.getEnv "DECIMATH_PRECISION"⟩
  let draws := drawsOfSeed (← IO.rand 0 18446744073709551615)
  match start (draws 0) words env with
  | .done run => do
    writeAll run.outputs
    conclude run.exit
  | .lines outputs sh => do
    writeAll outputs
    readLines draws sh 0
