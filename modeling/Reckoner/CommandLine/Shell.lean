/-
# Expressions from the command line and from lines

A shell has an engine and the session it works in.  It evaluates the one
expression that the words give, or else lines one after the other: a line is
an expression or a command, `:precision` with or without a number, or `:quit`.

Nothing is written here: what is to be written is a list of outputs, in order.
-/
import Reckoner.CommandLine.Usage
import Reckoner.Display
import Reckoner.Session.State

namespace Reckoner

namespace CommandLine

/-- Something to write. -/
inductive Output where
  /-- A text for the standard output. -/
  | result (text : String)
  /-- A text for the error output. -/
  | complaint (text : String)
  /-- A record, which goes to the error output as a line. -/
  | record (r : Log.Record)
deriving DecidableEq, Repr

/-- What the program learns from its environment. -/
structure Environment where
  logLevel : Option String := none
  /-- The precision to begin with. -/
  precision : Option String := none
deriving DecidableEq, Repr

/-- What evaluates expressions and lines. -/
structure Shell where
  engine : Engine
  display : Display
  session : Session
  failed : Bool := false

/-- What to do behind a line. -/
inductive Next where
  /-- Take up the next line. -/
  | more
  /-- Stop. -/
  | quit
  /-- Stop because of something that is no failure of an expression. -/
  | raised (t : Thrown)

/-- What came of a line. -/
structure Turn where
  outputs : List Output
  /-- The shell behind the line. -/
  shell : Shell
  next : Next

/-- What came of the whole program. -/
structure Run where
  outputs : List Output
  /-- The exit code, or what stopped the program. -/
  exit : Except Thrown Nat
  session : Session

/-- The threshold of the log: the one that the environment names, or else one
that suits the options. -/
def threshold (env : Environment) (trace : Bool) : Log.Level :=
  let named := env.logLevel.bind fun s => Log.Level.ofName? (Text.lowercase (Text.trim s))
  named.getD (if trace then .debug else .warn)

def takePrecision (env : Environment) (session : Session) : List Log.Record × Session :=
  match env.precision with
  | none => ([], session)
  | some value =>
    if Text.isAllBlank value then ([], session)
    else match precision? value with
      | some p => ([], { session with precision := p })
      | none => ([.precisionIgnored value], session)

/-- A hook that only takes note. -/
def observer : Behaviour := fun _ _ => {}

namespace Shell

/-- The shell that options ask for, and what its log is given. -/
def start (o : Options) (env : Environment) : List Output × Shell :=
  let level := threshold env o.trace
  let (records, session) := takePrecision env {}
  let session := { session with precision := o.precision.getD session.precision }
  let (hook, session) := session.addHook observer
  let engine : Engine :=
    { Engine.plain with
      catalog := Preset.catalog o.style
      threshold := level
      hook := if o.trace then some hook else none }
  ((Log.keep level records).map .record, ⟨engine, { significant := o.digits }, session, false⟩)

/-- Evaluates a source, and gives what the log is given. -/
def evaluate (sh : Shell) (draws : Draws) (source : String) :
    List Output × Except Thrown Number × Shell :=
  let (attempt, session) := sh.session.evaluate draws sh.engine source
  let steps := Log.keep sh.engine.threshold (attempt.told.map .applied)
  ((steps ++ attempt.records).map .record, attempt.result, { sh with session := session })

/-- A failure with its carets, as lines. -/
def explain (f : Failure) (source : String) : String :=
  (Report.ofFailure f (some source)).detail ++ "\n"

/-- Evaluates the one expression.  A value that cannot be displayed is no
failure of the expression and stops the program. -/
def single (sh : Shell) (draws : Draws) (source : String) : Run :=
  match sh.evaluate draws source with
  | (log, .ok x, sh) =>
    match x.display sh.display with
    | .ok text => ⟨log ++ [.result (text ++ "\n")], .ok 0, sh.session⟩
    | .error t => ⟨log, .error t, sh.session⟩
  | (log, .error (.failure f), sh) => ⟨log ++ [.complaint (explain f source)], .ok 1, sh.session⟩
  | (log, .error t, sh) => ⟨log, .error t, sh.session⟩

/-- What follows the word of the command that sets the precision. -/
def precisionCommand? (line : String) : Option String :=
  let word := ":precision".toList
  let cs := line.toList
  if word.isPrefixOf cs then
    match cs.drop word.length with
    | [] => some ""
    | ' ' :: rest => some (Text.trim (String.ofList rest))
    | _ => none
  else none

def tellPrecision (sh : Shell) : Turn :=
  ⟨[.result ("precision = " ++ toString sh.session.precision.digits ++ "\n")], sh, .more⟩

/-- Sets the shared precision to what a text asks for, if it asks for
anything, and says what it is. -/
def changePrecision (sh : Shell) (value : String) : Turn :=
  if value = "" then sh.tellPrecision
  else match precision? value with
    | none => ⟨[.complaint ("invalid precision \"" ++ value ++ "\"\n")], sh, .more⟩
    | some p => tellPrecision { sh with session := { sh.session with precision := p } }

/-- Evaluates an expression that stands on a line; its failures, and those of
displaying its value, are among the results. -/
def expression (sh : Shell) (draws : Draws) (source : String) : Turn :=
  let (log, result, sh) := sh.evaluate draws source
  match result.bind fun x => x.display sh.display with
  | .ok text => ⟨log ++ [.result ("= " ++ text ++ "\n")], sh, .more⟩
  | .error (.failure f) =>
    ⟨log ++ [.result (explain f source)], { sh with failed := true }, .more⟩
  | .error t => ⟨log, sh, .raised t⟩

def line (sh : Shell) (draws : Draws) (raw : String) : Turn :=
  let text := Text.trim raw
  if text = "" then ⟨[], sh, .more⟩
  else if text = ":quit" then ⟨[], sh, .quit⟩
  else match precisionCommand? text with
    | some value => sh.changePrecision value
    | none => sh.expression draws text

/-- The exit code of a shell that has no more lines. -/
def exitCode (sh : Shell) : Nat := if sh.failed then 1 else 0

/-- Takes up lines until there are no more or one of them stops the shell;
`draws` is what `random` gives by the number of lines before. -/
def lines (sh : Shell) (draws : Nat → Draws) : (before : Nat) → List String → Run
  | _, [] => ⟨[], .ok sh.exitCode, sh.session⟩
  | before, raw :: rest =>
    match sh.line (draws before) raw with
    | ⟨outputs, sh, .more⟩ =>
      let run := sh.lines draws (before + 1) rest
      { run with outputs := outputs ++ run.outputs }
    | ⟨outputs, sh, .quit⟩ => ⟨outputs, .ok sh.exitCode, sh.session⟩
    | ⟨outputs, sh, .raised t⟩ => ⟨outputs, .error t, sh.session⟩

end Shell

/-- How the program begins. -/
inductive Start where
  /-- It is done. -/
  | done (run : Run)
  /-- It goes on with lines. -/
  | lines (outputs : List Output) (shell : Shell)

def start (draws : Draws) (words : List String) (env : Environment) : Start :=
  match Options.ofWords words with
  | .error fault => .done ⟨[.complaint fault.report], .ok 2, {}⟩
  | .ok o =>
    if o.help then .done ⟨[.result usage], .ok 0, {}⟩
    else
      let (outputs, sh) := Shell.start o env
      if o.expression.isEmpty then .lines outputs sh
      else
        let run := sh.single draws (" ".intercalate o.expression)
        .done { run with outputs := outputs ++ run.outputs }

/-- The whole program, on all of its input; `draws` is what `random` gives by
the number of lines before. -/
def run (draws : Nat → Draws) (words : List String) (env : Environment) (input : String) : Run :=
  match start (draws 0) words env with
  | .done run => run
  | .lines outputs sh =>
    let run := sh.lines draws 0 ((Text.linesOf input.toList).map String.ofList)
    { run with outputs := outputs ++ run.outputs }

end CommandLine

end Reckoner
