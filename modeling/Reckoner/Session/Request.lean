/-
# Requests to a session

A request names the engine it is for.  It is answered, or something stops it;
in both cases the session goes on.  Engines are made by requests and stored
under names, and a request that is stopped stores nothing.
-/
import Reckoner.Display
import Reckoner.Session.State

namespace Reckoner

/-- A numeric primitive with its operands. -/
inductive Primitive where
  | operator (op : Operator) (operands : List Number)
  | function (f : Function) (operands : List Number)
  | constant (c : Constant)
  /-- Reads a numeral. -/
  | numeral (text : String)
deriving DecidableEq, Repr

def Primitive.outcome (n : Numerics) : Primitive → Outcome
  | operator op operands => op.apply n.precision operands
  | function f operands => f.id.apply n.precision (n.draws 0) operands
  | constant c => c.id.value n.precision
  | numeral text => Number.parse n.precision text

/-- Something asked of a session; `κ` is what callers hand to hooks. -/
inductive Request (κ : Type) where
  /-- Make an engine with some settings. -/
  | create (name : String) (settings : Settings Behaviour)
  /-- Make an engine from another one. -/
  | adjust (engine name : String) (settings : Settings Behaviour)
  /-- Evaluate a source. -/
  | evaluate (engine source : String) (context : Option κ)
  /-- Evaluate a source and display the value. -/
  | display (engine source : String) (context : Option κ) (display : Display)
  /-- Give the tokens of a source. -/
  | lex (engine source : String)
  /-- Set the shared precision. -/
  | setPrecision (x : Binary64)
  /-- Set the shared precision to the standard one. -/
  | resetPrecision
  /-- Give the shared precision. -/
  | precision
  /-- Tell whether a number is a precision. -/
  | isPrecision (x : Binary64)
  /-- Give the number system of a precision. -/
  | system (precision : Binary64)
  /-- Give pi. -/
  | pi (precision : Binary64)
  /-- Compute a primitive. -/
  | primitive (primitive : Primitive) (precision : Binary64)

/-- The answer to a request. -/
inductive Answer where
  | engine (e : Engine)
  | value (x : Number)
  | text (s : String)
  | lexing (l : Lexing)
  | precision (p : Precision)
  | verdict (holds : Bool)
  | system (s : NumberSystem)
  | outcome (o : Outcome)

/-- All that comes of a request. -/
structure Reply (κ : Type) where
  /-- The answer, or what stopped the request. -/
  answer : Except Thrown Answer
  /-- The steps that a hook was told of, with what the caller handed to it. -/
  told : List (Step × Option κ) := []
  /-- The records in the log of the engine in question. -/
  records : List Log.Record := []

namespace Session

def findEngine (s : Session) (name : String) : Except Misuse Engine :=
  match s.engines.lookup name with
  | some e => .ok e
  | none => .error (.noEngine name)

/-- The number system of a number that is a precision. -/
def requestSystem (s : Session) (x : Binary64) : Except Misuse (NumberSystem × Session) :=
  let (outcome, systems) := s.systems.demand x
  outcome.map fun system => (system, { s with systems := systems })

def store (s : Session) (name : String) (e : Engine) : Session :=
  { s with engines := (name, e) :: s.engines }

/-- Settings whose hook is known to the session. -/
def register (s : Session) (settings : Settings Behaviour) : Settings Hook × Session :=
  match settings.hook with
  | .keep => ({ settings with hook := .keep }, s)
  | .clear => ({ settings with hook := .clear }, s)
  | .set react =>
    let (hook, s) := s.addHook react
    ({ settings with hook := .set hook }, s)

/-- Makes an engine from another one and stores it. -/
def makeEngine {κ : Type} (s : Session) (e : Engine) (name : String)
    (settings : Settings Behaviour) : Reply κ × Session :=
  let (settings, s) := s.register settings
  match e.adjust settings with
  | .ok e => ({ answer := .ok (.engine e) }, s.store name e)
  | .error m => ({ answer := .error (.misuse m) }, s)

/-- Evaluates a source and makes an answer of the value. -/
def answerWith {κ : Type} (s : Session) (draws : Draws) (e : Engine) (source : String)
    (context : Option κ) (answer : Number → Except Thrown Answer) : Reply κ × Session :=
  let (attempt, s) := s.evaluate draws e source
  ({ answer := attempt.result.bind answer
     told := attempt.told.map fun step => (step, context)
     records := attempt.records }, s)

def answerAt {κ : Type} (s : Session) (x : Binary64) (answer : NumberSystem → Answer) :
    Reply κ × Session :=
  match s.requestSystem x with
  | .ok (system, s) => ({ answer := .ok (answer system) }, s)
  | .error m => ({ answer := .error (.misuse m) }, s)

def withEngine {κ : Type} (s : Session) (name : String)
    (answer : Engine → Reply κ × Session) : Reply κ × Session :=
  match s.findEngine name with
  | .ok e => answer e
  | .error m => ({ answer := .error (.misuse m) }, s)

def answer {κ : Type} (s : Session) (draws : Draws) : Request κ → Reply κ × Session
  | .create name settings => s.makeEngine .plain name settings
  | .adjust engine name settings =>
    s.withEngine engine fun e => s.makeEngine e name settings
  | .evaluate engine source context =>
    s.withEngine engine fun e => s.answerWith draws e source context fun x => .ok (.value x)
  | .display engine source context display =>
    s.withEngine engine fun e =>
      s.answerWith draws e source context fun x => (x.display display).map .text
  | .lex engine source =>
    s.withEngine engine fun e => ({ answer := .ok (.lexing (e.catalog.lex source)) }, s)
  | .setPrecision x =>
    let s := s.setPrecision x
    ({ answer := .ok (.precision s.precision) }, s)
  | .resetPrecision =>
    let s := s.resetPrecision
    ({ answer := .ok (.precision s.precision) }, s)
  | .precision => ({ answer := .ok (.precision s.precision) }, s)
  | .isPrecision x => ({ answer := .ok (.verdict (Precision.ofBinary64? x).isSome) }, s)
  | .system x => s.answerAt x .system
  | .pi x => s.answerAt x fun system => .value system.pi
  | .primitive primitive x =>
    s.answerAt x fun system =>
      let p := system.precision.digits
      .outcome (primitive.outcome ⟨p, draws p⟩)

/-- Answers requests in order. -/
def answerAll {κ : Type} (s : Session) (draws : Draws) : List (Request κ) → List (Reply κ) × Session
  | [] => ([], s)
  | request :: rest =>
    let (reply, s) := s.answer draws request
    let (replies, s) := s.answerAll draws rest
    (reply :: replies, s)

end Session

end Reckoner
