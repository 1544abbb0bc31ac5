/-
# Failures and how they are reported

A `Failure` is what a caller sees of anything that goes wrong with an
expression: a category with its own data, a message, where in the source it
is, the line with carets below, and a note with advice.  Its parts are fixed
when it is made; `Failure.make` is the only place where positions and carets
are computed from a source.

A report has a summary of one line and a detail with the carets and the note.
A diagnostic is the same in plain data.  If the failure was made without a
source, both take the position from a source that the caller gives.
-/
import Reckoner.Misuse
import Reckoner.Text.Line

namespace Reckoner

/-- The kinds of failures and what belongs to each. -/
inductive Category where
  /-- A character that no token starts with. -/
  | lexical (text : String)
  /-- Tokens in an order that is no expression. -/
  | structural
  /-- A number of arguments outside a function's bounds. -/
  | arity (name : String) (least most received : Binary64)
  /-- Operands for which there is no result. -/
  | operand (subject : String)
  /-- A result that needs more working digits than there are. -/
  | precision (subject : String) (digits : Binary64)
  /-- An assumption of the evaluator that does not hold. -/
  | internal
deriving DecidableEq, Repr

namespace Category

def name : Category → String
  | lexical _ => "LexicalError"
  | structural => "StructuralError"
  | arity _ _ _ _ => "ArityError"
  | operand _ => "InvalidOperandError"
  | precision _ _ => "PrecisionLimitError"
  | internal => "DecimathError"

def code : Category → String
  | lexical _ => "E_LEXICAL"
  | structural => "E_SYNTAX"
  | arity _ _ _ _ => "E_ARITY"
  | operand _ => "E_OPERAND"
  | precision _ _ => "E_PRECISION"
  | internal => "E_INTERNAL"

end Category

/-- Something that went wrong with an expression. -/
structure Failure where
  category : Category
  /-- What went wrong, in words. -/
  message : String
  note : Option String
  /-- The offset in the source, if there is one. -/
  index : Option Text.Offset
  position : Option Text.Position
  /-- The line of the source with carets below it; empty if not known. -/
  snippet : String
  /-- Whether a failure further inside was the reason. -/
  hasCause : Bool
deriving DecidableEq, Repr

namespace Failure

/-- What a failure is made from. -/
structure Details where
  /-- What went wrong, in words. -/
  message : String
  source : Option String := none
  index : Option Text.Offset := none
  /-- The number of units concerned; one if absent. -/
  length : Option Text.Offset := none
  note : Option String := none
  /-- Whether a failure further inside was the reason. -/
  hasCause : Bool := false
deriving Repr

/-- The failure with these details.  An offset before the source or one that
is no number is dropped. -/
def make (category : Category) (d : Details) : Failure :=
  let index := d.index.filter Text.Offset.isLocated
  let located : Option (Text.Position × String) := do
    let source ← d.source
    let i ← index
    let place := Text.position source i
    return (place, Text.snippetAt source place (d.length.getD (.units 1)) d.message)
  { category := category
    message := d.message
    note := d.note
    index := index
    position := located.map (·.1)
    snippet := (located.map (·.2)).getD ""
    hasCause := d.hasCause }

end Failure

/-- What stops a request: a failure of the expression, a value that may not be
passed, or what a caller's own code raised. -/
inductive Thrown where
  /-- A failure of the expression. -/
  | failure (f : Failure)
  /-- A value that a caller may not pass. -/
  | misuse (m : Misuse)
  /-- An error with a message of its own. -/
  | foreign (message : String)
deriving DecidableEq, Repr

/-- A failure in words. -/
structure Report where
  /-- One line: the code, the message and the position. -/
  summary : String
  /-- The summary, the carets and the note. -/
  detail : String
deriving DecidableEq, Repr

namespace Report

/-- The report of something that is no failure of an expression. -/
def ofMessage (message : String) : Report :=
  ⟨"Error: " ++ message, "Error: " ++ message⟩

/-- Where a failure is, in words. -/
def whereabouts : Option Text.Position → String
  | none => ""
  | some p => " at line " ++ toString p.line ++ ", col " ++ toString p.column

/-- The report of a failure, its position taken from `source` if it has no
carets of its own. -/
def ofFailure (f : Failure) (source : Option String) : Report :=
  let message := if f.message = "" then "Decimath error" else f.message
  let (position, snippet) :=
    match Text.isAllBlank f.snippet, source, f.index with
    | true, some s, some i => (some (Text.position s i), Text.snippet s i (.units 1) message)
    | _, _, _ => (f.position, f.snippet)
  let summary := "[" ++ f.category.code ++ "] " ++ message ++ whereabouts position
  let carets := if Text.isAllBlank snippet then "" else "\n\n" ++ snippet
  let hint := match f.note with
    | some note => if Text.isAllBlank note then "" else "\n\nHint: " ++ note
    | none => ""
  ⟨summary, summary ++ carets ++ hint⟩

/-- The report of anything that stops an evaluation. -/
def ofThrown (t : Thrown) (source : Option String) : Report :=
  match t with
  | .failure f => ofFailure f source
  | .misuse m => ofMessage m.message
  | .foreign message => ofMessage message

end Report

/-- A failure in plain data. -/
structure Diagnostic where
  code : String
  /-- What went wrong, in words. -/
  message : String
  note : Option String
  /-- The offset, if there is one. -/
  index : Option Text.Offset
  /-- The position of the offset, if there is a source. -/
  position : Option Text.Position
deriving DecidableEq, Repr

/-- The diagnostic of a failure, its position taken from `source` if it has
none of its own. -/
def Diagnostic.ofFailure (f : Failure) (source : Option String) : Diagnostic where
  code := f.category.code
  message := f.message
  note := f.note
  index := f.index
  position := do
    let i ← f.index
    match f.position with
    | some p => some p
    | none => source.map fun s => Text.position s i

end Reckoner
