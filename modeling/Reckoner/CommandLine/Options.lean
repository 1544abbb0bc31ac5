/-
# Options on the command line

Words that do not begin with two hyphens are parts of an expression, so an
expression may begin with a minus.  An option with a value takes it from
behind an equals sign in the same word, or else from the next word, whatever
that is.  Behind the word `--` everything is a part of the expression.
-/
import Reckoner.Catalog.Preset
import Reckoner.Decimal.Numeral
import Reckoner.Precision
import Reckoner.Text.Blank

namespace Reckoner

namespace CommandLine

/-- A run of ASCII digits, blanks around it aside, as a number. -/
def count? (s : String) : Option Binary64 :=
  let digits := (Text.trim s).toList
  if digits.isEmpty || !digits.all isDigit then none
  else some (Binary64.ofNat (digitsValue digits))

/-- The precision that a text asks for. -/
def precision? (s : String) : Option Precision := (count? s).bind Precision.ofBinary64?

/-- The number of digits that a text asks for, which is not zero. -/
def digits? (s : String) : Option Binary64 :=
  (count? s).filter fun n => !n.lt (Binary64.ofNat 1)

def style? (s : String) : Option Style :=
  if s = "standard" then some .standard
  else if s = "spreadsheet" then some .spreadsheet
  else none

/-- What words say. -/
structure Options where
  /-- The precision to set. -/
  precision : Option Precision := none
  style : Style := .standard
  /-- The number of significant digits to display. -/
  digits : Option Binary64 := none
  trace : Bool := false
  help : Bool := false
  expression : List String := []
deriving DecidableEq, Repr

/-- Why words are not understood. -/
inductive UsageFault where
  | needsValue (option : String)
  | precision (value : String)
  | digits (value : String)
  | style (value : String)
  | unknown (option : String)
deriving DecidableEq, Repr

def UsageFault.message : UsageFault → String
  | needsValue s => s ++ " needs a value"
  | precision s => "invalid precision \"" ++ s ++ "\""
  | digits s => "invalid digit count \"" ++ s ++ "\""
  | style s => "unknown style \"" ++ s ++ "\""
  | unknown s => "unknown option " ++ s

namespace Options

/-- The name of an option and the value behind its first equals sign. -/
def split (word : String) : String × Option String :=
  let cs := word.toList
  let name := String.ofList (cs.takeWhile (· ≠ '='))
  match cs.dropWhile (· ≠ '=') with
  | _ :: value => (name, some (String.ofList value))
  | [] => (name, none)

def set (o : Options) (name value : String) : Except UsageFault Options :=
  if name = "--precision" then
    match precision? value with
    | some p => .ok { o with precision := some p }
    | none => .error (.precision value)
  else if name = "--digits" then
    match digits? value with
    | some n => .ok { o with digits := some n }
    | none => .error (.digits value)
  else if name = "--style" then
    match style? value with
    | some s => .ok { o with style := s }
    | none => .error (.style value)
  else .error (.unknown name)

/-- Puts words behind the expression. -/
def append (o : Options) (words : List String) : Options :=
  { o with expression := o.expression ++ words }

/-- Whether a word is the name of an option that takes a value. -/
def isOption (word : String) : Bool := ['-', '-'].isPrefixOf word.toList

def read (o : Options) : List String → Except UsageFault Options
  | [] => .ok o
  | word :: rest =>
    if word = "--" then .ok (o.append rest)
    else if word = "-h" || word = "--help" then read { o with help := true } rest
    else if word = "--trace" then read { o with trace := true } rest
    else if !isOption word then read (o.append [word]) rest
    else match split word, rest with
      | (name, some value), rest => do read (← o.set name value) rest
      | (name, none), value :: rest => do read (← o.set name value) rest
      | (name, none), [] => .error (.needsValue name)

/-- What words say, or the first fault in them. -/
def ofWords (words : List String) : Except UsageFault Options := read {} words

end Options

end CommandLine

end Reckoner
