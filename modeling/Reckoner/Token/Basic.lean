/-
# Tokens

A token is a piece of an expression with its kind and its place.  The place
is a pair of offsets in units, the second one behind the piece.  Tokens that
come from a source lie within it; a caller may also hand in tokens of its
own, whose offsets need not fit any source and whose kind need not be one of
the six.
-/
import Reckoner.Catalog.Basic
import Reckoner.Text.Json
import Reckoner.Text.Units

namespace Reckoner

namespace Token

/-- The kind of a token. -/
inductive Kind where
  | literal | identifier
  /-- A fixed text with a role. -/
  | symbol (role : Role)
  /-- A kind that no rule produces. -/
  | other (name : String)
deriving DecidableEq, Repr

def Kind.name : Kind → String
  | literal => "literal"
  | identifier => "identifier"
  | symbol role => role.name
  | other s => s

/-- The kinds that a source can hold. -/
def Kind.known : List Kind :=
  [literal, identifier, symbol .operator, symbol .opening, symbol .closing, symbol .separator]

def Kind.ofName (s : String) : Kind := (known.find? (·.name = s)).getD (other s)

end Token

/-- A piece of an expression. -/
structure Token where
  kind : Token.Kind
  text : String
  start : Int
  /-- The offset behind its end. -/
  stop : Int
deriving DecidableEq, Repr

namespace Token

/-- The number of units of the piece. -/
def length (t : Token) : Nat := Text.units t.text

def describe (t : Token) : String :=
  Text.Json.object
    [("type", Text.quoted t.kind.name), ("value", Text.quoted t.text),
     ("start", toString t.start), ("end", toString t.stop)]

end Token

end Reckoner
