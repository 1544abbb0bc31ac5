/-
# Values written as JSON

A value is text here: quoted text, a number, or a list or an object of such
values, written without spaces.
-/
import Reckoner.Text.Quoted

namespace Reckoner

namespace Text

namespace Json

/-- The members of an object, each a name and a value as it is written. -/
abbrev Members := List (String × String)

/-- A member: its name, a colon and its value. -/
def member (name value : String) : String := quoted name ++ ":" ++ value

def object (members : Members) : String :=
  "\x7b" ++ ",".intercalate (members.map fun (name, value) => member name value) ++ "\x7d"

def array (values : List String) : String := "[" ++ ",".intercalate values ++ "]"

end Json

end Text

end Reckoner
