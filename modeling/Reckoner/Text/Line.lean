/-
# Lines, positions and carets

A line ends at a line feed, a carriage return, or the two of them together.
`position` gives the line and the column of an offset, both counted from one;
the offset between the two characters of a break is column zero of the line
that follows.  `snippet` writes a line of the source and carets under a part
of it.
-/
import Reckoner.Text.Blank
import Reckoner.Text.Units

namespace Reckoner

namespace Text

/-- The lines of a text, without their ends. -/
def linesOf : List Char → List (List Char)
  | [] => [[]]
  | '\r' :: '\n' :: rest => [] :: linesOf rest
  | c :: rest =>
    if c = '\r' || c = '\n' then [] :: linesOf rest
    else match linesOf rest with
      | [] => [[c]]
      | line :: more => (c :: line) :: more

/-- A place in a source that a reader can find. -/
structure Position where
  /-- The line, from one. -/
  line : Nat
  /-- The column in units, from one; zero between the two characters of a break. -/
  column : Nat
deriving DecidableEq, Repr

/-- The position of the offset `index`, counting on from `offset` in
the line `line` that begins at the offset `start`. -/
def positionFrom (index : Nat) : (cs : List Char) → (offset line start : Nat) → Position
  | [], _, line, start => ⟨line, index + 1 - start⟩
  | '\r' :: '\n' :: rest, offset, line, start =>
    if index ≤ offset then ⟨line, index + 1 - start⟩
    else positionFrom index rest (offset + 2) (line + 1) (offset + 2)
  | c :: rest, offset, line, start =>
    if index ≤ offset then ⟨line, index + 1 - start⟩
    else if c = '\r' || c = '\n' then
      positionFrom index rest (offset + 1) (line + 1) (offset + 1)
    else positionFrom index rest (offset + charUnits c) line start

/-- An offset or a length as a caller may give it. -/
inductive Offset where
  /-- A number of units. -/
  | units (n : Int)
  /-- Beyond every number of units, upward or downward. -/
  | infinite (negative : Bool)
  /-- No number. -/
  | undefined
deriving DecidableEq, Repr

namespace Offset

/-- The offset moved into the range from `lo` to `hi`; what is no number goes
to the lower end. -/
def clamp (lo hi : Nat) : Offset → Nat
  | units n => if n < lo then lo else if hi < n then hi else n.toNat
  | infinite negative => if negative then lo else hi
  | undefined => lo

/-- Whether the offset lies at the start of a text or behind it. -/
def isLocated : Offset → Bool
  | units n => 0 ≤ n
  | infinite negative => !negative
  | undefined => false

end Offset

/-- The line and column of an offset, which is first moved into the text. -/
def position (source : String) (index : Offset) : Position :=
  positionFrom (index.clamp 0 (units source)) source.toList 0 1 0

/-- The number of carets for a length, at most `room` and at least one; a
length that is no number has none. -/
def caretCount (room : Nat) : Offset → Nat
  | .undefined => 0
  | length => length.clamp 1 (if room < 1 then 1 else room)

/-- The line of an offset, and below it carets from that offset on, followed
by the message unless it is blank. -/
def snippetAt (source : String) (place : Position) (length : Offset) (message : String) : String :=
  let line := ((linesOf source.toList)[place.line - 1]?).getD []
  let width := unitsOf line
  let column := (Offset.units place.column).clamp 1 (width + 1)
  let carets := caretCount (width + 1 - column) length
  let arrow := if isAllBlank message then [] else " --- ".toList ++ message.toList
  String.ofList <|
    line ++ '\n' :: List.replicate (column - 1) ' ' ++ List.replicate carets '^' ++ arrow

/-- The line of an offset with carets under a part of it. -/
def snippet (source : String) (index length : Offset) (message : String) : String :=
  snippetAt source (position source index) length message

end Text

end Reckoner
