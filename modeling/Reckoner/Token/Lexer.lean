/-
# Tokens from a source

From left to right, spacing skipped, the next token is the longest numeral
`digits [ "." digits ]` if a digit comes next, the longest run of letters if
a letter does, and otherwise the longest fixed text of the catalog that the
rest of the source starts with.  Where none applies, lexing stops at the
character in question; the tokens before it stand.

A point belongs to a numeral only if a digit follows it.
-/
import Reckoner.Catalog.Consistency
import Reckoner.Token.Basic

namespace Reckoner

/-- A character that no token starts with, and its offset. -/
structure Stray where
  char : Char
  /-- Where it stands. -/
  offset : Nat
deriving DecidableEq, Repr

/-- The tokens of a source, and what stopped the lexing if not the end. -/
structure Lexing where
  /-- The tokens in order. -/
  tokens : List Token
  /-- The character at which lexing stopped. -/
  stray : Option Stray
deriving DecidableEq, Repr

namespace Token

/-- The number of characters of the longest numeral at the start. -/
def numeralLength (cs : List Char) : Nat :=
  let whole := (cs.takeWhile isDigit).length
  match cs.dropWhile isDigit with
  | '.' :: rest =>
    match (rest.takeWhile isDigit).length with
    | 0 => whole
    | fraction + 1 => whole + 1 + (fraction + 1)
  | _ => whole

/-- The number of characters of the longest run of letters at the start. -/
def nameLength (cs : List Char) : Nat := (cs.takeWhile Text.isLetter).length

/-- The first of the symbols that the characters start with. -/
def findSymbol? (symbols : List Symbol) (cs : List Char) : Option Symbol :=
  symbols.find? fun s => s.text.toList.isPrefixOf cs

/-- The kind and the number of characters of the token that starts here. -/
def head? (symbols : List Symbol) (cs : List Char) : Option (Kind × Nat) :=
  match cs with
  | [] => none
  | c :: _ =>
    if isDigit c then some (.literal, numeralLength cs)
    else if Text.isLetter c then some (.identifier, nameLength cs)
    else (findSymbol? symbols cs).map fun s => (.symbol s.role, s.text.toList.length)

/-- The tokens of the characters that follow an offset. -/
def lexFrom (symbols : List Symbol) (offset : Nat) : List Char → Lexing
  | [] => ⟨[], none⟩
  | c :: rest =>
    if Text.isSpacing c then lexFrom symbols (offset + Text.charUnits c) rest
    else match head? symbols (c :: rest) with
      | none => ⟨[], some ⟨c, offset⟩⟩
      | some (kind, length) =>
        -- a token has at least one character, so the rest is shorter
        let text := (c :: rest).take length
        let stop := offset + Text.unitsOf text
        let more := lexFrom symbols stop (rest.drop (length - 1))
        { more with tokens := ⟨kind, String.ofList text, offset, stop⟩ :: more.tokens }
termination_by cs => cs.length
decreasing_by
  · simp
  · simp only [List.length_drop, List.length_cons]
    omega

end Token

def Catalog.lex (catalog : Catalog) (source : String) : Lexing :=
  Token.lexFrom catalog.symbols 0 source.toList

end Reckoner
