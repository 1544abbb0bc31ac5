import Reckoner.Binary64
import Reckoner.Catalog.Basic
import Reckoner.Catalog.Consistency
import Reckoner.Catalog.Derivation
import Reckoner.Catalog.Preset
import Reckoner.CommandLine.Draws
import Reckoner.CommandLine.Options
import Reckoner.CommandLine.Shell
import Reckoner.CommandLine.Usage
import Reckoner.Decimal.Arithmetic
import Reckoner.Decimal.Basic
import Reckoner.Decimal.Integral
import Reckoner.Decimal.Notation
import Reckoner.Decimal.Numeral
import Reckoner.Decimal.Rounding
import Reckoner.Display
import Reckoner.Elementary.Approximation
import Reckoner.Elementary.Circular
import Reckoner.Elementary.Exponential
import Reckoner.Elementary.InverseCircular
import Reckoner.Elementary.Limit
import Reckoner.Elementary.Logarithm
import Reckoner.Elementary.Machin
import Reckoner.Elementary.Power
import Reckoner.Enclosure.Basic
import Reckoner.Enclosure.Constants
import Reckoner.Enclosure.Series
import Reckoner.Engine
import Reckoner.Evaluation.Problem
import Reckoner.Evaluation.Run
import Reckoner.Evaluation.State
import Reckoner.Evaluation.Transition
import Reckoner.Failure
import Reckoner.Log
import Reckoner.Log.Line
import Reckoner.Main
import Reckoner.Misuse
import Reckoner.Number.Arithmetic
import Reckoner.Number.Basic
import Reckoner.Number.Elementary
import Reckoner.Number.Power
import Reckoner.Operation
import Reckoner.Outcome
import Reckoner.Precision
import Reckoner.Proofs.Binary64
import Reckoner.Proofs.Catalog.Consistency
import Reckoner.Proofs.Catalog.Derived
import Reckoner.Proofs.Catalog.Lookup
import Reckoner.Proofs.Catalog.Selection
import Reckoner.Proofs.Catalog.Symbols
import Reckoner.Proofs.CommandLine.Exit
import Reckoner.Proofs.CommandLine.Expression
import Reckoner.Proofs.CommandLine.Grammar
import Reckoner.Proofs.CommandLine.Lines
import Reckoner.Proofs.CommandLine.OneShot
import Reckoner.Proofs.CommandLine.Words
import Reckoner.Proofs.Decimal.Arithmetic
import Reckoner.Proofs.Decimal.Digits
import Reckoner.Proofs.Decimal.Nearest
import Reckoner.Proofs.Decimal.Notation
import Reckoner.Proofs.Decimal.Rounding
import Reckoner.Proofs.Decimal.Scale
import Reckoner.Proofs.Decimal.Successive
import Reckoner.Proofs.Decimal.Value
import Reckoner.Proofs.Decimal.WholePart
import Reckoner.Proofs.Display.Plain
import Reckoner.Proofs.Display.Rounding
import Reckoner.Proofs.Elementary.Constants
import Reckoner.Proofs.Elementary.Digits
import Reckoner.Proofs.Elementary.Machin
import Reckoner.Proofs.Elementary.Pi
import Reckoner.Proofs.Enclosure.Size
import Reckoner.Proofs.Evaluation.Application
import Reckoner.Proofs.Evaluation.Attribution
import Reckoner.Proofs.Evaluation.Balance
import Reckoner.Proofs.Evaluation.Bookkeeping
import Reckoner.Proofs.Evaluation.Bracketed
import Reckoner.Proofs.Evaluation.Concurrence
import Reckoner.Proofs.Evaluation.Context
import Reckoner.Proofs.Evaluation.Digits
import Reckoner.Proofs.Evaluation.Draws
import Reckoner.Proofs.Evaluation.Exact
import Reckoner.Proofs.Evaluation.Halting
import Reckoner.Proofs.Evaluation.Literals
import Reckoner.Proofs.Evaluation.Lockstep
import Reckoner.Proofs.Evaluation.Lookahead
import Reckoner.Proofs.Evaluation.Moment
import Reckoner.Proofs.Evaluation.ReadingBack
import Reckoner.Proofs.Evaluation.Refusal
import Reckoner.Proofs.Evaluation.Relabelling
import Reckoner.Proofs.Evaluation.Restriction
import Reckoner.Proofs.Evaluation.Translation
import Reckoner.Proofs.Evaluation.Unclosed
import Reckoner.Proofs.Evaluation.Values
import Reckoner.Proofs.Evaluation.Viability
import Reckoner.Proofs.Grammar.Agreement
import Reckoner.Proofs.Grammar.Completion
import Reckoner.Proofs.Grammar.Enclosing
import Reckoner.Proofs.Grammar.Evaluating
import Reckoner.Proofs.Grammar.Extent
import Reckoner.Proofs.Grammar.Outline
import Reckoner.Proofs.Grammar.Reading
import Reckoner.Proofs.Grammar.Shape
import Reckoner.Proofs.Grammar.SignedZero
import Reckoner.Proofs.Grammar.Styles
import Reckoner.Proofs.Grammar.Tree
import Reckoner.Proofs.Grammar.Value
import Reckoner.Proofs.Operation.Basic
import Reckoner.Proofs.Operation.Canonical
import Reckoner.Proofs.Operation.Digits
import Reckoner.Proofs.Operation.Exact
import Reckoner.Proofs.Operation.Literal
import Reckoner.Proofs.Operation.Multiple
import Reckoner.Proofs.Operation.Nearby
import Reckoner.Proofs.Operation.Operands
import Reckoner.Proofs.Operation.Reading
import Reckoner.Proofs.Operation.Remainder
import Reckoner.Proofs.Operation.SignedZero
import Reckoner.Proofs.Operation.Width
import Reckoner.Proofs.Sequencing
import Reckoner.Proofs.Session.Isolation
import Reckoner.Proofs.Session.Location
import Reckoner.Proofs.Session.Quiet
import Reckoner.Proofs.Session.Systems
import Reckoner.Proofs.Text.Position
import Reckoner.Proofs.Text.Row
import Reckoner.Proofs.Token.Declared
import Reckoner.Proofs.Token.Insertion
import Reckoner.Proofs.Token.Lexeme
import Reckoner.Proofs.Token.MaximalMunch
import Reckoner.Proofs.Token.Numeral
import Reckoner.Proofs.Token.Place
import Reckoner.Proofs.Token.Separation
import Reckoner.Proofs.Token.Spacing
import Reckoner.Session.Request
import Reckoner.Session.State
import Reckoner.Session.Systems
import Reckoner.Text.Blank
import Reckoner.Text.Json
import Reckoner.Text.Letter
import Reckoner.Text.Line
import Reckoner.Text.LowerCase
import Reckoner.Text.Quoted
import Reckoner.Text.Ranges
import Reckoner.Text.Units
import Reckoner.Token.Basic
import Reckoner.Token.Lexer
