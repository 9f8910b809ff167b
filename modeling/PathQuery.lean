import PathQuery.Accessor.Code
import PathQuery.Accessor.Config
import PathQuery.Accessor.ConfigReader
import PathQuery.Accessor.Generator
import PathQuery.Accessor.Support
import PathQuery.Accessor.Text
import PathQuery.Command.Basic
import PathQuery.Command.Invocation
import PathQuery.Entries
import PathQuery.Eval.Comparison
import PathQuery.Eval.Error
import PathQuery.Eval.Evaluator
import PathQuery.Eval.Selection
import PathQuery.Eval.Slice
import PathQuery.Expr.Basic
import PathQuery.Expr.Outline
import PathQuery.Expr.Parser
import PathQuery.Expr.Printer
import PathQuery.Function.Argument
import PathQuery.Function.Arithmetic
import PathQuery.Function.Builtin
import PathQuery.Function.Call
import PathQuery.Function.Collection
import PathQuery.Function.Signature
import PathQuery.Function.Sorting
import PathQuery.Json.Basic
import PathQuery.Json.Fault
import PathQuery.Json.Printer
import PathQuery.Json.Reader
import PathQuery.Json.Scanner
import PathQuery.Main
import PathQuery.Node.Basic
import PathQuery.Node.Instances
import PathQuery.Node.Recorded
import PathQuery.Number.Binary
import PathQuery.Number.Decimal
import PathQuery.Number.Layout
import PathQuery.Number.Numeral
import PathQuery.Number.Shortest
import PathQuery.Proofs.Accessor.Agreement
import PathQuery.Proofs.Accessor.Config
import PathQuery.Proofs.Accessor.Emission
import PathQuery.Proofs.Accessor.Handover
import PathQuery.Proofs.Accessor.Hygiene
import PathQuery.Proofs.Accessor.Meaning
import PathQuery.Proofs.Accessor.Runs
import PathQuery.Proofs.Accessor.Scoping
import PathQuery.Proofs.Accessor.Simulation
import PathQuery.Proofs.Accessor.Styles
import PathQuery.Proofs.Accessor.Support
import PathQuery.Proofs.Entries
import PathQuery.Proofs.Entries.Sorted
import PathQuery.Proofs.Eval.Absence
import PathQuery.Proofs.Eval.AccessChain
import PathQuery.Proofs.Eval.Compositional
import PathQuery.Proofs.Eval.Confinement
import PathQuery.Proofs.Eval.Copying
import PathQuery.Proofs.Eval.Errors
import PathQuery.Proofs.Eval.Reordered
import PathQuery.Proofs.Eval.Representation
import PathQuery.Proofs.Eval.Slice
import PathQuery.Proofs.Eval.UniqueKeys
import PathQuery.Proofs.Expr.Faithful
import PathQuery.Proofs.Expr.Lexing
import PathQuery.Proofs.Expr.Rereading
import PathQuery.Proofs.Expr.RoundTrip
import PathQuery.Proofs.Expr.Shape
import PathQuery.Proofs.Expr.Spelling
import PathQuery.Proofs.Expr.Tokens
import PathQuery.Proofs.Expr.WellFormed
import PathQuery.Proofs.Function.Errors
import PathQuery.Proofs.Function.Merging
import PathQuery.Proofs.Function.Ordering
import PathQuery.Proofs.Function.Reordered
import PathQuery.Proofs.Function.Signature
import PathQuery.Proofs.Function.Stability
import PathQuery.Proofs.Function.Totals
import PathQuery.Proofs.Function.Transfer
import PathQuery.Proofs.Function.UniqueKeys
import PathQuery.Proofs.Json.Locality
import PathQuery.Proofs.Json.Nesting
import PathQuery.Proofs.Json.Reading
import PathQuery.Proofs.Node.Lawful
import PathQuery.Proofs.Number.Digits
import PathQuery.Proofs.Number.Nearest
import PathQuery.Proofs.Number.Order
import PathQuery.Proofs.Parser.Completeness
import PathQuery.Proofs.Parser.Derivable
import PathQuery.Proofs.Parser.Framing
import PathQuery.Proofs.Parser.Grammar
import PathQuery.Proofs.Parser.InRange
import PathQuery.Proofs.Parser.Indexed
import PathQuery.Proofs.Parser.Language
import PathQuery.Proofs.Parser.Literals
import PathQuery.Proofs.Parser.Moving
import PathQuery.Proofs.Parser.Reading
import PathQuery.Proofs.Parser.Replaying
import PathQuery.Proofs.Parser.Running
import PathQuery.Proofs.Parser.Soundness
import PathQuery.Proofs.Parser.Unclosed
import PathQuery.Proofs.Query.Callees
import PathQuery.Proofs.Query.Embedding
import PathQuery.Proofs.Query.Grouping
import PathQuery.Proofs.Query.KeyOrder
import PathQuery.Proofs.Query.Piping
import PathQuery.Proofs.Query.Precedence
import PathQuery.Proofs.Query.RoundTrip
import PathQuery.Proofs.Query.Spacing
import PathQuery.Proofs.Query.Unclosed
import PathQuery.Proofs.Token.Boundary
import PathQuery.Proofs.Token.Calls
import PathQuery.Proofs.Token.Delimiters
import PathQuery.Proofs.Token.Leaves
import PathQuery.Proofs.Token.Lexing
import PathQuery.Proofs.Token.Positions
import PathQuery.Proofs.Token.Spacing
import PathQuery.Proofs.Token.Spelling
import PathQuery.Proofs.Value.Comparison
import PathQuery.Proofs.Value.Conversion
import PathQuery.Proofs.Value.Equality
import PathQuery.Proofs.Value.Printing
import PathQuery.Proofs.Value.Reordered
import PathQuery.Proofs.Value.Rereading
import PathQuery.Proofs.Value.Transfer
import PathQuery.Query
import PathQuery.Replay
import PathQuery.Text.Blank
import PathQuery.Text.Invisible
import PathQuery.Text.Quoted
import PathQuery.Token.Basic
import PathQuery.Token.Fault
import PathQuery.Token.Lexer
import PathQuery.Value.Basic
import PathQuery.Value.Order
import PathQuery.Value.Printer
