import Scriptlet.Command.Arguments
import Scriptlet.Command.Files
import Scriptlet.Command.Path
import Scriptlet.Command.Perform
import Scriptlet.Compile
import Scriptlet.Decimal.Binary64
import Scriptlet.Decimal.Numeral
import Scriptlet.Decimal.Shortest
import Scriptlet.Decimal.Style
import Scriptlet.Json.Basic
import Scriptlet.Json.Pretty
import Scriptlet.Json.Read
import Scriptlet.Machine.Fault
import Scriptlet.Machine.State
import Scriptlet.Machine.Step
import Scriptlet.Machine.Value
import Scriptlet.Main
import Scriptlet.Program.Basic
import Scriptlet.Program.Generate
import Scriptlet.Program.Listing
import Scriptlet.Program.Opcode
import Scriptlet.Program.Stored
import Scriptlet.Proofs.Accepted
import Scriptlet.Proofs.Backpatch
import Scriptlet.Proofs.Balance
import Scriptlet.Proofs.Bindings
import Scriptlet.Proofs.Cells
import Scriptlet.Proofs.Chain
import Scriptlet.Proofs.Checked
import Scriptlet.Proofs.Codecs
import Scriptlet.Proofs.Containment
import Scriptlet.Proofs.Correctness
import Scriptlet.Proofs.Decimals
import Scriptlet.Proofs.Declarations
import Scriptlet.Proofs.Derivations
import Scriptlet.Proofs.DiagnosticSpans
import Scriptlet.Proofs.Effects
import Scriptlet.Proofs.Environment
import Scriptlet.Proofs.Evaluation
import Scriptlet.Proofs.Failures
import Scriptlet.Proofs.Fits
import Scriptlet.Proofs.FloatWords
import Scriptlet.Proofs.IndexSafety
import Scriptlet.Proofs.IndexedReading
import Scriptlet.Proofs.Initialisation
import Scriptlet.Proofs.IntegerComparison
import Scriptlet.Proofs.Isolation
import Scriptlet.Proofs.JsonText
import Scriptlet.Proofs.Layout
import Scriptlet.Proofs.LayoutIndependence
import Scriptlet.Proofs.Lexemes
import Scriptlet.Proofs.LexicalScoping
import Scriptlet.Proofs.LoadedRuns
import Scriptlet.Proofs.LongestMatch
import Scriptlet.Proofs.LoopFree
import Scriptlet.Proofs.Lossless
import Scriptlet.Proofs.Moves
import Scriptlet.Proofs.Notes
import Scriptlet.Proofs.Operands
import Scriptlet.Proofs.ParsedModules
import Scriptlet.Proofs.Placement
import Scriptlet.Proofs.Positions
import Scriptlet.Proofs.Precedence
import Scriptlet.Proofs.Ranges
import Scriptlet.Proofs.ReadersAgree
import Scriptlet.Proofs.Reading
import Scriptlet.Proofs.References
import Scriptlet.Proofs.Regions
import Scriptlet.Proofs.Rendering
import Scriptlet.Proofs.RoundTrip
import Scriptlet.Proofs.Rounding
import Scriptlet.Proofs.Runs
import Scriptlet.Proofs.Safety
import Scriptlet.Proofs.ScopeHistories
import Scriptlet.Proofs.ScopePaths
import Scriptlet.Proofs.Scoping
import Scriptlet.Proofs.Simulation
import Scriptlet.Proofs.SortedEntries
import Scriptlet.Proofs.Spans
import Scriptlet.Proofs.StackDiscipline
import Scriptlet.Proofs.StepLimit
import Scriptlet.Proofs.StoredPrograms
import Scriptlet.Proofs.Supplies
import Scriptlet.Proofs.Surface
import Scriptlet.Proofs.SymbolMeaning
import Scriptlet.Proofs.Tracking
import Scriptlet.Proofs.Underlines
import Scriptlet.Proofs.Unshadowed
import Scriptlet.Proofs.WrittenDecimals
import Scriptlet.Proofs.WrittenExpressions
import Scriptlet.Proofs.WrittenNumbers
import Scriptlet.Proofs.WrittenTokens
import Scriptlet.Scope.Resolve
import Scriptlet.Scope.Table
import Scriptlet.SortedMap
import Scriptlet.Source.Diagnostic
import Scriptlet.Source.Span
import Scriptlet.Text.Layout
import Scriptlet.Text.Printable
import Scriptlet.Text.Quoted
import Scriptlet.Token.Basic
import Scriptlet.Token.Scan
import Scriptlet.Tree.Basic
import Scriptlet.Tree.Cursor
import Scriptlet.Tree.Literal
import Scriptlet.Tree.Outline
import Scriptlet.Tree.Parse
import Scriptlet.Vocabulary.Builtin
import Scriptlet.Vocabulary.Keyword
import Scriptlet.Vocabulary.Operator
