import Trazo.Board
import Trazo.CommandLine.Invocation
import Trazo.CommandLine.Perform
import Trazo.CommandLine.Problem
import Trazo.CommandLine.Usage
import Trazo.CommandLine.Word
import Trazo.Diagnostic
import Trazo.Failure
import Trazo.Log
import Trazo.Log.Sink
import Trazo.Main
import Trazo.Number
import Trazo.Number.Binary64
import Trazo.Number.Shortest
import Trazo.Program
import Trazo.Program.Parser
import Trazo.Proofs.Outcome
import Trazo.Proofs.Program.Completeness
import Trazo.Proofs.Program.Grammar
import Trazo.Proofs.Program.Language
import Trazo.Proofs.Program.Provenance
import Trazo.Proofs.Program.Unambiguity
import Trazo.Proofs.Program.Production
import Trazo.Proofs.Program.Soundness
import Trazo.Proofs.Program.Table
import Trazo.Proofs.Run.Agreement
import Trazo.Proofs.Run.Inert
import Trazo.Proofs.Run.Meaning
import Trazo.Proofs.Run.Observer
import Trazo.Proofs.Run.Stack
import Trazo.Proofs.Run.Transition
import Trazo.Proofs.Token.Comment
import Trazo.Proofs.Token.Decomposition
import Trazo.Proofs.Token.Lexeme
import Trazo.Proofs.Token.Place
import Trazo.Proofs.Token.Scan
import Trazo.Report
import Trazo.Run.Executor
import Trazo.Run.Machine
import Trazo.Run.Tally
import Trazo.Session
import Trazo.Settings
import Trazo.Settings.Numeral
import Trazo.Settings.Sources
import Trazo.Settings.Validation
import Trazo.Similarity
import Trazo.Speed
import Trazo.Text.Blank
import Trazo.Text.Digit
import Trazo.Text.Integer
import Trazo.Text.Printable
import Trazo.Text.Quoted
import Trazo.Text.Utf8
import Trazo.Token
import Trazo.Token.Cursor
import Trazo.Token.Lexer
import Trazo.Value
import Trazo.Value.Json
import Trazo.Value.Moment
import Trazo.Value.Reader
import Trazo.Value.Toml
import Trazo.Value.Writer
import Trazo.Vocabulary
import Trazo.Proofs.Run.Termination
import Trazo.Proofs.Run.CallStack
import Trazo.Proofs.Token.Spelling
import Trazo.Proofs.Program.Rendering
import Trazo.Proofs.Program.RoundTrip
import Trazo.Proofs.Limits.Raising
import Trazo.Proofs.Limits.Nesting
import Trazo.Proofs.Limits.Conservative
import Trazo.Proofs.Board.Operation
import Trazo.Proofs.Run.Cancellation
import Trazo.Proofs.Session.Lifecycle
import Trazo.Proofs.Session.Bookkeeping
import Trazo.Proofs.Session.Undo
import Trazo.Proofs.Diagnostic.ReadBack
import Trazo.Proofs.Program.Lines
import Trazo.Proofs.Run.Blame
import Trazo.Proofs.CommandLine.Validity
import Trazo.Proofs.CommandLine.Ending
import Trazo.Proofs.Program.Lookahead
import Trazo.Proofs.Program.ViablePrefix
import Trazo.Proofs.Program.Opening
import Trazo.Proofs.Program.Unclosed
import Trazo.Proofs.Run.Accounting
import Trazo.Proofs.Run.Payment
import Trazo.Proofs.Token.Position
import Trazo.Proofs.Token.Separator
import Trazo.Proofs.Run.Unrolling
import Trazo.Proofs.Run.Independence
import Trazo.Proofs.Board.Cells
import Trazo.Proofs.Run.Simulation
import Trazo.Proofs.Run.Locality
import Trazo.Proofs.Run.Symmetry
import Trazo.Proofs.Number.Rounding
import Trazo.Proofs.Similarity.Blocks
import Trazo.Proofs.Similarity.Nearest
import Trazo.Proofs.Token.CommentGrammar
import Trazo.Proofs.Board.Drawing
import Trazo.Proofs.Text.Numeral
import Trazo.Proofs.Speed.Selection
import Trazo.Proofs.Settings.Merging
import Trazo.Proofs.Settings.Loaded
import Trazo.Proofs.Settings.Precedence
import Trazo.Proofs.Program.Unfolding
import Trazo.Proofs.Program.Calls
import Trazo.Proofs.Token.Literal
