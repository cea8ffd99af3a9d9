import Sysy.Assembly.Basic
import Sysy.Assembly.Emission
import Sysy.Build
import Sysy.Cache.Digest
import Sysy.Cache.Entry
import Sysy.Cache.Packed
import Sysy.Command.Flag
import Sysy.Command.Line
import Sysy.Command.Options
import Sysy.Command.Run
import Sysy.Command.Session
import Sysy.Compilation
import Sysy.Diagnostic.Basic
import Sysy.Diagnostic.Code
import Sysy.Diagnostic.Report
import Sysy.Emit
import Sysy.Frame
import Sysy.Host.Action
import Sysy.Host.Model
import Sysy.Ir.Module
import Sysy.Ir.Printer
import Sysy.Ir.Ty
import Sysy.Ir.Validity
import Sysy.Ir.Value
import Sysy.Json
import Sysy.Lowering.Basic
import Sysy.Lowering.Error
import Sysy.Lowering.Expr
import Sysy.Lowering.Folding
import Sysy.Lowering.Program
import Sysy.Lowering.Shape
import Sysy.Lowering.Stmt
import Sysy.Main
import Sysy.Number.Binary64
import Sysy.Path
import Sysy.Progress
import Sysy.Progress.Mode
import Sysy.Proofs.Arrays.Filling
import Sysy.Proofs.Arrays.Image
import Sysy.Proofs.Assembly.Calls
import Sysy.Proofs.Assembly.Constants
import Sysy.Proofs.Assembly.Frames
import Sysy.Proofs.Assembly.Incoming
import Sysy.Proofs.Assembly.Loading
import Sysy.Proofs.Assembly.Refinement
import Sysy.Proofs.Assembly.Safety
import Sysy.Proofs.Assembly.Symbols
import Sysy.Proofs.Caching.Sessions
import Sysy.Proofs.Constancy.Constants
import Sysy.Proofs.Constancy.Declarations
import Sysy.Proofs.Constancy.Globals
import Sysy.Proofs.Constancy.Runs
import Sysy.Proofs.Constancy.Stores
import Sysy.Proofs.Crew.News
import Sysy.Proofs.Diagnostic.Snippets
import Sysy.Proofs.Frame
import Sysy.Proofs.Ir.Construction
import Sysy.Proofs.Ir.Extension
import Sysy.Proofs.Ir.Identity
import Sysy.Proofs.Ir.Operations
import Sysy.Proofs.Ir.Typing
import Sysy.Proofs.Lowering.Arguments
import Sysy.Proofs.Lowering.Constants
import Sysy.Proofs.Lowering.Control
import Sysy.Proofs.Lowering.Course
import Sysy.Proofs.Lowering.Dominance
import Sysy.Proofs.Lowering.Exits
import Sysy.Proofs.Lowering.Expr
import Sysy.Proofs.Lowering.Finish
import Sysy.Proofs.Lowering.Flows
import Sysy.Proofs.Lowering.Function
import Sysy.Proofs.Lowering.Growth
import Sysy.Proofs.Lowering.Labels
import Sysy.Proofs.Lowering.Outcome
import Sysy.Proofs.Lowering.Pieces
import Sysy.Proofs.Lowering.Program
import Sysy.Proofs.Lowering.Soundness
import Sysy.Proofs.Lowering.Steps
import Sysy.Proofs.Lowering.Stmt
import Sysy.Proofs.Lowering.Validity
import Sysy.Proofs.Lowering.Visits
import Sysy.Proofs.Meaning.Agreement
import Sysy.Proofs.Meaning.Declarations
import Sysy.Proofs.Meaning.Folding
import Sysy.Proofs.Meaning.Programs
import Sysy.Proofs.Meaning.Statements
import Sysy.Proofs.Naming.Collisions
import Sysy.Proofs.Naming.Scoping
import Sysy.Proofs.Naming.Visibility
import Sysy.Proofs.Parsing.Limits
import Sysy.Proofs.Parsing.Literals
import Sysy.Proofs.Parsing.Printing
import Sysy.Proofs.Parsing.Reports
import Sysy.Proofs.Parsing.Spans
import Sysy.Proofs.Paths.Outputs
import Sysy.Proofs.Phases
import Sysy.Proofs.Source.Positions
import Sysy.Proofs.Static.Acceptance
import Sysy.Proofs.Token.Driving
import Sysy.Proofs.Token.Spacing
import Sysy.Scope
import Sysy.Settings
import Sysy.Source.File
import Sysy.Source.Span
import Sysy.Text.Bytes
import Sysy.Text.Canonical
import Sysy.Text.CanonicalData
import Sysy.Text.Case
import Sysy.Text.Cluster
import Sysy.Text.ClusterData
import Sysy.Text.Column
import Sysy.Text.Integer
import Sysy.Text.Paint
import Sysy.Text.Printable
import Sysy.Text.Quoted
import Sysy.Text.Ranges
import Sysy.Text.Width
import Sysy.Time
import Sysy.Timing
import Sysy.Token.Kind
import Sysy.Token.Lexer
import Sysy.Token.Listing
import Sysy.Toml.Basic
import Sysy.Toml.Parser
import Sysy.Trace.Event
import Sysy.Trace.Recorder
import Sysy.Tree.Basic
import Sysy.Tree.Outline
import Sysy.Tree.Parser
import Sysy.Tree.Spans
import Sysy.Version
