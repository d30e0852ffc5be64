import Rill.Class
import Rill.Code
import Rill.Code.Listing
import Rill.Compile.Builder
import Rill.Compile.Program
import Rill.Decimal.Arithmetic
import Rill.Decimal.FloatText
import Rill.Decimal.Read
import Rill.Decimal.Shortest
import Rill.Fault
import Rill.Files.Refusal
import Rill.Files.Stream
import Rill.Files.Tree
import Rill.Function
import Rill.Grammar.Cursor
import Rill.Grammar.Expression
import Rill.Grammar.Statement
import Rill.Heap
import Rill.Heap.Compare
import Rill.Heap.Operators
import Rill.Heap.Text
import Rill.Host.Function
import Rill.Host.Session
import Rill.Json.Document
import Rill.Json.Problem
import Rill.Json.Read
import Rill.Library
import Rill.Library.Container
import Rill.Library.Core
import Rill.Library.Entry
import Rill.Library.File
import Rill.Library.General
import Rill.Library.Json
import Rill.Library.List
import Rill.Library.Math
import Rill.Library.Path
import Rill.Library.Pattern
import Rill.Library.Text
import Rill.Machine.Access
import Rill.Machine.Call
import Rill.Machine.Collection
import Rill.Machine.Execution
import Rill.Machine.Iteration
import Rill.Machine.Loading
import Rill.Machine.Registration
import Rill.Machine.Sharing
import Rill.Machine.State
import Rill.Machine.Step
import Rill.Main
import Rill.Matrix
import Rill.Native
import Rill.Pattern.Automaton
import Rill.Pattern.Node
import Rill.Pattern.Read
import Rill.Pattern.Search
import Rill.Program.Command
import Rill.Program.Options
import Rill.Program.Repl
import Rill.Program.Suite
import Rill.Proofs.Arrays.Shapes
import Rill.Proofs.Assignment.Arguments
import Rill.Proofs.Assignment.Data
import Rill.Proofs.Assignment.Descent
import Rill.Proofs.Assignment.Elements
import Rill.Proofs.Assignment.Seats
import Rill.Proofs.Assignment.Taking
import Rill.Proofs.Assignment.Targets
import Rill.Proofs.Assignment.Underway
import Rill.Proofs.Capture.Accesses
import Rill.Proofs.Capture.Operands
import Rill.Proofs.Capture.Runs
import Rill.Proofs.Capture.Sharing
import Rill.Proofs.Capture.Slots
import Rill.Proofs.Capture.Steadiness
import Rill.Proofs.Capture.Waiting
import Rill.Proofs.Cells.Bounds
import Rill.Proofs.Cells.Natives
import Rill.Proofs.Cells.Places
import Rill.Proofs.Cells.Steps
import Rill.Proofs.Cells.Still
import Rill.Proofs.Collection.Exact
import Rill.Proofs.Collection.Reclamation
import Rill.Proofs.Collection.References
import Rill.Proofs.Comparison.Ending
import Rill.Proofs.Comparison.Equality
import Rill.Proofs.Comparison.Floats
import Rill.Proofs.Comparison.Keys
import Rill.Proofs.Comparison.Numbers
import Rill.Proofs.Comparison.Order
import Rill.Proofs.Debugging.Agreement
import Rill.Proofs.Debugging.Release
import Rill.Proofs.Decimals.Shortest
import Rill.Proofs.Decimals.Texts
import Rill.Proofs.Depth.Nodes
import Rill.Proofs.Depth.Script
import Rill.Proofs.Depth.Slots
import Rill.Proofs.Depth.Steps
import Rill.Proofs.Depth.Stretch
import Rill.Proofs.Dispatch.Choice
import Rill.Proofs.Dispatch.Inheritance
import Rill.Proofs.Dispatch.Overloads
import Rill.Proofs.Evaluation.Courses
import Rill.Proofs.Evaluation.Evaluator
import Rill.Proofs.Evaluation.Folding
import Rill.Proofs.Evaluation.Instructions
import Rill.Proofs.Evaluation.Script
import Rill.Proofs.Evaluation.Stage
import Rill.Proofs.Evaluation.Statements
import Rill.Proofs.Files.Lines
import Rill.Proofs.Files.Streams
import Rill.Proofs.Integers.Bounds
import Rill.Proofs.Integers.Powers
import Rill.Proofs.Integers.RoundTrip
import Rill.Proofs.Json.Cycles
import Rill.Proofs.Json.Documents
import Rill.Proofs.Json.Scalars
import Rill.Proofs.Json.Tables
import Rill.Proofs.Json.Values
import Rill.Proofs.Layout.Closure
import Rill.Proofs.Layout.Compile
import Rill.Proofs.Layout.Draft
import Rill.Proofs.Layout.Lines
import Rill.Proofs.Layout.Mentions
import Rill.Proofs.Layout.Names
import Rill.Proofs.Layout.Pieces
import Rill.Proofs.Layout.Placement
import Rill.Proofs.Layout.Region
import Rill.Proofs.Layout.Resolve
import Rill.Proofs.Layout.Tables
import Rill.Proofs.Layout.Upkeep
import Rill.Proofs.Lists.Editing
import Rill.Proofs.Lists.Ordered
import Rill.Proofs.Lists.Sorting
import Rill.Proofs.Lists.Variables
import Rill.Proofs.Loops.Control
import Rill.Proofs.Loops.Counting
import Rill.Proofs.Loops.Hidden
import Rill.Proofs.Loops.Passes
import Rill.Proofs.Loops.Rounds
import Rill.Proofs.Ownership.Answers
import Rill.Proofs.Ownership.Copies
import Rill.Proofs.Ownership.Likeness
import Rill.Proofs.Ownership.Paths
import Rill.Proofs.Ownership.Twins
import Rill.Proofs.Printing.Brackets
import Rill.Proofs.Printing.Climbing
import Rill.Proofs.Printing.Layered
import Rill.Proofs.Printing.Layers
import Rill.Proofs.Printing.Reading
import Rill.Proofs.Printing.Script
import Rill.Proofs.Reports.Labels
import Rill.Proofs.Runs.Failures
import Rill.Proofs.Runs.Outcomes
import Rill.Proofs.Safety.Callbacks
import Rill.Proofs.Safety.Calling
import Rill.Proofs.Safety.Computations
import Rill.Proofs.Safety.Executing
import Rill.Proofs.Safety.Hosts
import Rill.Proofs.Safety.Natives
import Rill.Proofs.Safety.Objects
import Rill.Proofs.Safety.Performing
import Rill.Proofs.Safety.Running
import Rill.Proofs.Safety.Tame
import Rill.Proofs.Safety.Variables
import Rill.Proofs.Safety.Waiting
import Rill.Proofs.Scanning.Continuation
import Rill.Proofs.Scanning.Lexemes
import Rill.Proofs.Scanning.Literals
import Rill.Proofs.Scanning.Relayout
import Rill.Proofs.Scanning.Tiling
import Rill.Proofs.Scoping.Lexical
import Rill.Proofs.Syntax.Gathering
import Rill.Proofs.Syntax.Grammar
import Rill.Proofs.Syntax.Halting
import Rill.Proofs.Syntax.Lookahead
import Rill.Proofs.Syntax.Moves
import Rill.Proofs.Syntax.Nodes
import Rill.Proofs.Syntax.Positions
import Rill.Proofs.Syntax.Progress
import Rill.Proofs.Syntax.Proper
import Rill.Proofs.Syntax.Yields
import Rill.Proofs.Texts.Boundaries
import Rill.Proofs.Texts.Editing
import Rill.Proofs.Texts.Functions
import Rill.Proofs.Texts.Occurrences
import Rill.Proofs.Texts.Searching
import Rill.Report
import Rill.Routine
import Rill.Source
import Rill.Text.Boundary
import Rill.Text.Position
import Rill.Token
import Rill.Token.Scan
import Rill.Tree
import Rill.Unicode.Case
import Rill.Unicode.Property
import Rill.Unicode.Word
import Rill.Value
