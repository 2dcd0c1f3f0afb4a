import EsOptimizer.Analysis
import EsOptimizer.Analysis.Call
import EsOptimizer.Analysis.Facts
import EsOptimizer.Analysis.Interpret
import EsOptimizer.Analysis.Property
import EsOptimizer.Analysis.Snapshot
import EsOptimizer.Analysis.Track
import EsOptimizer.CommandLine
import EsOptimizer.Flow.Reachable
import EsOptimizer.Flow.State
import EsOptimizer.Heap.Object
import EsOptimizer.Heap.Query
import EsOptimizer.Host
import EsOptimizer.Host.Call
import EsOptimizer.Host.Object
import EsOptimizer.Json.Basic
import EsOptimizer.Json.Reader
import EsOptimizer.Main
import EsOptimizer.Number.Basic
import EsOptimizer.Number.Fraction
import EsOptimizer.Number.Shortest
import EsOptimizer.Number.Text
import EsOptimizer.Optimize
import EsOptimizer.Options
import EsOptimizer.Parser.Basic
import EsOptimizer.Parser.Grammar
import EsOptimizer.Pass.DeadBranches
import EsOptimizer.Pass.FoldConstants
import EsOptimizer.Pass.InlineFunctions
import EsOptimizer.Pass.Literal
import EsOptimizer.Pass.RemoveUnused
import EsOptimizer.Pass.SimplifyBlocks
import EsOptimizer.Pass.TailCalls
import EsOptimizer.Pass.UnrollLoops
import EsOptimizer.Printer.Piece
import EsOptimizer.Printer.Tree
import EsOptimizer.Scope.Basic
import EsOptimizer.Scope.Build
import EsOptimizer.Syntax.Edit
import EsOptimizer.Syntax.Operator
import EsOptimizer.Syntax.Renumber
import EsOptimizer.Syntax.Reshape
import EsOptimizer.Syntax.Transform
import EsOptimizer.Syntax.Tree
import EsOptimizer.Syntax.Walk
import EsOptimizer.SyntaxError
import EsOptimizer.Text.Alphanumeric
import EsOptimizer.Text.Blank
import EsOptimizer.Text.CodePoints
import EsOptimizer.Text.CodeUnits
import EsOptimizer.Text.Escaped
import EsOptimizer.Text.Identifier
import EsOptimizer.Text.LetterCase
import EsOptimizer.Text.Printable
import EsOptimizer.Text.Quoted
import EsOptimizer.Token
import EsOptimizer.Token.Cursor
import EsOptimizer.Token.Lexer
import EsOptimizer.Value.Basic
import EsOptimizer.Value.Primitive
import EsOptimizer.Proofs.Value.SameValue
import EsOptimizer.Proofs.Value.Lattice
import EsOptimizer.Proofs.Value.Union
import EsOptimizer.Proofs.Run.Basic
import EsOptimizer.Proofs.Run.Plain
import EsOptimizer.Proofs.Run.Extends
import EsOptimizer.Proofs.Run.Sequence
import EsOptimizer.Proofs.Run.Bound
import EsOptimizer.Proofs.Value.Holds
import EsOptimizer.Proofs.Flow.Entries
import EsOptimizer.Proofs.Flow.Variables
import EsOptimizer.Proofs.Analysis.Observed
import EsOptimizer.Proofs.Analysis.Advances
import EsOptimizer.Proofs.Analysis.Moves
import EsOptimizer.Proofs.Analysis.Operators
import EsOptimizer.Proofs.Analysis.Walk
import EsOptimizer.Proofs.Scope.Resolve
import EsOptimizer.Proofs.Scope.Walk
import EsOptimizer.Proofs.Simulation.Body
import EsOptimizer.Proofs.Scope.Resolved
import EsOptimizer.Proofs.Scope.Settled
import EsOptimizer.Proofs.Scope.Entry
import EsOptimizer.Proofs.Simulation.Binding
import EsOptimizer.Proofs.Simulation.Call
import EsOptimizer.Proofs.Simulation.Program
import EsOptimizer.Proofs.Simulation.FixedPoint
import EsOptimizer.Proofs.Syntax.Functions
import EsOptimizer.Proofs.Pass.Reuse
import EsOptimizer.Proofs.Pass.Renumber
import EsOptimizer.Proofs.Pass.Transform
import EsOptimizer.Proofs.Pass.Template
import EsOptimizer.Proofs.Pass.Unchanged
import EsOptimizer.Proofs.Pass.Unique
import EsOptimizer.Proofs.Heap.Lattice
import EsOptimizer.Proofs.Analysis.Unrecorded
import EsOptimizer.Proofs.Flow.Intermediate
import EsOptimizer.Proofs.Flow.Reach
import EsOptimizer.Proofs.Flow.Unions
import EsOptimizer.Proofs.Flow.Branches
import EsOptimizer.Proofs.Flow.Blocks
import EsOptimizer.Proofs.Parser.Builds
import EsOptimizer.Proofs.Parser.Legal
import EsOptimizer.Proofs.Pass.Traversal
import EsOptimizer.Proofs.Pass.Legal
import EsOptimizer.Proofs.Rewrite.Matches
import EsOptimizer.Proofs.Rewrite.Stands
import EsOptimizer.Proofs.Rewrite.Traversal
import EsOptimizer.Proofs.Rewrite.Carries
import EsOptimizer.Proofs.Rewrite.DeadBranches
import EsOptimizer.Proofs.Rewrite.FoldConstants
import EsOptimizer.Proofs.Rewrite.SimplifyBlocks
import EsOptimizer.Proofs.Rewrite.Results
import EsOptimizer.Proofs.Run.Calls
import EsOptimizer.Proofs.Scope.Program
import EsOptimizer.Proofs.Simulation.Links
import EsOptimizer.Proofs.Simulation.Covers
import EsOptimizer.Proofs.Simulation.Computes
import EsOptimizer.Proofs.Simulation.Performs
import EsOptimizer.Proofs.Simulation.Declared
import EsOptimizer.Proofs.Simulation.Stored
import EsOptimizer.Proofs.Simulation.FirstOrder
import EsOptimizer.Proofs.Rewrite.Hoisted
import EsOptimizer.Proofs.Rewrite.Unrolled
import EsOptimizer.Proofs.Parser.Numbering
import EsOptimizer.Proofs.Pass.Converged
import EsOptimizer.Proofs.Run.Activation
import EsOptimizer.Proofs.Run.Primitives
import EsOptimizer.Proofs.Rewrite.Arguments
import EsOptimizer.Proofs.Rewrite.Rounds
import EsOptimizer.Proofs.Analysis.Updates
import EsOptimizer.Proofs.Rewrite.Inlined
import EsOptimizer.Proofs.Heap.Answers
import EsOptimizer.Proofs.Heap.Enumeration
import EsOptimizer.Proofs.Flow.Reachable
import EsOptimizer.Proofs.Flow.Stores
import EsOptimizer.Proofs.Flow.Kept
import EsOptimizer.Proofs.Analysis.UnknownCall
import EsOptimizer.Proofs.Analysis.Loops
import EsOptimizer.Proofs.Number.Nearest
import EsOptimizer.Proofs.Number.Shortest
import EsOptimizer.Proofs.Number.Numeral
import EsOptimizer.Proofs.Token.Texts
import EsOptimizer.Proofs.Token.Numerals
import EsOptimizer.Proofs.Token.Signs
import EsOptimizer.Proofs.Parser.Parses
import EsOptimizer.Proofs.Printer.Marks
import EsOptimizer.Proofs.Printer.Spelling
import EsOptimizer.Proofs.Printer.Opens
import EsOptimizer.Proofs.Printer.Separated
import EsOptimizer.Proofs.Printer.Leads
import EsOptimizer.Proofs.Printer.Spaced
import EsOptimizer.Proofs.Printer.Tokens
import EsOptimizer.Proofs.Syntax.Shape
import EsOptimizer.Proofs.Parser.Reads
import EsOptimizer.Proofs.Parser.Expressions
import EsOptimizer.Proofs.Parser.Objects
import EsOptimizer.Proofs.Parser.Statements
import EsOptimizer.Proofs.Parser.Printed
import EsOptimizer.Proofs.Syntax.Fill
import EsOptimizer.Proofs.Parser.Told
import EsOptimizer.Proofs.Printer.RoundTrip
import EsOptimizer.Proofs.Scope.Recognized
import EsOptimizer.Proofs.Scope.Noted
import EsOptimizer.Proofs.Scope.Accounted
import EsOptimizer.Proofs.Host.Combinations
import EsOptimizer.Proofs.Host.ArrayReads
import EsOptimizer.Proofs.Heap.Elements
import EsOptimizer.Proofs.Heap.KeyOrder
import EsOptimizer.Proofs.Run.Equality
import EsOptimizer.Proofs.Analysis.Equality
import EsOptimizer.Proofs.Simulation.Observed
import EsOptimizer.Proofs.Scope.Arguments
import EsOptimizer.Proofs.Pass.Lists
import EsOptimizer.Proofs.Pass.Tidy
import EsOptimizer.Proofs.Token.Places
import EsOptimizer.Proofs.Token.Cuts
import EsOptimizer.Proofs.Token.Slices
import EsOptimizer.Proofs.Token.Partition
import EsOptimizer.Proofs.Token.Written
import EsOptimizer.Proofs.Heap.Membership
import EsOptimizer.Proofs.Syntax.Copies
import EsOptimizer.Proofs.Rewrite.Unreached
import EsOptimizer.Proofs.Token.Rounds
import EsOptimizer.Proofs.Parser.Ends
