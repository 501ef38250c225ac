import StructPadding.Analysis.Analysis
import StructPadding.Analysis.Report
import StructPadding.FileTree.Discover
import StructPadding.FileTree.Path
import StructPadding.FileTree.Tree
import StructPadding.Layout.Checked
import StructPadding.Layout.Extent
import StructPadding.Layout.Finding
import StructPadding.Layout.Order
import StructPadding.Layout.Shape
import StructPadding.Log
import StructPadding.Machine
import StructPadding.Main
import StructPadding.Package.Constant
import StructPadding.Package.Library
import StructPadding.Package.Resolve
import StructPadding.Package.Scope
import StructPadding.Package.Site
import StructPadding.Parse.Basic
import StructPadding.Parse.Expr
import StructPadding.Parse.File
import StructPadding.Parse.Literal
import StructPadding.Parse.Skip
import StructPadding.Parse.Type
import StructPadding.Problem
import StructPadding.Run.Arguments
import StructPadding.Run.Diagnostic
import StructPadding.Run.Failure
import StructPadding.Run.Ink
import StructPadding.Run.Lint
import StructPadding.Run.Output
import StructPadding.Run.Program
import StructPadding.Source.Lines
import StructPadding.Source.Span
import StructPadding.Syntax.Expr
import StructPadding.Syntax.File
import StructPadding.Syntax.Outline
import StructPadding.Syntax.Type
import StructPadding.Text.Columns
import StructPadding.Text.Hidden
import StructPadding.Text.Json
import StructPadding.Text.Numeral
import StructPadding.Text.Outline
import StructPadding.Text.Quoted
import StructPadding.Text.Ranges
import StructPadding.Text.Regex
import StructPadding.Text.Terminal
import StructPadding.Text.Widths
import StructPadding.Token.Kind
import StructPadding.Token.Lexeme
import StructPadding.Token.Pattern
import StructPadding.Token.Stream
import StructPadding.Wide
import StructPadding.Word
import StructPadding.Proofs.Layout.CheckedSize
import StructPadding.Proofs.Analysis.Attribution
import StructPadding.Proofs.Layout.Accounting
import StructPadding.Proofs.Layout.Optimal
import StructPadding.Proofs.Package.Unfolding
import StructPadding.Proofs.Package.Recursion
import StructPadding.Proofs.Package.Settled
import StructPadding.Proofs.Package.Calls
import StructPadding.Proofs.Package.Nongeneric
import StructPadding.Proofs.Package.Lockstep
import StructPadding.Proofs.Analysis.Isolation
import StructPadding.Proofs.Package.Substitution
import StructPadding.Proofs.Package.Instantiation
import StructPadding.Proofs.Parse.Literals
import StructPadding.Proofs.Run.Respelling
import StructPadding.Proofs.Token.Class
import StructPadding.Proofs.Token.Tiling
import StructPadding.Proofs.Token.Semicolons
import StructPadding.Proofs.Token.Comment
import StructPadding.Proofs.Token.Lossless
import StructPadding.Proofs.Token.Rendering
import StructPadding.Proofs.Token.Session
import StructPadding.Proofs.Token.Lookahead
import StructPadding.Proofs.Wide
import StructPadding.Proofs.Package.Evaluation
import StructPadding.Proofs.Text.Apart
import StructPadding.Proofs.Token.Exclusive
import StructPadding.Proofs.Token.Munch
import StructPadding.Proofs.Text.Decimal
import StructPadding.Proofs.Parse.Parses
import StructPadding.Proofs.Syntax.Unplaced
import StructPadding.Proofs.Syntax.Rendering
import StructPadding.Proofs.Parse.RenderedExpr
import StructPadding.Proofs.Parse.RenderedType
import StructPadding.Proofs.Layout.Saturation
import StructPadding.Proofs.Layout.Trapping
import StructPadding.Proofs.Layout.Reference
import StructPadding.Proofs.Layout.Leaves
import StructPadding.Proofs.Package.Evaluator
import StructPadding.Proofs.Layout.Tightest
import StructPadding.Proofs.Layout.Consecutive
import StructPadding.Proofs.Package.Conversion
import StructPadding.Proofs.Package.Faults
import StructPadding.Proofs.Package.Lenient
import StructPadding.Proofs.Analysis.Undefined
import StructPadding.Proofs.Layout.Insertion
import StructPadding.Proofs.Layout.Stability
import StructPadding.Proofs.Layout.PointerMap
import StructPadding.Proofs.Syntax.Nesting
import StructPadding.Proofs.Token.Succession
import StructPadding.Proofs.Parse.Forward
import StructPadding.Proofs.Parse.Nested
import StructPadding.Proofs.Parse.Spans
import StructPadding.Proofs.Package.Termination
import StructPadding.Proofs.Parse.Progress
import StructPadding.Proofs.Parse.Removal
import StructPadding.Proofs.Parse.Alone
import StructPadding.Proofs.Parse.Embedded
import StructPadding.Proofs.Parse.Brackets
import StructPadding.Proofs.Parse.ConstGroups
import StructPadding.Proofs.Parse.InOrder
import StructPadding.Proofs.Package.Entered
import StructPadding.Proofs.Package.FirstWins
import StructPadding.Proofs.Package.Definitions
import StructPadding.Proofs.Analysis.Instantiated
import StructPadding.Proofs.Source.Lines
import StructPadding.Proofs.FileTree.Reordered
import StructPadding.Proofs.FileTree.Search
import StructPadding.Proofs.Run.Spellings
import StructPadding.Proofs.Run.Matching
import StructPadding.Proofs.Run.Locations
import StructPadding.Proofs.Token.Closing
import StructPadding.Proofs.Parse.Integers
import StructPadding.Proofs.Parse.Runes
import StructPadding.Proofs.Run.Dumps
