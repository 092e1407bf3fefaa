import KeyOrder.CommandLine.Run
import KeyOrder.Files.Collect
import KeyOrder.Lint.File
import KeyOrder.Main
import KeyOrder.Memo
import KeyOrder.Rule.Basic
import KeyOrder.Settings.Load
import KeyOrder.Syntax.MemberLists
import KeyOrder.Text.LineIndex
import KeyOrder.TypeScript.Parse
import KeyOrder.Proofs.Body.Pieces
import KeyOrder.Proofs.Body.Conservation
import KeyOrder.Proofs.Body.LineComments
import KeyOrder.Proofs.Order.TotalPreorder
import KeyOrder.Proofs.Order.Positions
import KeyOrder.Proofs.Order.Selection
import KeyOrder.Proofs.Body.Placement
import KeyOrder.Proofs.Body.Reread
import KeyOrder.Proofs.Body.Recovery
import KeyOrder.Proofs.Body.RoundTrip
import KeyOrder.Proofs.Order.Enforcement
import KeyOrder.Proofs.Order.RequiredFirst
import KeyOrder.Proofs.Edit.Selection
import KeyOrder.Proofs.Edit.Splicing
import KeyOrder.Proofs.Syntax.InPlace
import KeyOrder.Proofs.Lint.Reports
import KeyOrder.Proofs.Syntax.Nesting
import KeyOrder.Proofs.Lint.Rewriting
import KeyOrder.Proofs.Lint.Convergence
import KeyOrder.Proofs.Lint.FixedPoint
import KeyOrder.Proofs.Edit.Outermost
import KeyOrder.Proofs.Memo.Interleaving
import KeyOrder.Proofs.TypeScript.WellFormed
import KeyOrder.Proofs.Files.Writing
import KeyOrder.Proofs.Lint.AllOrNothing
import KeyOrder.Proofs.Order.Specification
import KeyOrder.Proofs.Syntax.ReadOff
import KeyOrder.Proofs.Syntax.Members
import KeyOrder.Proofs.Files.Paths
import KeyOrder.Proofs.Files.Resolution
import KeyOrder.Proofs.Settings.Discovery
import KeyOrder.Proofs.Settings.Spelling
import KeyOrder.Proofs.Files.Collecting
import KeyOrder.Proofs.Files.Merging
import KeyOrder.Proofs.CommandLine.LintedFiles
import KeyOrder.Proofs.Order.Lexemes
import KeyOrder.Proofs.Edit.ExactSplicing
import KeyOrder.Proofs.Body.CommentPartition
import KeyOrder.Proofs.Order.SingleMove
import KeyOrder.Proofs.Order.Pinning
import KeyOrder.Proofs.Text.Lines
import KeyOrder.Proofs.Lint.SourceOrder
import KeyOrder.Proofs.Body.LineEnds
import KeyOrder.Proofs.Body.Identity
import KeyOrder.Proofs.Settings.Nearest
import KeyOrder.Proofs.Syntax.CoreSpan
import KeyOrder.Proofs.Body.Reading
import KeyOrder.Proofs.Body.RangeCheck
