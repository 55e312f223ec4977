import Verbatim.Tree.Position
import Verbatim.Tree.Separated
import Verbatim.Tree.Builder
import Verbatim.Tree.Preorder
import Verbatim.Tree.Names
import Verbatim.Tree.Coherence
import Verbatim.Tree.Identity
import Verbatim.Scan.Session
import Verbatim.Parse.Dump
import Verbatim.Parse.Review
import Verbatim.Format.Emit
import Verbatim.Format.BlankLine
import Verbatim.Diagnostic.Report
import Verbatim.Settings.Basic
import Verbatim.Files.Memory
import Verbatim.Files.Disk
import Verbatim.Command.Line
import Verbatim.Main
import Verbatim.Proofs.RoundTrip
import Verbatim.Proofs.Totality
import Verbatim.Proofs.Accounting
import Verbatim.Proofs.Conformance
import Verbatim.Proofs.Conservation
import Verbatim.Proofs.Nesting
import Verbatim.Proofs.SemicolonInsertion
import Verbatim.Proofs.Completeness
import Verbatim.Proofs.ScanPartition
import Verbatim.Proofs.PositionLookup
import Verbatim.Proofs.ChildLookup
import Verbatim.Proofs.Composition
import Verbatim.Proofs.Rebuilding
import Verbatim.Proofs.LexicalForm
import Verbatim.Proofs.ScanRuns
import Verbatim.Proofs.TokenForms
import Verbatim.Proofs.TriviaConvention
import Verbatim.Proofs.LineBreaks
import Verbatim.Proofs.TokenOrder
import Verbatim.Proofs.ReportRanges
import Verbatim.Proofs.WriteBack
import Verbatim.Proofs.Memoization
import Verbatim.Proofs.AncestorPath
import Verbatim.Proofs.PreorderEvents
import Verbatim.Proofs.PositionTracking
import Verbatim.Proofs.DeclarationReview
import Verbatim.Proofs.TreeDumps
import Verbatim.Proofs.TriviaMonoid
import Verbatim.Proofs.SeparatedSlots
import Verbatim.Proofs.ScanSessions
import Verbatim.Proofs.CursorScans
import Verbatim.Proofs.BlankLines
import Verbatim.Proofs.SourceChecks
import Verbatim.Proofs.FileLocations
import Verbatim.Proofs.ForwardParents
import Verbatim.Proofs.GrammarDrafts
import Verbatim.Proofs.NameListing
