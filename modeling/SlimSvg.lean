import SlimSvg.CommandLine.Memory
import SlimSvg.Main
import SlimSvg.Tree.Outline
import SlimSvg.Proofs.Css.Environment
import SlimSvg.Proofs.Css.Matching
import SlimSvg.Proofs.Optimize.Idempotence
import SlimSvg.Proofs.Cleanup.Ids
import SlimSvg.Proofs.Cleanup.Classes
import SlimSvg.Proofs.Css.Merge
import SlimSvg.Proofs.Number.Decimal
import SlimSvg.Proofs.Text.Words
import SlimSvg.Proofs.Tree.Pruning
import SlimSvg.Proofs.Tree.Moves
import SlimSvg.Proofs.Tree.Culling
import SlimSvg.Proofs.Css.Remaining
import SlimSvg.Proofs.Cleanup.Survivors
import SlimSvg.Proofs.Number.ReadBack
import SlimSvg.Proofs.Text.Search
import SlimSvg.Proofs.Text.Trim
import SlimSvg.Proofs.Value.Scan
import SlimSvg.Proofs.Value.Shortest
import SlimSvg.Proofs.Value.Variables
import SlimSvg.Proofs.Tree.Visit
import SlimSvg.Proofs.Cleanup.Redundant
import SlimSvg.Proofs.Tree.Record
import SlimSvg.Proofs.Tree.Course
import SlimSvg.Proofs.Tree.Tracing
import SlimSvg.Proofs.Tree.Turns
import SlimSvg.Proofs.Tree.Safety
import SlimSvg.Proofs.Css.Held
import SlimSvg.Proofs.Css.Lazy
import SlimSvg.Proofs.Css.ReadBack
import SlimSvg.Proofs.Tree.Faithful
import SlimSvg.Proofs.Tree.Rereading
import SlimSvg.Proofs.Tree.Rebuilding
import SlimSvg.Proofs.Tree.Layout
import SlimSvg.Proofs.Tree.Prologue
import SlimSvg.Proofs.Tree.Stability
import SlimSvg.Proofs.Optimize.Success
import SlimSvg.Proofs.Optimize.Trail
import SlimSvg.Proofs.Css.SheetReadBack
import SlimSvg.Proofs.Value.Meaning
import SlimSvg.Proofs.Cleanup.RenamedIds
import SlimSvg.Proofs.Cleanup.Instances
import SlimSvg.Proofs.Value.Surcharge
import SlimSvg.Proofs.Value.Frugal
import SlimSvg.Proofs.Tree.Weight
import SlimSvg.Proofs.Cleanup.Thrift
import SlimSvg.Proofs.Css.Questions
import SlimSvg.Proofs.Cleanup.Rewriting
import SlimSvg.Proofs.Css.ByteSheets
import SlimSvg.Proofs.Tree.Namespaces
import SlimSvg.Proofs.Value.Cells
import SlimSvg.Proofs.Value.WrittenTransforms
import SlimSvg.Proofs.Value.WrittenPaths
import SlimSvg.Proofs.Value.AgreeingReferences
import SlimSvg.Proofs.Css.Unused
import SlimSvg.Proofs.Cleanup.References
import SlimSvg.Proofs.Cleanup.Repainting
import SlimSvg.Proofs.Cleanup.RenamedLinks
import SlimSvg.Proofs.Cleanup.Vacancy
import SlimSvg.Proofs.Cleanup.Markers
import SlimSvg.Proofs.Cleanup.SecondRuns
import SlimSvg.Proofs.Value.JoinedDeclarations
import SlimSvg.Proofs.Cleanup.CanonicalNames
import SlimSvg.Proofs.Tree.WrittenText
import SlimSvg.Proofs.Tree.Preorder
import SlimSvg.Proofs.Tree.Tour
import SlimSvg.Proofs.Tree.Recovery
import SlimSvg.Proofs.Tree.Spaces
import SlimSvg.Proofs.Cleanup.FontSizes
import SlimSvg.Proofs.Cleanup.NameOrder
import SlimSvg.Proofs.Css.Adding
import SlimSvg.Proofs.Optimize.Lineup
import SlimSvg.Proofs.Tree.LineBreaks
import SlimSvg.Proofs.Tree.Forest
