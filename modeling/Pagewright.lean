import Pagewright.Main
import Pagewright.Proofs.Documents
import Pagewright.Proofs.References
import Pagewright.Proofs.Scanning
import Pagewright.Proofs.Strictness
import Pagewright.Proofs.Tags
import Pagewright.Proofs.Blanking
import Pagewright.Proofs.Outline
import Pagewright.Proofs.Registry
import Pagewright.Proofs.Globals
import Pagewright.Proofs.Faults
import Pagewright.Proofs.Placement
import Pagewright.Proofs.Captures
import Pagewright.Proofs.Concatenation
import Pagewright.Proofs.StoreNames
import Pagewright.Proofs.Lookahead
import Pagewright.Proofs.Leading
import Pagewright.Proofs.Places
import Pagewright.Proofs.FileTree
import Pagewright.Proofs.Builds
import Pagewright.Proofs.CommandRuns
import Pagewright.Proofs.Pruning
import Pagewright.Proofs.FirstFaults
import Pagewright.Proofs.Misspelling
import Pagewright.Proofs.RowBlocks
import Pagewright.Proofs.LostBraces
import Pagewright.Proofs.ScanFaults
import Pagewright.Proofs.ScanCalls
import Pagewright.Proofs.ParseCalls
import Pagewright.Proofs.ReadingOrder
import Pagewright.Proofs.Confinement
import Pagewright.Proofs.BoundColumns
import Pagewright.Proofs.MarkupReading
import Pagewright.Proofs.StatementReading
import Pagewright.Proofs.StyleReading
import Pagewright.Proofs.Dumps
import Pagewright.Proofs.PartialSettings
import Pagewright.Proofs.LiteralReading
