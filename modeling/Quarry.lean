import Quarry.Main
import Quarry.Engine
import Quarry.Store.Rehearsal
import Quarry.Proofs.Criteria.Grammar
import Quarry.Proofs.Criteria.Reordering
import Quarry.Proofs.Criteria.Sorting
import Quarry.Proofs.Engine.ColumnOrder
import Quarry.Proofs.Engine.Deletions
import Quarry.Proofs.Engine.Destroy
import Quarry.Proofs.Engine.DrainProtocol
import Quarry.Proofs.Engine.DropAmongWriters
import Quarry.Proofs.Engine.DropProtocol
import Quarry.Proofs.Engine.Limits
import Quarry.Proofs.Engine.OrderByKey
import Quarry.Proofs.Engine.Overlaying
import Quarry.Proofs.Engine.Planning
import Quarry.Proofs.Engine.PositiveLimits
import Quarry.Proofs.Engine.ScopeOutcomes
import Quarry.Proofs.Engine.UpdateAmongWriters
import Quarry.Proofs.Engine.Violations
import Quarry.Proofs.Journal.Line
import Quarry.Proofs.Model.Mapping
import Quarry.Proofs.Store.Allocation
import Quarry.Proofs.Store.Completion
import Quarry.Proofs.Store.Paging
import Quarry.Proofs.Store.Scan
import Quarry.Proofs.Store.SortedRanges
