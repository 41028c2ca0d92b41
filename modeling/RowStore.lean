import RowStore.Histogram
import RowStore.Lock.Queue
import RowStore.Main
import RowStore.Session
import RowStore.Proofs.Bits
import RowStore.Proofs.Pages
import RowStore.Proofs.Locks
import RowStore.Proofs.Actions
import RowStore.Proofs.Engine.View
import RowStore.Proofs.Engine.Access
import RowStore.Proofs.Engine.Files
import RowStore.Proofs.Engine.Rows
import RowStore.Proofs.Engine.Ending
import RowStore.Proofs.Engine.Memory
import RowStore.Proofs.Engine.Growth
import RowStore.Proofs.Engine.Scan
import RowStore.Proofs.Engine.Tables
import RowStore.Proofs.Ledger
import RowStore.Proofs.Chronicle
import RowStore.Proofs.Isolation
import RowStore.Proofs.Engine.Lone
import RowStore.Proofs.Durability
import RowStore.Proofs.OrderedTable
import RowStore.Proofs.Agreement
import RowStore.Proofs.Engine.Twins
import RowStore.Proofs.Plan.Pairs
import RowStore.Proofs.Plan.Cursors
import RowStore.Proofs.Plan.Sources
import RowStore.Proofs.Plan.Fairness
import RowStore.Proofs.Plan.Turns
import RowStore.Proofs.Plan.Spans
import RowStore.Proofs.Transparency
import RowStore.Proofs.Shortage
import RowStore.Proofs.Plan.Meaning
import RowStore.Proofs.Plan.Telling
import RowStore.Proofs.Plan.Answers
import RowStore.Proofs.Evaluation
import RowStore.Proofs.Lock.Search
import RowStore.Proofs.Lock.Runs
import RowStore.Proofs.Lock.Waits
import RowStore.Proofs.Lock.Holders
import RowStore.Proofs.Lock.Deadlocks
import RowStore.Proofs.Lock.Tracing
import RowStore.Proofs.Engine.Neighbours
import RowStore.Proofs.Engine.Sparing
import RowStore.Proofs.Custody
import RowStore.Proofs.Repeatable
import RowStore.Proofs.TwoPhase
import RowStore.Proofs.PageHistory
import RowStore.Proofs.Filling
import RowStore.Proofs.SelfCopy
import RowStore.Proofs.Resuming
import RowStore.Proofs.Inserting
import RowStore.Proofs.CutText
import RowStore.Proofs.Rereading
import RowStore.Proofs.Pool
import RowStore.Proofs.Engine.Effects
import RowStore.Proofs.Engine.Shelves
import RowStore.Proofs.Engine.OwnFile
import RowStore.Proofs.Plan.Passing
import RowStore.Proofs.Displacement
import RowStore.Proofs.PartialCommit
import RowStore.Proofs.Registering
import RowStore.Proofs.FullPool
import RowStore.Proofs.Engine.Glances
import RowStore.Proofs.FailedWrites
import RowStore.Proofs.Engine.Pairing
import RowStore.Proofs.Engine.Sole
import RowStore.Proofs.Engine.Cousins
import RowStore.Proofs.Interleavings
import RowStore.Proofs.UseHistory
import RowStore.Proofs.Probing
import RowStore.Proofs.Engine.Attuned
import RowStore.Proofs.StableScan
import RowStore.Proofs.Plan.Counting
import RowStore.Proofs.Deleting
import RowStore.Proofs.BitMasks
import RowStore.Proofs.HeapPages
import RowStore.Proofs.RecordCodec
import RowStore.Proofs.Plan.Lockstep
import RowStore.Proofs.TypedPlans
import RowStore.Proofs.Grouping.Registers
import RowStore.Proofs.Grouping.Summaries
import RowStore.Proofs.HighWater
import RowStore.Proofs.Histogram.Counts
import RowStore.Proofs.Histogram.ErrorBound
import RowStore.Proofs.Histogram.Partition
import RowStore.Proofs.Wide
import RowStore.Proofs.Histogram.Words
import RowStore.Proofs.PagedFile
