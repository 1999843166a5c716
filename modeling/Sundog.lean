import Sundog.Lib.KeyMap
import Sundog.Lib.Machine
import Sundog.Lib.Gossip
import Sundog.Hlc
import Sundog.Store.Types
import Sundog.Store.Crdt.PnCounter
import Sundog.Store.Crdt.CounterMerge
import Sundog.Store.Crdt.CounterExact
import Sundog.Store.Crdt.CounterFold
import Sundog.Store.Crdt.OrSet
import Sundog.Store.Crdt.OrSetRefinement
import Sundog.Store.Engine.Expiry
import Sundog.Store.Engine.Apply
import Sundog.Store.Engine.View
import Sundog.Store.Engine.Prefold
import Sundog.Store.Engine.ApplyMany
import Sundog.Lib.Tournament
import Sundog.Store.Engine.Batches
import Sundog.Store.Engine.Contract
import Sundog.Store.Engine.Removal
import Sundog.Store.Engine.Housekeeping
import Sundog.Store.Engine.Loads
import Sundog.Store.Engine.Spill
import Sundog.Store.Engine.Balance
import Sundog.Store.Engine.Sections
import Sundog.Store.Engine.WriteSections
import Sundog.Store.Engine.ApplySections
import Sundog.Store.Engine.Consistent
import Sundog.Store.Engine.LastWriter
import Sundog.Store.Engine.Interleaving
import Sundog.Store.Engine.CleanRuns
import Sundog.Store.Engine.Join
import Sundog.Store.Engine.Exchange
import Sundog.Store.Cluster
import Sundog.Store.Naming
import Sundog.Lib.Labelled
import Sundog.Store.Engine.Play
import Sundog.Store.Engine.KeySlots
import Sundog.Store.Engine.Folding
import Sundog.Store.Engine.JoinFold
import Sundog.Store.Engine.PrefoldExact
import Sundog.Lib.Peeling
import Sundog.Sketch
import Sundog.SketchExact
import Sundog.Lib.LittleEndian
import Sundog.Lib.Outcome
import Sundog.Wire.Frame
import Sundog.Wire.RoundTrip
import Sundog.Wire.Safety
import Sundog.Lib.TopK
import Sundog.Ownership.View
import Sundog.Ownership.Successor
import Sundog.Lib.Run
import Sundog.Ownership.Residency
import Sundog.Cluster.Rebalance
import Sundog.Cluster.Vouching
import Sundog.Cluster.Release
import Sundog.Store.Crdt.OrSetRemoval
import Sundog.Store.Engine.WeighedSections
import Sundog.Store.Engine.WeighedApplies
import Sundog.Lib.Threads
import Sundog.Store.Engine.Handoffs
import Sundog.Store.Engine.HandoffLedger
import Sundog.Sync.Classify
import Sundog.Sync.Classifiers
import Sundog.Sync.Agreement
import Sundog.Store.Crdt.CounterTotals
import Sundog.Cluster.Relays
import Sundog.Lib.Outstanding
import Sundog.Store.Engine.Overtaking
import Sundog.Store.Engine.SweptViews
import Sundog.Store.Engine.LoadRaces
import Sundog.Store.Engine.SharedKey
import Sundog.Store.Engine.Retention
import Sundog.Store.Engine.Drains
import Sundog.Store.Engine.DistinctKeys
import Sundog.Sync.Repairs
import Sundog.Sync.CompleteRound
import Sundog.Lib.SortedIndex
import Sundog.Store.Coalesce.Pending
import Sundog.Store.Coalesce.Runs
import Sundog.Store.Coalesce.Ledger
import Sundog.Store.Coalesce.Contents
import Sundog.ClockRuns
import Sundog.SketchReturns
import Sundog.Lib.Listing
import Sundog.Store.Crdt.CounterCompaction
import Sundog.Store.Crdt.SetCompaction
import Sundog.Store.Crdt.SetLaws
import Sundog.Store.Spill.Formats
import Sundog.Store.Spill.ReadBack
import Sundog.Store.Engine.Redelivery
import Sundog.Store.Spill.Admission
import Sundog.Store.Spill.AdmissionLedger
import Sundog.Lib.Custody
import Sundog.Store.Load.Flights
import Sundog.Store.Load.SingleFlight
import Sundog.Cluster.Delivery
import Sundog.Ownership.Disruption
import Sundog.Store.FanOut
import Sundog.Store.SkewHold
import Sundog.Store.SkewHolds
import Sundog.Store.Spill.BytesUsed
import Sundog.Store.Engine.CapRuns
import Sundog.Store.Engine.DeadlineRuns
import Sundog.Cluster.Absence
import Sundog.Cluster.AwayAnswers
import Sundog.Store.Engine.PauseGuard
import Sundog.Store.Engine.EvictDown
import Sundog.Store.Engine.EvictRoom
import Sundog.Lib.Arena
import Sundog.Store.Engine.Slab
import Sundog.Store.Engine.SlabMap
import Sundog.Store.Engine.SlabLive
import Sundog.Store.Coalesce.Invisible
import Sundog.Store.Engine.Pointers
import Sundog.Store.Spill.Ring
import Sundog.Store.Spill.RingLayout
import Sundog.Store.Spill.RingPointers
import Sundog.Store.Spill.RingRuns
import Sundog.Lib.Variant
import Sundog.Store.Spill.Close
import Sundog.Store.Spill.CloseAlone
import Sundog.Store.Spill.CloseEnds
import Sundog.Store.Spill.Checkpoint
import Sundog.Store.Spill.Undisturbed
import Sundog.Store.Spill.Transparent
import Sundog.Lib.Chunks
import Sundog.Lib.Semaphore
import Sundog.Net.DropOldest
import Sundog.Net.Frames
import Sundog.Net.Outbox
import Sundog.Net.OutboxRuns
import Sundog.Net.Writer
import Sundog.Net.WriterRuns
import Sundog.Cluster.Serving
import Sundog.Net.Donor
import Sundog.Net.PullRuns
import Sundog.Cluster.Acks
import Sundog.Cluster.HandOff
