import SvsVamana.SnapshotDrain
import SvsVamana.TidReuse
import SvsVamana.AbortedInsert
import SvsVamana.EmptyIndex
import SvsVamana.SlotLatch
import SvsVamana.TenantIsolation
import SvsVamana.BuildRequest
import SvsVamana.PendingArrays
import SvsVamana.IndexCounter
import SvsVamana.SlotRetirement
import SvsVamana.RebuildEviction
import SvsVamana.HandoffGap
import SvsVamana.InsertDrain
import SvsVamana.ZeroChargeInserts
import SvsVamana.AbortCredit
import SvsVamana.FailedEnrollment
import SvsVamana.RestartConvergence
import SvsVamana.OrphanRelease
import SvsVamana.FinalSweep
import SvsVamana.RequestFairness
import SvsVamana.SuppressedInvalidations
import SvsVamana.ExternalIds
import SvsVamana.ResidencyRows
import SvsVamana.CheckpointFailures
import SvsVamana.FailedInserts
import SvsVamana.HandleOwnership
import SvsVamana.MemoryLocks
import SvsVamana.FailedLoads
import SvsVamana.SearchWorkMemCeiling
import SvsVamana.ParkedSlots
import SvsVamana.GrantOrder
import SvsVamana.UndoArray
import SvsVamana.SearchResults
import SvsVamana.MemoryWords
