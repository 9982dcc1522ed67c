-- The memory books of svs_memory.c: the reservations and counters of a control block, and the two
-- totals that the header keeps.
import SvsVamana.Lib.Runs
import SvsVamana.Lib.SlotTable

namespace svs_vamana.svs_memory

open transition_runs slot_table List

/-! ## Control blocks -/

inductive ReservationState
  | reserved
  | confirmed
  | handoff
  | resident
  | rebuilding
deriving DecidableEq, Repr

/-- One index's build-to-residency record. What a new record leaves out is zero. -/
structure Reservation where
  relid : Nat
  state : ReservationState := .reserved
  ownerPid : Nat := 0
  reservedAt : Nat := 0
  estimateBytes : Nat := 0
  measuredBytes : Nat := 0
  buildPeakBytes : Nat := 0
  priorResidentBytes : Nat := 0
  capacityHeadroomVectors : Nat := 0
  reclaimableBytes : Nat := 0
  residentGeneration : Nat := 0
deriving DecidableEq, Repr

/-- One backend's insert that the worker has not applied yet. -/
structure InsertReservation where
  relid : Nat
  ownerPid : Nat
  reservedAt : Nat
  deltaBytes : Nat
  consumedHeadroom : Bool
deriving DecidableEq, Repr

def vamanaMaxIndexes : Nat := 64

def svsMaxPendingInsertReservations : Nat := 64

/-- The part of a control block that `memLock` guards, with its database (0 when it is free). A slot
of a table is free or holds a record. -/
structure Entry where
  dbOid : Nat := 0
  residencyBudget : Nat := 0
  residencyBytesCommitted : Nat := 0
  buildBytesCommitted : Nat := 0
  nextResidentGeneration : Nat := 0
  reservations : List (Option Reservation) := replicate vamanaMaxIndexes none
  insertReservations : List (Option InsertReservation) :=
    replicate svsMaxPendingInsertReservations none
deriving DecidableEq, Repr

def findReservation (e : Entry) (relid : Nat) : Option (Nat × Reservation) :=
  find (fun r => r.relid == relid) e.reservations

def findOldestInsertReservation (e : Entry) (relid : Nat) : Option (Nat × InsertReservation) :=
  oldest (fun r => r.relid == relid) (fun r => r.reservedAt) e.insertReservations

def findInsertReservationByOwner (e : Entry) (relid ownerPid : Nat) :
    Option (Nat × InsertReservation) :=
  find (fun r => r.relid == relid && r.ownerPid == ownerPid) e.insertReservations

def sumReclaimableBytes (e : Entry) : Nat :=
  total (weight fun r => r.reclaimableBytes) e.reservations

/-! ## Counters -/

/-- The warning "SVS memory accounting underflow releasing `what`". -/
structure Underflow where
  what : String
  amount : Nat
  committed : Nat
deriving DecidableEq, Repr

/-- What `SubtractFloored` warns of. The value it leaves is `committed - amount`, which on
natural numbers stops at zero as well. -/
def underflow (committed amount : Nat) (what : String) : List Underflow :=
  if amount > committed then [⟨what, amount, committed⟩] else []

/-- A control block as an operation works on it, with the header's build total and the
underflow warnings raised so far on each counter. -/
structure Ledger extends Entry where
  totalBuildCommittedGlobal : Nat
  residencyUnderflows : List Underflow
  buildUnderflows : List Underflow

namespace Ledger

/-- Warns if `amount` is more than what is committed. -/
def checkResidency (l : Ledger) (amount : Nat) (what : String) : Ledger :=
  { l with
    residencyUnderflows :=
      l.residencyUnderflows ++ underflow l.residencyBytesCommitted amount what }

/-- Writes slot `i` of the reservations and sets the residency counter. -/
def post (l : Ledger) (i : Nat) (slot : Option Reservation) (committed : Nat) : Ledger :=
  { l with
    residencyBytesCommitted := committed
    reservations := l.reservations.set i slot }

/-- Writes slot `j` of the pending inserts and sets the residency counter. -/
def postInsert (l : Ledger) (j : Nat) (slot : Option InsertReservation) (committed : Nat) :
    Ledger :=
  { l with
    residencyBytesCommitted := committed
    insertReservations := l.insertReservations.set j slot }

/-- Gives up `amount` bytes of residency and writes slot `i`. -/
def release (l : Ledger) (i : Nat) (slot : Option Reservation) (amount : Nat) (what : String) :
    Ledger :=
  (l.checkResidency amount what).post i slot (l.residencyBytesCommitted - amount)

def releaseInsert (l : Ledger) (j amount : Nat) (what : String) : Ledger :=
  (l.checkResidency amount what).postInsert j none (l.residencyBytesCommitted - amount)

def commitBuild (l : Ledger) (peak : Nat) : Ledger :=
  { l with
    buildBytesCommitted := l.buildBytesCommitted + peak
    totalBuildCommittedGlobal := l.totalBuildCommittedGlobal + peak }

/-- Gives up a build peak, in the block and then in the header. -/
def releaseBuild (l : Ledger) (peak : Nat) (what : String) : Ledger :=
  { l with
    buildBytesCommitted := l.buildBytesCommitted - peak
    totalBuildCommittedGlobal := l.totalBuildCommittedGlobal - peak
    buildUnderflows := l.buildUnderflows ++ underflow l.buildBytesCommitted peak what ++
      underflow l.totalBuildCommittedGlobal peak "a build peak" }

/-- Gives up the peak a record still holds, if it holds one. -/
def releasePeakOf (l : Ledger) (r : Reservation) (what : String) : Ledger :=
  if r.buildPeakBytes > 0 then l.releaseBuild r.buildPeakBytes what else l

def nextGeneration (l : Ledger) : Nat := (l.nextResidentGeneration + 1) % 0x100000000

def stampGeneration (l : Ledger) : Ledger := { l with nextResidentGeneration := l.nextGeneration }

end Ledger

/-! ## Builds -/

inductive MemoryError
  | notAdmitted
  | alreadyReserved
  | residencyBudgetExceeded
  | tooManyIndexes
  | buildMemoryExceeded
  | noPendingBuild
  | notPendingConfirmation
  | noConfirmedBuild
  | notConfirmed
  | noResidentReservation
  | notResident
  | tooManyPendingInserts
deriving DecidableEq, Repr

/-- What an operation that does not raise returns. -/
inductive Reply
  | done
  | answer (b : Bool)
  | anchored (growth generation : Nat)
  | dropped (relids : List Nat)
deriving DecidableEq, Repr

/-- The block an operation leaves and what it returns or raises. -/
abbrev Outcome := Ledger × Except MemoryError Reply

def restorePriorResidency (r : Reservation) : Reservation :=
  { r with
    measuredBytes := r.priorResidentBytes
    priorResidentBytes := 0
    ownerPid := 0
    buildPeakBytes := 0
    state := .resident }

def reserveBuild (l : Ledger) (pid now relid buildPeak residencyEstimate ceiling : Nat) :
    Outcome :=
  if l.residencyBudget = 0 then (l, .error .notAdmitted) else
  match findReservation l.toEntry relid with
  | some (i, existing) =>
    if existing.state ≠ .resident then (l, .error .alreadyReserved) else
    -- a rebuild: the bytes of the resident graph stay committed until it confirms
    let residencyBaseline := l.residencyBytesCommitted - existing.measuredBytes
    let l := l.checkResidency existing.measuredBytes "a rebuild's prior resident bytes"
    if residencyBaseline + residencyEstimate > l.residencyBudget then
      (l, .error .residencyBudgetExceeded)
    else if l.totalBuildCommittedGlobal + buildPeak > ceiling then
      (l, .error .buildMemoryExceeded)
    else
      ((l.commitBuild buildPeak).post i
        (some { existing with
          ownerPid := pid
          reservedAt := now
          estimateBytes := residencyEstimate
          measuredBytes := 0
          buildPeakBytes := buildPeak
          priorResidentBytes := existing.measuredBytes
          state := .rebuilding })
        l.residencyBytesCommitted, .ok .done)
  | none =>
    if l.residencyBytesCommitted + residencyEstimate > l.residencyBudget then
      (l, .error .residencyBudgetExceeded)
    else
      match free l.reservations with
      | none => (l, .error .tooManyIndexes)
      | some i =>
        if l.totalBuildCommittedGlobal + buildPeak > ceiling then
          (l, .error .buildMemoryExceeded)
        else
          ((l.commitBuild buildPeak).post i
            (some { relid, ownerPid := pid, reservedAt := now, estimateBytes := residencyEstimate,
                    buildPeakBytes := buildPeak, state := .reserved })
            (l.residencyBytesCommitted + residencyEstimate), .ok .done)

def confirmBuild (l : Ledger) (relid buildPeak measuredResidencyBytes : Nat) : Outcome :=
  match findReservation l.toEntry relid with
  | none => (l, .error .noPendingBuild)
  | some (i, r) =>
    if r.state ≠ .reserved ∧ r.state ≠ .rebuilding then (l, .error .notPendingConfirmation) else
    let l := l.releaseBuild buildPeak "a build peak"
    let priorContribution :=
      if r.state = .rebuilding then r.priorResidentBytes else r.estimateBytes
    let residencyWithoutPrior := l.residencyBytesCommitted - priorContribution
    let l := l.checkResidency priorContribution "a build handoff's prior residency contribution"
    if residencyWithoutPrior + measuredResidencyBytes ≤ l.residencyBudget then
      (l.stampGeneration.post i
        (some { r with
          buildPeakBytes := 0
          state := .confirmed
          measuredBytes := measuredResidencyBytes
          priorResidentBytes := 0
          reclaimableBytes := 0
          residentGeneration := l.nextGeneration })
        (residencyWithoutPrior + measuredResidencyBytes), .ok (.answer true))
    else if r.state = .rebuilding then
      (l.post i (some (restorePriorResidency r)) l.residencyBytesCommitted, .ok (.answer false))
    else
      (l.post i none residencyWithoutPrior, .ok (.answer false))

def handoffBuild (l : Ledger) (relid : Nat) : Outcome :=
  match findReservation l.toEntry relid with
  | none => (l, .error .noConfirmedBuild)
  | some (i, r) =>
    if r.state ≠ .confirmed then (l, .error .notConfirmed)
    else (l.post i (some { r with state := .handoff }) l.residencyBytesCommitted, .ok .done)

def abortBuild (l : Ledger) (relid : Nat) : Outcome :=
  match findReservation l.toEntry relid with
  | none => (l, .ok .done)
  | some (i, r) =>
    if r.state = .resident then (l, .ok .done) else
    let l := l.releasePeakOf r "a build peak"
    if r.state = .rebuilding then
      (l.post i (some (restorePriorResidency r)) l.residencyBytesCommitted, .ok .done)
    else
      let residencyHeld := if r.state = .reserved then r.estimateBytes else r.measuredBytes
      (l.release i none residencyHeld "an aborted build's residency reservation", .ok .done)

/-! ## Loads and unloads -/

/-- The bytes of `residencyBytesCommitted` that stand for a record. -/
def contribution (r : Reservation) : Nat :=
  match r.state with
  | .reserved => r.estimateBytes
  | .rebuilding => r.priorResidentBytes
  | _ => r.measuredBytes

def reconcileLoad (l : Ledger) (now relid measuredBytes capacityHeadroomVectors : Nat) :
    Outcome :=
  if l.residencyBudget = 0 then (l, .error .notAdmitted) else
  match findReservation l.toEntry relid with
  | some (i, r) =>
    let residencyWithoutPrior := l.residencyBytesCommitted - contribution r
    let l := l.checkResidency (contribution r) "a load reconcile's prior contribution"
    if residencyWithoutPrior + measuredBytes > l.residencyBudget then (l, .ok (.answer false)) else
    -- only a rebuild's peak is given back here; the field is cleared for every state
    let l := if r.state = .rebuilding then l.releasePeakOf r "a build peak" else l
    (l.stampGeneration.post i
      (some { r with
        state := .resident
        ownerPid := 0
        measuredBytes := measuredBytes
        capacityHeadroomVectors := capacityHeadroomVectors
        priorResidentBytes := 0
        buildPeakBytes := 0
        reclaimableBytes := 0
        residentGeneration := l.nextGeneration })
      (residencyWithoutPrior + measuredBytes), .ok (.answer true))
  | none =>
    if l.residencyBytesCommitted + measuredBytes > l.residencyBudget then
      (l, .ok (.answer false))
    else
      match free l.reservations with
      | none => (l, .error .tooManyIndexes)
      | some i =>
        (l.stampGeneration.post i
          (some { relid, state := .resident, reservedAt := now, estimateBytes := measuredBytes,
                  measuredBytes, capacityHeadroomVectors, residentGeneration := l.nextGeneration })
          (l.residencyBytesCommitted + measuredBytes), .ok (.answer true))

def accountUnload (l : Ledger) (relid : Nat) : Outcome :=
  match findReservation l.toEntry relid with
  | none => (l, .ok .done)
  | some (i, r) =>
    let l := if r.state = .rebuilding then l.releasePeakOf r "a build peak" else l
    let residencyHeld :=
      if r.state = .rebuilding then r.priorResidentBytes else r.measuredBytes
    (l.release i none residencyHeld "an unloaded index's residency", .ok .done)

/-! ## Inserts -/

/-- An insert takes its bytes from the headroom of the resident graph where there is any. -/
def reserveInsert (l : Ledger) (pid now relid deltaBytes : Nat) : Outcome :=
  if l.residencyBudget = 0 then (l, .error .notAdmitted) else
  let resident := (findReservation l.toEntry relid).filter fun x => x.2.capacityHeadroomVectors > 0
  let chargeBytes := if resident.isSome then 0 else deltaBytes
  if l.residencyBytesCommitted + chargeBytes > l.residencyBudget then (l, .ok (.answer false)) else
  match free l.insertReservations with
  | none => (l, .error .tooManyPendingInserts)
  | some j =>
    let l := l.postInsert j
      (some { relid, ownerPid := pid, reservedAt := now, deltaBytes := chargeBytes,
              consumedHeadroom := resident.isSome })
      (l.residencyBytesCommitted + chargeBytes)
    match resident with
    | none => (l, .ok (.answer true))
    | some (i, r) =>
      (l.post i (some { r with capacityHeadroomVectors := r.capacityHeadroomVectors - 1 })
        l.residencyBytesCommitted, .ok (.answer true))

def releaseOldestInsertReservation (l : Ledger) (relid : Nat) : Ledger :=
  match findOldestInsertReservation l.toEntry relid with
  | none => l
  | some (j, r) => l.releaseInsert j r.deltaBytes "a released pending insert reservation"

/-- The part of a fresh measurement that counts: what aborted inserts have left behind in the
graph does not. -/
def netSize (r : Reservation) (measuredBytes : Nat) : Nat :=
  measuredBytes - min r.reclaimableBytes measuredBytes

/-- The record is taken whatever its state. -/
def reanchorInsert (l : Ledger) (relid measuredBytes : Nat) : Outcome :=
  match findReservation l.toEntry relid with
  | none => (l, .error .noResidentReservation)
  | some (i, r) =>
    let growth := measuredBytes - (r.measuredBytes + r.reclaimableBytes)
    let l := l.release i (some r) r.measuredBytes "an index's pre-reanchor residency"
    let l := releaseOldestInsertReservation l relid
    (l.post i
      (some { r with
        measuredBytes := netSize r measuredBytes
        reclaimableBytes := min r.reclaimableBytes measuredBytes })
      (l.residencyBytesCommitted + netSize r measuredBytes),
      .ok (.anchored growth r.residentGeneration))

def reconcileResident (l : Ledger) (relid measuredBytes : Nat)
    (capacityHeadroomVectors : Option Nat) : Outcome :=
  match findReservation l.toEntry relid with
  | none => (l, .error .noResidentReservation)
  | some (i, r) =>
    if r.state ≠ .resident then (l, .error .notResident) else
    let l := l.checkResidency r.measuredBytes "an index's pre-reconcile residency"
    (l.post i
      (some { r with
        measuredBytes := measuredBytes
        capacityHeadroomVectors := capacityHeadroomVectors.getD r.capacityHeadroomVectors
        reclaimableBytes := 0 })
      (l.residencyBytesCommitted - r.measuredBytes + measuredBytes), .ok .done)

def closeInsertReservation (l : Ledger) (relid : Nat) : Outcome :=
  (releaseOldestInsertReservation l relid, .ok .done)

def abortInsert (l : Ledger) (pid relid : Nat) : Outcome :=
  match findInsertReservationByOwner l.toEntry relid pid with
  | none => (l, .ok .done)
  | some (j, r) =>
    let l := l.releaseInsert j r.deltaBytes "an aborted pending insert reservation"
    match (findReservation l.toEntry relid).filter fun _ => r.consumedHeadroom with
    | none => (l, .ok .done)
    | some (i, resident) =>
      (l.post i
        (some { resident with capacityHeadroomVectors := resident.capacityHeadroomVectors + 1 })
        l.residencyBytesCommitted, .ok .done)

def creditAbortedInserts (l : Ledger) (relid generation growthBytes compactThresholdPct : Nat) :
    Outcome :=
  match findReservation l.toEntry relid with
  | none => (l, .ok (.answer false))
  | some (i, r) =>
    if r.state = .resident ∧ r.residentGeneration = generation ∧ compactThresholdPct < 100 then
      let credit := min growthBytes r.measuredBytes
      let l := l.release i
        (some { r with
          measuredBytes := r.measuredBytes - credit
          reclaimableBytes := r.reclaimableBytes + credit })
        credit "an aborted insert's credited growth"
      let l := { l with
        residencyUnderflows := l.residencyUnderflows ++ underflow r.measuredBytes credit
          "an aborted insert's reservation contribution" }
      let cap := l.residencyBudget * compactThresholdPct / 100
      (l, .ok (.answer (decide (sumReclaimableBytes l.toEntry > cap))))
    else (l, .ok (.answer false))

/-! ## Dead owners and dropped indexes -/

/-- `dead` is the verdict of the process table on an owner and the time it reserved at. -/
def ownerPidIsDead (dead : Nat → Nat → Bool) (ownerPid reservedAt : Nat) : Bool :=
  ownerPid != 0 && dead ownerPid reservedAt

def reapReservation (dead : Nat → Nat → Bool) (l : Ledger) (i : Nat) : Ledger :=
  match l.reservations[i]? with
  | some (some r) =>
    if (r.state = .reserved ∨ r.state = .rebuilding) ∧
        ownerPidIsDead dead r.ownerPid r.reservedAt then
      let l := l.releasePeakOf r "a dead backend's build peak"
      if r.state = .rebuilding then
        l.post i (some (restorePriorResidency r)) l.residencyBytesCommitted
      else
        l.release i none r.estimateBytes "a dead backend's build reservation"
    else l
  | _ => l

def reapInsertReservation (dead : Nat → Nat → Bool) (l : Ledger) (j : Nat) : Ledger :=
  match l.insertReservations[j]? with
  | some (some r) =>
    if ownerPidIsDead dead r.ownerPid r.reservedAt then
      l.releaseInsert j r.deltaBytes "a dead backend's pending insert reservation"
    else l
  | _ => l

def reapEntryReservations (dead : Nat → Nat → Bool) (l : Ledger) : Outcome :=
  let l := run (reapReservation dead) l (range vamanaMaxIndexes)
  (run (reapInsertReservation dead) l (range svsMaxPendingInsertReservations), .ok .done)

/-- One slot of the worker's startup pass; the relids it has dropped so far come along. -/
def dropReservation (liveRelids : List Nat) (p : Ledger × List Nat) (i : Nat) :
    Ledger × List Nat :=
  match p.1.reservations[i]? with
  | some (some r) =>
    if r.state = .resident ∧ r.relid ∉ liveRelids then
      (p.1.release i none r.measuredBytes "a dropped index's stale resident reservation",
        p.2 ++ [r.relid])
    else p
  | _ => p

def reconcileResidentReservations (liveRelids : List Nat) (l : Ledger) : Outcome :=
  let p := run (dropReservation liveRelids) (l, []) (range vamanaMaxIndexes)
  (p.1, .ok (.dropped p.2))

/-! ## Operations -/

/-- One call, with what it reads of its surroundings: the caller's pid, the time, the GUC
`svs.max_build_memory` or `svs.compact_threshold_pct`, the process table. -/
inductive Op
  | reserveBuild (pid now relid buildPeak residencyEstimate ceiling : Nat)
  | confirmBuild (relid buildPeak measuredResidencyBytes : Nat)
  | handoffBuild (relid : Nat)
  | abortBuild (relid : Nat)
  | reconcileLoad (now relid measuredBytes capacityHeadroomVectors : Nat)
  | accountUnload (relid : Nat)
  | reserveInsert (pid now relid deltaBytes : Nat)
  | reanchorInsert (relid measuredBytes : Nat)
  | reconcileResident (relid measuredBytes : Nat) (capacityHeadroomVectors : Option Nat)
  | closeInsertReservation (relid : Nat)
  | abortInsert (pid relid : Nat)
  | creditAbortedInserts (relid generation growthBytes compactThresholdPct : Nat)
  | reap (dead : Nat → Nat → Bool)
  | reconcileResidentReservations (liveRelids : List Nat)

def Op.apply (l : Ledger) : Op → Outcome
  | .reserveBuild pid now relid buildPeak residencyEstimate ceiling =>
    svs_memory.reserveBuild l pid now relid buildPeak residencyEstimate ceiling
  | .confirmBuild relid buildPeak measured => svs_memory.confirmBuild l relid buildPeak measured
  | .handoffBuild relid => svs_memory.handoffBuild l relid
  | .abortBuild relid => svs_memory.abortBuild l relid
  | .reconcileLoad now relid measured headroom =>
    svs_memory.reconcileLoad l now relid measured headroom
  | .accountUnload relid => svs_memory.accountUnload l relid
  | .reserveInsert pid now relid deltaBytes => svs_memory.reserveInsert l pid now relid deltaBytes
  | .reanchorInsert relid measured => svs_memory.reanchorInsert l relid measured
  | .reconcileResident relid measured headroom =>
    svs_memory.reconcileResident l relid measured headroom
  | .closeInsertReservation relid => svs_memory.closeInsertReservation l relid
  | .abortInsert pid relid => svs_memory.abortInsert l pid relid
  | .creditAbortedInserts relid generation growth pct =>
    svs_memory.creditAbortedInserts l relid generation growth pct
  | .reap dead => reapEntryReservations dead l
  | .reconcileResidentReservations live => svs_memory.reconcileResidentReservations live l

/-! ## All databases -/

/-- What a call has still to do in a critical section of its own: the load of a startup seed, or the
header-lock section of an admission or a restored budget. -/
inductive Section
  | seedLoad (i relid durableBytes : Nat)
  | admission (i residencyBudget : Nat)
  | restore (i restoredBudget : Nat)
deriving DecidableEq, Repr

/-- The control blocks, the totals in the header and the calls between two critical
sections. -/
structure System where
  blocks : List Entry
  totalBuildCommittedGlobal : Nat := 0
  totalResidencyCommittedGlobal : Nat := 0
  pending : List Section := []
  residencyUnderflows : List Underflow := []
  buildUnderflows : List Underflow := []
  budgetUnderflows : List Underflow := []

def init (maxDatabases : Nat) : System := { blocks := replicate maxDatabases {} }

def realUsage (e : Entry) : Nat := e.residencyBytesCommitted + sumReclaimableBytes e

namespace System

def ledger (s : System) (e : Entry) : Ledger :=
  { e with
    totalBuildCommittedGlobal := s.totalBuildCommittedGlobal
    residencyUnderflows := s.residencyUnderflows
    buildUnderflows := s.buildUnderflows }

def store (s : System) (i : Nat) (l : Ledger) : System :=
  { s with
    blocks := s.blocks.set i l.toEntry
    totalBuildCommittedGlobal := l.totalBuildCommittedGlobal
    residencyUnderflows := l.residencyUnderflows
    buildUnderflows := l.buildUnderflows }

/-- An operation on block `i`, which its caller has looked up before it took the lock. -/
def call (s : System) (i : Nat) (op : Op) : System :=
  match s.blocks[i]? with
  | none => s
  | some e => s.store i (op.apply (s.ledger e)).1

def defer (s : System) (sec : Section) : System := { s with pending := s.pending ++ [sec] }

/-- The existence check of `SvsMemorySeedDurableResidency`. -/
def beginSeed (s : System) (i relid durableBytes : Nat) : System :=
  match s.blocks[i]? with
  | none => s
  | some e =>
    if (findReservation e relid).isSome then s else s.defer (.seedLoad i relid durableBytes)

/-- `SvsMemoryAdmitDatabase` up to the header lock. -/
def beginAdmit (s : System) (i residencyBudget durableCommittedFloor : Nat) : System :=
  match s.blocks[i]? with
  | none => s
  | some e =>
    if residencyBudget = 0 ∨ residencyBudget < max (realUsage e) durableCommittedFloor then s
    else s.defer (.admission i residencyBudget)

/-- `SvsMemoryRestoreResidencyBudget` up to the header lock. -/
def beginRestore (s : System) (i priorBudget : Nat) : System :=
  match s.blocks[i]? with
  | none => s
  | some e => s.defer (.restore i (max priorBudget (realUsage e)))

/-- The header total without what block `e` has in it, and the warning if it has more. -/
def checkBudget (s : System) (e : Entry) (what : String) : System :=
  { s with
    budgetUnderflows :=
      s.budgetUnderflows ++ underflow s.totalResidencyCommittedGlobal e.residencyBudget what }

/-- Gives block `i` another budget and moves the header total along. -/
def setBudget (s : System) (i : Nat) (e : Entry) (budget : Nat) : System :=
  { s with
    totalResidencyCommittedGlobal :=
      s.totalResidencyCommittedGlobal - e.residencyBudget + budget
    blocks := s.blocks.set i { e with residencyBudget := budget } }

/-- The header-lock section of an admission and whether it admits; `ceiling` is
`svs.max_residency_memory` in bytes. -/
def admitSection (s : System) (i residencyBudget ceiling : Nat) : System × Bool :=
  match s.blocks[i]? with
  | none => (s, false)
  | some e =>
    let s := s.checkBudget e "a database's prior residency budget"
    if s.totalResidencyCommittedGlobal - e.residencyBudget + residencyBudget > ceiling then
      (s, false)
    else (s.setBudget i e residencyBudget, true)

/-- The header-lock section of a restored budget. There is no ceiling here. -/
def restoreSection (s : System) (i restoredBudget : Nat) : System :=
  match s.blocks[i]? with
  | none => s
  | some e =>
    (s.checkBudget e "a database's aborted residency budget change").setBudget i e restoredBudget

/-- The first block of a database; of database 0, the first free block. -/
def findSlot (s : System) (dbOid : Nat) : Option (Nat × Entry) :=
  (s.blocks.findIdx? fun e => e.dbOid == dbOid).bind fun i => (s.blocks[i]?).map fun e => (i, e)

/-- Reserving a block writes none of its books. -/
def reserveSlot (s : System) (dbOid : Nat) : System :=
  if (s.findSlot dbOid).isSome then s else
  match s.findSlot 0 with
  | none => s
  | some (i, e) => { s with blocks := s.blocks.set i { e with dbOid := dbOid } }

/-- `SvsMemoryResetDatabaseAccounting`, which only the header lock guards. -/
def resetDatabaseAccounting (s : System) (i : Nat) (e : Entry) : System :=
  { s with
    buildUnderflows := s.buildUnderflows ++
      underflow s.totalBuildCommittedGlobal e.buildBytesCommitted
        "a released database's build commitment"
    budgetUnderflows := s.budgetUnderflows ++
      underflow s.totalResidencyCommittedGlobal e.residencyBudget
        "a released database's residency budget"
    totalBuildCommittedGlobal := s.totalBuildCommittedGlobal - e.buildBytesCommitted
    totalResidencyCommittedGlobal := s.totalResidencyCommittedGlobal - e.residencyBudget
    blocks := s.blocks.set i
      { dbOid := e.dbOid, nextResidentGeneration := e.nextResidentGeneration } }

def releaseSlot (s : System) (dbOid : Nat) : System :=
  match s.findSlot dbOid with
  | none => s
  | some (i, e) => s.resetDatabaseAccounting i { e with dbOid := 0 }

/-- Runs the deferred section `sec`, if there is one. -/
def finish (s : System) (sec : Section) (now ceiling : Nat) : System :=
  if sec ∈ s.pending then
    let s := { s with pending := s.pending.erase sec }
    match sec with
    | .seedLoad i relid durableBytes => s.call i (.reconcileLoad now relid durableBytes 0)
    | .admission i residencyBudget => (s.admitSection i residencyBudget ceiling).1
    | .restore i restoredBudget => s.restoreSection i restoredBudget
  else s

end System

/-- One critical section of one process. -/
inductive Event
  | call (i : Nat) (op : Op)
  | beginSeed (i relid durableBytes : Nat)
  | beginAdmit (i residencyBudget durableCommittedFloor : Nat)
  | beginRestore (i priorBudget : Nat)
  | finish (sec : Section) (now ceiling : Nat)
  | reserveSlot (dbOid : Nat)
  | releaseSlot (dbOid : Nat)

def step (s : System) : Event → System
  | .call i op => s.call i op
  | .beginSeed i relid durableBytes => s.beginSeed i relid durableBytes
  | .beginAdmit i residencyBudget floor => s.beginAdmit i residencyBudget floor
  | .beginRestore i priorBudget => s.beginRestore i priorBudget
  | .finish sec now ceiling => s.finish sec now ceiling
  | .reserveSlot dbOid => s.reserveSlot dbOid
  | .releaseSlot dbOid => s.releaseSlot dbOid

end svs_vamana.svs_memory
