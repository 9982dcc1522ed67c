-- One vamana index on a primary: heap and WAL, saved copy, replication slot and cache entry, with
-- every request that loads, drains, writes, saves or drops the entry.
import SvsVamana.ReplayRows
import SvsVamana.WriteSlot

namespace svs_vamana.server

open index_cache saved_index replay delivery tid_fate database write_slot transition_runs

variable {V : Type}

/-! ## The state -/

/-- The persistent slot; `confirmedFlush` is unset until its snapshot is consistent. -/
structure ReplicationSlot where
  confirmedFlush : Option Nat
deriving DecidableEq, Repr

structure Server (V : Type) where
  db : Database V
  disk : Disk V
  slot : Option ReplicationSlot
  cache : Option (IndexCache V)

namespace Server

/-- `confirmed_flush`, when there is a slot and it is set. -/
def confirmedFlush (s : Server V) : Option Nat := s.slot.bind (·.confirmedFlush)

/-- `VamanaReplicationSlotIsConsistent`. -/
def vamanaReplicationSlotIsConsistent (s : Server V) : Bool := s.confirmedFlush.isSome

/-- The rows a scan under a new MVCC snapshot returns. -/
def visibleRows (db : Database V) : List (Tid × V) :=
  (db.heap.filter db.live).map fun x => (x.tid, x.vec)

/-- `VamanaForceHeapRebuild`. A slot that another process holds is not dropped. -/
def vamanaForceHeapRebuild (slotHeld : Bool) (s : Server V) : Server V :=
  { s with
    slot := if slotHeld then s.slot else none
    disk := vamanaDeleteSaveDir s.disk
    cache := none }

/-! ## Loading -/

/-- Where a load is stopped by an error or an interrupt once its entry is in the cache. -/
inductive LateError
  | none
  | beforeSave
  | beforeOpen
  | afterOpen
deriving DecidableEq, Repr

/-- What the calls of one load decide. -/
structure GetCalls where
  indexLocked : Bool
  load : LoadCalls
  heapLocked : Bool
  buildFails : Bool
  saveFails : Bool
  lateError : LateError
  slotHeld : Bool
deriving DecidableEq, Repr

/-- The entry of `CacheEmptyTableIndex`. -/
def emptyTableIndex : IndexCache V := vamanaCacheIndex none [] 0 0 0

/-- `TrySaveAfterRebuild`; the handler of a failed save deletes the directory. -/
def trySaveAfterRebuild (saveFails : Bool) (c : IndexCache V) (s : Server V) : Server V :=
  if saveFails then
    { s with disk := vamanaDeleteSaveDir s.disk, cache := some { c with needsSave := true } }
  else { s with disk := vamanaSaveIndexToDisk c s.disk, cache := some c }

/-- The second half of `LoadIndexFromDiskOrRebuild`. A heap that DDL has locked is taken for
an empty one. -/
def rebuildFromHeap (k : GetCalls) (s : Server V) : Server V × Option Bool :=
  if !k.heapLocked && k.buildFails then (s, none)
  else
    match (if k.heapLocked then none else vamanaRebuildFromTable (visibleRows s.db)) with
    | none =>
      if k.lateError = .beforeSave then (s, none)
      else ({ s with cache := some emptyTableIndex }, some false)
    | some c =>
      if k.lateError = .beforeSave then ({ s with cache := some c }, none)
      else (trySaveAfterRebuild k.saveFails c s, some false)

/-- `LoadIndexFromDiskOrRebuild`: whether the copy on disk was used, or `none` for an error. -/
def loadIndexFromDiskOrRebuild (k : GetCalls) (s : Server V) : Server V × Option Bool :=
  match loadIndexFromPages k.load s.disk with
  | (d, .loaded c) =>
    ({ s with disk := d, cache := some c },
      if k.lateError = .beforeSave then none else some true)
  | (d, .error) => ({ s with disk := d }, none)
  | (d, .noCopy) => rebuildFromHeap k { s with disk := d }

/-- `FinalizeIndexCacheEntry`, as far as the slot handle goes. -/
def finalizeIndexCacheEntry (s : Server V) : Server V :=
  { s with
    cache := s.cache.map fun c =>
      if c.replicationSlot then c else { c with replicationSlot := s.slot.isSome } }

/-- `GetOrLoadIndexBody`. -/
def getOrLoadIndexBody (k : GetCalls) (s : Server V) : Server V × Option Bool :=
  match loadIndexFromDiskOrRebuild k s with
  | (s', none) => (s', none)
  | (s', some fromDisk) =>
    if k.lateError = .beforeOpen then (s', none)
    else if k.lateError = .afterOpen then (finalizeIndexCacheEntry s', none)
    else (finalizeIndexCacheEntry s', some fromDisk)

/-- `none` is the `NULL` of a load that failed. The retry after `VamanaForceHeapRebuild` finds no
directory, so it comes to the rebuild. -/
def vamanaWorkerGetOrLoadIndex (k retry : GetCalls) (s : Server V) : Server V × Option Bool :=
  match s.cache with
  | some _ => (s, some false)
  | none =>
    if k.indexLocked then (s, none)
    else
      match getOrLoadIndexBody k s with
      | (s', none) => (s', none)
      | (s', some fromDisk) =>
        if fromDisk && !s'.vamanaReplicationSlotIsConsistent then
          if retry.indexLocked then (vamanaForceHeapRebuild k.slotHeld s', none)
          else getOrLoadIndexBody retry (vamanaForceHeapRebuild k.slotHeld s')
        else (s', some fromDisk)

/-- What decides how a drain goes, apart from the heap it reads. -/
structure DrainFaults where
  slotFree : Bool
  raiseAt : Option Nat
  shutdown : Bool
  readFails : Nat → Tid → Bool
  added : Nat → Tid → Bool
  slotHeld : Bool

/-- The calls of a drain over this heap. -/
def DrainFaults.calls (k : DrainFaults) (db : Database V) : DrainCalls V :=
  ⟨⟨db.fetch, k.readFails, k.added⟩, k.slotFree, k.raiseAt⟩

/-- `VamanaReplicationDrainSlot`; the flag says that a shutdown cancel is thrown on. A decode
error makes it drop everything, to be rebuilt from the heap. -/
def vamanaReplicationDrainSlot (k : DrainFaults) (s : Server V) : Server V × Bool :=
  match s.cache, s.confirmedFlush with
  | some c, some X =>
    if !c.replicationSlot then (s, false)
    else
      match vamanaReplayPendingChanges (k.calls s.db) s.db.rel s.db.wal X c with
      | .returned c' Y => ({ s with cache := some c', slot := some ⟨some Y⟩ }, false)
      | .raised c' =>
        if k.shutdown then ({ s with cache := some c' }, true)
        else (vamanaForceHeapRebuild k.slotHeld { s with cache := some c' }, false)
  | _, _ => (s, false)

/-- The calls of a load that may be followed by a drain. -/
structure EnsureCalls where
  get : GetCalls
  retry : GetCalls
  drain : DrainFaults

/-- How `VamanaWorkerEnsureIndexCurrent` ends: with a handle that may be `NULL`, or with the
shutdown cancel of the drain. -/
inductive Ensured (V : Type)
  | handle (index : Option (SvsIndex V))
  | raised

/-- `VamanaWorkerEnsureIndexCurrent`: only a load that took the copy on disk is drained. -/
def vamanaWorkerEnsureIndexCurrent (k : EnsureCalls) (s : Server V) : Server V × Ensured V :=
  match vamanaWorkerGetOrLoadIndex k.get k.retry s with
  | (s', none) => (s', .handle none)
  | (s', some false) => (s', .handle (s'.cache.bind (·.svsIndex)))
  | (s', some true) =>
    let (s'', raised) := vamanaReplicationDrainSlot k.drain s'
    if raised then (s'', .raised) else (s'', .handle (s''.cache.bind (·.svsIndex)))

/-! ## The requests -/

/-- A search batch: the entry it is answered from, or `none` when its slots end in an error.
An entry without a graph answers with no rows when it counts no vectors. -/
def vamanaWorkerProcessSearchBatch (k : EnsureCalls) (s : Server V) :
    Server V × Option (IndexCache V) :=
  let answerOf (s : Server V) (index : Option (SvsIndex V)) : Option (IndexCache V) :=
    match index with
    | some _ => s.cache
    | none => s.cache.filter fun c => c.numVectors = 0
  match s.cache with
  | some c => (s, answerOf s c.svsIndex)
  | none =>
    match vamanaWorkerEnsureIndexCurrent k s with
    | (s', .raised) => (s', none)
    | (s', .handle index) => (s', answerOf s' index)

/-- `VamanaWorkerProcessWarmupSlot`: the load is not drained. -/
def vamanaWorkerProcessWarmupSlot (k retry : GetCalls) (s : Server V) : Server V :=
  (vamanaWorkerGetOrLoadIndex k retry s).1

/-- One request of `VamanaWorkerProcessReloads`: the load is not drained. -/
def vamanaWorkerProcessReload (k retry : GetCalls) (s : Server V) : Server V :=
  (vamanaWorkerGetOrLoadIndex k retry { s with cache := none }).1

/-- `VamanaReplicationCreate`: the slot afterwards and whether it went through. A slot that
is held cannot be dropped first. -/
def vamanaReplicationCreate (slotHeld createFails : Bool) (slot : Option ReplicationSlot) :
    Option ReplicationSlot × Bool :=
  if slotHeld && slot.isSome then (slot, false)
  else if createFails then (none, false)
  else (some ⟨none⟩, true)

/-- What the calls of a LOAD slot decide. -/
structure LoadSlotCalls where
  load : LoadCalls
  slotHeld : Bool
  createFails : Bool
deriving DecidableEq, Repr

/-- The entry that a LOAD slot makes of the files, if no call fails. The counters in its
parameters are those of the metapage. -/
def loadSlotEntry (k : LoadCalls) (d : Disk V) : Option (IndexCache V) :=
  if !vamanaValidateMetaCounts d.metap (some k.residencyBudget) then none
  else
    match k.svsLoads, d.dir.bind (·.graph),
      (if d.metap.tidMappingCapacity > 0 then vamanaLoadTidMap d.dir d.metap.tidMappingCapacity
        else some []) with
    | true, some g, some m => if k.refused then none else some (entryOf d.metap g m)
    | _, _, _ => none

/-- `VamanaWorkerProcessLoadSlot`, which `CREATE INDEX` sends: the copy on disk with a new
slot. -/
def vamanaWorkerProcessLoadSlot (k : LoadSlotCalls) (s : Server V) : Server V :=
  match loadSlotEntry k.load s.disk with
  | none => s
  | some c =>
    let (slot, created) := vamanaReplicationCreate k.slotHeld k.createFails s.slot
    { s with slot := slot, cache := some { c with replicationSlot := created } }

/-- What the calls of a write slot decide: the two tries to get the index, the insert itself
and, for an empty table, the build of the graph and the new slot. -/
structure WriteCalls where
  first : EnsureCalls
  second : EnsureCalls
  insert : InsertCalls
  built : Bool
  slotHeld : Bool
  createFails : Bool

/-- `VamanaWorkerBuildEmptyTableIndex` for an INSERT slot. -/
def vamanaWorkerBuildEmptyTableIndex (k : WriteCalls) (t : Tid) (v : V) (s : Server V) :
    Server V × SlotEnd :=
  match s.cache with
  | none => (s, .error)
  | some c =>
    if !k.built then (s, .error)
    else
      let c' := buildFirstInsert t v c
      let (slot, created) :=
        if c.replicationSlot then (s.slot, true)
        else vamanaReplicationCreate k.slotHeld k.createFails s.slot
      if !created then ({ s with cache := some c', slot := slot }, .error)
      else
        let c' := { c' with replicationSlot := true }
        if k.insert.persist = .failed then ({ s with cache := some c', slot := slot }, .error)
        else
          ({ s with
              slot := slot
              cache := some { c' with opsSinceCheckpoint := c'.opsSinceCheckpoint + 1 }
              disk := { s.disk with metap := persistMetaCounters k.insert.persist c' s.disk.metap } },
            .done 0)

/-- The first part of `VamanaWorkerExecuteWriteSlot`: the index, loaded and caught up if it is
not in the cache, with one retry. -/
def resolveForWrite (k : WriteCalls) (s : Server V) : Server V × Ensured V :=
  let firstTry : Server V × Ensured V :=
    match s.cache with
    | some c => (s, .handle c.svsIndex)
    | none => vamanaWorkerEnsureIndexCurrent k.first s
  match firstTry with
  | (s', .handle none) => vamanaWorkerEnsureIndexCurrent k.second s'
  | r => r

/-- `VamanaWorkerExecuteWriteSlot` for an INSERT slot. -/
def vamanaWorkerExecuteInsert (k : WriteCalls) (t : Tid) (v : V) (s : Server V) :
    Server V × SlotEnd :=
  match resolveForWrite k s with
  | (s', .raised) => (s', .error)
  | (s', .handle none) => vamanaWorkerBuildEmptyTableIndex k t v s'
  | (s', .handle (some g)) =>
    match s'.cache with
    | none => (s', .error)
    | some c =>
      let (c', m, slotEnd) := executeInsertSlot k.insert t v g c s'.disk.metap
      ({ s' with cache := some c', disk := { s'.disk with metap := m } }, slotEnd)

/-- `VamanaWorkerExecuteWriteSlot` for a DELETE slot; the flag says whether it is DONE. -/
def vamanaWorkerExecuteDelete (k : WriteCalls) (ids : List Nat) (s : Server V) :
    Server V × Bool :=
  match resolveForWrite k s with
  | (s', .raised) => (s', false)
  | (s', .handle none) => (s', false)
  | (s', .handle (some g)) =>
    match s'.cache with
    | none => (s', false)
    | some c =>
      let (c', m, done) := executeDeleteSlot k.insert.persist ids g c s'.disk.metap
      ({ s' with cache := some c', disk := { s'.disk with metap := m } }, done)

/-- `PerformCheckpoint` on the entry in the cache. The position is taken before the save, and
the slot is advanced to it when the entry has a handle and no one holds the slot. -/
def performCheckpoint (saveFails slotBusy : Bool) (s : Server V) : Server V :=
  match s.cache with
  | none => s
  | some c =>
    if c.svsIndex.isNone then s
    else if saveFails then { s with disk := vamanaDeleteSaveDir s.disk }
    else
      let c' := { c with numDeleted := 0 }
      let d := vamanaSaveIndexToDisk c' s.disk
      if !c.replicationSlot then
        { s with disk := d, cache := some { c' with opsSinceCheckpoint := 0 } }
      else if slotBusy || s.slot.isNone then { s with disk := d, cache := some c' }
      else
        { s with
          disk := d
          slot := some ⟨some s.db.wal.length⟩
          cache := some { c' with opsSinceCheckpoint := 0 } }

/-- The server stops: the cache and the transactions in progress are gone, and the slot is
back at a position it had on disk. -/
def crash (flushed : Nat) (s : Server V) : Server V :=
  { s with
    db := s.db.step .crash
    slot := s.slot.map fun r => ⟨r.confirmedFlush.map (min flushed)⟩
    cache := none }

/-! ## The steps -/

/-- What can happen to the index: statements of sessions, VACUUM freeing a TID, write slots,
loads, the worker's own rounds, and a crash. -/
inductive Event (V : Type)
  | begin
  | insert (k : WriteCalls) (xid : Nat) (t : Tid) (v : V)
  | delete (xid : Nat) (t : Tid)
  | commit (xid : Nat)
  | abort (xid : Nat)
  | prune (t : Tid)
  | deleteIds (k : WriteCalls) (ids : List Nat)
  | load (k retry : GetCalls)
  | loadSlot (k : LoadSlotCalls)
  | drain (k : DrainFaults)
  | checkpoint (saveFails slotBusy : Bool)
  | evict
  | walBudget (slotHeld : Bool)
  | crash (flushed : Nat)

/-- `aminsert` after the heap tuple was stored; an error of the worker aborts the
transaction. -/
def insertRow (k : WriteCalls) (xid : Nat) (t : Tid) (v : V) (s : Server V) : Server V :=
  if xid ∈ s.db.active ∧ (s.db.tupleAt t).isNone then
    match vamanaWorkerExecuteInsert k t v { s with db := s.db.step (.insert xid t v) } with
    | (s', .done _) => s'
    | (s', .error) => { s' with db := s'.db.step (.abort xid) }
  else s

/-- One step. A write slot that finds no entry first loads and drains one, and those are
steps of their own. -/
def step (s : Server V) : Event V → Server V
  | .begin => { s with db := s.db.step .begin }
  | .insert k xid t v => if s.cache.isSome then insertRow k xid t v s else s
  | .delete xid t => { s with db := s.db.step (.delete xid t) }
  | .commit xid => { s with db := s.db.step (.commit xid) }
  | .abort xid => { s with db := s.db.step (.abort xid) }
  | .prune t => { s with db := s.db.step (.prune t) }
  | .deleteIds k ids => if s.cache.isSome then (vamanaWorkerExecuteDelete k ids s).1 else s
  | .load k retry => (vamanaWorkerGetOrLoadIndex k retry s).1
  | .loadSlot k => vamanaWorkerProcessLoadSlot k s
  | .drain k => (vamanaReplicationDrainSlot k s).1
  | .checkpoint saveFails slotBusy => performCheckpoint saveFails slotBusy s
  | .evict => { s with cache := none }
  | .walBudget slotHeld => vamanaForceHeapRebuild slotHeld s
  | .crash flushed => crash flushed s

/-- The index right after it was created over what the history left in the heap: built,
saved and resident, with a slot that is consistent. -/
def created (rel : Relation) (history : List (Op V)) : Server V :=
  let db := run Database.step (Database.start rel) history
  let noCopy : Disk V := ⟨none, ⟨false, 0, 0, 0, 0⟩⟩
  match vamanaRebuildFromTable (visibleRows db) with
  | none => ⟨db, noCopy, none, some emptyTableIndex⟩
  | some c =>
    ⟨db, vamanaSaveIndexToDisk c noCopy, some ⟨some db.wal.length⟩,
      some { c with replicationSlot := true }⟩

end Server

end svs_vamana.server
