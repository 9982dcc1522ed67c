-- Replay of a replication slot: the pre-scan of the heap records, the output plugin and the
-- application of one change to the cache entry.
import SvsVamana.IndexCache

namespace svs_vamana.replay

open index_cache

variable {V : Type}

/-! ## The WAL -/

/-- A heap relation: its Oid and its relfilenode. -/
structure Relation where
  relid : Nat
  relNumber : Nat
deriving DecidableEq, Repr

/-- The records replay reads. `commit` and `abort` end the transaction of the record. -/
inductive WalBody
  | heapInsert (rel : Relation) (containsNewTuple : Bool) (tid : Tid)
  | heapDelete (rel : Relation) (tid : Tid)
  | heapUpdate (rel : Relation) (oldTid newTid : Tid)
  | heap2MultiInsert (rel : Relation) (containsNewTuple isinit : Bool) (blkno ntuples : Nat)
      (offsets : List Nat) (dataLen : Nat)
  | commit
  | abort
  | other
deriving DecidableEq, Repr

/-- A WAL record. Its LSN is its place in the WAL, so the position after the first `n`
records is `n`. -/
structure WalRecord where
  xid : Nat
  body : WalBody
deriving DecidableEq, Repr

/-- `LsnTidEntry`. -/
structure LsnTidEntry where
  tids : List Tid
  nextIdx : Nat
deriving DecidableEq, Repr

/-- `MaxHeapTuplesPerPage` for 8 kB pages. -/
def maxHeapTuplesPerPage : Nat := 291

/-- `SizeOfHeapMultiInsert`. -/
def sizeOfHeapMultiInsert : Nat := 4

/-- `sizeof(OffsetNumber)`. -/
def sizeOfOffsetNumber : Nat := 2

/-- `VamanaMultiInsertCountsValid`. -/
def vamanaMultiInsertCountsValid (ntuples : Nat) (isinit : Bool) (dataLen : Nat) : Bool :=
  if ntuples = 0 ∨ ntuples > maxHeapTuplesPerPage then false
  else if !isinit ∧ dataLen < sizeOfHeapMultiInsert + ntuples * sizeOfOffsetNumber then false
  else true

/-- The TIDs of a multi-insert; a record that fills a new page numbers them from 1. -/
def multiInsertTids (isinit : Bool) (blkno ntuples : Nat) (offsets : List Nat) : List Tid :=
  (List.range ntuples).map fun i => ⟨blkno, if isinit then 1 + i else offsets.getD i 0⟩

/-- The entry written for the record at `lsn`: a new one starts at its first TID. -/
def enterTids (h : Nat → Option LsnTidEntry) (lsn : Nat) (tids : List Tid) :
    Nat → Option LsnTidEntry :=
  match h lsn with
  | none => Function.update h lsn (some ⟨tids, 0⟩)
  | some entry => Function.update h lsn (some { entry with tids := tids })

/-- `VamanaPreScanWalRecord`; `none` is an error. -/
def vamanaPreScanWalRecord (heapRelfilenode lsn : Nat) (h : Nat → Option LsnTidEntry) :
    WalBody → Option (Nat → Option LsnTidEntry)
  | .heapDelete rel tid =>
    if rel.relNumber ≠ heapRelfilenode then some h else some (enterTids h lsn [tid])
  | .heapInsert rel containsNewTuple tid =>
    if !containsNewTuple then some h
    else if rel.relNumber ≠ heapRelfilenode then some h
    else some (enterTids h lsn [tid])
  | .heap2MultiInsert rel containsNewTuple isinit blkno ntuples offsets dataLen =>
    if !containsNewTuple then some h
    else if rel.relNumber ≠ heapRelfilenode then some h
    else if !vamanaMultiInsertCountsValid ntuples isinit dataLen then none
    else if !isinit && (offsets.take ntuples).any
        (fun o => decide (o < 1) || decide (o > maxHeapTuplesPerPage)) then none
    else some (enterTids h lsn (multiInsertTids isinit blkno ntuples offsets))
  | .heapUpdate .. => some h
  | .commit => some h
  | .abort => some h
  | .other => some h

/-! ## The decoded changes -/

/-- The kind of a decoded change. -/
inductive Action
  | insert
  | update
  | delete
deriving DecidableEq, Repr

/-- `ReorderBufferChange`, with the Oid of its relation. -/
structure Change where
  lsn : Nat
  action : Action
  relid : Nat
deriving DecidableEq, Repr

/-- The changes logical decoding makes of a record: one for each tuple. -/
def changesOf (lsn : Nat) : WalBody → List Change
  | .heapInsert rel containsNewTuple _ =>
    if containsNewTuple then [⟨lsn, .insert, rel.relid⟩] else []
  | .heapDelete rel _ => [⟨lsn, .delete, rel.relid⟩]
  | .heapUpdate rel _ _ => [⟨lsn, .update, rel.relid⟩]
  | .heap2MultiInsert rel containsNewTuple _ _ ntuples _ _ =>
    if containsNewTuple then List.replicate ntuples ⟨lsn, .insert, rel.relid⟩ else []
  | .commit => []
  | .abort => []
  | .other => []

/-- What the calls for one change decide: the tuple stored at a TID now, and whether reading its
vector or `SVSAddPoints` fails for the change at an LSN. -/
structure ApplyCalls (V : Type) where
  fetch : Tid → Option (Option V)
  readFails : Nat → Tid → Bool
  added : Nat → Tid → Bool

/-- `ApplyInsertChange`; `none` when nothing was applied. The error of a tuple that cannot
be read is caught by `ReplayChangeGuarded`, which skips the change. -/
def applyInsertChange (k : ApplyCalls V) (lsn : Nat) (t : Tid) (c : IndexCache V) :
    Option (IndexCache V) :=
  match c.eidOf t with
  | some _ => none
  | none =>
    match c.svsIndex with
    | none => none
    | some g =>
      match k.fetch t with
      | none => none
      | some none => none
      | some (some v) =>
        if k.readFails lsn t then none
        else
          (svsAddPoints (k.added lsn t) g c.nextExternalId v).map fun g' =>
            { mapNewPoint c g' t c.nextExternalId with
              opsSinceCheckpoint := c.opsSinceCheckpoint + 1 }

/-- `ApplyDeleteChange`; `none` when nothing was applied. -/
def applyDeleteChange (t : Tid) (c : IndexCache V) : Option (IndexCache V) :=
  match c.eidOf t with
  | none => none
  | some externalId =>
    match c.svsIndex with
    | none => none
    | some g =>
      (svsDeletePoints g [externalId]).map fun g' =>
        { c with
          svsIndex := some g'
          tidMapping := c.tidMapping.set externalId none
          tidToExternalId := c.tidToExternalId.map (hashRemove · t)
          numDeleted := c.numDeleted + 1
          numVectors := c.numVectors - 1
          opsSinceCheckpoint := c.opsSinceCheckpoint + 1 }

/-- `VamanaReplayContext`: the cache entry, the pre-scanned TIDs and the changes applied. -/
structure ReplayContext (V : Type) where
  cache : IndexCache V
  lsnToTidList : Nat → Option LsnTidEntry
  opsDecoded : Nat

/-- `ReplayChangeGuarded` with `ApplyChangeBody`. -/
def replayChangeGuarded (k : ApplyCalls V) (action : Action) (lsn : Nat) (t : Tid)
    (p : ReplayContext V) : ReplayContext V :=
  match (if action = .insert then applyInsertChange k lsn t p.cache
    else applyDeleteChange t p.cache) with
  | none => p
  | some c => { p with cache := c, opsDecoded := p.opsDecoded + 1 }

/-- `PluginChange`. The cursor moves on even when the change is skipped. -/
def pluginChange (k : ApplyCalls V) (heapRelid : Nat) (p : ReplayContext V) (ch : Change) :
    ReplayContext V :=
  if ch.relid ≠ heapRelid then p
  else if ch.action ≠ .insert ∧ ch.action ≠ .delete then p
  else
    match p.lsnToTidList ch.lsn with
    | none => p
    | some entry =>
      match entry.tids[entry.nextIdx]? with
      | none => p
      | some t =>
        replayChangeGuarded k ch.action ch.lsn t
          { p with
            lsnToTidList :=
              Function.update p.lsnToTidList ch.lsn (some { entry with nextIdx := entry.nextIdx + 1 }) }

/-- The reader and the reorder buffer: the end of the last record read, and the records of
the transactions that have not ended yet. -/
structure Decoder (V : Type) where
  endRecPtr : Nat
  buffer : List (Nat × WalRecord)
  ctx : ReplayContext V

/-- The pre-scan, then logical decoding of the record. A commit at or after `confirmed_flush` hands
its changes to the plugin; `none` is an error of the pre-scan. -/
def replayRecordCallback (k : ApplyCalls V) (heap : Relation) (confirmedFlush : Nat)
    (d : Decoder V) (r : WalRecord) : Option (Decoder V) :=
  (vamanaPreScanWalRecord heap.relNumber d.endRecPtr d.ctx.lsnToTidList r.body).map fun h =>
    let ctx := { d.ctx with lsnToTidList := h }
    match r.body with
    | .commit =>
      { endRecPtr := d.endRecPtr + 1
        buffer := d.buffer.filter fun x => x.2.xid ≠ r.xid
        ctx :=
          if confirmedFlush ≤ d.endRecPtr then
            ((d.buffer.filter fun x => x.2.xid = r.xid).flatMap fun x =>
              changesOf x.1 x.2.body).foldl (pluginChange k heap.relid) ctx
          else ctx }
    | .abort =>
      { endRecPtr := d.endRecPtr + 1
        buffer := d.buffer.filter fun x => x.2.xid ≠ r.xid
        ctx := ctx }
    | _ =>
      { endRecPtr := d.endRecPtr + 1, buffer := d.buffer ++ [(d.endRecPtr, r)], ctx := ctx }

/-- `VamanaRunDecodeLoop`; the flag says whether it came to the end without an error. -/
def vamanaRunDecodeLoop (k : ApplyCalls V) (heap : Relation) (confirmedFlush : Nat) :
    List WalRecord → Decoder V → Decoder V × Bool
  | [], d => (d, true)
  | r :: rest, d =>
    match replayRecordCallback k heap confirmedFlush d r with
    | none => (d, false)
    | some d' => vamanaRunDecodeLoop k heap confirmedFlush rest d'

/-- What decides how a drain goes: the calls made for the changes, whether the slot can be
acquired, and the record at which an error or a shutdown is raised, if any. -/
structure DrainCalls (V : Type) where
  apply : ApplyCalls V
  slotFree : Bool
  raiseAt : Option Nat

/-- How `VamanaReplayPendingChanges` ends: it returns with the entry and the
`confirmed_flush` of the slot, or it raises an error with the entry as far as it got. -/
inductive Replayed (V : Type)
  | returned (c : IndexCache V) (confirmedFlush : Nat)
  | raised (c : IndexCache V)

def noNewWal (c : IndexCache V) (currentEnd : Nat) : Bool :=
  match c.lastReplayWalEnd with
  | none => false
  | some walEnd => decide (currentEnd ≤ walEnd)

def recordsRead (wal : List WalRecord) : Option Nat → List WalRecord
  | none => wal
  | some n => wal.take n

/-- `VamanaReplayPendingChanges`. The position is confirmed when a change was applied. -/
def vamanaReplayPendingChanges (k : DrainCalls V) (heap : Relation) (wal : List WalRecord)
    (confirmedFlush : Nat) (c : IndexCache V) : Replayed V :=
  if noNewWal c wal.length then .returned c confirmedFlush
  else if !k.slotFree then .returned c confirmedFlush
  else
    let (d, ok) := vamanaRunDecodeLoop k.apply heap confirmedFlush (recordsRead wal k.raiseAt)
      ⟨0, [], ⟨c, fun _ => none, 0⟩⟩
    if ok && k.raiseAt.isNone then
      .returned { d.ctx.cache with lastReplayWalEnd := some wal.length }
        (if d.ctx.opsDecoded > 0 then d.endRecPtr else confirmedFlush)
    else .raised d.ctx.cache

end svs_vamana.replay
