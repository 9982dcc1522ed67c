-- The undo of a transaction's inserts (vamana_undo.c) over whole savepoint histories.
import Mathlib.Data.List.Sort
import SvsVamana.Lib.NestedTransactions
import SvsVamana.SvsMemory
import SvsVamana.WriteSlot

namespace svs_vamana.undo_exactness

open transition_runs nested_transactions List
open write_slot (maxDeleteIds)
open svs_memory (vamanaMaxIndexes)

/-! ## The batcher -/

/-- A recorded insert; the subtransaction it belongs to is the tag of its entry. -/
structure VamanaUndoEntry where
  indexRelid : Nat
  externalId : Nat
  growthBytes : UInt64 := 0
  generation : UInt32 := 0
deriving DecidableEq, Repr

def VamanaUndoEntry.target (e : VamanaUndoEntry) : Nat × Nat := (e.indexRelid, e.externalId)

/-- What the worker and the memory accounting are asked for. -/
inductive Request
  | delete (relid : Nat) (ids : List Nat)
  | credit (relid : Nat) (generation : UInt32) (growth : UInt64)
  | consolidate (relid : Nat)
  | compact (relid : Nat)
deriving DecidableEq, Repr

/-- What the outside answers: whether a delete succeeds, and whether a credit puts the database
over its reclaim cap; and the order that `qsort` leaves entries of one index in. -/
structure Env where
  submitDelete : Nat → List Nat → Bool
  creditAbortedInserts : Nat → UInt32 → UInt64 → Bool
  qsort : List (Entry VamanaUndoEntry) → List (Entry VamanaUndoEntry)
  qsort_perm : ∀ log, (qsort log).Perm log
  qsort_sorted : ∀ log, (qsort log).Pairwise fun a b => a.value.indexRelid ≤ b.value.indexRelid
  undoLogMaxEntries : Nat

structure ConsolidatingUndoBatch where
  currentRelid : Nat := 0
  batchIds : List Nat := []
  batchGrowth : UInt64 := 0
  batchGeneration : UInt32 := 0
  consolidateRelids : List Nat := []
  compactRelids : List Nat := []
  requests : List Request := []
deriving DecidableEq, Repr

/-- `ConsolidatingUndoBatchTrackRelid`: past the limit an index is not tracked. -/
def trackRelid (relids : List Nat) (relid : Nat) : List Nat :=
  if relid = 0 ∨ relid ∈ relids ∨ vamanaMaxIndexes ≤ relids.length then relids
  else relids ++ [relid]

namespace ConsolidatingUndoBatch

/-- The credit for a flushed batch, once its delete is confirmed. -/
def creditBatch (env : Env) (b : ConsolidatingUndoBatch) : ConsolidatingUndoBatch :=
  if env.submitDelete b.currentRelid b.batchIds && decide (b.batchGrowth > 0) then
    { b with
      requests := b.requests ++ [.credit b.currentRelid b.batchGeneration b.batchGrowth]
      compactRelids :=
        if env.creditAbortedInserts b.currentRelid b.batchGeneration b.batchGrowth then
          trackRelid b.compactRelids b.currentRelid
        else b.compactRelids }
  else b

def flushCurrent (env : Env) (b : ConsolidatingUndoBatch) : ConsolidatingUndoBatch :=
  if b.batchIds = [] then b else
  let delete := Request.delete b.currentRelid b.batchIds
  let b := creditBatch env { b with requests := b.requests ++ [delete] }
  { b with consolidateRelids := trackRelid b.consolidateRelids b.currentRelid }

/-- Flushes what an entry cannot join. -/
def makeRoom (env : Env) (b : ConsolidatingUndoBatch) (e : VamanaUndoEntry) :
    ConsolidatingUndoBatch :=
  if e.indexRelid ≠ b.currentRelid ∨ maxDeleteIds ≤ b.batchIds.length then
    { b.flushCurrent env with
      currentRelid := e.indexRelid
      batchIds := []
      batchGrowth := 0
      batchGeneration := 0 }
  else b

/-- Only the growth of the highest generation is kept. -/
def add (env : Env) (b : ConsolidatingUndoBatch) (e : VamanaUndoEntry) : ConsolidatingUndoBatch :=
  let b := b.makeRoom env e
  let b := { b with batchIds := b.batchIds ++ [e.externalId] }
  if e.generation > b.batchGeneration then
    { b with batchGeneration := e.generation, batchGrowth := e.growthBytes }
  else if e.generation = b.batchGeneration then
    { b with batchGrowth := b.batchGrowth + e.growthBytes }
  else b

def finish (env : Env) (b : ConsolidatingUndoBatch) : List Request :=
  let b := b.flushCurrent env
  b.requests ++ b.consolidateRelids.map .consolidate ++ b.compactRelids.map .compact

end ConsolidatingUndoBatch

open ConsolidatingUndoBatch

/-- What one abort callback asks for. -/
def undo (env : Env) (entries : List VamanaUndoEntry) : List Request :=
  (entries.foldl (add env) {}).finish env

/-! ## A transaction -/

/-- A backend's transaction: its subtransactions, its undo log, whether the worker is available,
and what each abort callback has asked for. -/
structure Session where
  nest : Nest := {}
  log : List (Entry VamanaUndoEntry) := []
  workerIsAvailable : Bool := true
  callbacks : List (List Request) := []
deriving DecidableEq, Repr

inductive Event
  | savepoint
  | release
  | rollback
  | insert (e : VamanaUndoEntry)
  | workerStops
  | workerStarts
deriving DecidableEq, Repr

/-- `VamanaSubXactCallback` on an abort. Without a worker the log is left as it is. -/
def abortSub (env : Env) (s : Session) (mySubid : Nat) : Session :=
  if s.log = [] ∨ s.workerIsAvailable = false then { s with nest := s.nest.abort }
  else
    { s with
      nest := s.nest.abort
      log := retag mySubid 0 s.log
      callbacks := s.callbacks ++
        [undo env ((s.log.filter fun e => e.tag = mySubid).map Entry.value)] }

/-- One event closes the innermost subtransaction. An insert is recorded if `VamanaUndoReserve`
finds room. -/
def step (env : Env) (s : Session) : Event → Session
  | .savepoint => { s with nest := s.nest.start }
  | .release =>
    match s.nest.inner with
    | [] => s
    | mySubid :: outer =>
      { s with nest := s.nest.commit, log := retag mySubid (outer.headD top) s.log }
  | .rollback =>
    match s.nest.inner with
    | [] => s
    | mySubid :: _ => abortSub env s mySubid
  | .insert e =>
    if s.log.length < env.undoLogMaxEntries then { s with log := enqueue s.nest e s.log } else s
  | .workerStops => { s with workerIsAvailable := false }
  | .workerStarts => { s with workerIsAvailable := true }

/-- `VamanaXactCallback` on an abort: the log is sorted by index and goes through one batcher. -/
def abortTop (env : Env) (s : Session) : Session :=
  if s.log = [] ∨ s.workerIsAvailable = false then { s with nest := s.nest.abortTop }
  else
    { s with
      nest := s.nest.abortTop
      callbacks := s.callbacks ++
        [undo env (((env.qsort s.log).filter fun e => e.tag ≠ 0).map Entry.value)] }

inductive End
  | commit
  | abort
  | prepare
deriving DecidableEq, Repr

/-- Whether the transaction ends in an abort callback. A PREPARE is refused while the log has a
live entry. -/
def aborts (s : Session) : End → Bool
  | .commit => false
  | .abort => true
  | .prepare => s.log.any fun e => e.tag != 0

/-- The end of a transaction. The subtransactions that are still open are closed before it. -/
def finish (env : Env) (s : Session) (ending : End) : Session :=
  if aborts s ending then abortTop env s else s

/-! ## What a callback asks for -/

def deletes (requests : List Request) : List (Nat × Nat) :=
  requests.flatMap fun
    | .delete relid ids => ids.map fun id => (relid, id)
    | _ => []

def affected (requests : List Request) : List Nat :=
  requests.flatMap fun
    | .delete relid _ => [relid]
    | _ => []

/-- A delete of at least one and not too many ids, or the credit for one. -/
def IsBatch : Request → Prop
  | .delete _ ids => ids ≠ [] ∧ ids.length ≤ maxDeleteIds
  | .credit _ _ _ => True
  | _ => False

/-- All affected indexes are among those tracked, or as many as can be. -/
def Tracked (relids affected : List Nat) : Prop :=
  ∀ relid ∈ affected, relid ≠ 0 → relid ∈ relids ∨ relids.length = vamanaMaxIndexes

/-- What an abort callback asks for: the batches first, then that every affected index is
consolidated, up to the limit, and last that some are compacted. -/
def WellOrdered (requests : List Request) : Prop :=
  ∃ (batches : List Request) (consolidated compacted : List Nat),
    requests = batches ++ consolidated.map .consolidate ++ compacted.map .compact ∧
      (∀ r ∈ batches, IsBatch r) ∧ consolidated.Nodup ∧ Tracked consolidated (affected batches)

theorem deletes_append (l l' : List Request) : deletes (l ++ l') = deletes l ++ deletes l' :=
  flatMap_append

theorem affected_append (l l' : List Request) : affected (l ++ l') = affected l ++ affected l' :=
  flatMap_append

/-- The indexes tracked: no more than the limit, and none twice. -/
structure Tracking (relids : List Nat) : Prop where
  nodup : relids.Nodup
  limit : relids.length ≤ vamanaMaxIndexes

theorem Tracking.track {relids : List Nat} (h : Tracking relids) (relid : Nat) :
    Tracking (trackRelid relids relid) := by
  unfold trackRelid
  split
  · exact h
  rename_i hnew
  rw [not_or, not_or, Nat.not_le] at hnew
  refine ⟨?_, by rw [length_append]; exact hnew.2.2⟩
  exact nodup_append.mpr ⟨h.nodup, pairwise_singleton _ _, fun a ha b hb hab =>
    hnew.2.1 (mem_singleton.mp hb ▸ hab ▸ ha)⟩

theorem Tracked.track {relids affected : List Nat} (hl : Tracking relids)
    (h : Tracked relids affected) (relid : Nat) :
    Tracked (trackRelid relids relid) (affected ++ [relid]) := by
  unfold trackRelid
  split
  · rename_i hs
    intro r hr hpos
    obtain hr | hr := mem_append.mp hr
    · exact h r hr hpos
    obtain rfl := mem_singleton.mp hr
    obtain hz | hmem | hf := hs
    · exact absurd hz hpos
    · exact .inl hmem
    · exact .inr (Nat.le_antisymm hl.limit hf)
  · rename_i hnew
    rw [not_or, not_or, Nat.not_le] at hnew
    intro r hr hpos
    obtain hr | hr := mem_append.mp hr
    · obtain hmem | hf := h r hr hpos
      · exact .inl (mem_append_left _ hmem)
      · exact absurd hnew.2.2 (by rw [hf]; exact Nat.lt_irrefl _)
    · exact .inl (mem_append_right _ hr)

/-- What a batcher has done with the entries that it was given. -/
structure Batched (b : ConsolidatingUndoBatch) (entries : List VamanaUndoEntry) : Prop where
  deletes : deletes b.requests ++ b.batchIds.map (fun id => (b.currentRelid, id)) =
    entries.map VamanaUndoEntry.target
  batches : ∀ r ∈ b.requests, IsBatch r
  room : b.batchIds.length ≤ maxDeleteIds
  tracking : Tracking b.consolidateRelids
  tracked : Tracked b.consolidateRelids (affected b.requests)

/-- A flush sends what is in the batch, and tracks its index. -/
structure Flushed (b : ConsolidatingUndoBatch) (entries : List VamanaUndoEntry) : Prop where
  deletes : deletes b.requests = entries.map VamanaUndoEntry.target
  batches : ∀ r ∈ b.requests, IsBatch r
  tracking : Tracking b.consolidateRelids
  tracked : Tracked b.consolidateRelids (affected b.requests)

theorem creditBatch_spec (env : Env) (b : ConsolidatingUndoBatch) :
    (b.creditBatch env).currentRelid = b.currentRelid ∧
      (b.creditBatch env).consolidateRelids = b.consolidateRelids ∧
      deletes (b.creditBatch env).requests = deletes b.requests ∧
      affected (b.creditBatch env).requests = affected b.requests ∧
      ((∀ r ∈ b.requests, IsBatch r) → ∀ r ∈ (b.creditBatch env).requests, IsBatch r) := by
  unfold creditBatch
  split
  · refine ⟨rfl, rfl, ?_, ?_, ?_⟩
    · rw [deletes_append]
      exact append_nil _
    · rw [affected_append]
      exact append_nil _
    · intro h r hr
      obtain hr | hr := mem_append.mp hr
      · exact h r hr
      · rw [mem_singleton.mp hr]
        trivial
  · exact ⟨rfl, rfl, rfl, rfl, fun h => h⟩

variable {b : ConsolidatingUndoBatch} {entries : List VamanaUndoEntry}

section

variable (h : Batched b entries)
include h

theorem Batched.flushed (env : Env) : Flushed (b.flushCurrent env) entries := by
  have hd := h.deletes
  unfold flushCurrent
  split
  · rename_i hem
    rw [hem, map_nil, append_nil] at hd
    exact ⟨hd, h.batches, h.tracking, h.tracked⟩
  · rename_i hf
    dsimp only
    obtain ⟨hre, hc, hdel, haff, hba⟩ := creditBatch_spec env
      { b with requests := b.requests ++ [.delete b.currentRelid b.batchIds] }
    rw [hre, hc]
    refine ⟨?_, ?_, h.tracking.track _, ?_⟩
    · rw [hdel, deletes_append, ← hd]
      exact congrArg (_ ++ ·) (append_nil _)
    · refine hba fun r hr => ?_
      obtain hr | hr := mem_append.mp hr
      · exact h.batches r hr
      · rw [mem_singleton.mp hr]
        exact ⟨hf, h.room⟩
    · rw [haff, affected_append]
      exact h.tracked.track h.tracking b.currentRelid

theorem Batched.makeRoom (env : Env) (e : VamanaUndoEntry) :
    Batched (b.makeRoom env e) entries ∧ (b.makeRoom env e).currentRelid = e.indexRelid ∧
      (b.makeRoom env e).batchIds.length < maxDeleteIds := by
  unfold ConsolidatingUndoBatch.makeRoom
  split
  · have hf := h.flushed env
    refine ⟨⟨?_, hf.batches, Nat.zero_le _, hf.tracking, hf.tracked⟩, rfl, Nat.succ_pos _⟩
    rw [map_nil, append_nil]
    exact hf.deletes
  · rename_i hr
    rw [not_or, not_not, Nat.not_le] at hr
    exact ⟨h, hr.1.symm, hr.2⟩

theorem Batched.regrow (batchGeneration : UInt32) (batchGrowth : UInt64) :
    Batched { b with batchGeneration, batchGrowth } entries :=
  ⟨h.deletes, h.batches, h.room, h.tracking, h.tracked⟩

theorem Batched.add (env : Env) (e : VamanaUndoEntry) : Batched (b.add env e) (entries ++ [e]) := by
  obtain ⟨hb, hr, hro⟩ := h.makeRoom env e
  have hnew : Batched { b.makeRoom env e with
      batchIds := (b.makeRoom env e).batchIds ++ [e.externalId] } (entries ++ [e]) := by
    refine ⟨?_, hb.batches, ?_, hb.tracking, hb.tracked⟩
    · rw [map_append, ← append_assoc, hb.deletes, map_append, hr]
      rfl
    · rw [length_append]
      exact hro
  unfold ConsolidatingUndoBatch.add
  dsimp only
  split
  · exact hnew.regrow _ _
  · split
    · exact hnew.regrow _ _
    · exact hnew

end

theorem batched_foldl {done : List VamanaUndoEntry} (h : Batched b done) (env : Env)
    (entries : List VamanaUndoEntry) : Batched (entries.foldl (add env) b) (done ++ entries) := by
  induction entries generalizing b done with
  | nil => rwa [append_nil]
  | cons e entries ih =>
    have hr := ih (h.add env e)
    rwa [append_assoc] at hr

theorem deletes_maintenance (relids relids' : List Nat) :
    deletes (relids.map .consolidate ++ relids'.map .compact) = [] := by
  unfold deletes
  rw [flatMap_eq_nil_iff]
  intro r hr
  obtain hr | hr := mem_append.mp hr
  · obtain ⟨relid, -, rfl⟩ := mem_map.mp hr
    rfl
  · obtain ⟨relid, -, rfl⟩ := mem_map.mp hr
    rfl

theorem undo_spec (env : Env) (entries : List VamanaUndoEntry) :
    deletes (undo env entries) = entries.map VamanaUndoEntry.target ∧
      WellOrdered (undo env entries) := by
  have hs : Batched {} [] := by
    refine ⟨rfl, fun r hr => absurd hr not_mem_nil, Nat.zero_le _,
      ⟨nodup_nil, Nat.zero_le _⟩, fun r hr => absurd hr not_mem_nil⟩
  have hf := (batched_foldl hs env entries).flushed env
  rw [nil_append] at hf
  unfold undo ConsolidatingUndoBatch.finish
  refine ⟨?_, _, _, _, rfl, hf.batches, hf.tracking.nodup, hf.tracked⟩
  rw [append_assoc, deletes_append, deletes_maintenance, append_nil]
  exact hf.deletes

/-! ## Every history -/

/-- The log follows the subtransactions, and the callbacks have deleted what is dead in it. -/
structure Ok (s : Session) : Prop where
  nest : s.nest.Ok
  log : Fits s.nest s.log
  deleted : (s.callbacks.flatMap deletes).Perm ((dead s.log).map VamanaUndoEntry.target)
  callbacks : ∀ requests ∈ s.callbacks, WellOrdered requests

theorem ok_initial : Ok {} :=
  ⟨Nest.ok_initial, fun _ he => absurd he not_mem_nil, Perm.refl _,
    fun _ hmem => absurd hmem not_mem_nil⟩

variable {env : Env}

theorem wellOrdered_callbacks {callbacks : List (List Request)}
    (h : ∀ requests ∈ callbacks, WellOrdered requests) :
    ∀ requests ∈ callbacks ++ [undo env entries], WellOrdered requests := by
  intro requests hmem
  obtain hmem | hmem := mem_append.mp hmem
  · exact h requests hmem
  · rw [mem_singleton.mp hmem]
    exact (undo_spec env entries).2

/-- The worker is available to the abort of a subtransaction. -/
def Served (s : Session) (e : Event) : Prop := e = .rollback → s.workerIsAvailable = true

deriving instance Decidable for Served

variable {s : Session}

theorem ok_abortSub (h : Ok s) (hs : s.workerIsAvailable = true) {mySubid : Nat}
    {outer : List Nat} (hi : s.nest.inner = mySubid :: outer) : Ok (abortSub env s mySubid) := by
  have hlog : onAbort s.nest s.log = retag mySubid 0 s.log := by
    unfold onAbort
    rw [hi]
  have ha : answering s.nest s.log =
      (s.log.filter fun e => e.tag = mySubid).map Entry.value := by
    unfold answering
    rw [hi]
  have hf := fits_onAbort h.nest h.log
  have hd := dead_onAbort_perm h.nest s.log
  rw [hlog] at hf hd
  rw [ha] at hd
  unfold abortSub
  split
  · rename_i hsk
    have hem : s.log = [] := hsk.resolve_right (by rw [hs]; decide)
    refine ⟨h.nest.abort, ?_, h.deleted, h.callbacks⟩
    dsimp only
    rw [hem]
    exact fun e he => absurd he not_mem_nil
  · refine ⟨h.nest.abort, hf, ?_, wellOrdered_callbacks h.callbacks⟩
    dsimp only
    rw [flatMap_append, flatMap_singleton, (undo_spec env _).1]
    refine (h.deleted.append_right _).trans ?_
    rw [← map_append]
    exact (hd.map _).symm

theorem step_release (env : Env) (s : Session) :
    step env s .release = { s with nest := s.nest.commit, log := onCommit s.nest s.log } := by
  obtain ⟨⟨inner, next, aborted⟩, log, available, callbacks⟩ := s
  cases inner <;> rfl

theorem ok_step (s : Session) (e : Event) (h : Ok s) (hs : Served s e) : Ok (step env s e) := by
  cases e with
  | savepoint => exact ⟨h.nest.start, fits_start h.log, h.deleted, h.callbacks⟩
  | release =>
    rw [step_release]
    refine ⟨h.nest.commit, fits_onCommit h.nest h.log, ?_, h.callbacks⟩
    dsimp only
    rw [dead_onCommit h.nest]
    exact h.deleted
  | rollback =>
    unfold step
    dsimp only
    split
    · exact h
    · rename_i mySubid outer hi
      exact ok_abortSub h (hs rfl) hi
  | insert e =>
    unfold step
    dsimp only
    split
    · refine ⟨h.nest, fits_enqueue h.nest h.log e, ?_, h.callbacks⟩
      dsimp only
      rw [dead_enqueue h.nest]
      exact h.deleted
    · exact h
  | workerStops | workerStarts => exact ⟨h.nest, h.log, h.deleted, h.callbacks⟩

/-- The deletes that were issued are those of the recorded inserts with an aborted enclosing
subtransaction, each once; and each callback consolidates after its batches. -/
structure Exact (nest : Nest) (log : List (Entry VamanaUndoEntry))
    (callbacks : List (List Request)) : Prop where
  deletes : (callbacks.flatMap deletes).Perm
    (((log.filter fun e => Doomed nest e).map Entry.value).map VamanaUndoEntry.target)
  ordered : ∀ requests ∈ callbacks, WellOrdered requests

theorem exact_ok (h : Ok s) : Exact s.nest s.log s.callbacks := by
  refine ⟨?_, h.callbacks⟩
  rw [← dead_eq h.nest h.log]
  exact h.deleted

theorem exact_abortTop (h : Ok s) (hs : s.workerIsAvailable = true) :
    Exact (abortTop env s).nest s.log (abortTop env s).callbacks := by
  unfold abortTop
  split
  · rename_i hsk
    have hem : s.log = [] := hsk.resolve_right (by rw [hs]; decide)
    have hd := h.deleted
    rw [hem] at hd ⊢
    exact ⟨hd, h.callbacks⟩
  · refine ⟨?_, wellOrdered_callbacks h.callbacks⟩
    dsimp only
    rw [filter_doomed_abortTop h.log, flatMap_append, flatMap_singleton, (undo_spec env _).1]
    -- what is dead was deleted before; the sorted log holds the rest
    have hso : ((((env.qsort s.log).filter fun e => e.tag ≠ 0).map Entry.value).map
        VamanaUndoEntry.target).Perm ((live s.log).map VamanaUndoEntry.target) :=
      (((env.qsort_perm s.log).filter _).map _).map _
    refine (h.deleted.append hso).trans ?_
    rw [← map_append]
    exact (perm_append_comm.trans (live_dead_perm s.log)).map _

/-- If the worker is available to each abort callback, the deletes issued are those of the inserts
some enclosing subtransaction of which was aborted, each once, in bounded batches of one index, and
followed by a consolidation. -/
theorem undo_deletes_what_was_aborted (env : Env) (events : List Event) (ending : End)
    (hserved : EachStep (step env) Served {} events)
    (hending : aborts (run (step env) {} events) ending = true →
      (run (step env) {} events).workerIsAvailable = true) :
    Exact (finish env (run (step env) {} events) ending).nest (run (step env) {} events).log
      (finish env (run (step env) {} events) ending).callbacks := by
  have hok : Ok (run (step env) {} events) := run_invariant Ok ok_step ok_initial hserved
  unfold finish
  split
  · rename_i ha
    exact exact_abortTop hok (hending ha)
  · exact exact_ok hok

def plainEnv : Env where
  submitDelete _ _ := true
  creditAbortedInserts _ _ _ := false
  qsort log := log.insertionSort fun a b => a.value.indexRelid ≤ b.value.indexRelid
  qsort_perm := perm_insertionSort _
  qsort_sorted _ :=
    have : Std.Total fun a b : Entry VamanaUndoEntry => a.value.indexRelid ≤ b.value.indexRelid :=
      ⟨fun _ _ => Nat.le_total _ _⟩
    have : IsTrans (Entry VamanaUndoEntry) fun a b => a.value.indexRelid ≤ b.value.indexRelid :=
      ⟨fun _ _ _ => Nat.le_trans⟩
    pairwise_insertionSort _ _
  undoLogMaxEntries := 100

/-- Inserts before, in a savepoint that is rolled back, and in one that is released. -/
def savepointHistory : List Event :=
  [.insert ⟨1, 10, 0, 0⟩, .savepoint, .insert ⟨2, 20, 0, 0⟩, .insert ⟨1, 11, 0, 0⟩, .rollback,
    .savepoint, .insert ⟨1, 12, 0, 0⟩, .release]

theorem an_abort_deletes_what_no_rollback_deleted :
    (finish plainEnv (run (step plainEnv) {} savepointHistory) .abort).callbacks =
        [[.delete 2 [20], .delete 1 [11], .consolidate 2, .consolidate 1],
          [.delete 1 [10, 12], .consolidate 1]] ∧
      Exact (finish plainEnv (run (step plainEnv) {} savepointHistory) .abort).nest
        (run (step plainEnv) {} savepointHistory).log
        (finish plainEnv (run (step plainEnv) {} savepointHistory) .abort).callbacks :=
  ⟨by decide +kernel, undo_deletes_what_was_aborted plainEnv savepointHistory .abort
    (by decide +kernel) fun _ => by decide +kernel⟩

end svs_vamana.undo_exactness
