-- A transaction of one backend, its slot and the worker. A wait can be given up while the worker
-- goes on.
import SvsVamana.DeleteTargets

namespace svs_vamana.session

open index_cache saved_index database write_slot server transition_runs
open replay_position undo_log delete_targets Function Option
open Server hiding step Event

variable {V : Type}

/-! ## The pure model -/

/-- What a backend asks the worker for; an INSERT is of the subtransaction `subxid`. -/
inductive Request (V : Type)
  | insert (t : Tid) (v : V) (subxid : Nat)
  | delete (ids : List Nat)
  | search

/-- `slot->status`, with what the slot holds. -/
inductive SlotStatus (V : Type)
  | empty
  | pending (r : Request V)
  | processing (r : Request V)
  | done (externalId : Nat)
  | error

/-- The request that the worker has still to finish. -/
def SlotStatus.request : SlotStatus V → Option (Request V)
  | .pending r => some r
  | .processing r => some r
  | _ => none

/-- `VamanaWorkerClaimSlot` and the publication of the request. What an earlier request left in
the slot is cleared. -/
def claimSlot (available : Bool) (r : Request V) (slot : SlotStatus V) : Option (SlotStatus V) :=
  if available && slot.request.isNone then some (.pending r) else none

/-- What `VamanaWorkerWaitForSlot` does to the slot when it stops waiting: only a request that
is PENDING is taken back. -/
def SlotStatus.cancel : SlotStatus V → SlotStatus V
  | .pending _ => .empty
  | slot => slot

/-- Where the backend is. In an abort, `batches` are the DELETE slots still to be sent, and
`ends` says that the transaction is over after them. -/
inductive Phase
  | running
  | inserting
  | searching
  | failed
  | undoing (batches : List (List (VamanaUndoEntry Unit))) (ends : Bool)
  | deleting (batches : List (List (VamanaUndoEntry Unit))) (ends : Bool)
  | ended

def Phase.isOpen : Phase → Bool
  | .undoing _ ends => !ends
  | .deleting _ ends => !ends
  | .ended => false
  | _ => true

def Phase.waits : Phase → Bool
  | .inserting => true
  | .searching => true
  | .deleting _ _ => true
  | _ => false

/-- `nest` has the open subtransactions, innermost first; `owner` says for which subtransaction a
point was added; `aborted` has those that aborted with the worker available. -/
structure Session (V : Type) where
  server : Server V
  slot : SlotStatus V
  phase : Phase
  nest : List Nat
  nextSubid : Nat
  log : List (VamanaUndoEntry Unit)
  owner : Nat → Option Nat
  aborted : Nat → Bool

/-- `GetCurrentSubTransactionId`. -/
def Session.current (w : Session V) : Nat := w.nest.headD 0

def afterBatch (batches : List (List (VamanaUndoEntry Unit))) (ends : Bool) : Phase :=
  match batches with
  | [] => if ends then .ended else .running
  | _ :: _ => .undoing batches ends

/-- `VamanaWorkerSubmitInsert` and `VamanaWorkerSubmitSearch` up to the wait. Without the slot
the statement fails. -/
def submit (available : Bool) (r : Request V) (waits : Phase) (w : Session V) : Session V :=
  match claimSlot available r w.slot with
  | none => { w with phase := .failed }
  | some slot => { w with slot := slot, phase := waits }

/-- The id that `SVSAddPoints`, or the build of the first graph, adds the point under. -/
def addedId (k : WriteCalls) (s : Server V) : Option Nat :=
  s.cache.bind fun c =>
    if c.svsIndex.isSome then (if k.insert.added then some c.nextExternalId else none)
    else if k.built then some 0 else none

/-- How an INSERT slot ends. -/
def statusOf : SlotEnd → SlotStatus V
  | .done e => .done e
  | .error => .error

/-- `VamanaWorkerProcessWriteSlot`. Without an entry the slot ends in an error; a load that comes
before it is a step of its own. -/
def finish (k : WriteCalls) (r : Request V) (w : Session V) : Session V :=
  if w.server.cache.isNone then { w with slot := .error }
  else
    match r with
    | .insert t v subxid =>
      { w with
        server := (vamanaWorkerExecuteInsert k t v w.server).1
        slot := statusOf (vamanaWorkerExecuteInsert k t v w.server).2
        owner :=
          match addedId k w.server with
          | none => w.owner
          | some e => update w.owner e (some subxid) }
    | .delete ids =>
      { w with
        server := (vamanaWorkerExecuteDelete k ids w.server).1
        slot := if (vamanaWorkerExecuteDelete k ids w.server).2 then .done 0 else .error }
    | .search => { w with slot := .done 0 }

/-- The steps of the worker that leave the graph of a resident entry in place. -/
def keepsGraph : Server.Event V → Bool
  | .loadSlot _ => false
  | .drain _ => false
  | .evict => false
  | .walBudget _ => false
  | e => isBackground e

/-- The statements of the transaction, what its waits come to, the worker's steps, and changes of
the heap by any session. -/
inductive Event (V : Type)
  | savepoint
  | release
  | rollbackTo (workerAvailable : Bool)
  | rollback (workerAvailable : Bool)
  | commit
  | insert (maxEntries : Nat) (available : Bool) (t : Tid) (v : V)
  | search (available : Bool)
  | submitUndo (available : Bool)
  | wake
  | giveUp (cancelled : Bool)
  | promote
  | finish (k : WriteCalls)
  | background (e : Server.Event V)
  | heap (op : Op V)

/-- An abort with its DELETE slots. -/
def startUndo (batches : List (List (VamanaUndoEntry Unit))) (ends : Bool) (w : Session V) :
    Session V := { w with phase := afterBatch batches ends }

/-- `SUBXACT_EVENT_ABORT_SUB` for the innermost subtransaction. -/
def abortSub (workerAvailable : Bool) (w : Session V) : Session V :=
  match w.nest with
  | subxid :: parent :: rest =>
    let (batches, log) := vamanaSubXactAbort workerAvailable subxid w.log
    startUndo batches false
      { w with
        nest := parent :: rest
        log := log
        aborted := if workerAvailable then update w.aborted subxid true else w.aborted }
  | _ => w

/-- `XACT_EVENT_ABORT`. -/
def abortXact (workerAvailable : Bool) (w : Session V) : Session V :=
  startUndo (vamanaXactAbort workerAvailable w.log) true
    { w with
      nest := []
      log := []
      aborted := if workerAvailable then fun _ => true else w.aborted }

/-- `SUBXACT_EVENT_COMMIT_SUB` for the innermost subtransaction. -/
def releaseSub (w : Session V) : Session V :=
  match w.nest with
  | subxid :: parent :: rest =>
    { w with
      nest := parent :: rest
      log := reparentSubxact subxid parent w.log
      owner := fun e => if w.owner e = some subxid then some parent else w.owner e }
  | _ => w

/-- The wait is over, with DONE or ERROR in the slot. -/
def wake (w : Session V) : Session V :=
  match w.phase, w.slot with
  | .inserting, .done e =>
    { w with slot := .empty, phase := .running, log := vamanaUndoAppend 0 e w.current () w.log }
  | .inserting, .error => { w with slot := .empty, phase := .failed }
  | .searching, .done _ => { w with slot := .empty, phase := .running }
  | .searching, .error => { w with slot := .empty, phase := .failed }
  | .deleting batches ends, .done _ =>
    { w with slot := .empty, phase := afterBatch batches ends }
  | .deleting batches ends, .error =>
    { w with slot := .empty, phase := afterBatch batches ends }
  | _, _ => w

/-- The wait is given up: after the timeout, or by an interrupt, which comes before the status
is read again. The undo goes on with its next batch. -/
def giveUp (cancelled : Bool) (w : Session V) : Session V :=
  if !cancelled && w.slot.request.isNone then w
  else
    match w.phase with
    | .inserting => { w with slot := w.slot.cancel, phase := .failed }
    | .searching => { w with slot := w.slot.cancel, phase := .failed }
    | .deleting batches ends =>
      { w with slot := w.slot.cancel, phase := afterBatch batches ends }
    | _ => w

/-- A DELETE slot of the undo; a batch that does not get the slot is skipped. -/
def submitUndo (available : Bool) (w : Session V) : Session V :=
  match w.phase with
  | .undoing (batch :: batches) ends =>
    match claimSlot available (.delete (batch.map (·.externalId))) w.slot with
    | none => { w with phase := afterBatch batches ends }
    | some slot => { w with slot := slot, phase := .deleting batches ends }
  | _ => w

/-- The worker's other rounds. A graph that is dropped or replaced takes its points with it. -/
def background (e : Server.Event V) (w : Session V) : Session V :=
  if isBackground e then
    { w with
      server := w.server.step e
      owner := if keepsGraph e then w.owner else fun _ => none }
  else w

/-- One step; one that the backend or the slot is not ready for changes nothing. -/
def step (w : Session V) : Event V → Session V
  | .savepoint =>
    match w.phase with
    | .running => { w with nest := w.nextSubid :: w.nest, nextSubid := w.nextSubid + 1 }
    | _ => w
  | .release =>
    match w.phase with
    | .running => releaseSub w
    | _ => w
  | .rollbackTo workerAvailable =>
    match w.phase with
    | .running => abortSub workerAvailable w
    | .failed => abortSub workerAvailable w
    | _ => w
  | .rollback workerAvailable =>
    match w.phase with
    | .running => abortXact workerAvailable w
    | .failed => abortXact workerAvailable w
    | _ => w
  | .commit =>
    match w.phase with
    | .running => { w with phase := .ended, nest := [], log := [] }
    | _ => w
  | .insert maxEntries available t v =>
    match w.phase with
    | .running =>
      if vamanaUndoReserve maxEntries w.log then
        submit available (.insert t v w.current) .inserting w
      else { w with phase := .failed }
    | _ => w
  | .search available =>
    match w.phase with
    | .running => submit available .search .searching w
    | _ => w
  | .submitUndo available => submitUndo available w
  | .wake => wake w
  | .giveUp cancelled => giveUp cancelled w
  | .promote =>
    match w.slot with
    | .pending r => { w with slot := .processing r }
    | _ => w
  | .finish k =>
    match w.slot with
    | .processing r => finish k r w
    | _ => w
  | .background e => background e w
  | .heap op => { w with server := { w.server with db := w.server.db.step op } }

/-- A new transaction, in the subtransaction `TopSubTransactionId`. -/
def start (s : Server V) : Session V :=
  ⟨s, .empty, .running, [1], 2, [], fun _ => none, fun _ => false⟩

/-- The vector of a valid point of the graph. -/
def pointOf (s : Server V) (e : Nat) : Option V := s.cache.bind (·.point e)

def Quiet (w : Session V) : Prop :=
  w.slot.request = none ∧
    (∀ batches ends, w.phase ≠ .undoing batches ends) ∧
      ∀ batches ends, w.phase ≠ .deleting batches ends

/-- No point of an aborted insert is left once nothing is outstanding. -/
def NoGhost (w : Session V) : Prop :=
  Quiet w → ∀ e subxid, w.owner e = some subxid → w.aborted subxid = true →
    pointOf w.server e = none

/-- The calls of an INSERT slot that come after the point was added go through. -/
def GoesThrough (k : WriteCalls) : Prop :=
  k.insert.reanchored = true ∧ k.insert.persist ≠ .failed ∧ k.slotHeld = false ∧
    k.createFails = false

/-- The wait must not be given up here: the worker has the request or the id of the point, or
the request is for an undo. -/
def mustWait (w : Session V) : Bool :=
  match w.phase, w.slot with
  | _, .processing _ => true
  | .inserting, .done _ => true
  | .deleting _ _, .pending _ => true
  | _, _ => false

/-- No wait is given up that the worker goes on with, no insert fails after its point was added, the
worker stays available for the undo, and the graph stays resident. -/
def Undisturbed (w : Session V) : Event V → Prop
  | .giveUp _ => mustWait w = false
  | .submitUndo available => available = true
  | .finish k => ∀ t v subxid, w.slot = .processing (.insert t v subxid) → GoesThrough k
  | .background e => (∀ x, w.owner x = none) ∨ keepsGraph e = true
  | _ => True

/-! ## What the worker does to the points -/

def hasGraph (s : Server V) : Bool := (s.cache.bind (·.svsIndex)).isSome

/-- `s'` has the points and the next id of `s`. -/
structure SamePoints (s s' : Server V) : Prop where
  point : ∀ e, pointOf s' e = pointOf s e
  next : nextId s' = nextId s
  graph : hasGraph s' = hasGraph s

variable {s : Server V}

theorem SamePoints.of_cache {s' : Server V} (h : s'.cache = s.cache) : SamePoints s s' := by
  refine ⟨fun e => ?_, ?_, ?_⟩
  · rw [pointOf, pointOf, h]
  · rw [nextId, nextId, h]
  · rw [hasGraph, hasGraph, h]

theorem SamePoints.refl (s : Server V) : SamePoints s s := .of_cache rfl

variable {c : IndexCache V}

theorem SamePoints.of_same {s' : Server V} {c' : IndexCache V} (hc : s.cache = some c)
    (hc' : s'.cache = some c') (h : IndexCache.Same c c') : SamePoints s s' := by
  refine ⟨fun e => ?_, ?_, ?_⟩
  · rw [pointOf, pointOf, hc, hc']
    exact h.point e
  · rw [nextId, nextId, hc, hc', map_some, map_some, h.nextExternalId]
  · rw [hasGraph, hasGraph, hc, hc', bind_some, bind_some, h.svsIndex]

theorem pointOf_of_no_graph (h : hasGraph s = false) (e : Nat) : pointOf s e = none := by
  obtain ⟨db, disk, slot, _ | c⟩ := s
  · rfl
  · simp only [hasGraph, bind_some, isSome_eq_false_iff, isNone_iff_eq_none] at h
    simp [pointOf, IndexCache.point, h]

/-- What an INSERT slot comes to for the points: an error with nothing added, or DONE with the
point under a new id. -/
inductive InsertedPoint (k : WriteCalls) (v : V) (s s' : Server V) : SlotEnd → Prop
  | refused (hadded : addedId k s = none) (hsame : SamePoints s s') :
      InsertedPoint k v s s' .error
  | added {e : Nat} (hadded : addedId k s = some e) (hnew : hasGraph s = true → e = nextId s)
      (hgraph : hasGraph s' = true) (hnext : nextId s' = e + 1)
      (hpoint : pointOf s' = update (pointOf s) e (some v)) :
      InsertedPoint k v s s' (.done e)

variable {k : WriteCalls}

section

variable (hk : GoesThrough k) (t : Tid) (v : V)
include hk

theorem insertedPoint_first (hc : s.cache = some c) (hg : c.svsIndex = none) :
    InsertedPoint k v s (vamanaWorkerBuildEmptyTableIndex k t v s).1
      (vamanaWorkerBuildEmptyTableIndex k t v s).2 := by
  obtain ⟨-, hper, hh, hcr⟩ := hk
  obtain ⟨db, disk, slot, cache⟩ := s
  obtain rfl : cache = some c := hc
  rcases hbu : k.built with _ | _
  · simp only [vamanaWorkerBuildEmptyTableIndex, hbu]
    exact .refused (by simp [addedId, hg, hbu]) (.of_cache rfl)
  · have hp : (pointOf ⟨db, disk, slot, some (buildFirstInsert t v c)⟩) =
        update (pointOf ⟨db, disk, slot, some c⟩) 0 (some v) := by
      funext e
      rcases e with _ | e
      · rfl
      · have hn : pointOf ⟨db, disk, slot, some c⟩ (e + 1) = none :=
          pointOf_of_no_graph (by simp [hasGraph, hg]) (e + 1)
        rw [update_of_ne (Nat.succ_ne_zero e), hn]
        rfl
    rcases hr : c.replicationSlot with _ | _
    all_goals
      simp only [vamanaWorkerBuildEmptyTableIndex, hbu, hr, hh, hcr,
        vamanaReplicationCreate, hper, Bool.not_true, Bool.false_and, Bool.false_eq_true,
        if_false, if_true]
      exact .added (by simp [addedId, hg, hbu]) (by simp [hasGraph, hg]) rfl rfl hp

theorem insertedPoint_next (hc : s.cache = some c) {g : SvsIndex V} (hg : c.svsIndex = some g) :
    InsertedPoint k v s (vamanaWorkerExecuteInsert k t v s).1
      (vamanaWorkerExecuteInsert k t v s).2 := by
  obtain ⟨hre, hper, -, -⟩ := hk
  obtain ⟨db, disk, slot, cache⟩ := s
  obtain rfl : cache = some c := hc
  unfold vamanaWorkerExecuteInsert
  rw [resolveForWrite_cached k rfl, hg]
  rcases hadd : k.insert.added with _ | _
  · simp only [executeInsertSlot, svsAddPoints, hadd, Bool.false_eq_true, if_false]
    exact .refused (by simp [addedId, hg, hadd]) (.of_cache rfl)
  · simp only [executeInsertSlot, svsAddPoints, hadd, hre, hper, if_true, if_false, Bool.not_true,
      Bool.false_eq_true]
    refine .added (by simp [addedId, hg, hadd]) (fun _ => rfl) rfl rfl ?_
    funext e
    simp only [pointOf, IndexCache.point, mapNewPoint, hg, bind_some, update]

theorem executeInsert_points (hs : s.cache.isSome) :
    InsertedPoint k v s (vamanaWorkerExecuteInsert k t v s).1
      (vamanaWorkerExecuteInsert k t v s).2 := by
  obtain ⟨c, hc⟩ := isSome_iff_exists.mp hs
  rcases hg : c.svsIndex with _ | g
  · have hbu : vamanaWorkerExecuteInsert k t v s =
        vamanaWorkerBuildEmptyTableIndex k t v s := by
      unfold vamanaWorkerExecuteInsert
      rw [resolveForWrite_cached k hc, hg]
    rw [hbu]
    exact insertedPoint_first hk t v hc hg
  · exact insertedPoint_next hk t v hc hg

end

theorem executeDelete_points (k : WriteCalls) {ids : List Nat} (hs : s.cache.isSome)
    (hv : ∀ e ∈ ids, (pointOf s e).isSome) :
    (∀ e, pointOf (vamanaWorkerExecuteDelete k ids s).1 e =
      if e ∈ ids then none else pointOf s e) ∧
    nextId (vamanaWorkerExecuteDelete k ids s).1 = nextId s ∧
    (hasGraph s = true → hasGraph (vamanaWorkerExecuteDelete k ids s).1 = true) := by
  obtain ⟨db, disk, slot, _ | c⟩ := s
  · cases hs
  rcases executeDelete_outcome k ids (s := ⟨db, disk, slot, some c⟩) rfl with
    ⟨heq, hn | hr⟩ | ⟨c', m, heq, -, hdel, -⟩
  · rw [heq]
    refine ⟨fun e => ?_, rfl, id⟩
    rw [pointOf_of_no_graph (by simp [hasGraph, hn]) e, ite_self]
  · exact absurd hv hr
  · rw [heq]
    exact ⟨hdel.point, hdel.next, fun _ => hdel.graph⟩

theorem samePoints_step {e : Server.Event V} (hs : s.cache.isSome) (hk : keepsGraph e = true) :
    SamePoints s (s.step e) := by
  cases e with
  | load k retry =>
    rw [Server.step, getOrLoadIndex_cached k retry hs]
    exact .of_cache rfl
  | checkpoint saveFails slotBusy =>
    have hout := checkpoint_outcome saveFails slotBusy s
    rw [Server.step]
    generalize performCheckpoint saveFails slotBusy s = s' at hout ⊢
    cases hout with
    | idle _ => exact .of_cache rfl
    | failed _ => exact .of_cache rfl
    | saved hc _ _ hc' => exact .of_same hc rfl hc'
  | begin | delete xid t | commit xid | abort xid | prune t => exact .of_cache rfl
  | _ => cases hk

end svs_vamana.session
