-- The request slot of one backend, and what the worker does with the slots it has promoted.
import SvsVamana.IndexCache

namespace svs_vamana.request_slot

open index_cache

/-! ## The slot -/

/-- `VAMANA_SLOT_*`. -/
inductive SlotStatus
  | empty
  | pending
  | processing
  | done
  | error
deriving DecidableEq, Repr

/-- `VAMANA_SLOTKIND_*`. -/
inductive SlotKind
  | search
  | insert
  | delete
  | maintenance
  | load
  | warmup
deriving DecidableEq, Repr

/-- `VAMANA_MAINTENANCE_*`. -/
inductive MaintenanceOp
  | consolidate
  | compact
deriving DecidableEq, Repr

/-- `VAMANA_ERR_*`. -/
inductive ErrorCategory
  | none
  | oom
  | data
  | io
  | internal
  | unsupported
deriving DecidableEq, Repr

/-- The shared latch of a slot: whether it is set, and whether a process owns it. -/
structure Latch where
  isSet : Bool
  owned : Bool
deriving DecidableEq, Repr

/-- `VamanaWorkerSlot` with its three buffers. The query-vector buffer has the words that the
last request put there: of a vector, of ids or of load parameters. -/
structure Slot where
  status : SlotStatus
  indexRelid : Nat
  dimensions : Nat
  k : Nat
  searchWindowSize : Nat
  numResults : Nat
  errorMessage : String
  errorCategory : ErrorCategory
  latch : Latch
  slotKind : SlotKind
  maintenanceOp : MaintenanceOp
  writeHeapTid : Tid
  writeExternalId : Nat
  writeSlotCreated : Bool
  writeGrowthBytes : Nat
  writeResidentGeneration : Nat
  queryVec : List Nat
  results : List (Tid × Nat)
deriving DecidableEq, Repr

/-- A slot as `VamanaWorkerResetEntryState` leaves it. -/
def Slot.init : Slot where
  status := .empty
  indexRelid := 0
  dimensions := 0
  k := 0
  searchWindowSize := 0
  numResults := 0
  errorMessage := ""
  errorCategory := .none
  latch := ⟨false, false⟩
  slotKind := .search
  maintenanceOp := .consolidate
  writeHeapTid := ⟨0, 0⟩
  writeExternalId := 0
  writeSlotCreated := false
  writeGrowthBytes := 0
  writeResidentGeneration := 0
  queryVec := []
  results := []

/-! ## The requests -/

/-- What the submit helpers send. -/
inductive Request
  | search (indexRelid : Nat) (queryVector : List Nat) (k searchWindowSize : Nat)
  | insert (indexRelid : Nat) (vector : List Nat) (heapTid : Tid)
  | delete (indexRelid : Nat) (externalIds : List Nat)
  | maintenance (indexRelid : Nat) (op : MaintenanceOp)
  | load (indexRelid : Nat) (params : List Nat)
  | warmup (indexRelid : Nat)
deriving DecidableEq, Repr

/-- `VAMANA_MAX_DIM`. -/
def maxDim : Nat := 2000

/-- `VAMANA_MAX_SEARCH_WINDOW`. -/
def maxSearchWindow : Nat := 10000

/-- The fields of `VamanaLoadParams`. -/
def loadParams : Nat := 17

namespace Request

def indexRelid : Request → Nat
  | .search rel _ _ _ => rel
  | .insert rel _ _ => rel
  | .delete rel _ => rel
  | .maintenance rel _ => rel
  | .load rel _ => rel
  | .warmup rel => rel

/-- What a helper checks before it claims the slot; nothing is sent otherwise. -/
def passes : Request → Bool
  | .search _ q k _ => decide (0 < q.length ∧ q.length ≤ maxDim ∧ k ≤ maxSearchWindow)
  | .delete _ ids => decide (0 < ids.length)
  | .load _ params => decide (params.length = loadParams)
  | _ => true

/-- What `VamanaWorkerSubmitInsert` checks once it has the slot. -/
def passesClaimed : Request → Bool
  | .insert _ v _ => decide (0 < v.length ∧ v.length ≤ maxDim)
  | _ => true

end Request

/-- A write of the backend to its slot before it publishes. -/
inductive FieldWrite
  | queryVec (words : List Nat)
  | slotKind (kind : SlotKind)
  | dimensions (n : Nat)
  | k (n : Nat)
  | searchWindowSize (n : Nat)
  | numResults (n : Nat)
  | writeHeapTid (t : Tid)
  | maintenanceOp (op : MaintenanceOp)
deriving DecidableEq, Repr

/-- A `memcpy` into the buffer leaves the words after it. -/
def FieldWrite.apply (s : Slot) : FieldWrite → Slot
  | .queryVec words => { s with queryVec := words ++ s.queryVec.drop words.length }
  | .slotKind kind => { s with slotKind := kind }
  | .dimensions n => { s with dimensions := n }
  | .k n => { s with k := n }
  | .searchWindowSize n => { s with searchWindowSize := n }
  | .numResults n => { s with numResults := n }
  | .writeHeapTid t => { s with writeHeapTid := t }
  | .maintenanceOp op => { s with maintenanceOp := op }

/-- The writes of each helper, in its order. `numResults` carries the number of ids of a
DELETE. -/
def Request.fieldWrites : Request → List FieldWrite
  | .search _ q k window =>
    [.queryVec q, .slotKind .search, .dimensions q.length, .k k, .searchWindowSize window]
  | .insert _ v t => [.queryVec v, .dimensions v.length, .writeHeapTid t, .slotKind .insert]
  | .delete _ ids => [.queryVec ids, .numResults ids.length, .slotKind .delete]
  | .maintenance _ op => [.slotKind .maintenance, .maintenanceOp op]
  | .load _ params => [.queryVec params, .slotKind .load]
  | .warmup _ => [.slotKind .warmup]

def Slot.request (s : Slot) : Request :=
  match s.slotKind with
  | .search => .search s.indexRelid (s.queryVec.take s.dimensions) s.k s.searchWindowSize
  | .insert => .insert s.indexRelid (s.queryVec.take s.dimensions) s.writeHeapTid
  | .delete => .delete s.indexRelid (s.queryVec.take s.numResults)
  | .maintenance => .maintenance s.indexRelid s.maintenanceOp
  | .load => .load s.indexRelid (s.queryVec.take loadParams)
  | .warmup => .warmup s.indexRelid

theorem request_of_fieldWrites {r : Request} (hr : r.passes = true) {s : Slot}
    (hrel : s.indexRelid = r.indexRelid) :
    (r.fieldWrites.foldl FieldWrite.apply s).request = r := by
  cases r with
  | load rel params =>
    simp only [Request.indexRelid] at hrel
    simp only [Request.passes, decide_eq_true_eq] at hr
    simp [Request.fieldWrites, FieldWrite.apply, Slot.request, hrel, ← hr]
  | _ =>
    simp only [Request.indexRelid] at hrel
    simp [Request.fieldWrites, FieldWrite.apply, Slot.request, hrel]

/-! ## What the worker writes -/

/-- A write of the worker to a slot. -/
inductive SlotWrite
  | numResults (n : Nat)
  | results (rows : List (Tid × Nat))
  | errorMessage (message : String)
  | errorCategory (category : ErrorCategory)
  | writeExternalId (externalId : Nat)
  | writeSlotCreated (created : Bool)
  | writeGrowthBytes (n : Nat)
  | writeResidentGeneration (n : Nat)
  | status (status : SlotStatus)
deriving DecidableEq, Repr

/-- The results go to the start of their buffers. -/
def SlotWrite.apply (s : Slot) : SlotWrite → Slot
  | .numResults n => { s with numResults := n }
  | .results rows => { s with results := rows ++ s.results.drop rows.length }
  | .errorMessage message => { s with errorMessage := message }
  | .errorCategory category => { s with errorCategory := category }
  | .writeExternalId externalId => { s with writeExternalId := externalId }
  | .writeSlotCreated created => { s with writeSlotCreated := created }
  | .writeGrowthBytes n => { s with writeGrowthBytes := n }
  | .writeResidentGeneration n => { s with writeResidentGeneration := n }
  | .status st => { s with status := st }

/-- What the worker does with promoted slots: it executes the request of one, or writes one of
its fields. -/
inductive SlotOp
  | execute (i : Nat)
  | write (i : Nat) (w : SlotWrite)
deriving DecidableEq, Repr

/-- The writes to one slot, ending with its status. -/
def endSlot (i : Nat) (writes : List SlotWrite) (status : SlotStatus) : List SlotOp :=
  writes.map (.write i) ++ [.write i (.status status)]

/-- `VamanaWorkerFailSlot`. -/
def vamanaWorkerFailSlot (i : Nat) (message : String) (category : ErrorCategory) : List SlotOp :=
  endSlot i [.errorMessage message, .errorCategory category] .error

/-! ## A search batch -/

/-- What getting the index of a batch comes to. -/
inductive IndexFound
  | loadFailed (message : String)
  | empty
  | missing
  | handle
deriving DecidableEq, Repr

/-- What the scratch memory for a batch comes to; a cost of 0 needs none. -/
inductive ScratchEnd
  | granted
  | refused (limit : Nat) (isOverride : Bool)
  | raised
deriving DecidableEq, Repr

/-- How a single search ends, or the one call for a whole batch. -/
inductive SearchEnd (α : Type)
  | rows (rows : α)
  | code (code : Int)
  | raised

/-- What the calls of `VamanaWorkerRunBatch` decide. -/
structure BatchCalls where
  index : IndexFound
  costKnown : Bool
  costRaises : Bool
  scratch : ScratchEnd
  threadsRaise : Bool
  batchSearch : SearchEnd (Nat → List (Tid × Nat))
  search : Nat → SearchEnd (List (Tid × Nat))

def failBatch (batch : List Nat) (message : String) (category : ErrorCategory) : List SlotOp :=
  batch.flatMap fun i =>
    endSlot i [.numResults 0, .errorMessage message, .errorCategory category] .error

/-- The handler around the searches of a batch. It fails every slot of it. -/
def searchError (relid : Nat) (batch : List Nat) : List SlotOp :=
  failBatch batch ("vamana worker: search error on index " ++ toString relid) .internal

/-- The sequential fallback from here on. Each slot is published as soon as its search is done,
and a search that raises goes to the handler. -/
def searchSequential (k : BatchCalls) (relid : Nat) (batch : List Nat) : List Nat → List SlotOp
  | [] => []
  | i :: rest =>
    match k.search i with
    | .rows rows =>
      .execute i :: endSlot i [.results rows, .numResults rows.length] .done ++
        searchSequential k relid batch rest
    | .code code =>
      .execute i :: endSlot i [.numResults 0,
          .errorMessage ("SVS search failed with code " ++ toString code),
          .errorCategory .internal] .error ++
        searchSequential k relid batch rest
    | .raised => .execute i :: searchError relid batch

/-- The native batch path: one call for all slots, then the slots one by one. -/
def searchNative (k : BatchCalls) (relid : Nat) (batch : List Nat) : List SlotOp :=
  batch.map .execute ++
    match k.batchSearch with
    | .rows rows =>
      batch.flatMap fun i => endSlot i [.results (rows i), .numResults (rows i).length] .done
    | .code _ => failBatch batch "SVS batch search failed" .internal
    | .raised => searchError relid batch

/-- All slots of the batch have the `k`, the dimensions and the window of the first. -/
def uniform (slots : Nat → Slot) : List Nat → Bool
  | [] => true
  | i :: rest =>
    rest.all fun j => (slots j).k = (slots i).k && (slots j).dimensions = (slots i).dimensions &&
      (slots j).searchWindowSize = (slots i).searchWindowSize

/-- The message of a batch that gets no scratch memory. -/
def scratchMessage (relid limit : Nat) (isOverride : Bool) : String :=
  "vamana worker: batch against index " ++ toString relid ++
    " exceeds this database's search-scratch budget of " ++ toString limit ++ " bytes" ++
    if isOverride then " (search_work_mem override)" else " (svs.default_search_work_mem)"

/-- `VamanaWorkerRunBatch`: what it does to the slots, and whether an error leaves it. The cost
of a search and the reservation of scratch memory are outside of its handlers. -/
def vamanaWorkerRunBatch (k : BatchCalls) (slots : Nat → Slot) (relid : Nat) (batch : List Nat) :
    List SlotOp × Bool :=
  match k.index with
  | .loadFailed message => (failBatch batch message .internal, false)
  | .empty => (batch.flatMap fun i => endSlot i [.numResults 0] .done, false)
  | .missing =>
    (failBatch batch ("vamana worker: index " ++ toString relid ++ " not loaded") .internal, false)
  | .handle =>
    if !k.costKnown && k.costRaises then ([], true)
    else
      match k.scratch with
      | .raised => ([], true)
      | .refused limit isOverride =>
        (failBatch batch (scratchMessage relid limit isOverride) .oom, false)
      | .granted =>
        if k.threadsRaise then (searchError relid batch, false)
        else if 1 < batch.length && uniform slots batch then (searchNative k relid batch, false)
        else (searchSequential k relid batch batch, false)

/-! ## A write slot -/

/-- What the calls of a write slot decide. A call that raises does so after some of the answer
was written. -/
structure WriteSlotCalls where
  firstInsert : Bool
  externalId : Nat
  slotCreated : Bool
  growthBytes : Nat
  residentGeneration : Nat
  count : Nat
  raises : Option (Nat × String × ErrorCategory)
deriving DecidableEq, Repr

/-- The answer to a write request, by its kind. -/
def answerWrites (w : WriteSlotCalls) : SlotKind → List SlotWrite
  | .insert =>
    if w.firstInsert then
      [.writeExternalId 0, .writeGrowthBytes 0, .writeResidentGeneration 0,
        .writeSlotCreated w.slotCreated]
    else
      [.writeGrowthBytes w.growthBytes, .writeResidentGeneration w.residentGeneration,
        .writeExternalId w.externalId, .writeSlotCreated false, .numResults 1]
  | .delete => [.numResults w.count]
  | .maintenance => [.numResults 0]
  | .load => [.numResults w.count]
  | .warmup => []
  | .search => []

/-- `VamanaWorkerDispatchWriteSlot`: each of the three processors runs inside a handler that
fails the slot. -/
def vamanaWorkerDispatchWriteSlot (w : WriteSlotCalls) (kind : SlotKind) (i : Nat) : List SlotOp :=
  match w.raises with
  | none => .execute i :: endSlot i (answerWrites w kind) .done
  | some (n, message, category) =>
    .execute i :: endSlot i ((answerWrites w kind).take n ++
      [.errorMessage message, .errorCategory category]) .error

end svs_vamana.request_slot
