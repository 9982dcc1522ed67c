-- The protocol of the request slots: any number of backends, each with its own slot, and the one
-- worker, where every access to a slot is a step of its own.
import SvsVamana.RequestPass

namespace svs_vamana.slot_protocol

open index_cache request_slot request_pass transition_runs
open System

/-! ## The backend -/

/-- Where a backend is in a submit helper. A published request has the number it was given in
its slot. -/
inductive Backend
  | idle
  | claiming (r : Request)
  | resetting (r : Request)
  | claimed (r : Request)
  | owning (r : Request)
  | filling (r : Request) (todo : List FieldWrite)
  | publishing (r : Request)
  | waiting (n : Nat)
  | leaving (n waitedMs : Nat)
  | checking (n waitedMs : Nat)
  | cancelling (n : Nat)
  | cancelled (n : Nat)
  | expiring (n waitedMs : Nat)
  | expired (n waitedMs : Nat)
  | consuming (n : Nat) (done : Bool)
  | reading (n : Nat) (done : Bool)
deriving DecidableEq, Repr

/-- What a helper copies out of its slot once its request is done. -/
inductive Answer
  | rows (rows : List (Tid × Nat))
  | inserted (externalId : Nat) (slotCreated : Bool) (growthBytes residentGeneration : Nat)
  | nothing
deriving DecidableEq, Repr

/-- The fields that a helper reads, by the kind of its request. -/
def answerIn (s : Slot) : SlotKind → Answer
  | .search => .rows (s.results.take s.numResults)
  | .insert =>
    .inserted s.writeExternalId s.writeSlotCreated s.writeGrowthBytes s.writeResidentGeneration
  | .delete => .nothing
  | .maintenance => .nothing
  | .load => .nothing
  | .warmup => .nothing

/-- The history: the requests published, the one promoted last and whether the worker holds, has
executed and written it, the one that was ended last, what was executed, and what was taken back in
time. -/
structure Cell where
  slot : Slot
  backend : Backend
  published : List Request
  promotedAs : Option Nat
  held : Bool
  ran : Bool
  written : List SlotWrite
  endedFor : Option Nat
  executed : List (Nat × Request)
  abandoned : List Nat
deriving DecidableEq, Repr

/-- What a backend does next, or what happens to it. -/
inductive BackendEvent
  | submit (r : Request)
  | advance (workerFound accepting : Bool)
  | leave (waitedMs : Nat)
  | cancel
  | exit
deriving DecidableEq, Repr

namespace Cell

def init : Cell := ⟨Slot.init, .idle, [], none, false, false, [], none, [], []⟩

/-- `OwnLatch`, `ResetLatch` and `DisownLatch`. -/
def ownLatch (c : Cell) : Cell := { c with slot := { c.slot with latch := ⟨false, true⟩ } }

def disownLatch (c : Cell) : Cell :=
  { c with slot := { c.slot with latch := { c.slot.latch with owned := false } } }

def setStatus (c : Cell) (status : SlotStatus) : Cell :=
  { c with slot := { c.slot with status := status } }

/-- The compare-and-swap that takes a request back. -/
def abandon (c : Cell) (n : Nat) : Cell :=
  if c.slot.status = .pending then
    { c.setStatus .empty with abandoned := n :: c.abandoned }
  else c

/-- The next access of the backend: `VamanaWorkerClaimSlot`, the writes of the submit helper,
`VamanaWorkerPublishPending` and `VamanaWorkerWaitForSlot` in turn. -/
def advance (workerFound accepting : Bool) (c : Cell) : Cell :=
  match c.backend with
  | .idle => c
  | .claiming r =>
    if !workerFound then { c with backend := .idle }
    else
      match c.slot.status with
      | .empty => { c with backend := .claimed r }
      | .done => { c with backend := .resetting r }
      | .error => { c with backend := .resetting r }
      | .pending => { c with backend := .idle }
      | .processing => { c with backend := .idle }
  | .resetting r => { c.setStatus .empty with backend := .claimed r }
  | .claimed r =>
    { c with slot := { c.slot with indexRelid := r.indexRelid }, backend := .owning r }
  | .owning r =>
    if r.passesClaimed then { c.ownLatch with backend := .filling r r.fieldWrites }
    else { c.ownLatch.disownLatch with backend := .idle }
  | .filling r (w :: todo) => { c with slot := w.apply c.slot, backend := .filling r todo }
  | .filling r [] =>
    if accepting then { c with backend := .publishing r }
    else { c.disownLatch with backend := .idle }
  | .publishing r =>
    { c.setStatus .pending with
      published := c.published ++ [r]
      backend := .waiting c.published.length }
  | .waiting _ => c
  | .leaving n waitedMs => { c.disownLatch with backend := .checking n waitedMs }
  | .checking n waitedMs =>
    match c.slot.status with
    | .done => { c with backend := .consuming n true }
    | .error => { c with backend := .consuming n false }
    | .empty => { c with backend := .expiring n waitedMs }
    | .pending => { c with backend := .expiring n waitedMs }
    | .processing => { c with backend := .expiring n waitedMs }
  | .cancelling n => { c.abandon n with backend := .cancelled n }
  | .cancelled _ => { c.disownLatch with backend := .idle }
  | .expiring n waitedMs => { c.abandon n with backend := .expired n waitedMs }
  | .expired _ waitedMs =>
    { c with
      slot := { c.slot with
        errorMessage := "vamana worker timed out after " ++ toString waitedMs ++ " ms" }
      backend := .idle }
  | .consuming n done => { c.setStatus .empty with backend := .reading n done }
  | .reading _ _ => { c with backend := .idle }

/-- A step of the backend. Its wait ends when it has seen DONE or ERROR or at its timeout, with an
error of its own, or with the process itself, which then runs no handler. -/
def backendStep (c : Cell) : BackendEvent → Cell
  | .submit r => if c.backend = .idle ∧ r.passes then { c with backend := .claiming r } else c
  | .advance workerFound accepting => c.advance workerFound accepting
  | .leave waitedMs =>
    match c.backend with
    | .waiting n => { c with backend := .leaving n waitedMs }
    | _ => c
  | .cancel =>
    match c.backend with
    | .waiting n => { c with backend := .cancelling n }
    | _ => c
  | .exit =>
    match c.backend with
    | .waiting _ => { c with backend := .idle }
    | _ => c

/-! ## The worker on one slot -/

def promote (c : Cell) : Cell :=
  { c.setStatus .processing with
    promotedAs := some (c.published.length - 1)
    held := true
    ran := false
    written := [] }

/-- An access of the worker. Executing is reading the request and acting on it. -/
def workerOp (c : Cell) : SlotOp → Cell
  | .execute _ =>
    { c with ran := true, executed := c.executed ++ [(c.promotedAs.getD 0, c.slot.request)] }
  | .write _ (.status st) =>
    { c with slot := (SlotWrite.status st).apply c.slot, held := false, endedFor := c.promotedAs }
  | .write _ w => { c with slot := w.apply c.slot, written := c.written ++ [w] }

/-- `SetLatch`. -/
def setLatch (c : Cell) : Cell :=
  { c with slot := { c.slot with latch := { c.slot.latch with isSet := true } } }

end Cell

/-! ## The worker -/

/-- The lists of a pass. -/
structure Taken where
  all : List Nat
  search : List Nat
  writes : List Nat
deriving DecidableEq, Repr

/-- Where the worker is in a pass. -/
inductive WorkerPhase
  | idle
  | scanning (i : Nat) (t : Taken)
  | promoting (i : Nat) (t : Taken)
  | sorting (i : Nat) (t : Taken)
  | searches (todo : List Nat) (writes all : List Nat)
  | writes (todo all : List Nat)
  | waking (todo : List Nat)
  | stopped
deriving DecidableEq, Repr

/-- The worker with the accesses it is about to make. -/
structure Worker where
  ops : List SlotOp
  phase : WorkerPhase
  acceptsWrites : Bool
  maxBatch : Nat
deriving DecidableEq, Repr

structure System where
  maxSlots : Nat
  cells : Nat → Cell
  worker : Worker

inductive Event
  | backend (i : Nat) (e : BackendEvent)
  | start (acceptsWrites : Bool) (maxBatch : Nat)
  | work (k : BatchCalls) (w : WriteSlotCalls)

namespace System

def init (maxSlots : Nat) : System := ⟨maxSlots, fun _ => .init, ⟨[], .idle, false, 0⟩⟩

def slots (s : System) : Nat → Slot := fun i => (s.cells i).slot

def setCell (s : System) (i : Nat) (c : Cell) : System :=
  { s with cells := Function.update s.cells i c }

def goTo (s : System) (phase : WorkerPhase) : System :=
  { s with worker := { s.worker with phase := phase } }

def plan (s : System) (ops : List SlotOp) (phase : WorkerPhase) : System :=
  { s with worker := { s.worker with ops := ops, phase := phase } }

/-- The slots of the next batch: those on the index of the first. -/
def batchOf (s : System) (i : Nat) (rest : List Nat) : List Nat :=
  (i :: rest).filter fun j => (s.slots j).indexRelid = (s.slots i).indexRelid

def otherBatches (s : System) (i : Nat) (rest : List Nat) : List Nat :=
  (i :: rest).filter fun j => (s.slots j).indexRelid ≠ (s.slots i).indexRelid

/-- The worker between two lists of accesses: `VamanaWorkerProcessRequests`, one access to a
status or to a latch at a time. -/
def nextPhase (s : System) (k : BatchCalls) (w : WriteSlotCalls) : System :=
  match s.worker.phase with
  | .idle => s
  | .scanning i t =>
    if i < s.maxSlots ∧ t.all.length < s.worker.maxBatch then
      if (s.slots i).status = .pending then s.goTo (.promoting i t)
      else s.goTo (.scanning (i + 1) t)
    else if t.all.length = 0 then s.goTo .idle
    else s.goTo (.searches t.search t.writes t.all)
  | .promoting i t =>
    if (s.slots i).status = .pending then
      (s.setCell i (s.cells i).promote).goTo (.sorting i { t with all := t.all ++ [i] })
    else s.goTo (.scanning (i + 1) t)
  | .sorting i t =>
    if (s.slots i).slotKind = .search then
      s.goTo (.scanning (i + 1) { t with search := t.search ++ [i] })
    else if s.worker.acceptsWrites then
      s.goTo (.scanning (i + 1) { t with writes := t.writes ++ [i] })
    else
      s.plan (vamanaWorkerFailSlot i "write requests are not accepted on a standby" .internal)
        (.scanning (i + 1) t)
  | .searches [] writes all => s.goTo (.writes writes all)
  | .searches (i :: rest) writes all =>
    let (ops, escaped) :=
      vamanaWorkerRunBatch k s.slots (s.slots i).indexRelid (s.batchOf i rest)
    if escaped then s.plan ops .stopped
    else s.plan ops (.searches (s.otherBatches i rest) writes all)
  | .writes [] all => s.goTo (.waking all)
  | .writes (i :: rest) all =>
    s.plan (vamanaWorkerDispatchWriteSlot w (s.slots i).slotKind i) (.writes rest all)
  | .waking [] => s.goTo .idle
  | .waking (i :: rest) => (s.setCell i (s.cells i).setLatch).goTo (.waking rest)
  | .stopped => s

/-- A step. The worker first makes the accesses it has planned. -/
def step (s : System) : Event → System
  | .backend i e => s.setCell i ((s.cells i).backendStep e)
  | .start acceptsWrites maxBatch =>
    if s.worker.phase = .idle then
      { s with worker := ⟨s.worker.ops, .scanning 0 ⟨[], [], []⟩, acceptsWrites, maxBatch⟩ }
    else s
  | .work k w =>
    match s.worker.ops with
    | [] => s.nextPhase k w
    | op :: rest =>
      { s.setCell (slotOf op) ((s.cells (slotOf op)).workerOp op) with
        worker := { s.worker with ops := rest } }

/-- Between its accesses the worker only promotes a slot or wakes its backend. -/
theorem nextPhase_does (s : System) (k : BatchCalls) (w : WriteSlotCalls) :
    (s.nextPhase k w).maxSlots = s.maxSlots ∧
      ∀ j, (s.nextPhase k w).cells j = s.cells j ∨
        ((s.cells j).slot.status = .pending ∧ (s.nextPhase k w).cells j = (s.cells j).promote) ∨
        (s.nextPhase k w).cells j = (s.cells j).setLatch := by
  have hq : ∀ s' : System, s'.maxSlots = s.maxSlots → s'.cells = s.cells →
      s'.maxSlots = s.maxSlots ∧ ∀ j, s'.cells j = s.cells j ∨
        ((s.cells j).slot.status = .pending ∧ s'.cells j = (s.cells j).promote) ∨
        s'.cells j = (s.cells j).setLatch :=
    fun s' hmax hc => ⟨hmax, fun j => .inl (by rw [hc])⟩
  unfold nextPhase
  cases s.worker.phase with
  | scanning i t =>
    dsimp only
    split
    · split <;> exact hq _ rfl rfl
    · split <;> exact hq _ rfl rfl
  | promoting i t =>
    dsimp only
    split
    · rename_i hst
      refine ⟨rfl, fun j => ?_⟩
      by_cases hji : j = i
      · subst hji
        exact .inr (.inl ⟨hst, by simp [goTo, setCell]⟩)
      · exact .inl (by simp [goTo, setCell, hji])
    · exact hq _ rfl rfl
  | sorting i t =>
    dsimp only
    split
    · exact hq _ rfl rfl
    · split <;> exact hq _ rfl rfl
  | searches todo writes all =>
    cases todo with
    | nil => exact hq _ rfl rfl
    | cons i rest =>
      dsimp only
      split <;> exact hq _ rfl rfl
  | writes todo all => cases todo <;> exact hq _ rfl rfl
  | waking todo =>
    cases todo with
    | nil => exact hq _ rfl rfl
    | cons i rest =>
      refine ⟨rfl, fun j => ?_⟩
      by_cases hji : j = i
      · subst hji
        exact .inr (.inr (by simp [goTo, setCell]))
      · exact .inl (by simp [goTo, setCell, hji])
  | _ => exact hq _ rfl rfl

end System

end svs_vamana.slot_protocol
