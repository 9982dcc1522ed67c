-- The law of a request pass: the pending slots are promoted, searched in one batch per index or
-- written, and woken last. An error that leaves a batch leaves the pass.
import SvsVamana.RequestSlot
import SvsVamana.Lib.Runs

namespace svs_vamana.request_pass

open index_cache request_slot
open Function List

/-! ## The pure model -/

/-- The slots of a control block, by their number. -/
structure Block where
  maxSlots : Nat
  slots : Nat → Slot

/-- What the settings and the calls of a pass decide: the calls of a batch by its index, those of
a write by its slot. -/
structure PassCalls where
  acceptsWrites : Bool
  maxBatchSize : Nat
  maxBackends : Nat
  batch : Nat → BatchCalls
  write : Nat → WriteSlotCalls

def PassCalls.maxBatch (k : PassCalls) : Nat :=
  if k.maxBatchSize > 0 then k.maxBatchSize else k.maxBackends

def applyOp (slots : Nat → Slot) : SlotOp → Nat → Slot
  | .execute _ => slots
  | .write i w => update slots i (w.apply (slots i))

def applyOps (slots : Nat → Slot) (ops : List SlotOp) : Nat → Slot := ops.foldl applyOp slots

/-- The three lists a pass collects, and the slots meanwhile. -/
structure Collected where
  slots : Nat → Slot
  allPending : List Nat
  searchPending : List Nat
  writePending : List Nat

/-- The compare-and-swap from PENDING to PROCESSING, on a pending slot. -/
def promote (slots : Nat → Slot) (i : Nat) : Nat → Slot :=
  update slots i { slots i with status := .processing }

/-- The body of the collecting loop. -/
def collectSlot (k : PassCalls) (c : Collected) (i : Nat) : Collected :=
  if c.allPending.length < k.maxBatch ∧ (c.slots i).status = .pending then
    if (c.slots i).slotKind = .search then
      { c with
        slots := promote c.slots i
        allPending := c.allPending ++ [i]
        searchPending := c.searchPending ++ [i] }
    else if k.acceptsWrites then
      { c with
        slots := promote c.slots i
        allPending := c.allPending ++ [i]
        writePending := c.writePending ++ [i] }
    else
      { c with
        slots := applyOps (promote c.slots i) (vamanaWorkerFailSlot i
          "write requests are not accepted on a standby" .internal)
        allPending := c.allPending ++ [i] }
  else c

def collect (k : PassCalls) (slots : Nat → Slot) (maxSlots : Nat) : Collected :=
  (range maxSlots).foldl (collectSlot k) ⟨slots, [], [], []⟩

/-- `VamanaWorkerDispatchBatch`: the slots are grouped by their index, in the order in which the
indexes come first. The number bounds the groups. -/
def vamanaWorkerDispatchBatch (batch : Nat → BatchCalls) :
    Nat → (Nat → Slot) → List Nat → (Nat → Slot) × Bool
  | 0, slots, _ => (slots, false)
  | _ + 1, slots, [] => (slots, false)
  | n + 1, slots, i :: rest =>
    let relid := (slots i).indexRelid
    let same := (i :: rest).filter fun j => (slots j).indexRelid = relid
    let (ops, escaped) := vamanaWorkerRunBatch (batch relid) slots relid same
    if escaped then (applyOps slots ops, true)
    else
      vamanaWorkerDispatchBatch batch n (applyOps slots ops)
        ((i :: rest).filter fun j => (slots j).indexRelid ≠ relid)

def dispatchWrites (write : Nat → WriteSlotCalls) (slots : Nat → Slot) (writes : List Nat) :
    Nat → Slot :=
  writes.foldl
    (fun slots i =>
      applyOps slots (vamanaWorkerDispatchWriteSlot (write i) (slots i).slotKind i)) slots

/-- `SetLatch` on the latch of a slot. -/
def setLatch (slots : Nat → Slot) (i : Nat) : Nat → Slot :=
  update slots i { slots i with latch := { (slots i).latch with isSet := true } }

/-- `VamanaWorkerProcessRequests`: the slots afterwards, and whether an error leaves it. -/
def vamanaWorkerProcessRequests (k : PassCalls) (b : Block) : (Nat → Slot) × Bool :=
  let c := collect k b.slots b.maxSlots
  let (slots, escaped) :=
    vamanaWorkerDispatchBatch k.batch c.searchPending.length c.slots c.searchPending
  if escaped then (slots, true)
  else (c.allPending.foldl setLatch (dispatchWrites k.write slots c.writePending), false)

/-- The slots that a pass promotes: the first pending ones. -/
def promoted (k : PassCalls) (b : Block) : List Nat :=
  ((range b.maxSlots).filter fun i => (b.slots i).status = .pending).take k.maxBatch

def Terminal (s : Slot) : Prop := s.status = .done ∨ s.status = .error

/-- No error leaves the pass, and every slot it promoted has ended and its backend is woken. -/
def Contained (k : PassCalls) (b : Block) : Prop :=
  (vamanaWorkerProcessRequests k b).2 = false ∧
    ∀ i ∈ promoted k b, Terminal ((vamanaWorkerProcessRequests k b).1 i) ∧
      ((vamanaWorkerProcessRequests k b).1 i).latch.isSet = true

/-- A call of a batch raises outside of its handlers: the index is there, and computing the cost
of a search or reserving the scratch memory fails. -/
def RaisesUnguarded (k : BatchCalls) : Prop :=
  k.index = .handle ∧ (k.costKnown = false ∧ k.costRaises = true ∨ k.scratch = .raised)

/-! ## The accesses of the worker -/

def slotOf : SlotOp → Nat
  | .execute i => i
  | .write i _ => i

/-- The fields that the worker only reads, and the latch. -/
structure SameRequest (s s' : Slot) : Prop where
  indexRelid : s'.indexRelid = s.indexRelid
  slotKind : s'.slotKind = s.slotKind
  latch : s'.latch = s.latch

theorem SameRequest.refl (s : Slot) : SameRequest s s := ⟨rfl, rfl, rfl⟩

theorem SameRequest.trans {a b c : Slot} (h : SameRequest a b) (h' : SameRequest b c) :
    SameRequest a c :=
  ⟨h'.indexRelid.trans h.indexRelid, h'.slotKind.trans h.slotKind, h'.latch.trans h.latch⟩

theorem sameRequest_write (s : Slot) (w : SlotWrite) : SameRequest s (w.apply s) := by
  cases w <;> exact ⟨rfl, rfl, rfl⟩

variable (slots : Nat → Slot)

theorem sameRequest_op (op : SlotOp) (i : Nat) : SameRequest (slots i) (applyOp slots op i) := by
  cases op with
  | execute j => exact .refl _
  | write j w =>
    by_cases h : i = j
    · subst h
      simp only [applyOp, update_self]
      exact sameRequest_write _ w
    · simp only [applyOp, update_of_ne h]
      exact .refl _

theorem sameRequest_promote (j i : Nat) : SameRequest (slots i) (promote slots j i) := by
  by_cases h : i = j
  · subst h
    simp only [promote, update_self]
    exact ⟨rfl, rfl, rfl⟩
  · simp only [promote, update_of_ne h]
    exact .refl _

theorem sameRequest_ops (ops : List SlotOp) (i : Nat) :
    SameRequest (slots i) (applyOps slots ops i) := by
  induction ops generalizing slots with
  | nil => exact .refl _
  | cons op rest ih => exact (sameRequest_op slots op i).trans (ih (applyOp slots op))

variable {slots : Nat → Slot} {ops : List SlotOp} {i : Nat}

theorem applyOps_other (h : ∀ op ∈ ops, slotOf op ≠ i) : applyOps slots ops i = slots i := by
  induction ops generalizing slots with
  | nil => rfl
  | cons op rest ih =>
    have hop : applyOp slots op i = slots i := by
      have hne := h op mem_cons_self
      cases op with
      | execute j => rfl
      | write j w => exact update_of_ne (fun heq => hne heq.symm) _ _
    rw [show applyOps slots (op :: rest) = applyOps (applyOp slots op) rest from rfl,
      ih fun op' h' => h op' (mem_cons_of_mem _ h'), hop]

/-- The worker writes no status but DONE and ERROR. -/
def EndsOnly (ops : List SlotOp) : Prop :=
  ∀ i st, SlotOp.write i (.status st) ∈ ops → st = .done ∨ st = .error

/-- The accesses write a status to the slot. -/
def Ends (ops : List SlotOp) (i : Nat) : Prop := ∃ st, SlotOp.write i (.status st) ∈ ops

theorem terminal_of_ends (ho : EndsOnly ops) (h : Terminal (slots i) ∨ Ends ops i) :
    Terminal (applyOps slots ops i) := by
  induction ops generalizing slots with
  | nil =>
    rcases h with h | ⟨st, h⟩
    · exact h
    · cases h
  | cons op rest ih =>
    refine ih (fun j st hmem => ho j st (mem_cons_of_mem _ hmem)) ?_
    rcases h with h | ⟨st, hmem⟩
    · left
      -- a later write of the status can only end the slot again
      cases op with
      | execute j => exact h
      | write j w =>
        by_cases hij : i = j
        · subst hij
          simp only [applyOp, update_self]
          cases w with
          | status st => exact ho i st mem_cons_self
          | _ => exact h
        · simp only [applyOp, update_of_ne hij]
          exact h
    · rcases mem_cons.mp hmem with rfl | hr
      · left
        simp only [applyOp, update_self]
        exact ho i st mem_cons_self
      · exact .inr ⟨st, hr⟩

/-! ## The accesses of a batch and of a write -/

theorem mem_endSlot {ws : List SlotWrite} {st : SlotStatus} {op : SlotOp} :
    op ∈ endSlot i ws st ↔ (∃ w ∈ ws, op = .write i w) ∨ op = .write i (.status st) := by
  simp [endSlot, eq_comm]

/-- The accesses are all to slots of the list, write only DONE and ERROR as a status, and write
one to each slot of the list. -/
structure EndsAll (batch : List Nat) (ops : List SlotOp) : Prop where
  within : ∀ op ∈ ops, slotOf op ∈ batch
  only : EndsOnly ops
  each : ∀ i ∈ batch, Ends ops i

theorem endsAll_blocks (batch : List Nat) (ws : Nat → List SlotWrite) (st : Nat → SlotStatus)
    (hws : ∀ i st', SlotWrite.status st' ∉ ws i) (hst : ∀ i, st i = .done ∨ st i = .error) :
    EndsAll batch (batch.flatMap fun i => endSlot i (ws i) (st i)) where
  within op hop := by
    obtain ⟨i, hi, hmem⟩ := mem_flatMap.mp hop
    rcases mem_endSlot.mp hmem with ⟨w, -, rfl⟩ | rfl
    · exact hi
    · exact hi
  only i st' hop := by
    obtain ⟨j, -, hmem⟩ := mem_flatMap.mp hop
    rcases mem_endSlot.mp hmem with ⟨w, hw, heq⟩ | heq
    · cases heq
      exact absurd hw (hws _ st')
    · cases heq
      exact hst i
  each i hi := ⟨st i, mem_flatMap.mpr ⟨i, hi, mem_endSlot.mpr (.inr rfl)⟩⟩

theorem endsAll_failBatch (batch : List Nat) (message : String) (category : ErrorCategory) :
    EndsAll batch (failBatch batch message category) :=
  endsAll_blocks batch _ _ (fun _ _ => by simp) (fun _ => .inr rfl)

theorem EndsAll.execute {batch : List Nat} (h : EndsAll batch ops) {l : List Nat}
    (hl : ∀ i ∈ l, i ∈ batch) : EndsAll batch (l.map .execute ++ ops) where
  within op hop := by
    rcases mem_append.mp hop with hmem | hmem
    · obtain ⟨i, hi, rfl⟩ := mem_map.mp hmem
      exact hl i hi
    · exact h.within op hmem
  only i st hop := by
    rcases mem_append.mp hop with hmem | hmem
    · obtain ⟨j, -, heq⟩ := mem_map.mp hmem
      cases heq
    · exact h.only i st hmem
  each i hi := by
    obtain ⟨st, hst⟩ := h.each i hi
    exact ⟨st, mem_append_right _ hst⟩

variable (k : BatchCalls)

theorem endsAll_searchNative (relid : Nat) (batch : List Nat) :
    EndsAll batch (searchNative k relid batch) := by
  unfold searchNative
  apply EndsAll.execute _ (fun i hi => hi)
  split
  · exact endsAll_blocks batch _ _ (fun _ _ => by simp) (fun _ => .inl rfl)
  · exact endsAll_failBatch _ _ _
  · exact endsAll_failBatch _ _ _

theorem endsAll_searchSequential (relid : Nat) {batch todo : List Nat}
    (ht : ∀ i ∈ todo, i ∈ batch) :
    (∀ op ∈ searchSequential k relid batch todo, slotOf op ∈ batch) ∧
    EndsOnly (searchSequential k relid batch todo) ∧
    ∀ i ∈ todo, Ends (searchSequential k relid batch todo) i := by
  induction todo with
  | nil => simp [searchSequential, EndsOnly]
  | cons i rest ih =>
    have hi : i ∈ batch := ht i mem_cons_self
    obtain ⟨hwi, ho, hea⟩ := ih fun j hj => ht j (mem_cons_of_mem _ hj)
    -- a slot that is published before the loop goes on
    have hn : ∀ {ws : List SlotWrite} {st : SlotStatus}, (∀ st', SlotWrite.status st' ∉ ws) →
        (st = .done ∨ st = .error) →
        (∀ op ∈ SlotOp.execute i :: endSlot i ws st ++ searchSequential k relid batch rest,
          slotOf op ∈ batch) ∧
        EndsOnly (SlotOp.execute i :: endSlot i ws st ++ searchSequential k relid batch rest) ∧
        ∀ j ∈ i :: rest,
          Ends (SlotOp.execute i :: endSlot i ws st ++ searchSequential k relid batch rest) j := by
      intro ws st hws hst
      refine ⟨fun op hop => ?_, fun j st' hop => ?_, fun j hj => ?_⟩
      · simp only [cons_append, mem_cons, mem_append, mem_endSlot] at hop
        rcases hop with rfl | (⟨w, -, rfl⟩ | rfl) | hop
        · exact hi
        · exact hi
        · exact hi
        · exact hwi op hop
      · simp only [cons_append, mem_cons, mem_append, mem_endSlot] at hop
        rcases hop with hop | (⟨w, hw, hop⟩ | hop) | hop
        · cases hop
        · cases hop
          exact absurd hw (hws st')
        · cases hop
          exact hst
        · exact ho j st' hop
      · rcases mem_cons.mp hj with rfl | hj
        · exact ⟨st, by simp [mem_endSlot]⟩
        · obtain ⟨st', hst'⟩ := hea j hj
          exact ⟨st', by simp [hst']⟩
    simp only [searchSequential]
    split
    · exact hn (by simp) (.inl rfl)
    · exact hn (by simp) (.inr rfl)
    · have hf := (endsAll_failBatch batch
        ("vamana worker: search error on index " ++ toString relid) .internal).execute
        (l := [i]) (by simpa using hi)
      exact ⟨hf.within, hf.only, fun j hj => hf.each j (ht j hj)⟩

/-- A batch that no error leaves ends all of its slots; an error leaves it before it has touched
one. -/
theorem runBatch_ends (slots : Nat → Slot) (relid : Nat) (batch : List Nat) :
    (RaisesUnguarded k ∧ vamanaWorkerRunBatch k slots relid batch = ([], true)) ∨
    (¬ RaisesUnguarded k ∧ (vamanaWorkerRunBatch k slots relid batch).2 = false ∧
      EndsAll batch (vamanaWorkerRunBatch k slots relid batch).1) := by
  unfold vamanaWorkerRunBatch RaisesUnguarded
  rcases hind : k.index with message | _ | _ | _
  · exact .inr ⟨by simp, rfl, endsAll_failBatch _ _ _⟩
  · exact .inr ⟨by simp, rfl, endsAll_blocks batch _ _ (fun _ _ => by simp) (fun _ => .inl rfl)⟩
  · exact .inr ⟨by simp, rfl, endsAll_failBatch _ _ _⟩
  · dsimp only
    by_cases hc : (!k.costKnown && k.costRaises) = true
    · rw [if_pos hc]
      simp only [Bool.and_eq_true, Bool.not_eq_true'] at hc
      exact .inl ⟨⟨rfl, .inl hc⟩, rfl⟩
    · rw [if_neg hc]
      have hg : ¬ (k.costKnown = false ∧ k.costRaises = true) := by
        simpa only [Bool.and_eq_true, Bool.not_eq_true'] using hc
      rcases hs : k.scratch with _ | ⟨limit, isOverride⟩ | _
      · refine .inr ⟨by simpa using hg, ?_⟩
        dsimp only
        split
        · exact ⟨rfl, endsAll_failBatch _ _ _⟩
        split
        · exact ⟨rfl, endsAll_searchNative k relid batch⟩
        · have hseq := endsAll_searchSequential k relid (fun i (hi : i ∈ batch) => hi)
          exact ⟨rfl, hseq.1, hseq.2.1, hseq.2.2⟩
      · exact .inr ⟨by simpa using hg, rfl, endsAll_failBatch _ _ _⟩
      · exact .inl ⟨⟨rfl, .inr rfl⟩, rfl⟩

theorem answerWrites_no_status (w : WriteSlotCalls) (kind : SlotKind) (st : SlotStatus) :
    SlotWrite.status st ∉ answerWrites w kind := by
  cases kind with
  | insert =>
    simp only [answerWrites]
    split <;> simp
  | _ => simp [answerWrites]

theorem writeSlot_ends (w : WriteSlotCalls) (kind : SlotKind) (i : Nat) :
    EndsAll [i] (vamanaWorkerDispatchWriteSlot w kind i) := by
  have hend : ∀ {ws : List SlotWrite} {st : SlotStatus}, (∀ st', SlotWrite.status st' ∉ ws) →
      (st = .done ∨ st = .error) → EndsAll [i] (SlotOp.execute i :: endSlot i ws st) := by
    intro ws st hws hst
    have h := (endsAll_blocks [i] (fun _ => ws) (fun _ => st)
      (fun _ => hws) (fun _ => hst)).execute (l := [i]) (by simp)
    simpa using h
  unfold vamanaWorkerDispatchWriteSlot
  split
  · exact hend (answerWrites_no_status w kind) (.inl rfl)
  rename_i n message category _
  apply hend _ (.inr rfl)
  intro st hmem
  simp only [mem_append, mem_cons, reduceCtorEq, not_mem_nil, or_false] at hmem
  exact answerWrites_no_status w kind st (mem_of_mem_take hmem)

/-! ## The parts of a pass -/

/-- `VamanaWorkerDispatchBatch` with room for all groups. -/
structure Dispatched (batch : Nat → BatchCalls) (slots : Nat → Slot) (search : List Nat)
    (r : (Nat → Slot) × Bool) : Prop where
  escaped : r.2 = true ↔ ∃ i ∈ search, RaisesUnguarded (batch (slots i).indexRelid)
  ended : r.2 = false → ∀ i ∈ search, Terminal (r.1 i)
  other : ∀ i, i ∉ search → r.1 i = slots i
  same : ∀ i, SameRequest (slots i) (r.1 i)

theorem dispatched_nil (batch : Nat → BatchCalls) (slots : Nat → Slot) :
    Dispatched batch slots [] (slots, false) where
  escaped := by simp
  ended _ i hi := by cases hi
  other _ _ := rfl
  same _ := .refl _

theorem Dispatched.group {batch : Nat → BatchCalls} {search group left : List Nat} {relid : Nat}
    {r : (Nat → Slot) × Bool} (hg : ∀ j, j ∈ group ↔ j ∈ search ∧ (slots j).indexRelid = relid)
    (hl : ∀ j, j ∈ left ↔ j ∈ search ∧ (slots j).indexRelid ≠ relid)
    (hgu : ¬ RaisesUnguarded (batch relid)) (hen : EndsAll group ops)
    (h : Dispatched batch (applyOps slots ops) left r) : Dispatched batch slots search r := by
  have hk := sameRequest_ops slots ops
  refine ⟨?_, fun hr j hj => ?_, fun j hj => ?_, fun j => (hk j).trans (h.same j)⟩
  · rw [h.escaped]
    constructor
    · rintro ⟨j, hj, hra⟩
      rw [(hk j).indexRelid] at hra
      exact ⟨j, ((hl j).mp hj).1, hra⟩
    · rintro ⟨j, hj, hra⟩
      refine ⟨j, (hl j).mpr ⟨hj, fun heq => ?_⟩, by rwa [(hk j).indexRelid]⟩
      rw [heq] at hra
      exact hgu hra
  · by_cases heq : (slots j).indexRelid = relid
    · rw [h.other j fun hmem => ((hl j).mp hmem).2 heq]
      exact terminal_of_ends hen.only (.inr (hen.each j ((hg j).mpr ⟨hj, heq⟩)))
    · exact h.ended hr j ((hl j).mpr ⟨hj, heq⟩)
  · rw [h.other j fun hmem => hj ((hl j).mp hmem).1]
    apply applyOps_other
    rintro op hop rfl
    exact hj ((hg _).mp (hen.within op hop)).1

variable {n : Nat}

theorem dispatched (batch : Nat → BatchCalls) {search : List Nat} (hn : search.length ≤ n) :
    Dispatched batch slots search (vamanaWorkerDispatchBatch batch n slots search) := by
  induction n generalizing slots search with
  | zero =>
    obtain rfl : search = [] := length_eq_zero_iff.mp (by omega)
    exact dispatched_nil batch slots
  | succ n ih =>
    rcases search with _ | ⟨i, rest⟩
    · exact dispatched_nil batch slots
    unfold vamanaWorkerDispatchBatch
    dsimp only
    generalize hs : (i :: rest).filter (fun j => (slots j).indexRelid = (slots i).indexRelid) =
      group
    rcases runBatch_ends (batch (slots i).indexRelid) slots (slots i).indexRelid group with
      ⟨hr, heq⟩ | ⟨hg, hf, hen⟩
    · rw [heq]
      refine ⟨?_, (fun h => by cases h), fun _ _ => rfl, fun _ => .refl _⟩
      simp only [if_true, true_iff]
      exact ⟨i, mem_cons_self, hr⟩
    · generalize vamanaWorkerRunBatch (batch (slots i).indexRelid) slots (slots i).indexRelid group =
        r at hf hen
      obtain ⟨ops, escaped⟩ := r
      obtain rfl : escaped = false := hf
      dsimp only at hen ⊢
      rw [if_neg Bool.false_ne_true]
      refine .group (fun j => ?_) (fun j => ?_) hg hen (ih ?_)
      · rw [← hs, mem_filter, decide_eq_true_eq]
      · rw [mem_filter, decide_eq_true_eq]
      · -- the first search is in the group, so fewer are left
        rw [filter_cons_of_neg (by simp)]
        have := length_filter_le
          (fun j => decide ((slots j).indexRelid ≠ (slots i).indexRelid)) rest
        simp only [length_cons] at hn
        omega

theorem dispatchWrites_ends (write : Nat → WriteSlotCalls) {writes : List Nat}
    (h : Terminal (slots i) ∨ i ∈ writes) : Terminal (dispatchWrites write slots writes i) := by
  induction writes generalizing slots with
  | nil => exact h.resolve_right not_mem_nil
  | cons j rest ih =>
    have hen := writeSlot_ends (write j) (slots j).slotKind j
    apply ih
    rcases h with h | hmem
    · exact .inl (terminal_of_ends hen.only (.inl h))
    · rcases mem_cons.mp hmem with rfl | hmem
      · exact .inl (terminal_of_ends hen.only (.inr (hen.each i mem_cons_self)))
      · exact .inr hmem

theorem setLatches (slots : Nat → Slot) (l : List Nat) (i : Nat) :
    (l.foldl setLatch slots i).status = (slots i).status ∧
      ((slots i).latch.isSet = true ∨ i ∈ l → (l.foldl setLatch slots i).latch.isSet = true) := by
  induction l generalizing slots with
  | nil => simp
  | cons j rest ih =>
    obtain ⟨hs, hset⟩ := ih (setLatch slots j)
    rw [foldl_cons]
    by_cases hij : i = j
    · subst hij
      refine ⟨by rw [hs]; simp [setLatch], fun _ => hset (.inl ?_)⟩
      simp [setLatch]
    · have hsa : setLatch slots j i = slots i := update_of_ne hij _ _
      rw [hsa] at hs hset
      refine ⟨hs, fun h => hset ?_⟩
      rcases h with h | h
      · exact .inl h
      · exact .inr ((mem_cons.mp h).resolve_left hij)

/-- What the collecting loop has done after the first slots. -/
structure CollectedOk (k : PassCalls) (slots : Nat → Slot) (n : Nat) (c : Collected) : Prop where
  all : c.allPending = ((range n).filter fun i => (slots i).status = .pending).take k.maxBatch
  ahead : ∀ i, n ≤ i → c.slots i = slots i
  same : ∀ i, SameRequest (slots i) (c.slots i)
  search : ∀ i, i ∈ c.searchPending ↔ i ∈ c.allPending ∧ (slots i).slotKind = .search
  rest : ∀ i ∈ c.allPending, i ∈ c.searchPending ∨ i ∈ c.writePending ∨ Terminal (c.slots i)

theorem collectedOk_start (k : PassCalls) (slots : Nat → Slot) :
    CollectedOk k slots 0 ⟨slots, [], [], []⟩ where
  all := by simp
  ahead _ _ := rfl
  same _ := .refl _
  search := by simp
  rest i hi := by cases hi

theorem take_filter_succ (p : Nat → Bool) (n m : Nat) :
    ((range (n + 1)).filter p).take m =
      if (((range n).filter p).take m).length < m ∧ p n = true then
        ((range n).filter p).take m ++ [n]
      else ((range n).filter p).take m := by
  rw [range_succ, filter_append]
  by_cases hp : p n = true
  · simp only [filter_cons, hp, if_true, filter_nil, and_true, length_take]
    split
    · rename_i hlt
      have hlen : ((range n).filter p).length < m := by omega
      rw [take_of_length_le (by simp; omega), take_of_length_le (by omega)]
    · rename_i hge
      rw [take_append_of_le_length (by omega)]
  · simp [hp]

variable {k : PassCalls}

/-- A slot is collected: whatever happens to it, the other slots stay as they are, and it goes to
one of the two lists or is ended here. -/
theorem CollectedOk.collected {c c' : Collected} (h : CollectedOk k slots n c)
    (hro : c.allPending.length < k.maxBatch ∧ (slots n).status = .pending)
    (hall : c'.allPending = c.allPending ++ [n]) (ho : ∀ i, i ≠ n → c'.slots i = c.slots i)
    (hsa : SameRequest (c.slots n) (c'.slots n))
    (hse : ∀ i, i ∈ c'.searchPending ↔
      i ∈ c.searchPending ∨ (i = n ∧ (slots i).slotKind = .search))
    (hwr : ∀ i ∈ c.writePending, i ∈ c'.writePending)
    (hr : n ∈ c'.searchPending ∨ n ∈ c'.writePending ∨ Terminal (c'.slots n)) :
    CollectedOk k slots (n + 1) c' where
  all := by
    have hn := take_filter_succ (fun i => decide ((slots i).status = .pending)) n k.maxBatch
    rw [← h.all, if_pos (by simpa using hro)] at hn
    rw [hall, hn]
  ahead i hi := by
    rw [ho i (by omega)]
    exact h.ahead i (by omega)
  same i := by
    refine (h.same i).trans ?_
    by_cases hi : i = n
    · exact hi ▸ hsa
    · rw [ho i hi]
      exact .refl _
  search i := by
    rw [hse, h.search, hall, mem_append, mem_singleton]
    exact or_and_right.symm
  rest i hi := by
    rw [hall, mem_append, mem_singleton] at hi
    by_cases hin : i = n
    · exact hin ▸ hr
    rw [ho i hin]
    rcases h.rest i (hi.resolve_right hin) with hs | hw | ht
    · exact .inl ((hse i).mpr (.inl hs))
    · exact .inr (.inl (hwr i hw))
    · exact .inr (.inr ht)

theorem standbyWrite_ends (n : Nat) :
    EndsAll [n]
      (vamanaWorkerFailSlot n "write requests are not accepted on a standby" .internal) := by
  have hen := endsAll_blocks [n]
    (fun _ => [.errorMessage "write requests are not accepted on a standby",
      .errorCategory .internal]) (fun _ => .error) (fun _ _ => by simp) (fun _ => .inr rfl)
  rwa [flatMap_singleton] at hen

theorem collectedOk_slot {c : Collected} (h : CollectedOk k slots n c) :
    CollectedOk k slots (n + 1) (collectSlot k c n) := by
  have hn : c.slots n = slots n := h.ahead n (Nat.le_refl n)
  unfold collectSlot
  rw [hn]
  by_cases hr : c.allPending.length < k.maxBatch ∧ (slots n).status = .pending
  · rw [if_pos hr]
    have ho : ∀ i, i ≠ n → promote c.slots n i = c.slots i :=
      fun i hi => update_of_ne hi _ _
    have hsa := sameRequest_promote c.slots n n
    split
    · rename_i hki
      refine h.collected hr rfl ho hsa (fun i => ?_) (fun i hi => hi)
        (.inl (mem_append_right _ mem_cons_self))
      rw [mem_append, mem_singleton]
      refine or_congr_right ⟨fun hi => ⟨hi, hi ▸ hki⟩, And.left⟩
    · rename_i hki
      have hs : ∀ i, i ∈ c.searchPending ↔
          i ∈ c.searchPending ∨ (i = n ∧ (slots i).slotKind = .search) := by
        refine fun i => ⟨.inl, fun hi => hi.resolve_right ?_⟩
        rintro ⟨rfl, hk⟩
        exact hki hk
      split
      · exact h.collected hr rfl ho hsa hs (fun i hi => mem_append_left _ hi)
          (.inr (.inl (mem_append_right _ mem_cons_self)))
      -- a write on a standby is failed at once
      have hen := standbyWrite_ends n
      refine h.collected hr rfl (fun i hi => ?_) (hsa.trans (sameRequest_ops _ _ n)) hs
        (fun i hi => hi) (.inr (.inr ?_))
      · dsimp only
        rw [applyOps_other, ho i hi]
        intro op hop heq
        exact hi (heq ▸ mem_singleton.mp (hen.within op hop))
      · exact terminal_of_ends hen.only (.inr (hen.each n mem_cons_self))
  · have hne := take_filter_succ (fun i => decide ((slots i).status = .pending)) n k.maxBatch
    rw [← h.all, if_neg (by simpa using hr)] at hne
    rw [if_neg hr]
    exact ⟨hne.symm, fun i hi => h.ahead i (by omega), h.same, h.search, h.rest⟩

theorem collectedOk (k : PassCalls) (slots : Nat → Slot) (n : Nat) :
    CollectedOk k slots n (collect k slots n) := by
  induction n with
  | zero => exact collectedOk_start k slots
  | succ n ih =>
    unfold collect
    rw [range_succ, foldl_append]
    exact collectedOk_slot ih

/-! ## The law -/

/-- A pass ends every slot it promoted and wakes its backend, exactly when for no promoted search
the cost or the scratch reservation raises on an index that is there. -/
theorem a_pass_contains_its_errors_iff (k : PassCalls) (b : Block) :
    Contained k b ↔ ∀ i ∈ promoted k b, (b.slots i).slotKind = .search →
      ¬ RaisesUnguarded (k.batch (b.slots i).indexRelid) := by
  have hc := collectedOk k b.slots b.maxSlots
  unfold Contained vamanaWorkerProcessRequests
  generalize collect k b.slots b.maxSlots = c at hc
  have hd : Dispatched k.batch c.slots c.searchPending _ :=
    dispatched k.batch (Nat.le_refl c.searchPending.length)
  have hall : c.allPending = promoted k b := hc.all
  have hes : (vamanaWorkerDispatchBatch k.batch c.searchPending.length c.slots
      c.searchPending).2 = true ↔ ∃ i ∈ promoted k b, (b.slots i).slotKind = .search ∧
      RaisesUnguarded (k.batch (b.slots i).indexRelid) := by
    rw [hd.escaped]
    constructor
    · rintro ⟨i, hi, hr⟩
      rw [(hc.same i).indexRelid] at hr
      obtain ⟨hmem, hk⟩ := (hc.search i).mp hi
      exact ⟨i, hall ▸ hmem, hk, hr⟩
    · rintro ⟨i, hi, hk, hr⟩
      exact ⟨i, (hc.search i).mpr ⟨hall ▸ hi, hk⟩, by rwa [(hc.same i).indexRelid]⟩
  dsimp only
  generalize vamanaWorkerDispatchBatch k.batch c.searchPending.length c.slots c.searchPending = r
    at hd hes ⊢
  obtain ⟨slots, escaped⟩ := r
  cases escaped with
  | true =>
    obtain ⟨i, hi, hk, hr⟩ := hes.mp rfl
    simp only [if_true, Bool.true_eq_false, false_and, false_iff]
    exact fun h => h i hi hk hr
  | false =>
    have hn : ∀ i ∈ promoted k b, (b.slots i).slotKind = .search →
        ¬ RaisesUnguarded (k.batch (b.slots i).indexRelid) :=
      fun i hi hk hr => Bool.false_ne_true (hes.mpr ⟨i, hi, hk, hr⟩)
    simp only [Bool.false_eq_true, if_false, true_and]
    refine iff_of_true (fun i hi => ?_) hn
    obtain ⟨hst, hset⟩ := setLatches (dispatchWrites k.write slots c.writePending) c.allPending i
    refine ⟨?_, hset (.inr (hall ▸ hi))⟩
    unfold Terminal
    rw [hst]
    apply dispatchWrites_ends
    by_cases hs : i ∈ c.searchPending
    · exact .inl (hd.ended rfl i hs)
    rcases (hc.rest i (hall ▸ hi)).resolve_left hs with hw | ht
    · exact .inr hw
    · have ho : slots i = c.slots i := hd.other i hs
      left
      rw [ho]
      exact ht

/-- The calls of a batch on an index that is there, with scratch memory and without results. -/
def quietBatch : BatchCalls where
  index := .handle
  costKnown := true
  costRaises := false
  scratch := .granted
  threadsRaise := false
  batchSearch := .rows fun _ => []
  search _ := .rows []

def quietWriteSlot : WriteSlotCalls := ⟨false, 1, false, 0, 0, 1, none⟩

/-- A search on index 1 in slot 0, one on index 2 in slot 1 and a DELETE in slot 2. -/
def threePending : Block where
  maxSlots := 3
  slots
    | 0 => { Slot.init with status := .pending, indexRelid := 1, k := 1 }
    | 1 => { Slot.init with status := .pending, indexRelid := 2, k := 1 }
    | 2 => { Slot.init with status := .pending, indexRelid := 1, slotKind := .delete }
    | _ => Slot.init

/-- The cost of a search on index 1 is not known, and the call that computes it fails. -/
def costFails : PassCalls where
  acceptsWrites := true
  maxBatchSize := 0
  maxBackends := 100
  batch relid := if relid = 1 then { quietBatch with costKnown := false, costRaises := true }
    else quietBatch
  write _ := quietWriteSlot

/-- The error leaves the pass: the search it came from, the search on the other index and the
DELETE all stay PROCESSING, and no backend is woken. -/
theorem a_failed_cost_leaves_the_pass :
    (vamanaWorkerProcessRequests costFails threePending).2 = true ∧
    promoted costFails threePending = [0, 1, 2] ∧
    ∀ i ∈ [0, 1, 2], ((vamanaWorkerProcessRequests costFails threePending).1 i).status = .processing ∧
      ((vamanaWorkerProcessRequests costFails threePending).1 i).latch.isSet = false := by
  decide

end svs_vamana.request_pass
