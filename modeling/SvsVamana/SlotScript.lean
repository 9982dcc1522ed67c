-- What the worker does to one slot of a batch: it is executed at most once, before anything is
-- written to it, and its last access writes DONE or ERROR.
import SvsVamana.SlotProtocol

namespace svs_vamana.slot_script

open index_cache request_slot request_pass slot_protocol
open List

/-! ## The accesses to one slot -/

def opsOf (i : Nat) (ops : List SlotOp) : List SlotOp := ops.filter fun op => slotOf op = i

@[simp] theorem opsOf_nil (i : Nat) : opsOf i [] = [] := rfl

variable {i : Nat}

theorem opsOf_cons_self {op : SlotOp} (h : slotOf op = i) (rest : List SlotOp) :
    opsOf i (op :: rest) = op :: opsOf i rest := by simp [opsOf, h]

theorem opsOf_cons_other {op : SlotOp} (h : slotOf op ≠ i) (rest : List SlotOp) :
    opsOf i (op :: rest) = opsOf i rest := by simp [opsOf, h]

theorem opsOf_append (i : Nat) (l l' : List SlotOp) : opsOf i (l ++ l') = opsOf i l ++ opsOf i l' :=
  filter_append ..

variable {ops : List SlotOp}

theorem opsOf_all (h : ∀ op ∈ ops, slotOf op = i) : opsOf i ops = ops := by
  apply filter_eq_self.mpr
  intro op hop
  simp [h op hop]

theorem opsOf_none (h : ∀ op ∈ ops, slotOf op ≠ i) : opsOf i ops = [] := by
  apply filter_eq_nil_iff.mpr
  intro op hop
  simp [h op hop]

variable {f : Nat → List SlotOp} {batch : List Nat}

theorem opsOf_flatMap (hf : ∀ i, ∀ op ∈ f i, slotOf op = i) (hnd : batch.Nodup) (hi : i ∈ batch) :
    opsOf i (batch.flatMap f) = f i := by
  induction batch with
  | nil => cases hi
  | cons j rest ih =>
    have hj := nodup_cons.mp hnd
    rw [flatMap_cons, opsOf_append]
    by_cases hij : i = j
    · subst hij
      have hr : opsOf i (rest.flatMap f) = [] := by
        apply opsOf_none
        intro op hop heq
        obtain ⟨j, hjm, hmem⟩ := mem_flatMap.mp hop
        rw [← hf j op hmem, heq] at hjm
        exact hj.1 hjm
      rw [opsOf_all (hf i), hr, append_nil]
    · have ho : opsOf i (f j) = [] := by
        apply opsOf_none
        intro op hop heq
        exact hij (heq.symm.trans (hf j op hop))
      rw [ho, ih hj.2 ((mem_cons.mp hi).resolve_left hij), nil_append]

/-! ## The script of a slot -/

/-- The writes alone decide what the backend reads. -/
def Determined (kind : SlotKind) (written : List SlotWrite) : Prop :=
  ∀ s s' : Slot, answerIn (written.foldl SlotWrite.apply s) kind =
    answerIn (written.foldl SlotWrite.apply s') kind

/-- The accesses that are still to come to a promoted slot, after it was executed or not and after
what was written to it. DONE is written over a whole answer only. -/
def Script (kind : SlotKind) : Bool → List SlotWrite → List SlotOp → Prop
  | _, _, [] => False
  | ran, written, .execute _ :: rest => ran = false ∧ written = [] ∧ Script kind true [] rest
  | _, written, .write _ (.status st) :: rest =>
    rest = [] ∧ (st = .done ∧ Determined kind written ∨ st = .error)
  | ran, written, .write _ w :: rest => Script kind ran (written ++ [w]) rest

variable {kind : SlotKind} {written : List SlotWrite}

theorem script_write {ran : Bool} {w : SlotWrite} (hw : ∀ st, w ≠ .status st) (rest : List SlotOp) :
    Script kind ran written (.write i w :: rest) ↔ Script kind ran (written ++ [w]) rest := by
  cases w with
  | status st => exact absurd rfl (hw st)
  | _ => rfl

variable {st : SlotStatus}

theorem script_endSlot {ran : Bool} {ws : List SlotWrite} (hws : ∀ st', SlotWrite.status st' ∉ ws)
    (hst : st = .done ∧ Determined kind (written ++ ws) ∨ st = .error) :
    Script kind ran written (endSlot i ws st) := by
  induction ws generalizing written with
  | nil => exact ⟨rfl, by simpa using hst⟩
  | cons w rest ih =>
    have hw : ∀ st', w ≠ .status st' := by
      intro st' heq
      exact hws st' (heq ▸ mem_cons_self)
    have hr : ∀ st', SlotWrite.status st' ∉ rest := fun st' h => hws st' (mem_cons_of_mem _ h)
    apply (script_write hw _).mpr
    apply ih hr
    simpa using hst

theorem slotOf_endSlot (i : Nat) (ws : List SlotWrite) (st : SlotStatus) :
    ∀ op ∈ endSlot i ws st, slotOf op = i := by
  intro op hop
  rcases mem_endSlot.mp hop with ⟨w, _, rfl⟩ | rfl <;> rfl

/-! ## The scripts of a batch -/

/-- The accesses go to slots of the batch, and each of these gets a script. -/
structure Scripts (batch : List Nat) (ops : List SlotOp) : Prop where
  within : ∀ op ∈ ops, slotOf op ∈ batch
  each : ∀ i ∈ batch, Script .search false [] (opsOf i ops)

theorem slotOf_mem_flatMap (hf : ∀ i, ∀ op ∈ f i, slotOf op = i) :
    ∀ op ∈ batch.flatMap f, slotOf op ∈ batch := by
  intro op hop
  obtain ⟨i, hi, hmem⟩ := mem_flatMap.mp hop
  rw [hf i op hmem]
  exact hi

theorem scripts_flatMap (hf : ∀ i, ∀ op ∈ f i, slotOf op = i) (hnd : batch.Nodup)
    (hs : ∀ i, Script .search false [] (f i)) :
    Scripts batch (batch.flatMap f) where
  within := slotOf_mem_flatMap hf
  each i hi := by
    rw [opsOf_flatMap hf hnd hi]
    exact hs i

theorem determined_none : Determined .search [.numResults 0] := by
  intro s s'
  simp [answerIn, SlotWrite.apply]

theorem determined_rows (rows : List (Tid × Nat)) :
    Determined .search [.results rows, .numResults rows.length] := by
  intro s s'
  simp [answerIn, SlotWrite.apply]

theorem scripts_failBatch (hnd : batch.Nodup) (message : String) (category : ErrorCategory) :
    Scripts batch (failBatch batch message category) :=
  scripts_flatMap (fun i => slotOf_endSlot i _ _) hnd
    (fun _ => script_endSlot (by simp) (.inr rfl))

theorem scripts_executeAll (hnd : batch.Nodup) {ws : Nat → List SlotWrite}
    (hws : ∀ i st', SlotWrite.status st' ∉ ws i)
    (hst : ∀ i, st = .done ∧ Determined .search (ws i) ∨ st = .error) :
    Scripts batch (batch.map .execute ++ batch.flatMap fun i => endSlot i (ws i) st) where
  within op hop := by
    rcases mem_append.mp hop with h | h
    · obtain ⟨i, hi, rfl⟩ := mem_map.mp h
      exact hi
    · exact slotOf_mem_flatMap (fun i => slotOf_endSlot i _ _) op h
  each i hi := by
    have hex : opsOf i (batch.map .execute) = [.execute i] := by
      rw [map_eq_flatMap]
      exact opsOf_flatMap (by simp [slotOf]) hnd hi
    rw [opsOf_append, hex, opsOf_flatMap (fun i => slotOf_endSlot i _ _) hnd hi]
    exact ⟨rfl, rfl, script_endSlot (hws i) (hst i)⟩

theorem scripts_searchNative (k : BatchCalls) (relid : Nat) (hnd : batch.Nodup) :
    Scripts batch (searchNative k relid batch) := by
  unfold searchNative
  cases k.batchSearch with
  | rows rows => exact scripts_executeAll hnd (by simp) (fun i => .inl ⟨rfl, determined_rows _⟩)
  | code code | raised => exact scripts_executeAll hnd (by simp) (fun _ => .inr rfl)

/-- The accesses to a slot of the sequential path whose search does not raise. -/
def searchOne (k : BatchCalls) (i : Nat) : List SlotOp :=
  match k.search i with
  | .rows rows => .execute i :: endSlot i [.results rows, .numResults rows.length] .done
  | .code code =>
    .execute i :: endSlot i [.numResults 0,
      .errorMessage ("SVS search failed with code " ++ toString code),
      .errorCategory .internal] .error
  | .raised => [.execute i]

theorem slotOf_searchOne (k : BatchCalls) (i : Nat) : ∀ op ∈ searchOne k i, slotOf op = i := by
  intro op hop
  unfold searchOne at hop
  cases hk : k.search i with
  | rows rows | code code =>
    simp only [hk, mem_cons] at hop
    rcases hop with rfl | hop
    · rfl
    · exact slotOf_endSlot i _ _ op hop
  | raised =>
    simp only [hk, mem_singleton] at hop
    subst hop
    rfl

variable {k : BatchCalls}

theorem script_searchOne (h : k.search i ≠ .raised) : Script .search false [] (searchOne k i) := by
  unfold searchOne
  cases hk : k.search i with
  | rows rows => exact ⟨rfl, rfl, script_endSlot (by simp) (.inl ⟨rfl, determined_rows rows⟩)⟩
  | code code => exact ⟨rfl, rfl, script_endSlot (by simp) (.inr rfl)⟩
  | raised => exact absurd hk h

variable {relid : Nat}

theorem searchSequential_eq {todo : List Nat} (h : ∀ i ∈ todo, k.search i ≠ .raised) :
    searchSequential k relid batch todo = todo.flatMap (searchOne k) := by
  induction todo with
  | nil => rfl
  | cons i rest ih =>
    have hr := ih fun j hj => h j (mem_cons_of_mem _ hj)
    have hi := h i mem_cons_self
    cases hk : k.search i with
    | rows rows | code code => simp [searchSequential, searchOne, hk, hr]
    | raised => exact absurd hk hi

/-- In a batch that goes the sequential path, the first search comes back and a later one
raises. -/
def RaisesLate (k : BatchCalls) (slots : Nat → Slot) (batch : List Nat) : Prop :=
  k.index = .handle ∧ (k.costKnown = true ∨ k.costRaises = false) ∧ k.scratch = .granted ∧
    k.threadsRaise = false ∧ (1 < batch.length && uniform slots batch) = false ∧
    (∀ i ∈ batch.head?, k.search i ≠ .raised) ∧ ∃ i ∈ batch.tail, k.search i = .raised

theorem scripts_firstRaised (hnd : batch.Nodup) (hi : i ∈ batch) :
    Scripts batch (.execute i :: searchError relid batch) where
  within op hop := by
    rcases mem_cons.mp hop with rfl | hop
    · exact hi
    · exact (scripts_failBatch hnd _ _).within op hop
  each j hj := by
    by_cases hij : i = j
    · rw [opsOf_cons_self (show slotOf (.execute i) = j from hij), searchError, failBatch,
        opsOf_flatMap (fun i => slotOf_endSlot i _ _) hnd hj]
      exact ⟨rfl, rfl, script_endSlot (by simp) (.inr rfl)⟩
    · rw [opsOf_cons_other (show slotOf (.execute i) ≠ j from hij)]
      exact (scripts_failBatch hnd _ _).each j hj

theorem scripts_searchSequential (hnd : batch.Nodup)
    (h : (∀ i ∈ batch.head?, k.search i ≠ .raised) → ∀ i ∈ batch.tail, k.search i ≠ .raised) :
    Scripts batch (searchSequential k relid batch batch) := by
  cases batch with
  | nil => exact ⟨by simp [searchSequential], by simp⟩
  | cons i rest =>
    simp only [head?_cons, Option.mem_def, Option.some.injEq, forall_eq', tail_cons] at h
    by_cases hi : k.search i = .raised
    · simp only [searchSequential, hi]
      exact scripts_firstRaised hnd mem_cons_self
    have hall : ∀ j ∈ i :: rest, k.search j ≠ .raised := by
      intro j hj
      rcases mem_cons.mp hj with rfl | hj
      · exact hi
      · exact h hi j hj
    rw [searchSequential_eq hall]
    refine ⟨slotOf_mem_flatMap (slotOf_searchOne k), fun j hj => ?_⟩
    rw [opsOf_flatMap (slotOf_searchOne k) hnd hj]
    exact script_searchOne (hall j hj)

theorem runBatch_scripts {slots : Nat → Slot} (relid : Nat) (hnd : batch.Nodup)
    (h : ¬ RaisesLate k slots batch) :
    vamanaWorkerRunBatch k slots relid batch = ([], true) ∨
      (vamanaWorkerRunBatch k slots relid batch).2 = false ∧
        Scripts batch (vamanaWorkerRunBatch k slots relid batch).1 := by
  unfold vamanaWorkerRunBatch
  cases hind : k.index with
  | loadFailed message | missing => exact .inr ⟨rfl, scripts_failBatch hnd _ _⟩
  | empty =>
    refine .inr ⟨rfl, scripts_flatMap (fun i => slotOf_endSlot i _ _) hnd fun i => ?_⟩
    exact script_endSlot (by simp) (.inl ⟨rfl, determined_none⟩)
  | handle =>
    by_cases hc : (!k.costKnown && k.costRaises) = true
    · exact .inl (by simp [hc])
    simp only [hc, Bool.false_eq_true, if_false]
    cases hs : k.scratch with
    | raised => exact .inl rfl
    | refused limit isOverride => exact .inr ⟨rfl, scripts_failBatch hnd _ _⟩
    | granted =>
      right
      by_cases ht : k.threadsRaise = true
      · simp only [ht, if_true]
        exact ⟨trivial, scripts_failBatch hnd _ _⟩
      by_cases hn : (1 < batch.length && uniform slots batch) = true
      · simp only [ht, hn, if_true, Bool.false_eq_true, if_false]
        exact ⟨trivial, scripts_searchNative k relid hnd⟩
      simp only [ht, hn, Bool.false_eq_true, if_false]
      refine ⟨trivial, scripts_searchSequential hnd fun hf i hi hra => ?_⟩
      have hc' : k.costKnown = true ∨ k.costRaises = false := by
        cases hk : k.costKnown <;> cases hr : k.costRaises <;> simp_all
      exact h ⟨hind, hc', hs, by simpa using ht, by simpa using hn, hf, i, hi, hra⟩

/-! ## The script of a write -/

variable (w : WriteSlotCalls)

theorem determined_answerWrites (h : kind ≠ .search) : Determined kind (answerWrites w kind) := by
  intro s s'
  cases kind with
  | search => exact absurd rfl h
  | insert =>
    simp only [answerWrites]
    split <;> simp [answerIn, SlotWrite.apply]
  | _ => rfl

theorem slotOf_writeSlot (kind : SlotKind) (i : Nat) :
    ∀ op ∈ vamanaWorkerDispatchWriteSlot w kind i, slotOf op = i := by
  intro op hop
  exact mem_singleton.mp ((writeSlot_ends w kind i).within op hop)

theorem writeSlot_script (h : kind ≠ .search) (i : Nat) :
    Script kind false [] (vamanaWorkerDispatchWriteSlot w kind i) := by
  unfold vamanaWorkerDispatchWriteSlot
  cases w.raises with
  | none =>
    refine ⟨rfl, rfl, script_endSlot (answerWrites_no_status w kind) (.inl ⟨rfl, ?_⟩)⟩
    exact determined_answerWrites w h
  | some failure =>
    refine ⟨rfl, rfl, script_endSlot (fun st hst => ?_) (.inr rfl)⟩
    rcases mem_append.mp hst with hst | hst
    · exact answerWrites_no_status w kind st (mem_of_mem_take hst)
    · simp at hst

theorem failSlot_script (kind : SlotKind) (i : Nat) (message : String) (category : ErrorCategory) :
    Script kind false [] (vamanaWorkerFailSlot i message category) :=
  script_endSlot (by simp) (.inr rfl)

end svs_vamana.slot_script
