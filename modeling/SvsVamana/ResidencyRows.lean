-- Durable residency rows (svs_index_residency.c): where no entry leaves the cache between two
-- transactions, the rows name the resident indexes.
import SvsVamana.DurableFloor

namespace svs_vamana.residency_rows

open transition_runs durable_floor

/-! ## The pure model -/

/-- The indexes that the worker of a database holds, and the rows of `svs_index_residency`. -/
structure Worker where
  resident : List Nat := []
  rows : ResidencyTable := .empty

/-- A part of an operation: `VamanaEvictCacheEntry`, or `VamanaCacheIndex`, which destroys the
entry it replaces. -/
inductive Act
  | evict (relid : Nat)
  | cacheIndex (relid measuredBytes : Nat)

def Act.relid : Act → Nat
  | .evict relid | .cacheIndex relid _ => relid

/-- Loads on demand and by slot, reloads, `evict_all`, the drop of a slot, the WAL-budget valve, the
recovery from a replay error, and a load that is made again from the heap. -/
inductive Operation
  | load (relid measuredBytes : Nat)
  | reload (relid : Nat) (measuredBytes : Option Nat)
  | evictAll
  | slotDrop (relid : Nat)
  | enforceWalBudget (relids : List Nat)
  | recoverFromReplayError (relid : Nat)
  | inconsistentSlot (relid measuredBytes rebuiltBytes : Nat)

/-- `IsTransactionState()`. The valve runs between the transactions of the main loop, and the
recovery has aborted the one it was in. -/
def Operation.inTransaction : Operation → Bool
  | .enforceWalBudget _ | .recoverFromReplayError _ => false
  | _ => true

def Operation.acts (w : Worker) : Operation → List Act
  | .load relid bytes => [.cacheIndex relid bytes]
  | .reload relid bytes => .evict relid :: (bytes.map (Act.cacheIndex relid)).toList
  | .evictAll => w.resident.map .evict
  | .slotDrop relid | .recoverFromReplayError relid => [.evict relid]
  | .enforceWalBudget relids => (relids.filter (· ∈ w.resident)).map .evict
  | .inconsistentSlot relid bytes rebuilt =>
    [.cacheIndex relid bytes, .evict relid, .cacheIndex relid rebuilt]

/-- An operation, the indexes whose rows its subtransactions fail to write, and whether its
transaction commits. -/
structure Event where
  op : Operation
  unwritten : List Nat := []
  commits : Bool := true

/-- `VamanaDestroyCacheEntry`. `SvsIndexResidencyRecordUnload` does nothing where no row can be
`written`. -/
def destroyCacheEntry (w : Worker) (relid : Nat) (written : Bool) : Worker :=
  if relid ∈ w.resident then
    { resident := w.resident.filter (· ≠ relid)
      rows := if written then w.rows.recordUnload relid else w.rows }
  else w

def perform (dbOid : Nat) (e : Event) (w : Worker) (a : Act) : Worker :=
  let written := e.op.inTransaction && decide (a.relid ∉ e.unwritten)
  match a with
  | .evict relid => destroyCacheEntry w relid written
  | .cacheIndex relid bytes =>
    let w := destroyCacheEntry w relid written
    { resident := relid :: w.resident
      rows := if written then w.rows.recordLoad relid dbOid bytes else w.rows }

/-- An abort takes the rows back and leaves the cache as it is. -/
def step (dbOid : Nat) (w : Worker) (e : Event) : Worker :=
  let w' := run (perform dbOid e) w (e.op.acts w)
  if e.op.inTransaction ∧ e.commits = false then { w' with rows := w.rows } else w'

/-- There is a row for an index exactly when the worker holds it. -/
def Follows (w : Worker) : Prop :=
  ∀ relid, (∃ r ∈ w.rows.rows, r.indexRelid = relid) ↔ relid ∈ w.resident

/-- The indexes that an operation evicts between two transactions. -/
def Operation.outside : Operation → List Nat
  | .enforceWalBudget relids => relids
  | .recoverFromReplayError relid => [relid]
  | _ => []

/-- Neither the valve nor a recovery finds an entry to destroy, and an operation within a
transaction commits and has its rows written. -/
def Retires (w : Worker) (e : Event) : Prop :=
  (∀ relid ∈ e.op.outside, relid ∉ w.resident) ∧ e.commits = true ∧
    ∀ a ∈ e.op.acts w, a.relid ∉ e.unwritten

deriving instance Decidable for Retires

/-! ## Rows -/

variable {w : Worker}

theorem follows_destroy (h : Follows w) (relid : Nat) :
    Follows (destroyCacheEntry w relid true) := by
  unfold destroyCacheEntry
  split
  · intro x
    have hx := h x
    simp only [ResidencyTable.recordUnload, if_true, List.mem_filter, decide_eq_true_eq]
    grind
  · exact h

theorem follows_perform {dbOid : Nat} {e : Event} {a : Act} (h : Follows w)
    (hin : e.op.inTransaction ∧ a.relid ∉ e.unwritten) : Follows (perform dbOid e w a) := by
  have hw : (e.op.inTransaction && decide (a.relid ∉ e.unwritten)) = true := by simp [hin]
  cases a with
  | evict relid =>
    simp only [perform, hw]
    exact follows_destroy h relid
  | cacheIndex relid bytes =>
    intro x
    have hx := follows_destroy h relid x
    simp only [perform, hw, if_true, ResidencyTable.recordLoad, List.mem_append,
      List.mem_filter, List.mem_cons, decide_eq_true_eq]
    grind

theorem acts_outside {op : Operation} (hop : op.inTransaction = false)
    (h : ∀ relid ∈ op.outside, relid ∉ w.resident) (dbOid : Nat) (e : Event) :
    run (perform dbOid e) w (op.acts w) = w := by
  cases op with
  | enforceWalBudget relids =>
    have hn : relids.filter (· ∈ w.resident) = [] := by
      simpa [List.filter_eq_nil_iff, Operation.outside] using h
    simp [Operation.acts, hn]
  | recoverFromReplayError relid =>
    have hr : relid ∉ w.resident := h relid (by simp [Operation.outside])
    simp [Operation.acts, perform, destroyCacheEntry, hr]
  | _ => cases hop

/-- Where the WAL-budget valve and the recovery from replay errors find no entry, and every other
operation commits with its rows, there is a row for an index exactly when the worker holds it. -/
theorem rows_follow_evictions (dbOid : Nat) {w : Worker} (hw : Follows w) (es : List Event)
    (h : EachStep (step dbOid) Retires w es) : EachState (step dbOid) Follows w es := by
  refine eachState_invariant Follows ?_ (fun w hw => hw) hw h
  rintro w e hf ⟨ho, hc, hwr⟩
  have hrun : Follows (run (perform dbOid e) w (e.op.acts w)) := by
    cases hop : e.op.inTransaction with
    | false =>
      rw [acts_outside hop ho]
      exact hf
    | true =>
      refine run_invariant Follows (fun w a hw hin => follows_perform hw ⟨hop, hin⟩) hf ?_
      exact eachStep_of_forall (fun a ha _ => hwr a ha) w
  simpa [step, hc] using hrun

theorem an_evicted_index_has_no_row :
    EachState (step 5) Follows {}
      [⟨.load 7 60, [], true⟩, ⟨.load 8 30, [], true⟩, ⟨.reload 7 (some 70), [], true⟩,
        ⟨.enforceWalBudget [9], [], true⟩, ⟨.evictAll, [], true⟩] :=
  rows_follow_evictions 5 (by simp [Follows, ResidencyTable.empty]) _ (by decide)

/-- The valve trips for an index that has fallen behind: the worker lets go of it, and its row
stays. -/
theorem the_wal_budget_leaves_a_row :
    ¬ EachState (step 5) Follows {}
      [⟨.load 7 60, [], true⟩, ⟨.enforceWalBudget [7], [], true⟩] := by
  intro h
  have hrow := (h.2.2 7).mp ⟨⟨7, 5, 60⟩, by decide, rfl⟩
  exact absurd hrow (by decide)

end svs_vamana.residency_rows
