-- Whose books a memory call moves: between the lookup of a control block and the call's own lock,
-- the block may come to another database.
import SvsVamana.MemorySteps

namespace svs_vamana.tenant_isolation

open transition_runs svs_memory System List

/-! ## Calls in flight -/

/-- What a call has still to do on the block it has looked up. An admission and a restored budget go
through two sections. -/
inductive Work
  | op (op : Op)
  | admitDatabase (residencyBudget durableCommittedFloor : Nat)
  | restoreResidencyBudget (priorBudget : Nat)
  | admission (residencyBudget : Nat)
  | restoration (restoredBudget : Nat)

/-- A call for `dbOid`, with the block that `VamanaWorkerLookupSlot` has given it. -/
structure Call where
  dbOid : Nat
  block : Nat
  work : Work

/-- The control blocks, and the calls that are past their lookup. -/
structure World where
  mem : System
  calls : List Call := []

def init (maxDatabases : Nat) : World := { mem := svs_memory.init maxDatabases }

/-- `LookupEntryOrError`: a call for a database without a block ends here. -/
def World.lookup (w : World) (dbOid : Nat) (work : Work) : World :=
  if dbOid = 0 then w else
  match w.mem.findSlot dbOid with
  | none => w
  | some (i, _) => { w with calls := w.calls ++ [⟨dbOid, i, work⟩] }

/-- The next locked section of a call. None of them looks at the block's `dbOid`. -/
def World.locked (w : World) (c : Call) (ceiling : Nat) : World :=
  match c.work with
  | .op op => { w with mem := w.mem.call c.block op }
  | .admitDatabase residencyBudget floor =>
    match w.mem.blocks[c.block]? with
    | none => w
    | some e =>
      if residencyBudget = 0 ∨ residencyBudget < max (realUsage e) floor then w
      else { w with calls := w.calls ++ [{ c with work := .admission residencyBudget }] }
  | .restoreResidencyBudget priorBudget =>
    match w.mem.blocks[c.block]? with
    | none => w
    | some e =>
      { w with calls := w.calls ++ [{ c with work := .restoration (max priorBudget (realUsage e)) }] }
  | .admission residencyBudget =>
    { w with mem := (w.mem.admitSection c.block residencyBudget ceiling).1 }
  | .restoration restoredBudget => { w with mem := w.mem.restoreSection c.block restoredBudget }

inductive Event
  | lookup (dbOid : Nat) (work : Work)
  | locked (k ceiling : Nat)
  | reserveSlot (dbOid : Nat)
  | releaseSlot (dbOid : Nat)

/-- One critical section of one process; `locked k` is the next one of the `k`th call. -/
def step (w : World) : Event → World
  | .lookup dbOid work => w.lookup dbOid work
  | .locked k ceiling =>
    match w.calls[k]? with
    | none => w
    | some c => { w with calls := w.calls.eraseIdx k }.locked c ceiling
  | .reserveSlot dbOid => { w with mem := w.mem.reserveSlot dbOid }
  | .releaseSlot dbOid => { w with mem := w.mem.releaseSlot dbOid }

/-! ## What a section writes -/

/-- A section rewrites the block that its call has looked up, or none. -/
def Rewrites (i : Nat) (s s' : System) : Prop :=
  s'.blocks = s.blocks ∨
    ∃ e e', s.blocks[i]? = some e ∧ e'.dbOid = e.dbOid ∧ s'.blocks = s.blocks.set i e'

theorem locked_rewrites (w : World) (c : Call) (ceiling : Nat) :
    Rewrites c.block w.mem (w.locked c ceiling).mem := by
  unfold World.locked
  cases c.work with
  | op op =>
    simp only [call]
    cases hi : w.mem.blocks[c.block]? with
    | none => exact .inl rfl
    | some e => exact .inr ⟨e, _, hi, apply_dbOid (w.mem.ledger e) op, rfl⟩
  | admitDatabase residencyBudget floor =>
    refine .inl ?_
    dsimp only
    repeat' split
    all_goals rfl
  | restoreResidencyBudget priorBudget =>
    refine .inl ?_
    dsimp only
    split <;> rfl
  | admission residencyBudget =>
    simp only [admitSection]
    cases hi : w.mem.blocks[c.block]? with
    | none => exact .inl rfl
    | some e =>
      dsimp only
      split
      · exact .inl rfl
      · exact .inr ⟨e, { e with residencyBudget }, hi, rfl, rfl⟩
  | restoration restoredBudget =>
    simp only [restoreSection]
    cases hi : w.mem.blocks[c.block]? with
    | none => exact .inl rfl
    | some e => exact .inr ⟨e, { e with residencyBudget := restoredBudget }, hi, rfl, rfl⟩

variable {w : World}

theorem locked_calls {c c' : Call} {ceiling : Nat} (h : c' ∈ (w.locked c ceiling).calls) :
    c' ∈ w.calls ∨ c'.dbOid = c.dbOid := by
  have hs : ∀ work, c' ∈ w.calls ++ [{ c with work := work }] →
      c' ∈ w.calls ∨ c'.dbOid = c.dbOid := by
    intro work hmem
    rcases mem_append.mp hmem with hmem | hmem
    · exact .inl hmem
    · rw [mem_singleton.mp hmem]
      exact .inr rfl
  unfold World.locked at h
  cases hw : c.work with
  | op op | admission residencyBudget | restoration restoredBudget =>
    simp only [hw] at h
    exact .inl h
  | admitDatabase residencyBudget floor =>
    simp only [hw] at h
    split at h
    · exact .inl h
    · split at h
      · exact .inl h
      · exact hs _ h
  | restoreResidencyBudget priorBudget =>
    simp only [hw] at h
    split at h
    · exact .inl h
    · exact hs _ h

/-! ## The law -/

/-- The call whose section an event is. -/
def callOf (w : World) : Event → Option Call
  | .locked k _ => w.calls[k]?
  | _ => none

/-- When a call comes to write, its block is still the one of its database. -/
def Aimed (w : World) (ev : Event) : Prop :=
  ∀ c ∈ callOf w ev, ∀ e ∈ w.mem.blocks[c.block]?, e.dbOid = c.dbOid

deriving instance Decidable for Aimed

/-- A call for one database leaves the block of every other as it is: its budget, its committed
bytes, its build bytes, its reservations and its pending inserts. -/
def Isolated (w : World) (ev : Event) : Prop :=
  ∀ c ∈ callOf w ev, ∀ j < w.mem.blocks.length, ∀ e ∈ w.mem.blocks[j]?,
    e.dbOid ≠ 0 → e.dbOid ≠ c.dbOid → (step w ev).mem.blocks[j]? = some e

instance (w : World) (ev : Event) : Decidable (Isolated w ev) :=
  inferInstanceAs (Decidable (∀ c ∈ callOf w ev, ∀ j < w.mem.blocks.length, _))

/-- The books of a block that no call has written to. -/
def Blank (e : Entry) : Prop :=
  e = { dbOid := e.dbOid, nextResidentGeneration := e.nextResidentGeneration }

/-- The next database to reserve a free block finds no books of another in it. -/
def FreeBlocksBlank (w : World) : Prop := ∀ e ∈ w.mem.blocks, e.dbOid = 0 → Blank e

/-- What holds between two sections. -/
structure Inv (w : World) : Prop where
  blank : FreeBlocksBlank w
  valid : ∀ c ∈ w.calls, c.dbOid ≠ 0

theorem init_inv (maxDatabases : Nat) : Inv (init maxDatabases) := by
  refine ⟨fun e he _ => ?_, nofun⟩
  rw [eq_of_mem_replicate he]
  rfl

theorem lookup_inv (h : Inv w) (dbOid : Nat) (work : Work) : Inv (w.lookup dbOid work) := by
  unfold World.lookup
  split
  · exact h
  rename_i hv
  split
  · exact h
  refine ⟨h.blank, fun c hc => ?_⟩
  rcases mem_append.mp hc with hc | hc
  · exact h.valid c hc
  · rw [mem_singleton.mp hc]
    exact hv

theorem reserveSlot_inv (h : Inv w) (dbOid : Nat) :
    Inv { w with mem := w.mem.reserveSlot dbOid } := by
  refine ⟨fun e he hf => ?_, h.valid⟩
  unfold reserveSlot at he
  dsimp only at he
  split at he
  · exact h.blank e he hf
  rename_i hnew
  split at he
  · exact h.blank e he hf
  rename_i i e₀ hfi
  rcases mem_or_eq_of_mem_set he with he | rfl
  · exact h.blank e he hf
  · -- database 0 stands for a free block, and there is one
    rw [show dbOid = 0 from hf, hfi] at hnew
    exact absurd rfl hnew

theorem releaseSlot_inv (h : Inv w) (dbOid : Nat) :
    Inv { w with mem := w.mem.releaseSlot dbOid } := by
  refine ⟨fun e he hf => ?_, h.valid⟩
  unfold releaseSlot at he
  dsimp only at he
  split at he
  · exact h.blank e he hf
  · rcases mem_or_eq_of_mem_set he with he | rfl
    · exact h.blank e he hf
    · rfl

theorem locked_inv (h : Inv w) {c : Call} (hc : c.dbOid ≠ 0) (ceiling : Nat)
    (ha : ∀ e ∈ w.mem.blocks[c.block]?, e.dbOid = c.dbOid) : Inv (w.locked c ceiling) := by
  constructor
  · intro e he hf
    rcases locked_rewrites w c ceiling with hs | ⟨e₀, e', hi, hdb, hset⟩
    · exact h.blank e (hs ▸ he) hf
    · rw [hset] at he
      rcases mem_or_eq_of_mem_set he with he | rfl
      · exact h.blank e he hf
      · rw [hdb, ha e₀ hi] at hf
        exact absurd hf hc
  · intro c' hc'
    rcases locked_calls hc' with hold | hs
    · exact h.valid c' hold
    · rw [hs]
      exact hc

theorem step_inv (h : Inv w) (ev : Event) (ha : Aimed w ev) : Inv (step w ev) := by
  cases ev with
  | lookup dbOid work => exact lookup_inv h dbOid work
  | locked k ceiling =>
    simp only [step]
    split
    · exact h
    rename_i c hk
    have hr : Inv { w with calls := w.calls.eraseIdx k } :=
      ⟨h.blank, fun c' hc' => h.valid c' (mem_of_mem_eraseIdx hc')⟩
    exact locked_inv hr (h.valid c (mem_of_getElem? hk)) ceiling (ha c hk)
  | reserveSlot dbOid => exact reserveSlot_inv h dbOid
  | releaseSlot dbOid => exact releaseSlot_inv h dbOid

theorem isolated_of_aimed {ev : Event} (ha : Aimed w ev) : Isolated w ev := by
  intro c hc j _ e hj _ ho
  cases ev with
  | locked k ceiling =>
    have hk : w.calls[k]? = some c := hc
    simp only [step, hk]
    rcases locked_rewrites { w with calls := w.calls.eraseIdx k } c ceiling with
      hsame | ⟨e₀, e', hi, -, hset⟩
    · rw [hsame]
      exact hj
    · rw [hset]
      by_cases hij : c.block = j
      · subst hij
        exact absurd (ha c hc e hj) ho
      · rw [getElem?_set_ne hij]
        exact hj
  | _ => cases hc

/-- Along every interleaving in which each call still finds the block of its database, no call
changes the books of another, and a reserved block is blank. -/
theorem a_call_moves_the_books_of_its_database (maxDatabases : Nat) (es : List Event)
    (h : EachStep step Aimed (init maxDatabases) es) :
    EachStep step Isolated (init maxDatabases) es ∧
      EachState step FreeBlocksBlank (init maxDatabases) es := by
  constructor
  · exact eachStep_invariant Inv (fun w ev hw => step_inv hw ev)
      (fun w ev _ ha => isolated_of_aimed ha) (init_inv maxDatabases) h
  · exact eachState_invariant Inv (fun w ev hw => step_inv hw ev) (fun w hw => hw.blank)
      (init_inv maxDatabases) h

/-- Database 5 is admitted with 100 bytes on block 0 and looks its block up for an insert. -/
def insertLookedUp : List Event :=
  [.reserveSlot 5, .lookup 5 (.admitDatabase 100 0), .locked 0 1000, .locked 0 1000,
    .lookup 5 (.op (.reserveInsert 42 1 7 30))]

theorem an_insert_is_booked_for_its_database :
    EachStep step Isolated (init 2) (insertLookedUp ++ [.reserveSlot 6, .locked 0 0]) ∧
      EachState step FreeBlocksBlank (init 2) (insertLookedUp ++ [.reserveSlot 6, .locked 0 0]) :=
  a_call_moves_the_books_of_its_database 2 (insertLookedUp ++ [.reserveSlot 6, .locked 0 0])
    (by decide +kernel)

/-- The launcher then releases the block, and database 6 reserves it and is admitted. -/
def blockChangesHands : List Event :=
  insertLookedUp ++
    [.releaseSlot 5, .reserveSlot 6, .lookup 6 (.admitDatabase 200 0), .locked 1 1000,
      .locked 1 1000]

/-- The insert of database 5 then commits 30 bytes of database 6. -/
theorem a_late_insert_is_booked_for_another_database :
    (run step (init 1) blockChangesHands).mem.blocks.map
        (fun e => (e.dbOid, e.residencyBudget, e.residencyBytesCommitted)) = [(6, 200, 0)] ∧
      (step (run step (init 1) blockChangesHands) (.locked 0 0)).mem.blocks.map
        (fun e => (e.dbOid, e.residencyBudget, e.residencyBytesCommitted)) = [(6, 200, 30)] ∧
      ¬ Isolated (run step (init 1) blockChangesHands) (.locked 0 0) := by
  decide +kernel

end svs_vamana.tenant_isolation
