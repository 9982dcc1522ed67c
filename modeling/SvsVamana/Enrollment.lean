-- Enrolling databases (vamana_databases.c): the pre-commit callback gives the queued rows their
-- blocks, overrides and budgets, and an abort takes back what its lists know of.
import Mathlib.Logic.Function.Basic
import SvsVamana.ResidencyBudgets

namespace svs_vamana.enrollment

open transition_runs slot_table residency_budgets Function List Option
open svs_memory hiding Event step init

/-! ## Shared memory -/

/-- The OID of a database, which is never `InvalidOid`. -/
abbrev Database := { oid : Nat // oid ≠ 0 }

/-- `residency_memory` and `search_work_mem` of a row in MB, 0 where the column is NULL. -/
structure Overrides where
  residencyMemoryMb : Nat := 0
  searchWorkMemMb : Nat := 0
deriving DecidableEq, Repr

/-- The memory books with what else enrolling writes: the override fields of each control block,
by its number, and the header's count of the blocks in use. -/
structure Shared where
  memory : System
  overrides : Nat → Overrides := fun _ => {}
  numActive : Nat := 0

open Shared

inductive EnrollError
  | maxDatabasesReached
  | noSlotReserved
  | notAdmitted
  | zeroBudget
  | belowCommitted (residencyBudget committedFloor : Nat)
  | aboveCeiling (residencyBudget ceiling : Nat)
deriving DecidableEq, Repr

/-- `svs.default_residency_memory` and `svs.max_residency_memory`, in MB. -/
structure Settings where
  defaultResidencyMemoryMb : Nat
  maxResidencyMemoryMb : Nat
deriving DecidableEq, Repr

def Settings.residencyMemoryCeilingBytes (cfg : Settings) : Nat :=
  cfg.maxResidencyMemoryMb * 1024 * 1024

def resolveResidencyBudget (cfg : Settings) (o : Overrides) : Nat :=
  (if o.residencyMemoryMb > 0 then o.residencyMemoryMb else cfg.defaultResidencyMemoryMb) *
    1024 * 1024

namespace Shared

/-- The block reserved for a database and whether it has been reserved just now; no block when
the array is full. -/
def reserveSlot (s : Shared) (db : Database) : Shared × Option (Nat × Bool) :=
  match s.memory.findSlot db with
  | some (i, _) => (s, some (i, false))
  | none =>
    match s.memory.findSlot 0 with
    | none => (s, none)
    | some (i, _) =>
      ({ s with memory := s.memory.reserveSlot db, numActive := s.numActive + 1 }, some (i, true))

def releaseSlot (s : Shared) (db : Database) : Shared :=
  match s.memory.findSlot db with
  | none => s
  | some (i, _) =>
    { memory := s.memory.releaseSlot db
      overrides := update s.overrides i {}
      numActive := s.numActive - 1 }

def setMemoryOverrides (s : Shared) (db : Database) (o : Overrides) : Shared :=
  match s.memory.findSlot db with
  | none => s
  | some (i, _) => { s with overrides := update s.overrides i o }

/-- `SvsMemoryResidencyBudget`: a budget of zero means that the database was never admitted. -/
def residencyBudget (s : Shared) (db : Database) : Except EnrollError Nat :=
  match s.memory.findSlot db with
  | none => .error .noSlotReserved
  | some (_, e) => if e.residencyBudget = 0 then .error .notAdmitted else .ok e.residencyBudget

/-- `SvsMemoryAdmitDatabase`, and the error it raises. -/
def admitDatabase (s : Shared) (db : Database) (residencyBudget durableCommittedFloor ceiling : Nat) :
    Shared × Option EnrollError :=
  match s.memory.findSlot db with
  | none => (s, some .noSlotReserved)
  | some (i, e) =>
    if residencyBudget = 0 then (s, some .zeroBudget) else
    if residencyBudget < max (realUsage e) durableCommittedFloor then
      (s, some (.belowCommitted residencyBudget (max (realUsage e) durableCommittedFloor)))
    else
      let r := s.memory.admitSection i residencyBudget ceiling
      ({ s with memory := r.1 },
        if r.2 then none else some (.aboveCeiling residencyBudget ceiling))

def restoreResidencyBudget (s : Shared) (db : Database) (priorBudget : Nat) : Shared :=
  match s.memory.findSlot db with
  | none => s
  | some (i, e) =>
    { s with memory := s.memory.restoreSection i (max priorBudget (realUsage e)) }

def call (s : Shared) (db : Database) (op : Op) : Shared :=
  match s.memory.findSlot db with
  | none => s
  | some (i, _) => { s with memory := s.memory.call i op }

end Shared

/-! ## The enrolling transaction -/

/-- A queued row. `live` says that its subtransaction has not been rolled back. -/
structure Row where
  db : Database
  enabled : Bool := true
  overrides : Overrides := {}
  durableResidencyFloorBytes : Nat := 0
  live : Bool := true
deriving DecidableEq, Repr

/-- The transaction's view: shared memory, the databases it has reserved a block for, the budgets
that it found at the blocks of other databases, and the error it has raised. -/
structure Txn where
  shared : Shared
  reservedThisXact : List Database := []
  budgetSnapshots : List (Database × Nat) := []
  failed : Option EnrollError := none
  /-- Whether a call of another process has moved a build counter meanwhile. -/
  builds : Bool := false

/-- Notes what an abort will have to undo for a database whose block has been looked up. -/
def Txn.note (t : Txn) (db : Database) (created : Bool) : Except EnrollError Txn :=
  if created then .ok { t with reservedThisXact := t.reservedThisXact ++ [db] }
  else if db ∈ t.reservedThisXact ∨ db ∈ t.budgetSnapshots.map Prod.fst then .ok t
  else (t.shared.residencyBudget db).map fun priorBudget =>
    { t with budgetSnapshots := t.budgetSnapshots ++ [(db, priorBudget)] }

/-- Writes a row's overrides to its block and admits the database with the budget they give. -/
def Txn.admitRow (cfg : Settings) (t : Txn) (r : Row) (i : Nat) : Txn :=
  let shared := t.shared.setMemoryOverrides r.db r.overrides
  let residencyBudget := resolveResidencyBudget cfg (shared.overrides i)
  let a := shared.admitDatabase r.db residencyBudget r.durableResidencyFloorBytes
    cfg.residencyMemoryCeilingBytes
  { t with shared := a.1, failed := a.2 }

/-- One turn of the loop of `ReserveSlotsForEnabledEntries`. An error ends the loop and leaves
what the turn has written so far. -/
def Txn.reserveEntry (cfg : Settings) (t : Txn) (r : Row) : Txn :=
  if t.failed.isSome then t else
  if !r.enabled || !r.live then t else
  match t.shared.reserveSlot r.db with
  | (_, none) => { t with failed := some .maxDatabasesReached }
  | (shared, some (i, created)) =>
    match { t with shared }.note r.db created with
    | .error e => { t with shared, failed := some e }
    | .ok t => t.admitRow cfg r i

def reserveSlotsForEnabledEntries (cfg : Settings) (t : Txn) (queue : List Row) : Txn :=
  run (Txn.reserveEntry cfg) t queue

/-- `ReleaseSlotsReservedThisXact`, then `RestoreResidencyBudgetSnapshotsThisXact`. -/
def Txn.abort (t : Txn) : Shared :=
  run (fun s x => s.restoreResidencyBudget x.1 x.2)
    (run releaseSlot t.shared t.reservedThisXact) t.budgetSnapshots

/-! ## Everything that touches shared memory -/

/-- One access of the launcher, of an enrolling transaction, or of the backends and workers, which
move bytes. -/
inductive Access
  | reserve (db : Database)
  | release (db : Database)
  | setOverrides (db : Database) (o : Overrides)
  | admission (db : Database) (residencyBudget durableCommittedFloor ceiling : Nat)
  | restore (db : Database) (priorBudget : Nat)
  | call (db : Database) (op : Op)

def access (s : Shared) : Access → Shared
  | .reserve db => (s.reserveSlot db).1
  | .release db => s.releaseSlot db
  | .setOverrides db o => s.setMemoryOverrides db o
  | .admission db residencyBudget floor ceiling =>
    (s.admitDatabase db residencyBudget floor ceiling).1
  | .restore db priorBudget => s.restoreResidencyBudget db priorBudget
  | .call db op => s.call db op

def init (maxDatabases : Nat) : Shared := { memory := svs_memory.init maxDatabases }

/-! ## Blocks -/

/-- What a free block holds. -/
structure Free (e : Entry) (o : Overrides) : Prop where
  budget : e.residencyBudget = 0
  usage : realUsage e = 0
  build : e.buildBytesCommitted = 0
  overrides : o = {}

/-- The header total is the sum of the budgets, no two blocks are of one database, and free blocks
hold nothing. -/
structure Tidy (s : Shared) : Prop where
  rolledUp : RolledUp s.memory
  distinct : ∀ (i j : Nat) (e e' : Entry), s.memory.blocks[i]? = some e →
    s.memory.blocks[j]? = some e' → e.dbOid = e'.dbOid → e.dbOid ≠ 0 → i = j
  free : ∀ (i : Nat) (e : Entry), s.memory.blocks[i]? = some e → e.dbOid = 0 →
    Free e (s.overrides i)

variable {i : Nat} {e : Entry}

theorem findSlot_oid {s : System} {dbOid : Nat} (h : s.findSlot dbOid = some (i, e)) :
    e.dbOid = dbOid := by
  have he := findSlot_some h
  obtain ⟨j, hj, hmap⟩ := bind_eq_some_iff.mp h
  obtain ⟨e', he', heq⟩ := map_eq_some_iff.mp hmap
  cases heq
  obtain ⟨hlt, hp, -⟩ := findIdx?_eq_some_iff_getElem.mp hj
  rw [getElem?_eq_getElem hlt] at he
  cases he
  simpa using hp

theorem findSlot_eq_none {s : System} {dbOid : Nat} :
    s.findSlot dbOid = none ↔ ∀ (i : Nat) (e : Entry), s.blocks[i]? = some e → e.dbOid ≠ dbOid := by
  unfold System.findSlot
  constructor
  · intro h i e hi hoid
    cases hf : s.blocks.findIdx? fun e => e.dbOid == dbOid with
    | none =>
      have := findIdx?_eq_none_iff.mp hf e (mem_of_getElem? hi)
      simp [hoid] at this
    | some j =>
      obtain ⟨hlt, -⟩ := findIdx?_eq_some_iff_getElem.mp hf
      simp [hf, getElem?_eq_getElem hlt] at h
  · intro h
    have : (s.blocks.findIdx? fun e => e.dbOid == dbOid) = none := by
      apply findIdx?_eq_none_iff.mpr
      intro e he
      obtain ⟨i, hi⟩ := mem_iff_getElem?.mp he
      simpa using h i e hi
    rw [this]
    rfl

variable {s : Shared} {db : Database}

theorem Tidy.findSlot_eq_some (h : Tidy s) :
    s.memory.findSlot db = some (i, e) ↔ s.memory.blocks[i]? = some e ∧ e.dbOid = db := by
  constructor
  · exact fun hf => ⟨findSlot_some hf, findSlot_oid hf⟩
  · rintro ⟨hi, hoid⟩
    cases hf : s.memory.findSlot db with
    | none => exact absurd hoid (findSlot_eq_none.mp hf i e hi)
    | some x =>
      obtain ⟨j, e'⟩ := x
      have hj := findSlot_some hf
      have hoid' := findSlot_oid hf
      obtain rfl := h.distinct i j e e' hi hj (hoid.trans hoid'.symm) (hoid ▸ db.2)
      rw [hi] at hj
      cases hj
      rfl

/-! ## What an access writes -/

/-- Block `i` has become `e'`, with overrides `o`, and no other has changed. -/
structure Wrote (s s' : Shared) (i : Nat) (e e' : Entry) (o : Overrides) : Prop where
  found : s.memory.blocks[i]? = some e
  blocks : s'.memory.blocks = s.memory.blocks.set i e'
  overrides : s'.overrides = update s.overrides i o

namespace Wrote

variable {s s' : Shared} {i : Nat} {e e' : Entry} {o : Overrides}

section

variable (h : Wrote s s' i e e' o)

include h

theorem length : s'.memory.blocks.length = s.memory.blocks.length := by
  rw [h.blocks, length_set]

theorem here : s'.memory.blocks[i]? = some e' := by
  obtain ⟨hlt, -⟩ := List.getElem?_eq_some_iff.mp h.found
  rw [h.blocks]
  simp [hlt]

theorem elsewhere {j : Nat} (hj : i ≠ j) :
    s'.memory.blocks[j]? = s.memory.blocks[j]? ∧ s'.overrides j = s.overrides j := by
  constructor
  · rw [h.blocks, getElem?_set_ne hj]
  · rw [h.overrides, update_of_ne hj.symm]

theorem overrides_here : s'.overrides i = o := by
  rw [h.overrides, update_self]

theorem cases {j : Nat} {f : Entry} (hj : s'.memory.blocks[j]? = some f) :
    (j = i ∧ f = e' ∧ s'.overrides j = o) ∨
    (j ≠ i ∧ s.memory.blocks[j]? = some f ∧ s'.overrides j = s.overrides j) := by
  by_cases hji : j = i
  · subst hji
    rw [h.here] at hj
    cases hj
    exact .inl ⟨rfl, rfl, h.overrides_here⟩
  · obtain ⟨hbl, ho⟩ := h.elsewhere (Ne.symm hji)
    exact .inr ⟨hji, hbl ▸ hj, ho⟩

/-- A write keeps the books tidy if no other block is of the database it leaves there. -/
theorem tidy (hs : Tidy s) (hr : RolledUp s'.memory) (hf : e'.dbOid = 0 → Free e' o)
    (hnew : e'.dbOid ≠ 0 → ∀ (j : Nat) (f : Entry), s.memory.blocks[j]? = some f →
      f.dbOid = e'.dbOid → j = i) : Tidy s' := by
  refine ⟨hr, ?_, ?_⟩
  · intro j k f f' hj hk heq hne
    obtain ⟨rfl, rfl, -⟩ | ⟨hji, hj, -⟩ := h.cases hj <;>
      obtain ⟨rfl, rfl, -⟩ | ⟨hki, hk, -⟩ := h.cases hk
    · rfl
    · exact absurd (hnew hne k f' hk heq.symm) hki
    · exact absurd (hnew (heq ▸ hne) j f hj heq) hji
    · exact hs.distinct j k f f' hj hk heq hne
  · intro j f hj hz
    obtain ⟨rfl, rfl, ho⟩ | ⟨-, hj, ho⟩ := h.cases hj
    · exact ho ▸ hf hz
    · exact ho ▸ hs.free j f hj hz

theorem tidy_same (hs : Tidy s) (hr : RolledUp s'.memory)
    (hoid : e'.dbOid = e.dbOid) (hne : e.dbOid ≠ 0) : Tidy s' := by
  apply h.tidy hs hr
  · exact fun hz => absurd (hoid ▸ hz) hne
  · exact fun _ j f hj heq =>
      (hs.distinct i j e f h.found hj (hoid ▸ heq.symm) hne).symm

theorem trans {s'' : Shared} {e'' : Entry} {o' : Overrides}
    (h' : Wrote s' s'' i e' e'' o') : Wrote s s'' i e e'' o' := by
  refine ⟨h.found, ?_, ?_⟩
  · rw [h'.blocks, h.blocks, set_set]
  · rw [h'.overrides, h.overrides, update_idem]

end

end Wrote

/-! ## The accesses -/

/-- Blocks and overrides are as they were. -/
structure Unchanged (s s' : Shared) : Prop where
  blocks : s'.memory.blocks = s.memory.blocks
  overrides : s'.overrides = s.overrides

theorem Unchanged.tidy {s' : Shared} (h : Unchanged s s') (hs : Tidy s)
    (hr : RolledUp s'.memory) : Tidy s' := by
  refine ⟨hr, ?_, ?_⟩
  · rw [h.blocks]
    exact hs.distinct
  · rw [h.blocks, h.overrides]
    exact hs.free

/-- A reservation finds the database's block, takes a free one, or finds the array full. -/
inductive Reserved (s : Shared) (db : Database) : Shared × Option (Nat × Bool) → Prop
  | found {i : Nat} {e : Entry} (hfind : s.memory.findSlot db = some (i, e)) :
      Reserved s db (s, some (i, false))
  | full (hfind : s.memory.findSlot db = none) (hfull : s.memory.findSlot 0 = none) :
      Reserved s db (s, none)
  | created {s' : Shared} {i : Nat} {e : Entry} (hfind : s.memory.findSlot db = none)
      (hzero : e.dbOid = 0) (hwrote : Wrote s s' i e { e with dbOid := db } (s.overrides i))
      (hmemory : s'.memory = { s.memory with blocks := s'.memory.blocks })
      (hactive : s'.numActive = s.numActive + 1) : Reserved s db (s', some (i, true))

theorem reserveSlot_reserved (s : Shared) (db : Database) : Reserved s db (s.reserveSlot db) := by
  unfold reserveSlot
  cases hf : s.memory.findSlot db with
  | some x => exact .found hf
  | none =>
    cases hfu : s.memory.findSlot 0 with
    | none => exact .full hf hfu
    | some x =>
      obtain ⟨i, e⟩ := x
      have hbl : s.memory.reserveSlot db =
          { s.memory with blocks := s.memory.blocks.set i { e with dbOid := db } } := by
        simp [System.reserveSlot, hf, hfu]
      refine .created hf (findSlot_oid hfu) ⟨findSlot_some hfu, ?_, ?_⟩ ?_ rfl
      · dsimp only
        rw [hbl]
      · exact (update_eq_self i s.overrides).symm
      · dsimp only
        rw [hbl]

def cleared (e : Entry) : Entry :=
  { dbOid := 0, nextResidentGeneration := e.nextResidentGeneration }

theorem cleared_free (e : Entry) : Free (cleared e) {} := by
  refine ⟨rfl, ?_, rfl, rfl⟩
  simp [realUsage, sumReclaimableBytes, cleared, total_replicate]

theorem releaseSlot_wrote (hf : s.memory.findSlot db = some (i, e)) :
    Wrote s (s.releaseSlot db) i e (cleared e) {} := by
  refine ⟨findSlot_some hf, ?_, ?_⟩
  · simp [releaseSlot, System.releaseSlot, System.resetDatabaseAccounting, hf, cleared]
  · simp [releaseSlot, hf]

theorem setMemoryOverrides_wrote (o : Overrides) (hf : s.memory.findSlot db = some (i, e)) :
    Wrote s (s.setMemoryOverrides db o) i e e o := by
  have hi := findSlot_some hf
  obtain ⟨hlt, he⟩ := List.getElem?_eq_some_iff.mp hi
  refine ⟨hi, ?_, ?_⟩
  · simp [setMemoryOverrides, hf, ← he]
  · simp [setMemoryOverrides, hf]

theorem restoreResidencyBudget_wrote (priorBudget : Nat) (hf : s.memory.findSlot db = some (i, e)) :
    Wrote s (s.restoreResidencyBudget db priorBudget) i e
      { e with residencyBudget := max priorBudget (realUsage e) } (s.overrides i) := by
  have hi := findSlot_some hf
  refine ⟨hi, ?_, ?_⟩
  · simp [restoreResidencyBudget, hf, System.restoreSection, hi, System.setBudget,
      System.checkBudget]
  · simp [restoreResidencyBudget, hf]

theorem call_wrote (op : Op) (hf : s.memory.findSlot db = some (i, e)) :
    Wrote s (s.call db op) i e (op.apply (s.memory.ledger e)).1.toEntry (s.overrides i) := by
  have hi := findSlot_some hf
  refine ⟨hi, ?_, ?_⟩
  · simp [call, hf, System.call, hi, System.store]
  · simp [call, hf]

/-- An admission raises and writes nothing, or it gives the block its budget. -/
inductive Admitted (s : Shared) (db : Database) (residencyBudget floor ceiling : Nat) :
    Shared × Option EnrollError → Prop
  | unreserved (hfind : s.memory.findSlot db = none) :
      Admitted s db residencyBudget floor ceiling (s, some .noSlotReserved)
  | refused {s' : Shared} {i : Nat} {e : Entry} (err : EnrollError)
      (hfind : s.memory.findSlot db = some (i, e))
      (hbad : residencyBudget = 0 ∨ residencyBudget < max (realUsage e) floor ∨
        s.memory.totalResidencyCommittedGlobal - e.residencyBudget + residencyBudget > ceiling)
      (hsame : Unchanged s s') (hactive : s'.numActive = s.numActive) :
      Admitted s db residencyBudget floor ceiling (s', some err)
  | admitted {s' : Shared} {i : Nat} {e : Entry} (hfind : s.memory.findSlot db = some (i, e))
      (hzero : residencyBudget ≠ 0) (hfloor : max (realUsage e) floor ≤ residencyBudget)
      (hceiling : s.memory.totalResidencyCommittedGlobal - e.residencyBudget + residencyBudget ≤
        ceiling)
      (hwrote : Wrote s s' i e { e with residencyBudget } (s.overrides i))
      (hactive : s'.numActive = s.numActive) :
      Admitted s db residencyBudget floor ceiling (s', none)

theorem admitDatabase_admitted (s : Shared) (db : Database) (residencyBudget floor ceiling : Nat) :
    Admitted s db residencyBudget floor ceiling
      (s.admitDatabase db residencyBudget floor ceiling) := by
  unfold admitDatabase
  cases hf : s.memory.findSlot db with
  | none => exact .unreserved hf
  | some x =>
    obtain ⟨i, e⟩ := x
    have hi := findSlot_some hf
    dsimp only
    split
    · next hz => exact .refused _ hf (.inl hz) ⟨rfl, rfl⟩ rfl
    next hz =>
    split
    · next hfl => exact .refused _ hf (.inr (.inl hfl)) ⟨rfl, rfl⟩ rfl
    next hfl =>
    by_cases ho :
        s.memory.totalResidencyCommittedGlobal - e.residencyBudget + residencyBudget > ceiling
    · simp only [System.admitSection, hi, System.checkBudget, ho, if_true]
      exact .refused _ hf (.inr (.inr ho)) ⟨rfl, rfl⟩ rfl
    simp only [System.admitSection, hi, System.checkBudget, ho, if_false]
    refine .admitted hf hz (Nat.le_of_not_lt hfl) (Nat.le_of_not_gt ho) ⟨hi, rfl, ?_⟩ rfl
    exact (update_eq_self i s.overrides).symm

/-! ## Reachable states -/

theorem reserveSlot_rolledUp (h : RolledUp s.memory) (db : Database) :
    RolledUp (s.reserveSlot db).1.memory := by
  unfold reserveSlot
  split
  · exact h
  · split
    · exact h
    · exact other_rolledUp h (reserveSlot_other s.memory db)

theorem releaseSlot_rolledUp (h : RolledUp s.memory) (db : Database) :
    RolledUp (s.releaseSlot db).memory := by
  unfold releaseSlot
  split
  · exact h
  · exact other_rolledUp h (releaseSlot_other s.memory db)

theorem setMemoryOverrides_memory (s : Shared) (db : Database) (o : Overrides) :
    (s.setMemoryOverrides db o).memory = s.memory := by
  unfold setMemoryOverrides
  split <;> rfl

section

variable (h : RolledUp s.memory) (db : Database)

include h

theorem admitDatabase_rolledUp (residencyBudget floor ceiling : Nat) :
    RolledUp (s.admitDatabase db residencyBudget floor ceiling).1.memory := by
  unfold admitDatabase
  split
  · exact h
  split
  · exact h
  · split
    · exact h
    · exact other_rolledUp h (admitSection_other s.memory s.memory.pending _ _ _)

theorem restoreResidencyBudget_rolledUp (priorBudget : Nat) :
    RolledUp (s.restoreResidencyBudget db priorBudget).memory := by
  unfold restoreResidencyBudget
  split
  · exact h
  · exact other_rolledUp h (restoreSection_other s.memory s.memory.pending _ _)

theorem call_rolledUp (op : Op) : RolledUp (s.call db op).memory := by
  unfold call
  split
  · exact h
  · exact step_rolledUp s.memory (.call _ op) h

/-! ### Tidiness -/

end

section

variable (hs : Tidy s) (db : Database)

include hs

theorem reserveSlot_tidy : Tidy (s.reserveSlot db).1 := by
  have hro := reserveSlot_rolledUp hs.rolledUp db
  generalize hr : s.reserveSlot db = r at hro
  cases hr ▸ reserveSlot_reserved s db with
  | found => exact hs
  | full => exact hs
  | created hf hz hw =>
    apply hw.tidy hs hro
    · exact fun h => absurd h db.2
    · exact fun _ j f hj heq => absurd heq (findSlot_eq_none.mp hf j f hj)

theorem releaseSlot_tidy : Tidy (s.releaseSlot db) := by
  cases hf : s.memory.findSlot db with
  | none =>
    simp only [releaseSlot, hf]
    exact hs
  | some x =>
    apply (releaseSlot_wrote hf).tidy hs (releaseSlot_rolledUp hs.rolledUp db)
    · exact fun _ => cleared_free _
    · exact fun h => absurd rfl h

theorem setMemoryOverrides_tidy (o : Overrides) : Tidy (s.setMemoryOverrides db o) := by
  cases hf : s.memory.findSlot db with
  | none =>
    simp only [setMemoryOverrides, hf]
    exact hs
  | some x =>
    refine (setMemoryOverrides_wrote o hf).tidy_same hs ?_ rfl ?_
    · rw [setMemoryOverrides_memory]
      exact hs.rolledUp
    · exact findSlot_oid hf ▸ db.2

theorem admitDatabase_tidy (residencyBudget floor ceiling : Nat) :
    Tidy (s.admitDatabase db residencyBudget floor ceiling).1 := by
  have hro := admitDatabase_rolledUp hs.rolledUp db residencyBudget floor ceiling
  generalize hr : s.admitDatabase db residencyBudget floor ceiling = r at hro
  cases hr ▸ admitDatabase_admitted s db residencyBudget floor ceiling with
  | unreserved => exact hs
  | refused err hf hbad hsa => exact hsa.tidy hs hro
  | admitted hf hz hfl hc hw =>
    exact hw.tidy_same hs hro rfl (findSlot_oid hf ▸ db.2)

theorem restoreResidencyBudget_tidy (priorBudget : Nat) :
    Tidy (s.restoreResidencyBudget db priorBudget) := by
  cases hf : s.memory.findSlot db with
  | none =>
    simp only [restoreResidencyBudget, hf]
    exact hs
  | some x =>
    exact (restoreResidencyBudget_wrote priorBudget hf).tidy_same hs
      (restoreResidencyBudget_rolledUp hs.rolledUp db priorBudget) rfl
      (findSlot_oid hf ▸ db.2)

theorem call_tidy (op : Op) : Tidy (s.call db op) := by
  cases hf : s.memory.findSlot db with
  | none =>
    simp only [call, hf]
    exact hs
  | some x =>
    exact (call_wrote op hf).tidy_same hs (call_rolledUp hs.rolledUp db op) (apply_dbOid _ op)
      (findSlot_oid hf ▸ db.2)

end

theorem access_tidy (s : Shared) (a : Access) (hs : Tidy s) : Tidy (access s a) := by
  cases a with
  | reserve db => exact reserveSlot_tidy hs db
  | release db => exact releaseSlot_tidy hs db
  | setOverrides db o => exact setMemoryOverrides_tidy hs db o
  | admission db residencyBudget floor ceiling =>
    exact admitDatabase_tidy hs db residencyBudget floor ceiling
  | restore db priorBudget => exact restoreResidencyBudget_tidy hs db priorBudget
  | call db op => exact call_tidy hs db op

theorem init_tidy (maxDatabases : Nat) : Tidy (init maxDatabases) := by
  have hbl : ∀ (i : Nat) (e : Entry), (init maxDatabases).memory.blocks[i]? = some e → e = {} :=
    fun i e hi => eq_of_mem_replicate (mem_of_getElem? hi)
  refine ⟨init_rolledUp maxDatabases, ?_, ?_⟩
  · intro i j e e' hi _ _ hne
    rw [hbl i e hi] at hne
    exact absurd rfl hne
  · intro i e hi _
    rw [hbl i e hi]
    exact cleared_free {}

def reached (maxDatabases : Nat) (as : List Access) : Shared := run access (init maxDatabases) as

theorem reached_tidy (maxDatabases : Nat) (as : List Access) : Tidy (reached maxDatabases as) :=
  run_keeps Tidy access_tidy (init_tidy maxDatabases) as

/-- A lookup finds the one block of its database, after any calls. -/
theorem lookups_find_their_own_block (maxDatabases : Nat) (as : List Access) :
    (reached maxDatabases as).memory.findSlot db = some (i, e) ↔
      (reached maxDatabases as).memory.blocks[i]? = some e ∧ e.dbOid = db :=
  (reached_tidy maxDatabases as).findSlot_eq_some

/-! ## Fitting budgets -/

theorem setMemoryOverrides_find (s : Shared) (db : Database) (o : Overrides) :
    (s.setMemoryOverrides db o).memory.findSlot db = s.memory.findSlot db := by
  rw [setMemoryOverrides_memory]

theorem setMemoryOverrides_here (o : Overrides) (hf : s.memory.findSlot db = some (i, e)) :
    (s.setMemoryOverrides db o).overrides i = o :=
  (setMemoryOverrides_wrote o hf).overrides_here

variable {t : Txn} {r : Row}

theorem admitRow_admits (cfg : Settings) (ht : Tidy t.shared)
    (hf : t.shared.memory.findSlot r.db = some (i, e))
    (hz : resolveResidencyBudget cfg r.overrides ≠ 0)
    (hfl : max (realUsage e) r.durableResidencyFloorBytes ≤
      resolveResidencyBudget cfg r.overrides)
    (hce : t.shared.memory.totalResidencyCommittedGlobal - e.residencyBudget +
      resolveResidencyBudget cfg r.overrides ≤ cfg.residencyMemoryCeilingBytes) :
    (t.admitRow cfg r i).failed = none ∧
    (t.admitRow cfg r i).shared.memory.findSlot r.db =
      some (i, { e with residencyBudget := resolveResidencyBudget cfg r.overrides }) := by
  have hti := admitDatabase_tidy (setMemoryOverrides_tidy ht r.db r.overrides) r.db
    (resolveResidencyBudget cfg r.overrides) r.durableResidencyFloorBytes
    cfg.residencyMemoryCeilingBytes
  have hc := admitDatabase_admitted (t.shared.setMemoryOverrides r.db r.overrides) r.db
    (resolveResidencyBudget cfg r.overrides) r.durableResidencyFloorBytes
    cfg.residencyMemoryCeilingBytes
  have hf' := (setMemoryOverrides_find t.shared r.db r.overrides).trans hf
  simp only [Txn.admitRow, setMemoryOverrides_here r.overrides hf]
  generalize hr : (t.shared.setMemoryOverrides r.db r.overrides).admitDatabase r.db
    (resolveResidencyBudget cfg r.overrides) r.durableResidencyFloorBytes
    cfg.residencyMemoryCeilingBytes = x at hc hti
  cases hc with
  | unreserved hn =>
    rw [hf'] at hn
    cases hn
  | refused err hs hbad =>
    rw [hf'] at hs
    cases hs
    rw [setMemoryOverrides_memory] at hbad
    omega
  | admitted hs _ _ _ hw =>
    rw [hf'] at hs
    cases hs
    refine ⟨rfl, hti.findSlot_eq_some.mpr ⟨hw.here, ?_⟩⟩
    have hoid := findSlot_oid hf
    exact hoid

theorem admitDatabase_budget (hs : Tidy s) (hf : s.memory.findSlot db = some (i, e))
    {residencyBudget floor ceiling : Nat}
    (hok : (s.admitDatabase db residencyBudget floor ceiling).2 = none) :
    (s.admitDatabase db residencyBudget floor ceiling).1.memory.findSlot db =
      some (i, { e with residencyBudget }) ∧ max (realUsage e) floor ≤ residencyBudget := by
  have ht := admitDatabase_tidy hs db residencyBudget floor ceiling
  have hc := admitDatabase_admitted s db residencyBudget floor ceiling
  generalize s.admitDatabase db residencyBudget floor ceiling = x at *
  cases hc with
  | unreserved => cases hok
  | refused => cases hok
  | admitted hso _ hfl _ hw =>
    rw [hf] at hso
    cases hso
    have hoid := findSlot_oid hf
    exact ⟨ht.findSlot_eq_some.mpr ⟨hw.here, hoid⟩, hfl⟩

theorem note_shared {t₁ : Txn} {created : Bool} (h : t.note db created = .ok t₁) :
    t₁.shared = t.shared := by
  unfold Txn.note at h
  split at h
  · cases h
    rfl
  split at h
  · cases h
    rfl
  cases hbu : t.shared.residencyBudget db with
  | error err =>
    rw [hbu] at h
    cases h
  | ok b =>
    rw [hbu] at h
    cases h
    rfl

section

variable (cfg : Settings) (ht : Tidy t.shared)

include ht

theorem admitRow_tidy (r : Row) (i : Nat) : Tidy (t.admitRow cfg r i).shared :=
  admitDatabase_tidy (setMemoryOverrides_tidy ht r.db r.overrides) r.db _ _ _

theorem reserveEntry_tidy (r : Row) : Tidy (t.reserveEntry cfg r).shared := by
  have hr := reserveSlot_tidy ht r.db
  unfold Txn.reserveEntry
  split
  · exact ht
  split
  · exact ht
  split
  · exact ht
  next shared i created heq =>
  rw [heq] at hr
  split
  · exact hr
  · next t₁ hn =>
    exact admitRow_tidy cfg (note_shared hn ▸ hr) r i

def held (s : Shared) (db : Database) : Nat :=
  ((s.memory.findSlot db).map fun x => realUsage x.2).getD 0

/-- A row that gets through leaves its database with a budget of no less than the row's floor and
the bytes that the database had. -/
theorem reserveEntry_budget (hfa : t.failed = none)
    (hen : r.enabled = true) (hl : r.live = true) (hok : (t.reserveEntry cfg r).failed = none) :
    ∃ x ∈ (t.reserveEntry cfg r).shared.memory.findSlot r.db,
      max (held t.shared r.db) r.durableResidencyFloorBytes ≤ x.2.residencyBudget := by
  have ha : ∀ {t₁ : Txn} {i : Nat} {e : Entry}, Tidy t₁.shared →
      t₁.shared.memory.findSlot r.db = some (i, e) → (t₁.admitRow cfg r i).failed = none →
      realUsage e = held t.shared r.db →
      ∃ x ∈ (t₁.admitRow cfg r i).shared.memory.findSlot r.db,
        max (held t.shared r.db) r.durableResidencyFloorBytes ≤ x.2.residencyBudget := by
    intro t₁ i e ht₁ hf had hu
    have hf' := (setMemoryOverrides_find t₁.shared r.db r.overrides).trans hf
    obtain ⟨haf, hfl⟩ := admitDatabase_budget (setMemoryOverrides_tidy ht₁ r.db r.overrides) hf' had
    exact ⟨_, haf, hu ▸ hfl⟩
  have hti := reserveSlot_tidy ht r.db
  have hc := reserveSlot_reserved t.shared r.db
  simp only [Txn.reserveEntry, hfa, isSome_none, Bool.false_eq_true, if_false, hen,
    hl, Bool.not_true, Bool.or_self] at hok ⊢
  generalize t.shared.reserveSlot r.db = x at *
  cases hc with
  | full => cases hok
  | @found i e hf =>
    dsimp only at hok ⊢
    split at hok
    · cases hok
    next t₁ hn =>
    have hs := note_shared hn
    refine ha (hs ▸ ht) (hs ▸ hf) hok ?_
    simp [held, hf]
  | @created s' i e hf hz hw =>
    refine ha hti (hti.findSlot_eq_some.mpr ⟨hw.here, rfl⟩) hok ?_
    have hu := (ht.free i e hw.found hz).usage
    simp only [held, hf, map_none, getD_none]
    exact hu

end

def priorBudget (s : Shared) (db : Database) : Nat :=
  ((s.memory.findSlot db).map fun x => x.2.residencyBudget).getD 0

/-- The row enables its database with a budget that covers the bytes it has and keeps all budgets
within the ceiling, and there is a block for it. -/
structure Fits (cfg : Settings) (s : Shared) (r : Row) : Prop where
  enabled : r.enabled = true
  live : r.live = true
  nonzero : resolveResidencyBudget cfg r.overrides ≠ 0
  durable : r.durableResidencyFloorBytes ≤ resolveResidencyBudget cfg r.overrides
  held : ∀ x ∈ s.memory.findSlot r.db, realUsage x.2 ≤ resolveResidencyBudget cfg r.overrides
  ceiling : s.memory.totalResidencyCommittedGlobal - priorBudget s r.db +
    resolveResidencyBudget cfg r.overrides ≤ cfg.residencyMemoryCeilingBytes
  room : (s.memory.findSlot r.db).isSome ∨ (s.memory.findSlot 0).isSome

/-- The transaction of one row gets through its pre-commit callback and leaves the database with
the budget of the row. -/
def Enrolls (cfg : Settings) (s : Shared) (r : Row) : Prop :=
  let t := reserveSlotsForEnabledEntries cfg { shared := s } [r]
  t.failed = none ∧
    ∃ x ∈ t.shared.memory.findSlot r.db,
      x.2.residencyBudget = resolveResidencyBudget cfg r.overrides

theorem unreserved_enrolls {cfg : Settings} (hs : Tidy s) (h : Fits cfg s r)
    (hn : s.memory.findSlot r.db = none) : Enrolls cfg s r := by
  have ht := reserveSlot_tidy hs r.db
  have hc := reserveSlot_reserved s r.db
  have hp : priorBudget s r.db = 0 := by simp [priorBudget, hn]
  have hce := h.ceiling
  have hd := h.durable
  simp only [Enrolls, reserveSlotsForEnabledEntries, run_cons, run_nil, Txn.reserveEntry, h.enabled,
    h.live]
  generalize s.reserveSlot r.db = x at hc ht
  cases hc with
  | found hf =>
    rw [hn] at hf
    cases hf
  | full _ hfu =>
    have hr := h.room
    simp [hn, hfu] at hr
  | @created s' i e _ hz hw hm _ =>
    have hfr := hs.free i e hw.found hz
    have hf : s'.memory.findSlot r.db = some (i, { e with dbOid := r.db }) :=
      ht.findSlot_eq_some.mpr ⟨hw.here, rfl⟩
    have hto : s'.memory.totalResidencyCommittedGlobal =
        s.memory.totalResidencyCommittedGlobal := by rw [hm]
    have hu : realUsage { e with dbOid := r.db } = 0 := hfr.usage
    have hbu := hfr.budget
    obtain ⟨hok, ha⟩ := admitRow_admits cfg
      (t := { shared := s', reservedThisXact := [] ++ [r.db] }) (r := r) ht hf h.nonzero
      (by omega) (by dsimp only; omega)
    refine ⟨hok, _, ha, rfl⟩

theorem reserved_enrolls {cfg : Settings} (hs : Tidy s) (h : Fits cfg s r)
    (hf : s.memory.findSlot r.db = some (i, e)) : Enrolls cfg s r ↔ e.residencyBudget ≠ 0 := by
  have hr : s.reserveSlot r.db = (s, some (i, false)) := by
    simp [reserveSlot, hf]
  have hp : priorBudget s r.db = e.residencyBudget := by simp [priorBudget, hf]
  have hc := h.ceiling
  have hh : realUsage e ≤ resolveResidencyBudget cfg r.overrides := h.held (i, e) hf
  have hd := h.durable
  simp only [Enrolls, reserveSlotsForEnabledEntries, run_cons, run_nil, Txn.reserveEntry, h.enabled,
    h.live, hr]
  by_cases hbu : e.residencyBudget = 0
  · simp [Txn.note, residencyBudget, hf, hbu, Except.map]
  have hn : ({ shared := s } : Txn).note r.db false =
      .ok { shared := s, budgetSnapshots := [] ++ [(r.db, e.residencyBudget)] } := by
    simp [Txn.note, residencyBudget, hf, hbu, Except.map]
  obtain ⟨hok, ha⟩ := admitRow_admits cfg
    (t := { shared := s, budgetSnapshots := [] ++ [(r.db, e.residencyBudget)] }) (r := r) hs hf
    h.nonzero (by omega) (by dsimp only; omega)
  simp only [hn]
  exact ⟨fun _ => hbu, fun _ => ⟨hok, _, ha, rfl⟩⟩

/-- Whatever has happened since the server's start, a row that fits is admitted exactly when its
database has no block yet or has been admitted before. -/
theorem a_fitting_row_enrolls_iff_its_block_was_admitted (cfg : Settings) (maxDatabases : Nat)
    (as : List Access) (r : Row) (h : Fits cfg (reached maxDatabases as) r) :
    Enrolls cfg (reached maxDatabases as) r ↔
      ∀ x ∈ (reached maxDatabases as).memory.findSlot r.db, x.2.residencyBudget ≠ 0 := by
  have hs := reached_tidy maxDatabases as
  cases hf : (reached maxDatabases as).memory.findSlot r.db with
  | none => simpa using unreserved_enrolls hs h hf
  | some x => simpa using reserved_enrolls hs h hf

deriving instance Decidable for Enrolls

def db5 : Database := ⟨5, by decide⟩

/-- Both `svs.default_residency_memory` and `svs.max_residency_memory` are 100 MB. -/
def settings : Settings := ⟨100, 100⟩

def fiftyMb : Row := { db := db5, overrides := { residencyMemoryMb := 50 } }

theorem fiftyMb_fits (hh : ∀ x ∈ s.memory.findSlot 5, realUsage x.2 ≤ 50 * 1024 * 1024)
    (ht : s.memory.totalResidencyCommittedGlobal = 0)
    (hr : (s.memory.findSlot 5).isSome ∨ (s.memory.findSlot 0).isSome) :
    Fits settings s fiftyMb := by
  refine ⟨rfl, rfl, by decide, by decide, hh, ?_, hr⟩
  rw [ht, Nat.zero_sub]
  decide

theorem a_new_database_enrolls : Enrolls settings (reached 1 []) fiftyMb :=
  (a_fitting_row_enrolls_iff_its_block_was_admitted settings 1 [] fiftyMb
    (fiftyMb_fits (by decide) rfl (by decide))).mpr (by decide)

/-- The launcher has reserved the database's block as it started. -/
def reservedAtStartup : List Access := [.reserve db5]

/-- The row asked for 200 MB, and the launcher's admission was refused. -/
def refusedAtReconcile : List Access :=
  [.reserve db5, .setOverrides db5 { residencyMemoryMb := 200 },
    .admission db5 (200 * 1024 * 1024) 0 settings.residencyMemoryCeilingBytes]

/-- A row that lowers `residency_memory` to what fits raises "has not completed SVS memory
admission yet". -/
theorem a_block_that_was_never_admitted_keeps_out_a_fitting_row :
    (Fits settings (reached 1 reservedAtStartup) fiftyMb ∧
      ¬ Enrolls settings (reached 1 reservedAtStartup) fiftyMb) ∧
    (Fits settings (reached 1 refusedAtReconcile) fiftyMb ∧
      ¬ Enrolls settings (reached 1 refusedAtReconcile) fiftyMb) ∧
    (reserveSlotsForEnabledEntries settings { shared := reached 1 refusedAtReconcile }
      [fiftyMb]).failed = some .notAdmitted := by
  refine ⟨⟨fiftyMb_fits (by decide) rfl (by decide), by decide⟩,
    ⟨fiftyMb_fits (by decide) rfl (by decide), by decide⟩, by decide⟩

end svs_vamana.enrollment
