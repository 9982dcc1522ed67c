-- The durable floor (svs_index_residency.c): the recorded sizes of the resident indexes, and the
-- admissions that are to respect their sum.
import SvsVamana.Enrollment

namespace svs_vamana.durable_floor

open transition_runs slot_table enrollment Function List
open svs_memory hiding Event step init

/-! ## Durable rows -/

structure ResidencyRow where
  indexRelid : Nat
  dbOid : Nat
  residentBytes : Nat
deriving DecidableEq, Repr

/-- The table `svs_index_residency` of one database, with its primary key. -/
structure ResidencyTable where
  rows : List ResidencyRow
  key : (rows.map fun r => r.indexRelid).Nodup

namespace ResidencyTable

def empty : ResidencyTable := ⟨[], nodup_nil⟩

theorem key_filter (t : ResidencyTable) (p : ResidencyRow → Bool) :
    ((t.rows.filter p).map fun r => r.indexRelid).Nodup :=
  t.key.sublist (filter_sublist.map _)

/-- `INSERT ... ON CONFLICT (index_relid) DO UPDATE`. -/
def recordLoad (t : ResidencyTable) (indexRelid dbOid residentBytes : Nat) : ResidencyTable where
  rows := t.rows.filter (fun r => r.indexRelid ≠ indexRelid) ++ [⟨indexRelid, dbOid, residentBytes⟩]
  key := by
    have hold := t.key_filter fun r => r.indexRelid ≠ indexRelid
    rw [map_append, nodup_append]
    refine ⟨hold, by simp, ?_⟩
    intro a ha b hb
    simp only [map_cons, map_nil, mem_singleton] at hb
    obtain ⟨r, hr, rfl⟩ := mem_map.mp ha
    have := (mem_filter.mp hr).2
    simpa [hb] using this

def recordUnload (t : ResidencyTable) (indexRelid : Nat) : ResidencyTable :=
  ⟨t.rows.filter fun r => r.indexRelid ≠ indexRelid, t.key_filter _⟩

/-- An empty enumeration is taken for a failed one. -/
def reconcileOrphans (t : ResidencyTable) (dbOid : Nat) (liveRelids : List Nat) : ResidencyTable :=
  if liveRelids = [] then t
  else ⟨t.rows.filter fun r => !(r.dbOid = dbOid ∧ r.indexRelid ∉ liveRelids), t.key_filter _⟩

def sumCommittedBytes (t : ResidencyTable) (dbOid : Nat) : Nat :=
  total (fun r => r.residentBytes) (t.rows.filter fun r => r.dbOid = dbOid)

end ResidencyTable

/-! ## Server, launcher and operators -/

inductive Reader
  | launcher
  | operator
deriving DecidableEq, Repr

/-- An admission whose floor has been read: in which database, whether the worker was live then, and
what the rows summed up to. -/
structure Pending where
  reader : Reader
  row : Row
  connected : Database
  liveThen : Bool
  seen : Nat

/-- Shared memory and what the databases hold: each has a copy of `svs_index_residency` and its
own indexes; `live` is `VamanaWorkerEntryIsLive` of its block. -/
structure World where
  shared : Shared
  launcherDatabase : Database
  residency : Database → ResidencyTable
  indexes : Database → List Nat
  live : Database → Bool
  pending : List Pending := []

/-- The durable rows of a database's existing indexes. -/
def durableRows (w : World) (db : Database) : List ResidencyRow :=
  (w.residency db).rows.filter fun r => r.dbOid = db.1 ∧ r.indexRelid ∈ w.indexes db

def durable (w : World) (db : Database) : Nat := total (fun r => r.residentBytes) (durableRows w db)

/-- `SvsIndexResidencyDurableFloor`, in the database that the caller is connected to. -/
def durableFloor (w : World) (connected db : Database) : Nat :=
  if (w.shared.memory.findSlot db).isSome && w.live db then 0
  else (w.residency connected).sumCommittedBytes db

def readFloor (w : World) (reader : Reader) (connected : Database) (r : Row) : World :=
  let floor := if r.enabled then durableFloor w connected r.db else 0
  { w with
    pending := w.pending ++
      [{ reader, row := { r with durableResidencyFloorBytes := floor }, connected,
         liveThen := (w.shared.memory.findSlot r.db).isSome && w.live r.db,
         seen := durable w r.db }] }

/-- The row trigger. Outside the launcher's database only a row of the writer's own database is
queued, and only if that has a block; without one the statement raises. -/
def queueReservation (w : World) (connected : Database) (r : Row) : World :=
  if connected = w.launcherDatabase then readFloor w .operator connected r
  else if r.db ≠ connected then w
  else if (w.shared.memory.findSlot r.db).isNone then w
  else readFloor w .operator connected r

/-- `ReconcileResidencyAdmission` once it has read the floor. -/
def reconcileResidencyAdmission (cfg : Settings) (s : Shared) (db : Database) (floor : Nat) :
    Shared × Option EnrollError :=
  match s.memory.findSlot db with
  | none => (s, some .noSlotReserved)
  | some (i, _) =>
    s.admitDatabase db (resolveResidencyBudget cfg (s.overrides i)) floor
      cfg.residencyMemoryCeilingBytes

/-- The admission itself: the launcher's, or that of the row's pre-commit callback. -/
def Pending.admission (cfg : Settings) (s : Shared) (p : Pending) : Shared × Option EnrollError :=
  match p.reader with
  | .launcher => reconcileResidencyAdmission cfg s p.row.db p.row.durableResidencyFloorBytes
  | .operator =>
    let t := ({ shared := s } : Txn).reserveEntry cfg p.row
    (t.shared, t.failed)

/-- An access to shared memory that is itself an admission. -/
def admits : Access → Bool
  | .admission .. => true
  | _ => false

inductive Event
  /-- The server restarts: shared memory is new, the tables are as they were. -/
  | restart
  /-- Indexes are created and dropped. -/
  | catalog (db : Database) (relids : List Nat)
  | recordLoad (db : Database) (indexRelid residentBytes : Nat)
  | recordUnload (db : Database) (indexRelid : Nat)
  | reconcileOrphans (db : Database)
  /-- A worker publishes its pid, hangs or stops. -/
  | worker (db : Database) (live : Bool)
  /-- Reservations, releases, overrides, restored budgets; seeds and all other byte moves. -/
  | access (a : Access)
  /-- The launcher starts to reconcile the admission of a database. -/
  | reconcile (db : Database)
  /-- A row is inserted or updated. -/
  | write (connected : Database) (r : Row)
  /-- An admission whose floor has been read is made. -/
  | admission (k : Nat) (cfg : Settings)
  /-- A transaction with a queued row goes away. -/
  | withdraw (k : Nat)

def step (w : World) : Event → World
  | .restart =>
    { w with
      shared := enrollment.init w.shared.memory.blocks.length
      live := fun _ => false
      pending := [] }
  | .catalog db relids => { w with indexes := update w.indexes db relids }
  | .recordLoad db indexRelid bytes =>
    { w with
      residency := update w.residency db
        ((w.residency db).recordLoad indexRelid db bytes) }
  | .recordUnload db indexRelid =>
    { w with
      residency := update w.residency db ((w.residency db).recordUnload indexRelid) }
  | .reconcileOrphans db =>
    { w with
      residency := update w.residency db
        ((w.residency db).reconcileOrphans db (w.indexes db)) }
  | .worker db live => { w with live := update w.live db live }
  | .access a => if admits a then w else { w with shared := access w.shared a }
  | .reconcile db => readFloor w .launcher w.launcherDatabase { db }
  | .write connected r => queueReservation w connected r
  | .admission k cfg =>
    match w.pending[k]? with
    | none => w
    | some p => { w with shared := (p.admission cfg w.shared).1, pending := w.pending.eraseIdx k }
  | .withdraw k => { w with pending := w.pending.eraseIdx k }

/-! ## Seeding -/

/-- `SvsMemorySeedDurableResidency`, for a row that has bytes. -/
def seedDurableResidency (now : Nat) (l : Ledger) (r : ResidencyRow) : Ledger :=
  if r.residentBytes = 0 ∨ (findReservation l.toEntry r.indexRelid).isSome then l
  else (reconcileLoad l now r.indexRelid r.residentBytes 0).1

/-- A block with budget `budget` and nothing in it yet takes the seeds of all rows. -/
def Seedable (budget : Nat) (rows : List ResidencyRow) : Prop :=
  ∀ (l : Ledger) (now : Nat), l.residencyBudget = budget → l.residencyBytesCommitted = 0 →
    l.reservations = replicate vamanaMaxIndexes none →
    ∀ r ∈ rows, r.residentBytes ≠ 0 →
      ∃ x ∈ findReservation (run (seedDurableResidency now) l rows).toEntry r.indexRelid,
        x.2.state = .resident ∧ x.2.measuredBytes = r.residentBytes

def vacant (slot : Option Reservation) : Nat := if slot.isNone then 1 else 0

def vacancies (l : Ledger) : Nat := total vacant l.reservations

def seedRecord (l : Ledger) (now : Nat) (r : ResidencyRow) : Reservation where
  relid := r.indexRelid
  state := .resident
  reservedAt := now
  estimateBytes := r.residentBytes
  measuredBytes := r.residentBytes
  residentGeneration := l.nextGeneration

variable {l : Ledger}

theorem seed_spec (now : Nat) {r : ResidencyRow} (hby : r.residentBytes ≠ 0)
    (hfr : findReservation l.toEntry r.indexRelid = none)
    (hfi : l.residencyBytesCommitted + r.residentBytes ≤ l.residencyBudget)
    (hr : none ∈ l.reservations) :
    ∃ i, l.reservations[i]? = some none ∧
      (seedDurableResidency now l r).reservations =
        l.reservations.set i (some (seedRecord l now r)) ∧
      (seedDurableResidency now l r).residencyBytesCommitted =
        l.residencyBytesCommitted + r.residentBytes ∧
      (seedDurableResidency now l r).residencyBudget = l.residencyBudget := by
  obtain ⟨i, hf⟩ := free_of_mem hr
  have hbu : l.residencyBudget ≠ 0 := by omega
  have ho : ¬ l.residencyBytesCommitted + r.residentBytes > l.residencyBudget := by omega
  refine ⟨i, free_some hf, ?_⟩
  simp [seedDurableResidency, hby, hfr, reconcileLoad, hbu, ho, hf,
    Ledger.stampGeneration, Ledger.post, seedRecord]

theorem vacancies_pos (h : 0 < vacancies l) : none ∈ l.reservations := by
  by_contra hn
  have hz : vacancies l = 0 := by
    apply total_eq_zero.mpr
    intro x hx
    cases x with
    | none => exact absurd hx hn
    | some rec => rfl
  omega

variable {rows : List ResidencyRow}

theorem seeds_spec (now : Nat) (hkey : (rows.map fun r => r.indexRelid).Nodup)
    (hf : ∀ r ∈ rows, findReservation l.toEntry r.indexRelid = none)
    (hfi : l.residencyBytesCommitted + total (fun r => r.residentBytes) rows ≤ l.residencyBudget)
    (hro : rows.length ≤ vacancies l) :
    (∀ r ∈ rows, r.residentBytes ≠ 0 →
      ∃ x ∈ findReservation (run (seedDurableResidency now) l rows).toEntry r.indexRelid,
        x.2.state = .resident ∧ x.2.measuredBytes = r.residentBytes) ∧
    ∀ relid, relid ∉ rows.map (fun r => r.indexRelid) →
      findReservation (run (seedDurableResidency now) l rows).toEntry relid =
        findReservation l.toEntry relid := by
  induction rows generalizing l with
  | nil => exact ⟨by simp, fun _ _ => rfl⟩
  | cons r rows ih =>
    obtain ⟨hr, hkey⟩ := nodup_cons.mp hkey
    have hfre : ∀ r ∈ rows, findReservation l.toEntry r.indexRelid = none :=
      fun r' hr' => hf r' (mem_cons_of_mem r hr')
    simp only [total_cons, length_cons] at hfi hro
    rw [run_cons]
    by_cases hby : r.residentBytes = 0
    · -- a row without bytes is passed over
      have hsk : seedDurableResidency now l r = l := by simp [seedDurableResidency, hby]
      rw [hsk]
      obtain ⟨hs, hfr⟩ := ih hkey hfre (by omega) (by omega)
      refine ⟨?_, fun relid hre => hfr relid (by simp_all)⟩
      intro r' hr' hne
      obtain rfl | hr' := mem_cons.mp hr'
      · exact absurd hby hne
      · exact hs r' hr' hne
    · obtain ⟨i, hi, hsl, hc, hbu⟩ :=
        seed_spec now hby (hf r mem_cons_self) (by omega) (vacancies_pos (by omega))
      generalize seedDurableResidency now l r = l' at *
      have ho : ∀ relid, relid ≠ r.indexRelid →
          findReservation l'.toEntry relid = findReservation l.toEntry relid := by
        intro relid hne
        rw [findReservation, findReservation, hsl]
        refine find_set_other hi (by simp) ?_
        rintro a ⟨⟩
        simpa [seedRecord] using Ne.symm hne
      have hv := total_set vacant (some (seedRecord l now r)) hi
      have hro' : rows.length ≤ vacancies l' := by
        have hwas : vacant none = 1 := rfl
        have his : vacant (some (seedRecord l now r)) = 0 := rfl
        rw [← hsl, hwas, his] at hv
        unfold vacancies at hro ⊢
        omega
      have hf' : ∀ r' ∈ rows, findReservation l'.toEntry r'.indexRelid = none := by
        intro r' hr'
        rw [ho r'.indexRelid]
        · exact hfre r' hr'
        · exact fun heq => hr (mem_map.mpr ⟨r', hr', heq⟩)
      obtain ⟨hs, hfr⟩ := ih hkey hf' (by omega) hro'
      constructor
      · intro r' hr' hne
        obtain rfl | hr' := mem_cons.mp hr'
        · obtain ⟨hlt, -⟩ := List.getElem?_eq_some_iff.mp hi
          have hfo : findReservation l'.toEntry r'.indexRelid =
              some (i, seedRecord l now r') := by
            rw [findReservation, hsl]
            exact find_set_fresh (hf r' mem_cons_self) hlt (by simp [seedRecord])
          rw [hfr _ hr, hfo]
          exact ⟨(i, seedRecord l now r'), rfl, rfl, rfl⟩
        · exact hs r' hr' hne
      · intro relid hre'
        simp only [map_cons, mem_cons, not_or] at hre'
        rw [hfr relid hre'.2, ho relid hre'.1]

theorem seedable {budget : Nat} (hkey : (rows.map fun r => r.indexRelid).Nodup)
    (hfits : total (fun r => r.residentBytes) rows ≤ budget)
    (hr : rows.length ≤ vamanaMaxIndexes) : Seedable budget rows := by
  intro l now hbu hc hs
  have hf : ∀ relid, findReservation l.toEntry relid = none := by
    intro relid
    cases hfi : findReservation l.toEntry relid with
    | none => rfl
    | some x =>
      have hmem := mem_of_getElem? (findReservation_some hfi).1
      rw [hs] at hmem
      cases eq_of_mem_replicate hmem
  have hv : vacancies l = vamanaMaxIndexes := by
    rw [vacancies, hs, total_replicate]
    rfl
  exact (seeds_spec now hkey (fun r _ => hf r.indexRelid) (by omega) (by omega)).1

/-! ## Admissions -/

/-- The budget that an admission leaves is no less than the sum of the database's durable rows,
and a block with that budget takes the seeds of them all. -/
def RespectsResidency (w : World) (ev : Event) : Prop :=
  ∀ k cfg p, ev = .admission k cfg → w.pending[k]? = some p → p.row.enabled = true →
    p.row.live = true → (p.admission cfg w.shared).2 = none →
    ∃ x ∈ (p.admission cfg w.shared).1.memory.findSlot p.row.db,
      durable w p.row.db ≤ x.2.residencyBudget ∧
      ((durableRows w p.row.db).length ≤ vamanaMaxIndexes →
        Seedable x.2.residencyBudget (durableRows w p.row.db))

/-- The floor was read in the database itself, while the worker was not live, and its rows have not
grown since; or the database has committed their bytes already. -/
def Backed (w : World) : Event → Prop
  | .admission k _ => ∀ p ∈ w.pending[k]?,
      p.connected = p.row.db ∧ p.liveThen = false ∧ durable w p.row.db ≤ p.seen ∨
      durable w p.row.db ≤ held w.shared p.row.db
  | _ => True

/-- Shared memory is tidy, and a floor that was read in the database itself, while the worker was
not live, covers the rows as they were then. -/
structure Inv (w : World) : Prop where
  tidy : Tidy w.shared
  floor : ∀ p ∈ w.pending, p.row.enabled = true → p.connected = p.row.db → p.liveThen = false →
    p.seen ≤ p.row.durableResidencyFloorBytes

theorem durable_le_sum (w : World) (db : Database) :
    durable w db ≤ (w.residency db).sumCommittedBytes db := by
  have hs := total_filter_add (fun r : ResidencyRow => r.residentBytes)
    (fun r => decide (r.indexRelid ∈ w.indexes db))
    ((w.residency db).rows.filter fun r => r.dbOid = db.1)
  have hr : durableRows w db = ((w.residency db).rows.filter fun r => r.dbOid = db.1).filter
      fun r => decide (r.indexRelid ∈ w.indexes db) := by
    rw [durableRows, filter_filter]
    congr 1
    funext r
    simp [Bool.and_comm]
  unfold durable ResidencyTable.sumCommittedBytes
  rw [hr]
  omega

theorem readFloor_inv {w : World} (h : Inv w) (reader : Reader) (connected : Database) (r : Row) :
    Inv (readFloor w reader connected r) := by
  refine ⟨h.tidy, ?_⟩
  intro p hp hen hown hl
  obtain hp | hp := mem_append.mp hp
  · exact h.floor p hp hen hown hl
  obtain rfl := mem_singleton.mp hp
  dsimp only at hen hown hl ⊢
  subst hown
  simp only [hen, if_true, durableFloor, hl, Bool.false_eq_true, if_false]
  exact durable_le_sum w r.db

theorem admission_tidy (cfg : Settings) {s : Shared} (hs : Tidy s) (p : Pending) :
    Tidy (p.admission cfg s).1 := by
  unfold Pending.admission
  split
  · unfold reconcileResidencyAdmission
    split
    · exact hs
    · exact admitDatabase_tidy hs _ _ _ _
  · exact reserveEntry_tidy cfg hs p.row

theorem step_inv (w : World) (ev : Event) (h : Inv w) : Inv (step w ev) := by
  cases ev with
  | restart => exact ⟨init_tidy _, by simp [step]⟩
  | catalog db relids | recordLoad db indexRelid bytes | recordUnload db indexRelid
  | reconcileOrphans db | worker db live =>
    exact ⟨h.tidy, h.floor⟩
  | access a =>
    simp only [step]
    split
    · exact h
    · exact ⟨access_tidy w.shared a h.tidy, h.floor⟩
  | reconcile db => exact readFloor_inv h _ _ _
  | write connected r =>
    simp only [step, queueReservation]
    split
    · exact readFloor_inv h _ _ _
    split
    · exact h
    · split
      · exact h
      · exact readFloor_inv h _ _ _
  | admission k cfg =>
    simp only [step]
    split
    · exact h
    · next p hp =>
      exact ⟨admission_tidy cfg h.tidy p, fun q hq => h.floor q (mem_of_mem_eraseIdx hq)⟩
  | withdraw k => exact ⟨h.tidy, fun q hq => h.floor q (mem_of_mem_eraseIdx hq)⟩

/-- An admission that succeeds leaves a budget of no less than its floor and the bytes committed. -/
theorem admission_budget (cfg : Settings) {s : Shared} (hs : Tidy s) (p : Pending)
    (hen : p.row.enabled = true) (hl : p.row.live = true) (hok : (p.admission cfg s).2 = none) :
    ∃ x ∈ (p.admission cfg s).1.memory.findSlot p.row.db,
      max (held s p.row.db) p.row.durableResidencyFloorBytes ≤ x.2.residencyBudget := by
  unfold Pending.admission at hok ⊢
  cases hr : p.reader with
  | operator =>
    simp only [hr] at hok ⊢
    exact reserveEntry_budget cfg hs rfl hen hl hok
  | launcher =>
    simp only [hr, reconcileResidencyAdmission] at hok ⊢
    cases hf : s.memory.findSlot p.row.db with
    | none => simp [hf] at hok
    | some x =>
      simp only [hf] at hok ⊢
      obtain ⟨ha, hfl⟩ := admitDatabase_budget hs hf hok
      refine ⟨_, ha, ?_⟩
      simpa [held, hf] using hfl

theorem step_respects (w : World) (ev : Event) (h : Inv w) (hba : Backed w ev) :
    RespectsResidency w ev := by
  rintro k cfg p rfl hp hen hl hok
  obtain ⟨x, hx, hbu⟩ := admission_budget cfg h.tidy p hen hl hok
  have hc : durable w p.row.db ≤ x.2.residencyBudget := by
    obtain ⟨hown, hn, hs⟩ | hh := hba p hp
    · have hf := h.floor p (mem_of_getElem? hp) hen hown hn
      omega
    · omega
  refine ⟨x, hx, hc, fun hr => ?_⟩
  exact seedable ((w.residency p.row.db).key_filter _) hc hr

def start (maxDatabases : Nat) (launcherDatabase : Database) (residency : Database → ResidencyTable)
    (indexes : Database → List Nat) : World where
  shared := enrollment.init maxDatabases
  launcherDatabase := launcherDatabase
  residency := residency
  indexes := indexes
  live := fun _ => false

theorem start_inv (maxDatabases : Nat) (launcherDatabase : Database)
    (residency : Database → ResidencyTable) (indexes : Database → List Nat) :
    Inv (start maxDatabases launcherDatabase residency indexes) :=
  ⟨init_tidy maxDatabases, by simp [start]⟩

/-- In every run from a server start on, if each admission is backed, each that succeeds respects
the residency of its database. -/
theorem backed_admissions_respect_durable_residency (maxDatabases : Nat)
    (launcherDatabase : Database) (residency : Database → ResidencyTable)
    (indexes : Database → List Nat) (es : List Event)
    (h : EachStep step Backed (start maxDatabases launcherDatabase residency indexes) es) :
    EachStep step RespectsResidency (start maxDatabases launcherDatabase residency indexes) es :=
  eachStep_invariant Inv (fun w ev hw _ => step_inv w ev hw) step_respects
    (start_inv maxDatabases launcherDatabase residency indexes) h

def db1 : Database := ⟨1, by decide⟩

/-- Index 7 of database `db` had 80 MB resident before the restart. -/
def eightyMb (db : Database) : World :=
  start 2 db1
    (update (fun _ => .empty) db
      ⟨[⟨7, db, 80 * 1024 * 1024⟩], by simp⟩)
    (update (fun _ => []) db [7])

/-- The launcher reserves the block of the database, publishes an override of `mb` and reconciles
the admission. -/
def reconciled (db : Database) (mb : Nat) : List Event :=
  [.access (.reserve db), .access (.setOverrides db { residencyMemoryMb := mb }), .reconcile db,
    .admission 0 settings]

theorem the_launchers_own_database_keeps_its_residency :
    EachStep step RespectsResidency (eightyMb db1) (reconciled db1 90) := by
  apply backed_admissions_respect_durable_residency
  refine ⟨trivial, trivial, trivial, ?_, trivial⟩
  rintro p ⟨⟩
  exact .inl ⟨rfl, rfl, by decide⟩

/-- The launcher looks for the rows of database 5 in its own database; and its own database is
admitted while its worker has seeded nothing yet. -/
theorem admissions_below_durable_residency_succeed :
    ¬ EachStep step RespectsResidency (eightyMb db5) (reconciled db5 50) ∧
    ¬ EachStep step RespectsResidency (eightyMb db1) (.worker db1 true :: reconciled db1 50) := by
  constructor
  · rintro ⟨-, -, -, hl, -⟩
    obtain ⟨x, hx, hle, -⟩ := hl 0 settings _ rfl rfl rfl rfl (by decide)
    revert x
    decide
  · rintro ⟨-, -, -, -, hl, -⟩
    obtain ⟨x, hx, hle, -⟩ := hl 0 settings _ rfl rfl rfl rfl (by decide)
    revert x
    decide

end svs_vamana.durable_floor
