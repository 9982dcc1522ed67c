-- The release of orphaned control blocks against the transactions that write the config table: a
-- block is released by what the cycle has read, which an open writer may overtake.
import SvsVamana.LauncherCycles

namespace svs_vamana.orphan_release

open launcher transition_runs serving_worker launcher_cycles System List

/-! ## The transactions -/

/-- What a transaction writes to `vamana_databases`. -/
inductive Write
  | put (row : Row)
  | delete (db : Nat)
deriving DecidableEq, Repr

/-- How far a transaction is. One that has passed `PRE_COMMIT` remembers the slots that it has
allocated; a prepared one has reserved none. -/
inductive TxnStage
  | running
  | reserved (created : List Nat)
  | prepared
deriving DecidableEq, Repr

/-- An open transaction that has written to the table, and so holds its `RowExclusiveLock`. -/
structure Txn where
  writes : List Write
  stage : TxnStage
deriving DecidableEq, Repr

def Write.database : Write → Option Nat
  | .put row => some row.dbOid
  | .delete _ => none

def Write.queued : Write → Option Nat
  | .put row => if row.enabled then some row.dbOid else none
  | .delete _ => none

def Write.apply (s : System) : Write → System
  | .put row => s.setRow row
  | .delete db => s.step (.deleteRow db)

def Txn.databases (t : Txn) : List Nat := t.writes.filterMap Write.database

/-- `CurrentReservationQueue`. -/
def Txn.queue (t : Txn) : List Nat := t.writes.filterMap Write.queued

/-- The transaction has reserved the control block of a database, and is about to commit. -/
def Txn.HasReserved (t : Txn) (db : Nat) : Prop :=
  (∃ created, t.stage = .reserved created) ∧ db ∈ t.queue

/-- `refused` has the databases whose budget is not admitted. The result has the slots allocated,
and whether it has come to the end. -/
def reserveSlotsForEnabledEntries (refused : List Nat) :
    System → List Nat → List Nat → System × List Nat × Bool
  | s, [], created => (s, created, true)
  | s, db :: queue, created =>
    match s.vamanaWorkerReserveSlot db with
    | (s', none) => (s', created, false)
    | (s', some _) =>
      -- an entry that was there already is not the transaction's to release
      let created := if (s.findSlot (some db)).isSome then created else created ++ [db]
      if db ∈ refused then (s', created, false)
      else reserveSlotsForEnabledEntries refused s' queue created

/-- `ReleaseSlotsReservedThisXact`. -/
def releaseSlotsReservedThisXact (s : System) (created : List Nat) : System :=
  created.foldl vamanaWorkerReleaseSlot s

/-! ## The steps -/

/-- The server with its open transactions. Between its probe for a writer and its snapshot the
launcher holds the time that its cycle has begun at. -/
structure World where
  sys : System
  txns : List Txn
  probed : Option Nat

/-- What may happen next; a transaction is named by its place among the open ones. -/
inductive Event
  | tick (us : Nat)
  | probe
  | read
  | launch (registers : Bool)
  | restartLauncher
  | worker (pid : Nat) (cancelled : Bool)
  | beat (pid : Nat)
  | exit (pid : Nat)
  | firstWrite (write : Write)
  | write (k : Nat) (write : Write)
  | preCommit (k : Nat) (refused : List Nat)
  | prepare (k : Nat)
  | commit (k : Nat)
  | abort (k : Nat)
deriving DecidableEq, Repr

namespace World

/-- The cycle goes on with the rows that are committed now. -/
def readRows (s : System) (time : Nat) : System :=
  { s with launcher := { s.launcher with
    rows := s.table
    now := time
    phase := .liveness (s.launcher.ledger.map (·.dbOid)) } }

/-- `VamanaDatabasesXactCallback` at `PRE_COMMIT`. An error there aborts the transaction. -/
def preCommit (w : World) (k : Nat) (t : Txn) (refused : List Nat) : World :=
  match reserveSlotsForEnabledEntries refused w.sys t.queue [] with
  | (s, created, true) =>
    { w with sys := s, txns := w.txns.set k { t with stage := .reserved created } }
  | (s, created, false) =>
    { w with sys := releaseSlotsReservedThisXact s created, txns := w.txns.eraseIdx k }

def commit (w : World) (k : Nat) (t : Txn) : World :=
  if t.stage = .running then w
  else { w with sys := t.writes.foldl Write.apply w.sys, txns := w.txns.eraseIdx k }

/-- The slots that the transaction has allocated are released. -/
def abort (w : World) (k : Nat) (t : Txn) : World :=
  match t.stage with
  | .reserved created =>
    { w with sys := releaseSlotsReservedThisXact w.sys created, txns := w.txns.eraseIdx k }
  | _ => { w with txns := w.txns.eraseIdx k }

def withTxn (w : World) (k : Nat) (f : Txn → World) : World :=
  match w.txns[k]? with
  | some t => f t
  | none => w

def step (w : World) : Event → World
  | .tick us => { w with sys := w.sys.step (.tick us) }
  | .probe =>
    -- `ConditionalLockRelationOid`: an open writer puts the cycle off
    if w.sys.launcher.phase = .idle ∧ w.txns = [] then { w with probed := some w.sys.now }
    else { w with probed := none }
  | .read =>
    match w.probed with
    | some time => { w with sys := readRows w.sys time, probed := none }
    | none => w
  | .launch registers => { w with sys := w.sys.launch registers }
  | .restartLauncher =>
    -- the first scan goes through the same probe, and reserves nothing when it fails
    let sys := if w.txns = [] then w.sys.restartLauncher
      else { w.sys with launcher := ⟨[], w.sys.now, [], [], .idle⟩ }
    { w with sys := sys, probed := none }
  | .worker pid cancelled => { w with sys := w.sys.step (.worker pid cancelled) }
  | .beat pid => { w with sys := w.sys.step (.beat pid) }
  | .exit pid => { w with sys := w.sys.step (.exit pid) }
  | .firstWrite write => { w with txns := w.txns ++ [⟨[write], .running⟩] }
  | .write k write => w.withTxn k fun t =>
      if t.stage = .running then
        { w with txns := w.txns.set k { t with writes := t.writes ++ [write] } }
      else w
  | .preCommit k refused => w.withTxn k fun t =>
      if t.stage = .running then w.preCommit k t refused else w
  | .prepare k => w.withTxn k fun t =>
      if t.stage = .running then { w with txns := w.txns.set k { t with stage := .prepared } }
      else w
  | .commit k => w.withTxn k fun t => w.commit k t
  | .abort k => w.withTxn k fun t => w.abort k t

end World

def start (settings : Settings) (now : Nat) : World := ⟨init settings now, [], none⟩

/-! ## The law and its condition -/

/-- The orphan pass releases the control block of a database only while no row is committed for it
and no transaction that has reserved it is about to commit. -/
def ReleasesOnlyOrphans (w : World) : Event → Prop
  | .launch registers => ∀ todo, w.sys.launcher.phase = .releasing todo →
      ∀ i db, (w.sys.blocks i).dbOid = some db →
        ((w.sys.launch registers).blocks i).dbOid ≠ some db →
        findDatabaseRow w.sys.table db = none ∧ ∀ t ∈ w.txns, ¬ t.HasReserved db
  | _ => True

/-- The launcher has held a database for orphaned longer than its grace. -/
def pastGrace (s : System) (time db : Nat) : Bool :=
  (s.launcher.orphans.find? fun c => c.1 = db).any fun c =>
    differenceExceeds c.2 time orphanSlotGraceMs

def Ahead (db : Nat) : LauncherPhase → Prop
  | .idle => False
  | .liveness _ => True
  | .terminating _ => True
  | .converging _ => True
  | .asking _ reserved => db ∈ reserved
  | .releasing todo => db ∈ todo
  | .spawning _ => False

instance (db : Nat) : ∀ phase, Decidable (Ahead db phase) := by
  intro phase
  cases phase <;> unfold Ahead <;> infer_instance

/-- The cycle that is under way is to release a database: it has read no row for it, and held it for
orphaned long enough. -/
def Doomed (s : System) (db : Nat) : Prop :=
  Ahead db s.launcher.phase ∧ findDatabaseRow s.launcher.rows db = none ∧
    pastGrace s s.launcher.now db = true

deriving instance Decidable for Doomed

/-- The transaction in a place puts no row for a database that is to be released. -/
def SparesTxn (w : World) (k : Nat) : Prop :=
  ∀ t ∈ w.txns[k]?, ∀ db ∈ t.databases, ¬ Doomed w.sys db

/-- No transaction comes to `PRE_COMMIT`, or is prepared, while the cycle is to release a database
that it puts a row for, and no cycle reads its rows in between. -/
def Careful (w : World) : Event → Prop
  | .preCommit k _ => SparesTxn w k
  | .prepare k => SparesTxn w k
  | .read => ∀ time ∈ w.probed, ∀ t ∈ w.txns, t.stage ≠ .running → ∀ db ∈ t.databases,
      findDatabaseRow w.sys.table db = none → pastGrace w.sys time db = false
  | _ => True

deriving instance Decidable for SparesTxn

instance (w : World) : ∀ e, Decidable (Careful w e) := by
  intro e
  cases e <;> unfold Careful <;> infer_instance

/-! ## The candidates of a cycle -/

variable {s s' : System} {db : Nat}

theorem orphanIsDue_iff : s.OrphanIsDue db ↔
    findDatabaseRow s.launcher.rows db = none ∧ pastGrace s s.launcher.now db = true := by
  unfold OrphanIsDue firstSeenOrphaned pastGrace
  cases s.launcher.orphans.find? fun c => c.1 = db with
  | some c => simp
  | none => simp [differenceExceeds, orphanSlotGraceMs]

theorem find_kept (keep : Nat → Bool) (orphans : List (Nat × Nat)) (db : Nat) :
    (orphans.filter fun c => keep c.1).find? (fun c => c.1 = db) =
      if keep db then orphans.find? fun c => c.1 = db else none := by
  induction orphans with
  | nil => simp
  | cons c orphans ih =>
    by_cases hc : c.1 = db
    · subst hc
      by_cases hk : keep c.1 = true
      · simp [hk]
      · simp only [hk] at ih ⊢
        simpa [hk] using ih
    · by_cases hk : keep c.1 = true
      · simp [hk, hc, ih]
      · simp [hk, hc, ih]

theorem orphansAfter_find (s : System) (d db : Nat)
    (h : ((orphansAfter s d).find? fun c => c.1 = db).any
      (fun c => differenceExceeds c.2 s.launcher.now orphanSlotGraceMs) = true) :
    pastGrace s s.launcher.now db = true := by
  have ho := find_kept (fun d' => d' ≠ d) s.launcher.orphans db
  unfold pastGrace
  unfold orphansAfter at h
  split at h
  · exact h
  split at h
  · rw [ho] at h
    split at h
    · exact h
    · simp at h
  · by_cases hd : d = db
    · subst hd
      unfold firstSeenOrphaned at h
      cases hf : s.launcher.orphans.find? fun c => c.1 = d with
      | some c => simpa [hf] using h
      | none => simp [hf, differenceExceeds, orphanSlotGraceMs] at h
    · rw [find?_cons_of_neg (by simpa using hd), ho] at h
      split at h
      · exact h
      · simp at h

theorem launch_pastGrace (registers : Bool)
    (h : pastGrace (s.launch registers) s.launcher.now db = true) :
    pastGrace s s.launcher.now db = true := by
  unfold pastGrace at h
  rw [(launch_pass s registers).2] at h
  unfold nextOrphans at h
  split at h
  · rename_i reserved _
    have hk := find_kept (fun d => (findDatabaseRow s.launcher.rows d).isNone &&
      reserved.contains d) s.launcher.orphans db
    rw [hk] at h
    split at h
    · exact h
    · simp at h
  · exact orphansAfter_find s _ db h
  · exact h

theorem ahead_nextPhase (h : Ahead db (nextPhase s)) : Ahead db s.launcher.phase := by
  unfold nextPhase at h
  cases hp : s.launcher.phase with
  | idle => simp [hp, Ahead] at h
  | liveness todo => trivial
  | terminating todo => trivial
  | converging todo => trivial
  | asking todo reserved => cases todo <;> simpa [hp, Ahead] using h
  | releasing todo =>
    cases todo with
    | nil => simp [hp, Ahead] at h
    | cons d todo =>
      have hmem : db ∈ todo := by simpa [hp, Ahead] using h
      exact mem_cons_of_mem d hmem
  | spawning todo => cases todo <;> simp [hp, Ahead] at h

theorem launch_doomed (registers : Bool) (h : Doomed (s.launch registers) db) : Doomed s db := by
  obtain ⟨ha, hrow, hg⟩ := h
  have hr := launch_rows s registers
  rw [launch_phase] at ha
  rw [hr.rows] at hrow
  rw [hr.read] at hg
  exact ⟨ahead_nextPhase ha, hrow, launch_pastGrace registers hg⟩

theorem doomed_of_launcher (hl : s'.launcher = s.launcher) (h : Doomed s' db) : Doomed s db := by
  simpa only [Doomed, pastGrace, hl] using h

theorem doomed_of_same (hs : SameRows s s') (h : Doomed s' db) : Doomed s db := by
  simpa only [Doomed, pastGrace, hs.rows, hs.read, hs.orphans, hs.phase] using h

/-! ## The release -/

theorem release_doomed {registers : Bool} {todo : List Nat} {i : Nat}
    (hp : s.launcher.phase = .releasing todo) (hbe : (s.blocks i).dbOid = some db)
    (ha : ((s.launch registers).blocks i).dbOid ≠ some db) : Doomed s db := by
  unfold launch at ha
  rw [hp] at ha
  cases todo with
  | nil => exact absurd hbe ha
  | cons d todo =>
    change ((s.releaseOrphanedReservedSlots d).blocks i).dbOid ≠ some db at ha
    unfold releaseOrphanedReservedSlots at ha
    split at ha
    · exact absurd hbe ha
    split at ha
    · rename_i hdue
      split at ha
      · exact absurd hbe ha
      change ((s.vamanaWorkerReleaseSlot d).blocks i).dbOid ≠ some db at ha
      unfold vamanaWorkerReleaseSlot at ha
      split at ha
      · rename_i j hs
        by_cases hij : i = j
        · subst hij
          have hd := (findSlot_some hs).2
          rw [hbe, Option.some.injEq] at hd
          subst hd
          refine ⟨?_, orphanIsDue_iff.mp hdue⟩
          rw [hp]
          exact mem_cons_self
        · simp only [setBlock, Function.update_of_ne hij] at ha
          exact absurd hbe ha
      · exact absurd hbe ha
    · exact absurd hbe ha

/-! ## The enrolled databases -/

def Enrolled (w : World) (db : Nat) : Prop :=
  (findDatabaseRow w.sys.table db).isSome ∨
    ∃ t ∈ w.txns, t.stage ≠ .running ∧ db ∈ t.databases

/-- No enrolled database is to be released. -/
def Spared (w : World) : Prop := ∀ db, Doomed w.sys db → ¬ Enrolled w db

theorem Txn.HasReserved.enrolls {t : Txn} (h : t.HasReserved db) :
    t.stage ≠ .running ∧ db ∈ t.databases := by
  obtain ⟨⟨created, hs⟩, hqu⟩ := h
  refine ⟨by simp [hs], ?_⟩
  obtain ⟨write, hw, hq⟩ := mem_filterMap.mp hqu
  refine mem_filterMap.mpr ⟨write, hw, ?_⟩
  cases write with
  | put row =>
    simp only [Write.queued] at hq
    split at hq
    · exact hq
    · cases hq
  | delete d => cases hq

theorem Spared.releases {w : World} (h : Spared w) (e : Event) : ReleasesOnlyOrphans w e := by
  cases e with
  | launch registers =>
    intro todo hp i db hbe ha
    have hnot := h db (release_doomed hp hbe ha)
    constructor
    · cases hrow : findDatabaseRow w.sys.table db with
      | none => rfl
      | some row => exact absurd (.inl (by simp [hrow])) hnot
    · exact fun t ht hr => hnot (.inr ⟨t, ht, hr.enrolls⟩)
  | _ => trivial

theorem Spared.mono {w w' : World} (h : Spared w) (hd : ∀ db, Doomed w'.sys db → Doomed w.sys db)
    (hen : ∀ db, Doomed w.sys db → Enrolled w' db → Enrolled w db) : Spared w' :=
  fun db hdo henr => h db (hd db hdo) (hen db (hd db hdo) henr)

theorem Spared.server {w : World} (h : Spared w) {s' : System} (hs : SameRows w.sys s') :
    Spared { w with sys := s' } := by
  refine h.mono (fun _ => doomed_of_same hs) fun db _ hen => ?_
  simpa only [Enrolled, hs.table] using hen

theorem reserveSlots_same (refused : List Nat) (queue : List Nat) :
    ∀ (s : System) (created : List Nat),
      SameRows s (reserveSlotsForEnabledEntries refused s queue created).1 := by
  induction queue with
  | nil => exact fun s _ => SameRows.refl s
  | cons d queue ih =>
    intro s created
    have hr := reserve_rows s d
    unfold reserveSlotsForEnabledEntries
    generalize s.vamanaWorkerReserveSlot d = r at hr
    obtain ⟨s', found⟩ := r
    cases found with
    | none => exact hr
    | some i =>
      dsimp only
      split
      · exact hr
      · exact hr.trans (ih s' _)

theorem releaseSlots_same (created : List Nat) :
    ∀ s : System, SameRows s (releaseSlotsReservedThisXact s created) := by
  induction created with
  | nil => exact SameRows.refl
  | cons d created ih => exact fun s => (release_rows s d).trans (ih _)

theorem apply_launcher (writes : List Write) :
    ∀ s : System, (writes.foldl Write.apply s).launcher = s.launcher := by
  induction writes with
  | nil => exact fun _ => rfl
  | cons write writes ih =>
    intro s
    rw [foldl_cons, ih]
    cases write <;> rfl

theorem apply_row (writes : List Write) : ∀ s : System,
    (findDatabaseRow (writes.foldl Write.apply s).table db).isSome →
      (findDatabaseRow s.table db).isSome ∨ db ∈ writes.filterMap Write.database := by
  induction writes with
  | nil => exact fun _ h => .inl h
  | cons write writes ih =>
    intro s h
    rw [foldl_cons] at h
    obtain hrow | hmem := ih _ h
    · simp only [findDatabaseRow, find?_isSome, decide_eq_true_eq] at hrow ⊢
      obtain ⟨row, hrow, hdb⟩ := hrow
      cases write with
      | put new =>
        obtain rfl | hold := mem_cons.mp hrow
        · right
          simp [Write.database, hdb]
        · exact .inl ⟨row, (mem_filter.mp hold).1, hdb⟩
      | delete d => exact .inl ⟨row, (mem_filter.mp hrow).1, hdb⟩
    · right
      simp only [filterMap_cons]
      split
      · exact hmem
      · exact mem_cons_of_mem _ hmem

/-! ## A step -/

variable {w : World} {k : Nat} {t : Txn}

section

variable (h : Spared w)
include h

theorem Spared.erase (hsa : SameRows w.sys s') :
    Spared { w with sys := s', txns := w.txns.eraseIdx k } := by
  refine (h.server hsa).mono (fun _ hd => hd) fun db _ hen => ?_
  obtain hrow | ⟨t, ht, hs, hdb⟩ := hen
  · exact .inl hrow
  · exact .inr ⟨t, mem_of_mem_eraseIdx ht, hs, hdb⟩

theorem Spared.set (hsa : SameRows w.sys s')
    (hs : t.stage = .running ∨ ∀ db ∈ t.databases, ¬ Doomed w.sys db) :
    Spared { w with sys := s', txns := w.txns.set k t } := by
  refine (h.server hsa).mono (fun _ hd => hd) fun db hd hen => ?_
  obtain hrow | ⟨u, hu, hst, hdb⟩ := hen
  · exact .inl hrow
  obtain hold | rfl := mem_or_eq_of_mem_set hu
  · exact .inr ⟨u, hold, hst, hdb⟩
  · obtain hr | hs := hs
    · exact absurd hr hst
    · exact absurd (doomed_of_same hsa hd) (hs db hdb)

theorem Spared.preCommit (refused : List Nat)
    (hs : ∀ db ∈ t.databases, ¬ Doomed w.sys db) : Spared (w.preCommit k t refused) := by
  have hr := reserveSlots_same refused t.queue w.sys []
  unfold World.preCommit
  generalize reserveSlotsForEnabledEntries refused w.sys t.queue [] = r at hr
  obtain ⟨s', created, done⟩ := r
  cases done with
  | true => exact h.set hr (.inr hs)
  | false => exact h.erase (hr.trans (releaseSlots_same created s'))

theorem Spared.commit (ht : w.txns[k]? = some t) : Spared (w.commit k t) := by
  unfold World.commit
  split
  · exact h
  rename_i hs
  refine h.mono (fun _ => doomed_of_launcher (apply_launcher t.writes w.sys)) ?_
  rintro db - (hrow | ⟨u, hu, hs', hdb⟩)
  · obtain hold | hnew := apply_row t.writes w.sys hrow
    · exact .inl hold
    · exact .inr ⟨t, mem_of_getElem? ht, hs, hnew⟩
  · exact .inr ⟨u, mem_of_mem_eraseIdx hu, hs', hdb⟩

theorem Spared.abort : Spared (w.abort k t) := by
  unfold World.abort
  split
  · exact h.erase (releaseSlots_same _ w.sys)
  · exact h.erase (SameRows.refl w.sys)

/-- A cycle begins. The databases with a row are not orphaned, and the others that a transaction is
about to give one are not past their grace. -/
theorem Spared.read (hc : Careful w .read) : Spared (w.step .read) := by
  simp only [World.step]
  split
  · rename_i time hp
    rintro db ⟨-, hrow, hg⟩ (hs | ⟨t, ht, hst, hdb⟩)
    · change findDatabaseRow w.sys.table db = none at hrow
      simp only [World.readRows, hrow] at hs
      cases hs
    · have hy := hc time hp t ht hst db hdb hrow
      change pastGrace w.sys time db = true at hg
      rw [hy] at hg
      cases hg
  · exact h

end

theorem restartLauncher_phase (s : System) : s.restartLauncher.launcher.phase = .idle := by
  have hk : ∀ (dbs : List Nat) (s : System),
      (dbs.foldl (fun s db => (s.vamanaWorkerReserveSlot db).1) s).launcher.phase =
        s.launcher.phase := by
    intro dbs
    induction dbs with
    | nil => exact fun _ => rfl
    | cons d dbs ih => exact fun s => (ih _).trans (reserve_rows s d).phase
  exact hk _ _

theorem Spared.withTxn {f : Txn → World} (h : Spared w)
    (hf : ∀ t, w.txns[k]? = some t → Spared (f t)) : Spared (w.withTxn k f) := by
  unfold World.withTxn
  split
  · rename_i t ht
    exact hf t ht
  · exact h

theorem Spared.step (h : Spared w) (e : Event) (hc : Careful w e) : Spared (w.step e) := by
  cases e with
  | tick us => exact h.mono (fun _ hd => hd) fun _ _ hen => hen
  | probe =>
    simp only [World.step]
    split <;> exact h
  | read => exact h.read hc
  | launch registers =>
    refine h.mono (fun _ => launch_doomed registers) fun db _ hen => ?_
    simpa only [Enrolled, World.step, (launch_rows w.sys registers).table] using hen
  | restartLauncher =>
    intro db hd
    have hi : (w.step .restartLauncher).sys.launcher.phase = .idle := by
      simp only [World.step]
      split
      · exact restartLauncher_phase w.sys
      · rfl
    rw [Doomed, hi] at hd
    exact hd.1.elim
  | worker pid cancelled =>
    refine h.server ?_
    simp only [System.step]
    split
    · exact workerStep_rows w.sys _ cancelled
    · exact SameRows.refl w.sys
  | beat pid =>
    refine h.server ?_
    simp only [System.step, System.beat]
    split
    · split <;> exact ⟨⟨rfl, rfl, rfl, rfl⟩, rfl, rfl⟩
    · exact SameRows.refl w.sys
  | exit pid => exact h.server ⟨⟨rfl, rfl, rfl, rfl⟩, rfl, rfl⟩
  | firstWrite write =>
    refine h.mono (fun _ hd => hd) fun db _ hen => ?_
    obtain hrow | ⟨t, ht, hs, hdb⟩ := hen
    · exact .inl hrow
    obtain hold | hnew := mem_append.mp ht
    · exact .inr ⟨t, hold, hs, hdb⟩
    · rw [mem_singleton.mp hnew] at hs
      exact absurd rfl hs
  | write k write =>
    refine h.withTxn fun t _ => ?_
    split
    · rename_i hr
      exact h.set (SameRows.refl w.sys) (.inl hr)
    · exact h
  | preCommit k refused =>
    refine h.withTxn fun t ht => ?_
    split
    · exact h.preCommit refused (hc t ht)
    · exact h
  | prepare k =>
    refine h.withTxn fun t ht => ?_
    split
    · exact h.set (SameRows.refl w.sys) (.inr (hc t ht))
    · exact h
  | commit k => exact h.withTxn fun _ ht => h.commit ht
  | abort k => exact h.withTxn fun _ _ => h.abort

theorem start_spared (settings : Settings) (now : Nat) : Spared (start settings now) :=
  fun _ hd => hd.1.elim

/-- In every run where no transaction comes to its end in a cycle that is to release one of its
databases, only orphans are released. -/
theorem orphan_release_spares_enrolled_databases (settings : Settings) (now : Nat)
    (events : List Event) (hcareful : EachStep World.step Careful (start settings now) events) :
    EachStep World.step ReleasesOnlyOrphans (start settings now) events :=
  eachStep_invariant Spared (fun _ e h => h.step e) (fun _ e h _ => h.releases e)
    (start_spared settings now) hcareful

/-! ## A database that comes and goes -/

def enrollment : List Event := [.firstWrite (.put ⟨5, 0, true⟩), .preCommit 0 [], .commit 0]

def removal : List Event := [.firstWrite (.delete 5), .preCommit 0 [], .commit 0]

/-- The launcher's cycle as far as its release of the one reserved database. -/
def untilRelease : List Event := replicate 5 (.launch true)

/-- The database has been held for orphaned for five seconds when the launcher reads the rows
again. -/
def orphaned : List Event :=
  enrollment ++ removal ++ [.probe, .read] ++ untilRelease ++ replicate 3 (.launch true) ++
    [.tick 5000000, .probe, .read]

/-- A database that is enrolled again after its release has its block. -/
theorem an_orphan_is_released_and_enrolled_again :
    EachStep World.step ReleasesOnlyOrphans (start ⟨1, 1000, 1000⟩ 1)
      (orphaned ++ untilRelease ++ [.launch true] ++ enrollment) ∧
    ((run World.step (start ⟨1, 1000, 1000⟩ 1) (orphaned ++ untilRelease)).sys.blocks 0).dbOid =
      some 5 ∧
    ((run World.step (start ⟨1, 1000, 1000⟩ 1)
      (orphaned ++ untilRelease ++ [.launch true])).sys.blocks 0).dbOid = none ∧
    ((run World.step (start ⟨1, 1000, 1000⟩ 1)
      (orphaned ++ untilRelease ++ [.launch true] ++ enrollment)).sys.blocks 0).dbOid = some 5 :=
  ⟨orphan_release_spares_enrolled_databases _ _ _ (by decide +kernel), by decide +kernel,
    by decide +kernel, by decide +kernel⟩

/-- It is enrolled again after the rows have been read: the reservation finds the old block, and the
block is released, whether the row is committed by then or not yet. -/
theorem an_enrollment_loses_its_block :
    (¬ EachStep World.step ReleasesOnlyOrphans (start ⟨1, 1000, 1000⟩ 1)
        (orphaned ++ enrollment ++ untilRelease ++ [.launch true])) ∧
      ¬ EachStep World.step ReleasesOnlyOrphans (start ⟨1, 1000, 1000⟩ 1)
        (orphaned ++ enrollment.take 2 ++ untilRelease ++ [.launch true]) := by
  constructor
  · intro h
    obtain ⟨hl, -⟩ := (eachStep_append.mp h).2
    have ho := hl [5] (by decide +kernel) 0 5 (by decide +kernel) (by decide +kernel)
    exact absurd ho.1 (by decide +kernel)
  · intro h
    obtain ⟨hl, -⟩ := (eachStep_append.mp h).2
    have ho := hl [5] (by decide +kernel) 0 5 (by decide +kernel) (by decide +kernel)
    exact ho.2 ⟨[.put ⟨5, 0, true⟩], .reserved []⟩ (by decide +kernel)
      ⟨⟨[], rfl⟩, by decide +kernel⟩

end svs_vamana.orphan_release
