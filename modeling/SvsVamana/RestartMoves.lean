-- What one step does to the worker of a database that stays enabled: each step of the launcher and
-- of the processes beside it is one of six moves.
import SvsVamana.DeliberateStop
import SvsVamana.LauncherCycles

namespace svs_vamana.restart_moves

open launcher transition_runs serving_worker launcher_cycles System List Option
open deliberate_stop (Earlier Aside findLedgerEntry_some release_same step_aside)

/-! ## One database that stays enabled -/

def generation (rows : List Row) (db : Nat) : Option Nat :=
  (findDatabaseRow rows db).map fun row => row.restartGeneration

/-- The rows are all of the database, enabled, and with a generation that never falls. The row is
not deleted, and the launcher goes on. -/
def Serving (db : Nat) (s : System) : Event → Prop
  | .setRow row => row.dbOid = db ∧ row.enabled = true ∧
      ∀ g ∈ generation s.table db, g ≤ row.restartGeneration
  | .deleteRow d => d ≠ db
  | .restartLauncher => False
  | _ => True

instance (db : Nat) (s : System) : ∀ e, Decidable (Serving db s e) := by
  intro e
  cases e <;> unfold Serving <;> infer_instance

/-! ## Stamps -/

/-- No attempt was stamped later than `t`. -/
def Stamped (t : Nat) (s : System) : Prop := ∀ i, (s.blocks i).backoff.lastAttemptTime ≤ t

variable {t : Nat} {s : System}

theorem Stamped.setBlock (h : Stamped t s) {i : Nat} {b : ControlBlock}
    (hb : b.backoff.lastAttemptTime ≤ t) : Stamped t (s.setBlock i b) := by
  intro j
  by_cases hj : j = i
  · rw [hj, setBlock_self]
    exact hb
  · rw [setBlock_of_ne hj]
    exact h j

variable {f : ControlBlock → ControlBlock}

theorem Stamped.writeBlock (h : Stamped t s) (i : Nat)
    (hf : ∀ b, b.backoff.lastAttemptTime ≤ t → (f b).backoff.lastAttemptTime ≤ t) :
    Stamped t (s.writeBlock i f) :=
  h.setBlock (hf _ (h i))

section

variable (h : Stamped t s) (db : Nat)
include h

theorem Stamped.withEntry
    (hf : ∀ b, b.backoff.lastAttemptTime ≤ t → (f b).backoff.lastAttemptTime ≤ t) :
    Stamped t (s.withEntry db f) := by
  unfold System.withEntry
  split
  · exact h.writeBlock _ hf
  · exact h

theorem Stamped.reserve : Stamped t (s.vamanaWorkerReserveSlot db).1 := by
  unfold vamanaWorkerReserveSlot
  split
  · exact h
  · split
    · exact h.setBlock (h _)
    · exact h

theorem Stamped.release : Stamped t (s.vamanaWorkerReleaseSlot db) := by
  unfold vamanaWorkerReleaseSlot
  split
  · exact h.setBlock (Nat.zero_le t)
  · exact h

end

variable {s' : System} {registers : Bool}

theorem register_spec {db : Nat} {slot : Option Nat}
    (hreg : s.registerDatabaseWorker registers db = (s', slot)) :
    (slot = none ∧ s'.procs = s.procs ∧ ∀ t, Stamped t s → Stamped t s') ∨
    (slot = some s.nextPid ∧ s'.procs = s.procs ++ [⟨s.nextPid, db, .registered, false⟩] ∧
      ∀ t, s.launcher.now ≤ t → Stamped t s → Stamped t s') := by
  have hs := reserve_same s db
  obtain ⟨hsl, rfl⟩ | ⟨hsl, rfl⟩ := register_cases hreg
  · exact .inl ⟨hsl, hs.procs, fun t h => h.reserve db⟩
  refine .inr ⟨hsl, ?_, fun t ht h => ?_⟩
  · rw [(withEntry_same _ _ _).procs, addProc, hs.procs, hs.nextPid]
  · have ha : Stamped t ((s.vamanaWorkerReserveSlot db).1.addProc db) := h.reserve db
    exact ha.withEntry db fun _ _ => ht

/-! ## The invariant -/

/-- At most one entry, and every process is the one that the entry has the handle of, signalled
exactly when a restart is in flight. -/
structure Inv (db : Nat) (s : System) : Prop where
  short : s.launcher.ledger.length ≤ 1
  entries : ∀ w ∈ s.launcher.ledger, w.dbOid = db
  owned : ∀ p ∈ s.procs, ∃ w ∈ s.launcher.ledger,
    p.pid = w.handle ∧ p.sigterm = w.restart.restarting
  table : ∀ row ∈ s.table, row.dbOid = db ∧ row.enabled = true
  rows : ∀ row ∈ s.launcher.rows, row.dbOid = db ∧ row.enabled = true
  ordered : ∀ g ∈ generation s.launcher.rows db, ∃ g' ∈ generation s.table db, g ≤ g'
  read : s.launcher.ledger ≠ [] → ∃ g, generation s.launcher.rows db = some g
  serviced : ∀ w ∈ s.launcher.ledger, ∀ g ∈ generation s.launcher.rows db,
    w.restart.servicedGeneration ≤ g ∧
      (w.restart.restarting = true → w.restart.targetGeneration ≤ g)
  stamped : Stamped s.launcher.now s
  clock : s.launcher.now ≤ s.now

theorem inv_init (db : Nat) (settings : Settings) (now : Nat) :
    Inv db (init settings now) where
  short := by simp [init]
  entries := by simp [init]
  owned := by simp [init]
  table := by simp [init]
  rows := by simp [init]
  ordered := by simp [init, generation, findDatabaseRow]
  read := by simp [init]
  serviced := by simp [init]
  stamped := fun _ => Nat.le_refl _
  clock := Nat.zero_le _

variable {db : Nat} {s : System}

theorem Inv.ledger (h : Inv db s) :
    s.launcher.ledger = [] ∨ ∃ w, s.launcher.ledger = [w] ∧ w.dbOid = db := by
  cases hl : s.launcher.ledger with
  | nil => exact .inl rfl
  | cons w rest =>
    have hs := h.short
    rw [hl, length_cons] at hs
    obtain rfl : rest = [] := length_eq_zero_iff.mp (by omega)
    exact .inr ⟨w, rfl, h.entries w (by simp [hl])⟩

theorem Inv.noProcs (h : Inv db s) (hl : s.launcher.ledger = []) : s.procs = [] := by
  apply eq_nil_iff_forall_not_mem.mpr
  intro p hp
  obtain ⟨w, hw, -⟩ := h.owned p hp
  rw [hl] at hw
  cases hw

variable {w : LauncherWorker}

theorem Inv.pid (h : Inv db s) (hl : s.launcher.ledger = [w]) {p : Proc} (hp : p ∈ s.procs) :
    p.pid = w.handle ∧ p.sigterm = w.restart.restarting := by
  obtain ⟨v, hv, hpid, hsig⟩ := h.owned p hp
  rw [hl, mem_singleton] at hv
  subst hv
  exact ⟨hpid, hsig⟩

theorem Inv.stopped_iff (h : Inv db s) (hl : s.launcher.ledger = [w]) :
    s.handleStatus w.handle = .stopped ↔ s.procs = [] := by
  unfold handleStatus
  constructor
  · intro hs
    apply eq_nil_iff_forall_not_mem.mpr
    intro p hp
    cases hf : s.procs.find? (fun p => p.pid = w.handle) with
    | none =>
      have hne := find?_eq_none.mp hf p hp
      exact hne (by simpa using (h.pid hl hp).1)
    | some q =>
      rw [hf] at hs
      dsimp only at hs
      split at hs <;> cases hs
  · intro hn
    simp [hn]

theorem findLedgerEntry_of (hl : s.launcher.ledger = [w]) (hdb : w.dbOid = db) :
    s.findLedgerEntry db = some w := by
  simp [findLedgerEntry, hl, hdb]

theorem Inv.other (h : Inv db s) {d : Nat} (hd : d ≠ db) :
    s.findLedgerEntry d = none ∧ findDatabaseRow s.launcher.rows d = none := by
  constructor
  · apply find?_eq_none.mpr
    intro w hw
    simpa [h.entries w hw] using hd.symm
  · apply find?_eq_none.mpr
    intro row hrow
    simpa [(h.rows row hrow).1] using hd.symm

variable {g : Nat}

theorem Inv.row (h : Inv db s) (hg : generation s.launcher.rows db = some g) :
    ∃ row, findDatabaseRow s.launcher.rows db = some row ∧ row.dbOid = db ∧ row.enabled = true ∧
      row.restartGeneration = g := by
  obtain ⟨row, hrow, rfl⟩ := map_eq_some_iff.mp hg
  obtain ⟨hdb, hen⟩ := h.rows row (mem_of_find?_eq_some hrow)
  exact ⟨row, hrow, hdb, hen, rfl⟩

/-! ## The moves -/

/-- Two entries with one handle and the same restart, up to when the wait for it has begun. -/
structure Alike (w w' : LauncherWorker) : Prop where
  dbOid : w'.dbOid = w.dbOid
  handle : w'.handle = w.handle
  restarting : w'.restart.restarting = w.restart.restarting
  serviced : w'.restart.servicedGeneration = w.restart.servicedGeneration
  target : w'.restart.targetGeneration = w.restart.targetGeneration

/-- The entry of a worker that was just registered. -/
structure NewEntry (db : Nat) (s : System) (w : LauncherWorker) (g : Nat) : Prop where
  dbOid : w.dbOid = db
  handle : w.handle = s.nextPid
  restarting : w.restart.restarting = false
  serviced : w.restart.servicedGeneration = g

/-- The worker was just registered. -/
structure Registered (db : Nat) (s s' : System) : Prop where
  before : s.procs = []
  procs : s'.procs = [⟨s.nextPid, db, .registered, false⟩]
  stamps : ∀ t, s.launcher.now ≤ t → Stamped t s → Stamped t s'

/-- The entry was written anew with nothing that matters changed. -/
structure Marked (s s' : System) (w w' : LauncherWorker) : Prop where
  ledger : s'.launcher.ledger = [w']
  alike : Alike w w'
  procs : s'.procs = s.procs
  stamps : ∀ t, Stamped t s → Stamped t s'

/-- A restart was begun: the worker is signalled if it is still there. -/
structure Terminated (s s' : System) (w w' : LauncherWorker) (g : Nat) : Prop where
  ledger : s'.launcher.ledger = [w']
  dbOid : w'.dbOid = w.dbOid
  handle : w'.handle = w.handle
  restart : w'.restart = ⟨true, w.restart.servicedGeneration, g, 0⟩
  procs : s'.procs = s.procs.map fun p =>
    if p.pid = w.handle then { p with sigterm := true } else p
  stamps : ∀ t, Stamped t s → Stamped t s'

/-- What a step may do to the entry of the database and to its process. -/
inductive Moves (db : Nat) (s s' : System) : Prop
  | stays (ledger : s'.launcher.ledger = s.launcher.ledger)
      (procs : ∀ p ∈ s'.procs, ∃ q ∈ s.procs, Earlier q p)
      (stamps : ∀ t, Stamped t s → Stamped t s')
  | marks {w w' : LauncherWorker} (ledger : s.launcher.ledger = [w]) (marked : Marked s s' w w')
  | drops {w : LauncherWorker} (ledger : s.launcher.ledger = [w])
      (restarting : w.restart.restarting = false) (procs : s.procs = [])
      (ledger' : s'.launcher.ledger = []) (procs' : s'.procs = [])
      (stamps : ∀ t, Stamped t s → Stamped t s')
  | terminates {w w' : LauncherWorker} {g : Nat} (ledger : s.launcher.ledger = [w])
      (restarting : w.restart.restarting = false) (read : generation s.launcher.rows db = some g)
      (behind : w.restart.servicedGeneration ≠ g) (terminated : Terminated s s' w w' g)
  | respawns {w w' : LauncherWorker} (ledger : s.launcher.ledger = [w])
      (restarting : w.restart.restarting = true) (ledger' : s'.launcher.ledger = [w'])
      (entry : NewEntry db s w' w.restart.targetGeneration) (registered : Registered db s s')
  | spawns {w' : LauncherWorker} {g : Nat} (ledger : s.launcher.ledger = [])
      (read : generation s.launcher.rows db = some g) (ledger' : s'.launcher.ledger = [w'])
      (entry : NewEntry db s w' g) (registered : Registered db s s')

theorem Moves.refl (db : Nat) (s : System) : Moves db s s :=
  .stays rfl (fun p hp => ⟨p, hp, Earlier.refl p⟩) fun _ h => h

theorem Moves.of_same (hl : s'.launcher.ledger = s.launcher.ledger)
    (hpr : s'.procs = s.procs) (hs : ∀ t, Stamped t s → Stamped t s') : Moves db s s' :=
  .stays hl (fun p hp => ⟨p, hpr ▸ hp, Earlier.refl p⟩) hs

theorem Moves.withEntry (db : Nat) (s : System) (d : Nat)
    (hf : ∀ b, (f b).backoff.lastAttemptTime = b.backoff.lastAttemptTime) :
    Moves db s (s.withEntry d f) := by
  have hs := withEntry_same s d f
  refine Moves.of_same (by rw [hs.launcher]) hs.procs fun t h => ?_
  exact h.withEntry d fun b hb => Nat.le_trans (Nat.le_of_eq (hf b)) hb

theorem Moves.goTo (h : Moves db s s') (phase : LauncherPhase) : Moves db s (s'.goTo phase) := by
  cases h with
  | stays ledger procs stamps => exact .stays ledger procs stamps
  | marks ledger marked => exact .marks ledger ⟨marked.1, marked.2, marked.3, marked.4⟩
  | drops ledger restarting procs ledger' procs' stamps =>
    exact .drops ledger restarting procs ledger' procs' stamps
  | terminates ledger restarting read behind terminated =>
    obtain ⟨ledger', dbOid, handle, restart, procs, stamps⟩ := terminated
    exact .terminates ledger restarting read behind ⟨ledger', dbOid, handle, restart, procs, stamps⟩
  | respawns ledger restarting ledger' entry registered =>
    exact .respawns ledger restarting ledger' entry ⟨registered.1, registered.2, registered.3⟩
  | spawns ledger read ledger' entry registered =>
    exact .spawns ledger read ledger' entry ⟨registered.1, registered.2, registered.3⟩

/-! ## The liveness pass -/

/-- The stop of a worker of an enabled database is part of a restart, or a crash. -/
theorem Inv.classify (h : Inv db s) (hl : s.launcher.ledger = [w]) (hdb : w.dbOid = db) :
    classifyWorkerStop s.launcher.rows w =
      if w.restart.restarting then .restartDrain else .crash := by
  obtain ⟨g, hg⟩ := h.read (by simp [hl])
  obtain ⟨row, hrow, -, hen, -⟩ := h.row hg
  simp [classifyWorkerStop, hdb, hrow, hen]

theorem setLedgerEntry_ledger (hl : s.launcher.ledger = [w]) (w' : LauncherWorker)
    (hdb : w'.dbOid = w.dbOid) : (s.setLedgerEntry w').launcher.ledger = [w'] := by
  simp [setLedgerEntry, setLedger, hl, hdb]

theorem liveness_moves (h : Inv db s) (hl : s.launcher.ledger = [w]) (hdb : w.dbOid = db) :
    Moves db s (s.reconcileLedgerLiveness w) := by
  unfold reconcileLedgerLiveness
  cases hs : s.handleStatus w.handle with
  | notYetStarted => exact Moves.refl db s
  | started =>
    dsimp only
    split
    · exact .marks hl ⟨setLedgerEntry_ledger hl _ rfl, ⟨rfl, rfl, rfl, rfl, rfl⟩, rfl, fun _ h => h⟩
    · exact Moves.refl db s
  | stopped =>
    have hp := (h.stopped_iff hl).mp hs
    rw [h.classify hl hdb]
    cases hr : w.restart.restarting with
    | true =>
      simp only [if_true]
      exact Moves.withEntry db s w.dbOid fun _ => rfl
    | false =>
      simp only [Bool.false_eq_true, if_false]
      refine .drops hl hr hp ?_ ?_ fun t hst => ?_
      · simp [dropLedgerEntry, setLedger, (withEntry_same _ _ _).launcher, hl]
      · exact (withEntry_same _ _ _).procs.trans hp
      · exact hst.withEntry w.dbOid fun _ hb => hb

theorem liveness_drops (h : Inv db s) (hl : s.launcher.ledger = [w]) (hdb : w.dbOid = db)
    (hr : w.restart.restarting = false) (hp : s.procs = []) :
    (s.reconcileLedgerLiveness w).launcher.ledger = [] := by
  have hs := (h.stopped_iff hl).mpr hp
  simp [reconcileLedgerLiveness, hs, h.classify hl hdb, hr,
    dropLedgerEntry, setLedger, (withEntry_same _ _ _).launcher, hl]

/-! ## The convergence pass -/

/-- What `VamanaRestartStateAdvance` comes to, and when. -/
inductive Advances (state : RestartState) (g : Nat) (status : HandleStatus) :
    RestartState × RestartAction → Prop
  | level (restarting : state.restarting = false) (level : state.servicedGeneration = g) :
      Advances state g status (state, .noop)
  | behind (restarting : state.restarting = false) (behind : state.servicedGeneration ≠ g) :
      Advances state g status (⟨true, state.servicedGeneration, g, 0⟩, .terminate)
  | waits (restarting : state.restarting = true) (runs : status ≠ .stopped) (t : Nat)
      {action : RestartAction} (waits : action = .wait ∨ action = .waitTimeout) :
      Advances state g status ({ state with waitStarted := t }, action)
  | stopped (restarting : state.restarting = true) (stopped : status = .stopped) :
      Advances state g status (state, .respawn)

theorem advance_cases (timeout : Nat) (state : RestartState) (g : Nat) (status : HandleStatus)
    (now : Nat) :
    Advances state g status (vamanaRestartStateAdvance timeout state g status now) := by
  unfold vamanaRestartStateAdvance
  cases hr : state.restarting with
  | false =>
    simp only [Bool.not_false, if_true]
    split
    · next heq => exact .level hr heq
    · next hne => exact .behind hr hne
  | true =>
    simp only [Bool.not_true, Bool.false_eq_true, if_false]
    split
    · next hru =>
      have hw : ∀ t, Advances state g status
          (if differenceExceeds t now timeout then ({ state with waitStarted := t }, .waitTimeout)
          else ({ state with waitStarted := t }, .wait)) := by
        intro t
        split
        · exact .waits hr hru t (.inr rfl)
        · exact .waits hr hru t (.inl rfl)
      by_cases hz : state.waitStarted = 0
      · simpa [hz, hr] using hw now
      · simp only [hz, if_false]
        exact hw state.waitStarted
    · next hs => exact .stopped hr (by simpa using hs)

/-- What the pass comes to, and when. -/
inductive Converges (db : Nat) (s s' : System) (registers : Bool) (w : LauncherWorker) (g : Nat) :
    Prop
  | level {w' : LauncherWorker} (restarting : w.restart.restarting = false)
      (level : w.restart.servicedGeneration = g) (marked : Marked s s' w w')
  | terminates {w' : LauncherWorker} (restarting : w.restart.restarting = false)
      (behind : w.restart.servicedGeneration ≠ g) (terminated : Terminated s s' w w' g)
  | waits {w' : LauncherWorker} (restarting : w.restart.restarting = true) (procs : s.procs ≠ [])
      (marked : Marked s s' w w')
  | fails {w' : LauncherWorker} (restarting : w.restart.restarting = true) (procs : s.procs = [])
      (fails : (s.registerDatabaseWorker registers db).2 = none) (marked : Marked s s' w w')
  | respawns {w' : LauncherWorker} (restarting : w.restart.restarting = true)
      (ledger' : s'.launcher.ledger = [w']) (entry : NewEntry db s w' w.restart.targetGeneration)
      (registered : Registered db s s')

theorem register_fails_iff (s : System) (registers : Bool) (d : Nat) :
    (s.registerDatabaseWorker registers d).2 = none ↔
      (s.vamanaWorkerReserveSlot d).2 = none ∨ registers = false := by
  unfold registerDatabaseWorker
  generalize s.vamanaWorkerReserveSlot d = r
  obtain ⟨t, found⟩ := r
  cases found <;> cases registers <;> simp

theorem register_fails_setLedger (s : System) (registers : Bool) (d : Nat)
    (ledger : List LauncherWorker) :
    ((s.setLedger ledger).registerDatabaseWorker registers d).2 = none ↔
      (s.registerDatabaseWorker registers d).2 = none := by
  have hs : ((s.setLedger ledger).vamanaWorkerReserveSlot d).2 =
      (s.vamanaWorkerReserveSlot d).2 := by
    have hf : ∀ key, (s.setLedger ledger).findSlot key = s.findSlot key := fun _ => rfl
    unfold vamanaWorkerReserveSlot
    rw [hf, hf]
    split
    · rfl
    · split <;> rfl
  rw [register_fails_iff, register_fails_iff, hs]

/-- The entry of a worker that was replaced in place. -/
def replaced (s : System) (w : LauncherWorker) : LauncherWorker :=
  { w with
    handle := s.nextPid
    startedTime := 0
    restart := { w.restart with
      restarting := false
      servicedGeneration := w.restart.targetGeneration
      waitStarted := 0 } }

theorem respawn_converges (hl : s.launcher.ledger = [w]) (hr : w.restart.restarting = true)
    (hp : s.procs = []) {row : Row} (hrow : row.dbOid = db) (hdb : w.dbOid = db)
    (registers : Bool) (g : Nat) :
    Converges db s ((s.setLedgerEntry w).respawnWorker registers w row) registers w g := by
  unfold respawnWorker
  rw [hrow]
  cases hreg : (s.setLedgerEntry w).registerDatabaseWorker registers db with
  | mk s' slot =>
    have hle : s'.launcher.ledger = [w] := by
      rw [register_launcher hreg]
      exact setLedgerEntry_ledger hl _ rfl
    obtain ⟨rfl, hp', hs⟩ | ⟨rfl, hp', hs⟩ := register_spec hreg
    · refine .fails hr hp ?_ ⟨hle, ⟨rfl, rfl, rfl, rfl, rfl⟩, hp', hs⟩
      rw [← register_fails_setLedger s registers db
        (s.launcher.ledger.map fun v => if v.dbOid = w.dbOid then w else v)]
      exact congrArg Prod.snd hreg
    · have hen : NewEntry db s (replaced s w) w.restart.targetGeneration := ⟨hdb, rfl, rfl, rfl⟩
      refine .respawns hr ?_ hen ⟨hp, ?_, fun t ht hst => ?_⟩
      · rw [(withEntry_same _ _ _).launcher]
        exact setLedgerEntry_ledger hle (replaced s w) rfl
      · rw [(withEntry_same _ _ _).procs]
        exact hp'.trans (by simp [setLedgerEntry, setLedger, hp])
      · have hset : ∀ ledger, Stamped t (s'.setLedger ledger) := fun _ => hs t ht hst
        refine Stamped.withEntry (hset _) db fun _ hb => ?_
        exact hb

theorem converges (h : Inv db s) (hl : s.launcher.ledger = [w]) (hdb : w.dbOid = db)
    (hg : generation s.launcher.rows db = some g) (registers : Bool) :
    Converges db s (s.reconcileRestartConvergence registers w) registers w g := by
  obtain ⟨row, hrow, hr, hen, rfl⟩ := h.row hg
  subst hdb
  have hm : ∀ restart, Alike w { w with restart := restart } →
      Marked s (s.setLedgerEntry { w with restart := restart }) w { w with restart := restart } :=
    fun restart hal => ⟨setLedgerEntry_ledger hl _ rfl, hal, rfl, fun _ h => h⟩
  unfold reconcileRestartConvergence
  simp only [hrow, hen, Bool.not_true, Bool.false_eq_true, if_false]
  have ha := advance_cases s.settings.stopTimeoutMs w.restart row.restartGeneration
    (s.handleStatus w.handle) s.launcher.now
  generalize vamanaRestartStateAdvance s.settings.stopTimeoutMs w.restart row.restartGeneration
    (s.handleStatus w.handle) s.launcher.now = advanced at ha
  cases ha with
  | level restarting level => exact .level restarting level (hm _ ⟨rfl, rfl, rfl, rfl, rfl⟩)
  | behind restarting behind =>
    exact .terminates restarting behind
      ⟨setLedgerEntry_ledger hl _ rfl, rfl, rfl, rfl, rfl, fun _ h => h⟩
  | waits restarting runs t waits =>
    have hp : s.procs ≠ [] := fun hnil => runs ((h.stopped_iff hl).mpr hnil)
    have hw := hm { w.restart with waitStarted := t } ⟨rfl, rfl, rfl, rfl, rfl⟩
    obtain rfl | rfl := waits
    · exact .waits restarting hp hw
    · exact .waits restarting hp hw
  | stopped restarting stopped =>
    exact respawn_converges hl restarting ((h.stopped_iff hl).mp stopped) hr rfl registers _

theorem Converges.moves (h : Converges db s s' registers w g) (hl : s.launcher.ledger = [w])
    (hg : generation s.launcher.rows db = some g) : Moves db s s' := by
  cases h with
  | level restarting level marked | waits restarting procs marked
  | fails restarting procs fails marked =>
    exact .marks hl marked
  | terminates restarting behind terminated =>
    exact .terminates hl restarting hg behind terminated
  | respawns restarting ledger' entry registered =>
    exact .respawns hl restarting ledger' entry registered

/-! ## The spawn loop -/

theorem not_live (hp : s.procs = []) (d : Nat) : s.databaseIsLive d = false := by
  unfold databaseIsLive
  split
  · simp [vamanaWorkerEntryIsLive, hp]
  · rfl

def backoffOf (s : System) (db : Nat) : Backoff :=
  match s.findSlot (some db) with
  | some i => (s.blocks i).backoff
  | none => ⟨0, 0⟩

/-- What the spawn loop comes to for a database without an entry, and when. -/
inductive Spawns (db : Nat) (s s' : System) (registers : Bool) (g : Nat) : Prop
  | waits (backoff : backoffIsOver s.settings.restartBackoffMs (backoffOf s db)
        s.launcher.now = false)
      (same : s' = s)
  | fails (fails : (s.registerDatabaseWorker registers db).2 = none)
      (ledger' : s'.launcher.ledger = s.launcher.ledger) (procs : s'.procs = s.procs)
      (stamps : ∀ t, Stamped t s → Stamped t s')
  | spawns {w' : LauncherWorker} (ledger' : s'.launcher.ledger = [w']) (entry : NewEntry db s w' g)
      (registered : Registered db s s')

theorem spawns (h : Inv db s) (hl : s.launcher.ledger = [])
    (hg : generation s.launcher.rows db = some g) (registers : Bool) :
    Spawns db s (s.spawnDiff registers db) registers g := by
  obtain ⟨row, hrow, hr, -, rfl⟩ := h.row hg
  have hp := h.noProcs hl
  have hen : s.findLedgerEntry db = none := by simp [findLedgerEntry, hl]
  have hsp : s.spawnDiff registers db =
      if backoffIsOver s.settings.restartBackoffMs (backoffOf s db) s.launcher.now then
        s.spawnWorker registers row else s := by
    cases hsl : s.findSlot (some db) <;>
      simp [spawnDiff, hrow, hen, not_live hp, backoffOf, hsl]
  rw [hsp]
  split
  · unfold spawnWorker
    rw [hr]
    cases hreg : s.registerDatabaseWorker registers db with
    | mk s' slot =>
      have hla := register_launcher hreg
      obtain ⟨rfl, hp', hs⟩ | ⟨rfl, hp', hs⟩ := register_spec hreg
      · exact .fails (congrArg Prod.snd hreg) (by rw [hla]) hp' hs
      have hnew : NewEntry db s
          ⟨db, s.nextPid, 0, ⟨false, row.restartGeneration, row.restartGeneration, 0⟩⟩
          row.restartGeneration := ⟨rfl, rfl, rfl, rfl⟩
      dsimp only
      refine .spawns ?_ hnew ⟨hp, ?_, fun t ht hst => ?_⟩
      · rw [(withEntry_same _ _ _).launcher, hla, hl]
        rfl
      · rw [(withEntry_same _ _ _).procs]
        exact hp'.trans (by simp [hp])
      · have hset : ∀ ledger, Stamped t (s'.setLedger ledger) := fun _ => hs t ht hst
        refine Stamped.withEntry (hset _) db fun _ hb => ?_
        exact hb
  · next ho => exact .waits (by simpa using ho) rfl

theorem Spawns.moves (h : Spawns db s s' registers g) (hl : s.launcher.ledger = [])
    (hg : generation s.launcher.rows db = some g) : Moves db s s' := by
  cases h with
  | waits backoff same =>
    rw [same]
    exact Moves.refl db s
  | fails fails ledger' procs stamps => exact Moves.of_same ledger' procs stamps
  | spawns ledger' entry registered => exact .spawns hl hg ledger' entry registered

/-! ## The steps -/

theorem terminateDisabled_same (h : Inv db s) (hl : s.launcher.ledger = [w]) (hdb : w.dbOid = db) :
    s.terminateDisabledWorkers w = s := by
  obtain ⟨g, hg⟩ := h.read (by simp [hl])
  obtain ⟨row, hrow, -, hen, -⟩ := h.row hg
  simp [terminateDisabledWorkers, isDatabaseEnabled, hdb, hrow, hen]

theorem ask_moves (db : Nat) (s : System) (d : Nat) :
    Moves db s (s.reconcileUnledgeredWorkers d) := by
  unfold reconcileUnledgeredWorkers
  split
  · exact Moves.refl db s
  split
  · exact Moves.refl db s
  refine Moves.withEntry db s d fun b => ?_
  split
  · split <;> rfl
  · rfl

theorem release_moves (db : Nat) (s : System) (d : Nat) :
    Moves db s (s.releaseOrphanedReservedSlots d) := by
  have hs := release_same s d
  unfold releaseOrphanedReservedSlots
  split
  · exact Moves.refl db s
  dsimp only
  split
  · split
    · exact Moves.of_same rfl rfl fun _ h => h
    · refine Moves.of_same ?_ hs.procs fun t h => h.release d
      rw [setOrphans, hs.launcher]
  · exact Moves.of_same rfl rfl fun _ h => h

theorem launch_moves (h : Inv db s) (registers : Bool) : Moves db s (s.launch registers) := by
  -- a pass over the ledger meets the entry of the database, or none
  have hp : ∀ (d : Nat) (f : LauncherWorker → System) (phase : LauncherPhase),
      (∀ w, s.launcher.ledger = [w] → w.dbOid = db → d = db → Moves db s (f w)) →
      ∀ w, s.findLedgerEntry d = some w → Moves db s ((f w).goTo phase) := by
    intro d f phase hf w hw
    obtain ⟨hmem, rfl⟩ := findLedgerEntry_some hw
    have hdb := h.entries w hmem
    obtain hl | ⟨v, hl, -⟩ := h.ledger
    · rw [hl] at hmem
      cases hmem
    · rw [hl, mem_singleton] at hmem
      subst hmem
      exact (hf w hl hdb hdb).goTo phase
  have hgo : ∀ phase, Moves db s (s.goTo phase) := fun phase => (Moves.refl db s).goTo phase
  unfold launch
  cases s.launcher.phase with
  | idle => exact Moves.refl db s
  | liveness todo =>
    cases todo with
    | nil => exact hgo _
    | cons d todo =>
      dsimp only
      split
      · next w hw =>
        exact hp d s.reconcileLedgerLiveness _ (fun w hl hdb _ => liveness_moves h hl hdb) w hw
      · exact hgo _
  | terminating todo =>
    cases todo with
    | nil => exact hgo _
    | cons d todo =>
      dsimp only
      split
      · next w hw =>
        refine hp d s.terminateDisabledWorkers _ (fun w hl hdb _ => ?_) w hw
        rw [terminateDisabled_same h hl hdb]
        exact Moves.refl db s
      · exact hgo _
  | converging todo =>
    cases todo with
    | nil => exact hgo _
    | cons d todo =>
      dsimp only
      split
      · next w hw =>
        refine hp d (s.reconcileRestartConvergence registers) _ (fun w hl hdb _ => ?_) w hw
        obtain ⟨g, hg⟩ := h.read (by simp [hl])
        exact (converges h hl hdb hg registers).moves hl hg
      · exact hgo _
  | asking todo reserved =>
    cases todo with
    | nil => exact Moves.of_same rfl rfl fun _ h => h
    | cons d todo => exact (ask_moves db s d).goTo _
  | releasing todo =>
    cases todo with
    | nil => exact hgo _
    | cons d todo => exact (release_moves db s d).goTo _
  | spawning todo =>
    cases todo with
    | nil => exact hgo _
    | cons d todo =>
      refine Moves.goTo ?_ _
      by_cases hd : d = db
      · subst hd
        cases hrow : findDatabaseRow s.launcher.rows d with
        | none =>
          simp only [spawnDiff, hrow]
          exact Moves.refl d s
        | some row =>
          have hg : generation s.launcher.rows d = some row.restartGeneration := by
            simp [generation, hrow]
          obtain hl | ⟨w, hl, hdb⟩ := h.ledger
          · exact (spawns h hl hg registers).moves hl hg
          · simp only [spawnDiff, hrow, findLedgerEntry_of hl hdb, isSome_some, if_true]
            exact Moves.refl d s
      · simp only [spawnDiff, (h.other hd).2]
        exact Moves.refl db s

theorem aside_moves (ha : Aside s s') : Moves db s s' := by
  refine .stays (by rw [ha.launcher]) ha.procs fun t h i => ?_
  obtain hs | hn := ha.backoff i
  · rw [hs]
    exact h i
  · rw [hn]
    exact Nat.zero_le t

/-! ## What is read -/

/-- How the rows and the clocks go on. -/
structure Reads (db : Nat) (s s' : System) : Prop where
  table : ∀ row ∈ s'.table, row.dbOid = db ∧ row.enabled = true
  rises : ∀ g ∈ generation s.table db, ∃ g' ∈ generation s'.table db, g ≤ g'
  now : s.now ≤ s'.now
  rows : s'.launcher.rows = s.launcher.rows ∧ s'.launcher.now = s.launcher.now ∨
    s'.launcher.rows = s.table ∧ s'.launcher.now = s.now ∧ s'.launcher.ledger = s.launcher.ledger

theorem sameReads_reads (hs : SameReads s s') (h : Inv db s) : Reads db s s' where
  table := by
    rw [hs.table]
    exact h.table
  rises := by
    rw [hs.table]
    exact fun g hg => ⟨g, hg, Nat.le_refl g⟩
  now := Nat.le_of_eq hs.now.symm
  rows := .inl ⟨hs.rows, hs.read⟩

theorem generation_setRow (s : System) (row : Row) :
    generation (s.setRow row).table row.dbOid = some row.restartGeneration := by
  simp [generation, findDatabaseRow, setRow]

theorem step_reads {e : Event} (h : Inv db s) (hs : Serving db s e) : Reads db s (s.step e) := by
  cases e with
  | tick us =>
    exact ⟨h.table, fun g hg => ⟨g, hg, Nat.le_refl g⟩, Nat.le_add_right _ _, .inl ⟨rfl, rfl⟩⟩
  | enroll d => exact sameReads_reads (enroll_rows s d).toSameReads h
  | abortEnroll d =>
    refine sameReads_reads ?_ h
    have hr := release_rows s d
    simp only [step, abortEnroll]
    split
    · exact ⟨hr.rows, hr.read, hr.table, hr.now⟩
    · exact ⟨rfl, rfl, rfl, rfl⟩
  | setRow row =>
    obtain ⟨rfl, hen, hri⟩ := hs
    refine ⟨?_, ?_, Nat.le_refl _, .inl ⟨rfl, rfl⟩⟩
    · intro row' hrow'
      obtain rfl | hrow' := mem_cons.mp hrow'
      · exact ⟨rfl, hen⟩
      · exact h.table row' (mem_filter.mp hrow').1
    · intro g hg
      exact ⟨row.restartGeneration, generation_setRow s row, hri g hg⟩
  | deleteRow d =>
    have hk : s.table.filter (fun row => row.dbOid ≠ d) = s.table := by
      apply filter_eq_self.mpr
      intro row hrow
      simpa [(h.table row hrow).1] using Ne.symm hs
    refine sameReads_reads ⟨rfl, rfl, ?_, rfl⟩ h
    exact hk
  | wake =>
    simp only [step, wake]
    split
    · exact ⟨h.table, fun g hg => ⟨g, hg, Nat.le_refl g⟩, Nat.le_refl _, .inr ⟨rfl, rfl, rfl⟩⟩
    · exact sameReads_reads ⟨rfl, rfl, rfl, rfl⟩ h
  | launch registers => exact sameReads_reads (launch_rows s registers) h
  | restartLauncher => exact hs.elim
  | worker pid cancelled =>
    refine sameReads_reads ?_ h
    simp only [step]
    split
    · exact (workerStep_rows s _ cancelled).toSameReads
    · exact ⟨rfl, rfl, rfl, rfl⟩
  | beat pid =>
    refine sameReads_reads ?_ h
    simp only [step, beat]
    split
    · split <;> exact ⟨rfl, rfl, rfl, rfl⟩
    · exact ⟨rfl, rfl, rfl, rfl⟩
  | exit pid => exact sameReads_reads ⟨rfl, rfl, rfl, rfl⟩ h

theorem step_moves {e : Event} (h : Inv db s) (hs : Serving db s e) : Moves db s (s.step e) := by
  by_cases hw : e = .wake
  · subst hw
    simp only [step, wake]
    split
    · exact Moves.of_same rfl rfl fun _ h => h
    · exact Moves.refl db s
  · by_cases hl : ∃ registers, e = .launch registers
    · obtain ⟨registers, rfl⟩ := hl
      exact launch_moves h registers
    have hr : e ≠ .restartLauncher := by
      rintro rfl
      exact hs
    exact aside_moves (step_aside s hw hr fun registers heq =>
      hl ⟨registers, heq⟩)

/-! ## The invariant is kept -/

section

variable (hm : Moves db s s') (h : Inv db s)
include hm h

theorem Moves.owned :
    ∀ p ∈ s'.procs, ∃ w ∈ s'.launcher.ledger,
      p.pid = w.handle ∧ p.sigterm = w.restart.restarting := by
  have hnew : ∀ {w' g}, s'.launcher.ledger = [w'] → NewEntry db s w' g → Registered db s s' →
      ∀ p ∈ s'.procs, ∃ w ∈ s'.launcher.ledger,
        p.pid = w.handle ∧ p.sigterm = w.restart.restarting := by
    intro w' g hl hen hr p hp
    rw [hr.procs, mem_singleton] at hp
    subst hp
    exact ⟨w', by simp [hl], hen.handle.symm, hen.restarting.symm⟩
  cases hm with
  | stays ledger procs _ =>
    intro p hp
    obtain ⟨q, hq, hqp⟩ := procs p hp
    obtain ⟨w, hw, hh, hre⟩ := h.owned q hq
    rw [ledger]
    exact ⟨w, hw, hqp.pid.symm.trans hh, hqp.sigterm.symm.trans hre⟩
  | @marks w w' ledger marked =>
    intro p hp
    rw [marked.procs] at hp
    obtain ⟨hpid, hsig⟩ := h.pid ledger hp
    refine ⟨w', by simp [marked.ledger], hpid.trans marked.alike.handle.symm, ?_⟩
    exact hsig.trans marked.alike.restarting.symm
  | drops _ _ _ _ procs' _ =>
    rw [procs']
    exact fun p hp => by cases hp
  | @terminates w w' g ledger _ _ _ terminated =>
    intro q hq
    rw [terminated.procs] at hq
    obtain ⟨p, hp, rfl⟩ := mem_map.mp hq
    obtain ⟨hpid, -⟩ := h.pid ledger hp
    rw [if_pos hpid]
    refine ⟨w', by simp [terminated.ledger], hpid.trans terminated.handle.symm, ?_⟩
    rw [terminated.restart]
  | respawns _ _ ledger' entry registered | spawns _ _ ledger' entry registered =>
    exact hnew ledger' entry registered

theorem Moves.serviced :
    ∀ w ∈ s'.launcher.ledger, ∃ g, generation s.launcher.rows db = some g ∧
      w.restart.servicedGeneration ≤ g ∧
        (w.restart.restarting = true → w.restart.targetGeneration ≤ g) := by
  have hold : ∀ w ∈ s.launcher.ledger, ∃ g, generation s.launcher.rows db = some g ∧
      w.restart.servicedGeneration ≤ g ∧
        (w.restart.restarting = true → w.restart.targetGeneration ≤ g) := by
    intro w hw
    obtain ⟨g, hg⟩ := h.read (ne_nil_of_mem hw)
    exact ⟨g, hg, h.serviced w hw g hg⟩
  cases hm with
  | stays ledger _ _ =>
    rw [ledger]
    exact hold
  | @marks w w' ledger marked =>
    obtain ⟨g, hg, hle, ht⟩ := hold w (by simp [ledger])
    have ha := marked.alike
    rw [marked.ledger]
    intro v hv
    rw [mem_singleton.mp hv, ha.serviced, ha.restarting, ha.target]
    exact ⟨g, hg, hle, ht⟩
  | drops _ _ _ ledger' _ _ =>
    rw [ledger']
    exact fun w hw => by cases hw
  | @terminates w w' g ledger _ read _ terminated =>
    obtain ⟨g', hg', hle, -⟩ := hold w (by simp [ledger])
    obtain rfl : g' = g := some.inj (hg'.symm.trans read)
    rw [terminated.ledger]
    intro v hv
    rw [mem_singleton.mp hv, terminated.restart]
    exact ⟨g', read, hle, fun _ => Nat.le_refl g'⟩
  | @respawns w w' ledger restarting ledger' entry _ =>
    obtain ⟨g, hg, -, ht⟩ := hold w (by simp [ledger])
    rw [ledger']
    intro v hv
    rw [mem_singleton.mp hv, entry.serviced, entry.restarting]
    exact ⟨g, hg, ht restarting, by simp⟩
  | @spawns w' g _ read ledger' entry _ =>
    rw [ledger']
    intro v hv
    rw [mem_singleton.mp hv, entry.serviced, entry.restarting]
    exact ⟨g, read, Nat.le_refl g, by simp⟩

theorem Moves.ledger : s'.launcher.ledger.length ≤ 1 ∧ ∀ w ∈ s'.launcher.ledger, w.dbOid = db := by
  have hone : ∀ {w'}, s'.launcher.ledger = [w'] → w'.dbOid = db →
      s'.launcher.ledger.length ≤ 1 ∧ ∀ w ∈ s'.launcher.ledger, w.dbOid = db := by
    intro w' hledger hdb
    rw [hledger]
    simpa using hdb
  cases hm with
  | stays ledger _ _ =>
    rw [ledger]
    exact ⟨h.short, h.entries⟩
  | marks ledger marked =>
    exact hone marked.ledger (marked.alike.dbOid.trans (h.entries _ (by simp [ledger])))
  | drops _ _ _ ledger' _ _ => simp [ledger']
  | terminates ledger _ _ _ terminated =>
    exact hone terminated.ledger (terminated.dbOid.trans (h.entries _ (by simp [ledger])))
  | respawns _ _ ledger' entry _ => exact hone ledger' entry.dbOid
  | spawns _ _ ledger' entry _ => exact hone ledger' entry.dbOid

end

theorem Moves.stamped (hm : Moves db s s') (ht : s.launcher.now ≤ t) (h : Stamped t s) :
    Stamped t s' := by
  cases hm with
  | stays _ _ stamps => exact stamps t h
  | marks _ marked => exact marked.stamps t h
  | drops _ _ _ _ _ stamps => exact stamps t h
  | terminates _ _ _ _ terminated => exact terminated.stamps t h
  | respawns _ _ _ _ registered => exact registered.stamps t ht h
  | spawns _ _ _ _ registered => exact registered.stamps t ht h

theorem Inv.moved (h : Inv db s) (hm : Moves db s s') (hre : Reads db s s') : Inv db s' := by
  obtain ⟨hsh, hen⟩ := hm.ledger h
  -- what is read now is no older than what had been read
  have hn : ∀ g, generation s.launcher.rows db = some g →
      ∃ g', generation s'.launcher.rows db = some g' ∧ g ≤ g' := by
    intro g hg
    obtain ⟨hro, -⟩ | ⟨hro, -, -⟩ := hre.rows
    · rw [hro]
      exact ⟨g, hg, Nat.le_refl g⟩
    · rw [hro]
      exact h.ordered g hg
  have hread : s.launcher.now ≤ s'.launcher.now ∧ s'.launcher.now ≤ s'.now := by
    have hc := h.clock
    have hnow := hre.now
    obtain ⟨-, heq⟩ | ⟨-, heq, -⟩ := hre.rows <;> omega
  refine ⟨hsh, hen, hm.owned h, hre.table, ?_, ?_, ?_, ?_, ?_, hread.2⟩
  · obtain ⟨hro, -⟩ | ⟨hro, -, -⟩ := hre.rows
    · rw [hro]
      exact h.rows
    · rw [hro]
      exact h.table
  · obtain ⟨hro, -⟩ | ⟨hro, -, -⟩ := hre.rows
    · rw [hro]
      intro g hg
      obtain ⟨g', hg', hle⟩ := h.ordered g hg
      obtain ⟨g'', hg'', hle'⟩ := hre.rises g' hg'
      exact ⟨g'', hg'', Nat.le_trans hle hle'⟩
    · rw [hro]
      exact hre.rises
  · intro hne
    obtain ⟨w, hw⟩ := exists_mem_of_ne_nil _ hne
    obtain ⟨g, hg, -⟩ := hm.serviced h w hw
    obtain ⟨g', hg', -⟩ := hn g hg
    exact ⟨g', hg'⟩
  · intro w hw g' hg'
    obtain ⟨g, hg, hle, ht⟩ := hm.serviced h w hw
    obtain ⟨g'', hg'', hnew⟩ := hn g hg
    obtain rfl : g'' = g' := some.inj (hg''.symm.trans hg')
    exact ⟨Nat.le_trans hle hnew, fun hr => Nat.le_trans (ht hr) hnew⟩
  · have hs := hm.stamped (Nat.le_refl _) h.stamped
    exact fun i => Nat.le_trans (hs i) hread.1

theorem inv_step (s : System) (e : Event) (h : Inv db s) (hs : Serving db s e) :
    Inv db (s.step e) :=
  h.moved (step_moves h hs) (step_reads h hs)

end svs_vamana.restart_moves
