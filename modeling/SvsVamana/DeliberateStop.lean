-- Deliberate stops: the launcher judges the stop of a worker by the rows of the cycle that sees it,
-- not of the one that has asked for it.
import SvsVamana.ServingWorker

namespace svs_vamana.deliberate_stop

open launcher transition_runs serving_worker System List

/-! ## What the launcher has asked for -/

/-- The system with a history: the workers the launcher has signalled, and the databases whose last
worker was one of them and has no successor yet. -/
structure Watched where
  sys : System
  signalled : List Nat
  stopped : List Nat

def signalledPids (s : System) : List Nat := (s.procs.filter fun p => p.sigterm).map fun p => p.pid

def watch (x : Watched) (e : Event) : Watched :=
  let sys := x.sys.step e
  { sys
    signalled := x.signalled ++ signalledPids sys
    stopped :=
      (x.stopped ++
        (x.sys.launcher.ledger.filter fun w => w.handle ∈ x.signalled).map fun w => w.dbOid).filter
          fun db => (sys.findLedgerEntry db).isNone }

/-- A stop that the launcher has asked for adds no failure when a cycle sees it, and the database's
next spawn does not wait for a backoff. -/
def NotCharged (x : Watched) : Event → Prop
  | .launch registers =>
    (∀ db todo w i, x.sys.launcher.phase = .liveness (db :: todo) →
      x.sys.findLedgerEntry db = some w → x.sys.handleStatus w.handle = .stopped →
      w.handle ∈ x.signalled → x.sys.findSlot (some db) = some i →
      ((x.sys.launch registers).blocks i).backoff.consecutiveFailures ≤
        (x.sys.blocks i).backoff.consecutiveFailures) ∧
    (∀ db todo i, x.sys.launcher.phase = .spawning (db :: todo) → db ∈ x.stopped →
      x.sys.findSlot (some db) = some i →
      backoffIsOver x.sys.settings.restartBackoffMs (x.sys.blocks i).backoff
        x.sys.launcher.now = true)
  | _ => True

/-- No cycle reads a row that enables a database again while a worker of it is signalled and not
seen stopped, unless that worker is being restarted. -/
def Patient (x : Watched) (e : Event) : Prop :=
  e ≠ .restartLauncher ∧
    (e = .wake → x.sys.launcher.phase = .idle → ∀ w ∈ x.sys.launcher.ledger,
      w.handle ∈ x.signalled → w.restart.restarting = false →
        isDatabaseEnabled x.sys.table w.dbOid = false)

deriving instance Decidable for Patient

def start (settings : Settings) (now : Nat) : Watched := ⟨init settings now, [], []⟩

/-! ## Backoffs -/

/-- Free blocks, and the blocks of the databases in `stopped`, carry no backoff. -/
structure Clear (s : System) (stopped : List Nat) : Prop where
  slots : ∀ i j db, i < s.settings.maxDatabases → j < s.settings.maxDatabases →
    (s.blocks i).dbOid = some db → (s.blocks j).dbOid = some db → i = j
  free : ∀ i, (s.blocks i).dbOid = none → (s.blocks i).backoff = ⟨0, 0⟩
  stopped : ∀ db ∈ stopped, ∀ i, i < s.settings.maxDatabases → (s.blocks i).dbOid = some db →
    (s.blocks i).backoff = ⟨0, 0⟩

variable {s : System} {st st' : List Nat}

theorem Clear.mono (h : Clear s st) (hsub : ∀ db ∈ st', db ∈ st) : Clear s st' :=
  ⟨h.slots, h.free, fun db hdb => h.stopped db (hsub db hdb)⟩

/-- Databases and backoffs are as they were. -/
structure Quiet (s s' : System) : Prop where
  settings : s'.settings = s.settings
  dbOid : ∀ i, (s'.blocks i).dbOid = (s.blocks i).dbOid
  backoff : ∀ i, (s'.blocks i).backoff = (s.blocks i).backoff

variable {s' : System}

theorem Quiet.of_eq (hs : s'.settings = s.settings) (hbl : s'.blocks = s.blocks) :
    Quiet s s' where
  settings := hs
  dbOid i := by rw [hbl]
  backoff i := by rw [hbl]

theorem Clear.quiet (h : Clear s st) (hq : Quiet s s') : Clear s' st := by
  refine ⟨?_, ?_, ?_⟩
  · rw [hq.settings]
    intro i j db hi hj
    rw [hq.dbOid, hq.dbOid]
    exact h.slots i j db hi hj
  · intro i
    rw [hq.dbOid, hq.backoff]
    exact h.free i
  · rw [hq.settings]
    intro db hdb i hi
    rw [hq.dbOid, hq.backoff]
    exact h.stopped db hdb i hi

variable {f : ControlBlock → ControlBlock}

theorem writeBlock_quiet (s : System) (i : Nat) (hf : ∀ b, (f b).backoff = b.backoff) :
    Quiet s (s.writeBlock i f) := by
  refine ⟨rfl, setBlock_dbOid rfl, fun j => ?_⟩
  by_cases hj : j = i
  · rw [hj, writeBlock, setBlock_self]
    exact hf _
  · rw [writeBlock, setBlock_of_ne hj]

theorem withEntry_quiet (s : System) (db : Nat) (hf : ∀ b, (f b).backoff = b.backoff) :
    Quiet s (s.withEntry db f) := by
  unfold withEntry
  split
  · exact writeBlock_quiet s _ hf
  · exact Quiet.of_eq rfl rfl

section

variable (h : Clear s st)
include h

/-- Another backoff for a database is no matter if it is none, or if the database is not one of
those in question. -/
theorem Clear.withEntry (db : Nat) (hst : ∀ d ∈ st', d = db ∨ d ∈ st)
    (hf : db ∈ st' → ∀ b, (f b).backoff = ⟨0, 0⟩) : Clear (s.withEntry db f) st' := by
  have hoid := withEntry_dbOid s db f
  have hs := (withEntry_same s db f).settings
  have ho : ∀ i, (s.blocks i).dbOid ≠ some db →
      ((s.withEntry db f).blocks i).backoff = (s.blocks i).backoff := by
    intro i hi
    unfold System.withEntry
    split
    · next j hj =>
      have hne : i ≠ j := fun heq => hi (heq ▸ (findSlot_some hj).2)
      rw [writeBlock, setBlock_of_ne hne]
    · rfl
  refine ⟨?_, ?_, ?_⟩
  · rw [hs]
    intro i j d hi hj
    rw [hoid, hoid]
    exact h.slots i j d hi hj
  · intro i
    rw [hoid]
    intro hn
    rw [ho i (by simp [hn])]
    exact h.free i hn
  · rw [hs]
    intro d hd i hi
    rw [hoid]
    intro hdb
    by_cases heq : d = db
    · subst heq
      cases hsl : s.findSlot (some d) with
      | none => exact absurd hdb (findSlot_none hsl hi)
      | some j =>
        obtain ⟨hj, hjdb⟩ := findSlot_some hsl
        obtain rfl := h.slots i j d hi hj hdb hjdb
        simp [System.withEntry, hsl, System.writeBlock, System.setBlock, hf hd]
    · rw [ho i (by simpa [hdb] using heq)]
      exact h.stopped d ((hst d hd).resolve_left heq) i hi hdb

theorem Clear.replaceBlock {i : Nat} {b : ControlBlock} (hb : b.backoff = ⟨0, 0⟩)
    (hnew : ∀ d, b.dbOid = some d → ∀ j, j < s.settings.maxDatabases → (s.blocks j).dbOid ≠ some d) :
    Clear (s.setBlock i b) st := by
  refine ⟨OneBlock.setBlock h.slots hnew, fun j hj => ?_, fun d hd j hj hdj => ?_⟩
  · by_cases hji : j = i
    · rw [hji, setBlock_self, hb]
    · rw [setBlock_of_ne hji] at hj ⊢
      exact h.free j hj
  · by_cases hji : j = i
    · rw [hji, setBlock_self, hb]
    · rw [setBlock_of_ne hji] at hdj ⊢
      exact h.stopped d hd j hj hdj

theorem Clear.reserve (db : Nat) : Clear (s.vamanaWorkerReserveSlot db).1 st := by
  unfold vamanaWorkerReserveSlot
  cases hsl : s.findSlot (some db) with
  | some i => exact h
  | none =>
    cases hf : s.findSlot none with
    | none => exact h
    | some i =>
      have hfree := h.free i (findSlot_some hf).2
      refine h.replaceBlock hfree ?_
      rintro d ⟨⟩ j hj
      exact findSlot_none hsl hj

/-- A database without a block has no backoff. -/
theorem Clear.cons {db : Nat}
    (hn : ∀ i, i < s.settings.maxDatabases → (s.blocks i).dbOid ≠ some db) :
    Clear s (db :: st) := by
  refine ⟨h.slots, h.free, fun d hd i hi hdb => ?_⟩
  obtain rfl | hd := mem_cons.mp hd
  · exact absurd hdb (hn i hi)
  · exact h.stopped d hd i hi hdb

theorem Clear.release (db : Nat) : Clear (s.vamanaWorkerReleaseSlot db) (db :: st) := by
  unfold vamanaWorkerReleaseSlot
  cases hsl : s.findSlot (some db) with
  | none => exact h.cons fun i hi => findSlot_none hsl hi
  | some i =>
    obtain ⟨hi, hdb⟩ := findSlot_some hsl
    have hr : Clear (s.setBlock i .init) st := h.replaceBlock rfl fun d hd => by cases hd
    apply hr.cons
    intro j hj hdj
    by_cases hji : j = i
    · rw [hji, setBlock_self] at hdj
      cases hdj
    · rw [setBlock_of_ne hji] at hdj
      exact hji (h.slots j i db hj hi hdj hdb)

end

theorem reserve_backoff (s : System) (db i : Nat) :
    ((s.vamanaWorkerReserveSlot db).1.blocks i).backoff = (s.blocks i).backoff := by
  unfold vamanaWorkerReserveSlot
  split
  · rfl
  split
  · next j _ =>
    by_cases hij : i = j
    · rw [hij, setBlock_self]
    · rw [setBlock_of_ne hij]
  · rfl

theorem release_backoff (s : System) (db i : Nat) :
    ((s.vamanaWorkerReleaseSlot db).blocks i).backoff = (s.blocks i).backoff ∨
      ((s.vamanaWorkerReleaseSlot db).blocks i).backoff = ⟨0, 0⟩ := by
  unfold vamanaWorkerReleaseSlot
  split
  · next j _ =>
    by_cases hij : i = j
    · rw [hij, setBlock_self]
      exact .inr rfl
    · rw [setBlock_of_ne hij]
      exact .inl rfl
  · exact .inl rfl

/-! ## The ledger -/

def Ledgered (s : System) (db : Nat) : Prop := ∃ w ∈ s.launcher.ledger, w.dbOid = db

def One (s : System) : Prop :=
  ∀ v ∈ s.launcher.ledger, ∀ w ∈ s.launcher.ledger, v.dbOid = w.dbOid → v = w

variable {db : Nat} {w : LauncherWorker}

theorem findLedgerEntry_some (h : s.findLedgerEntry db = some w) :
    w ∈ s.launcher.ledger ∧ w.dbOid = db :=
  ⟨mem_of_find?_eq_some h, by simpa using find?_some h⟩

theorem findLedgerEntry_isNone : (s.findLedgerEntry db).isNone = true ↔ ¬ Ledgered s db := by
  simp [findLedgerEntry, Ledgered]

/-- A step that drops no entry of the ledger, adds no second one for a database, and gives no
backoff to a database that it leaves without an entry. -/
structure Kept (s s' : System) : Prop where
  keeps : ∀ {db}, Ledgered s db → Ledgered s' db
  one : One s → One s'
  clear : ∀ {st}, Clear s st → (∀ d ∈ st, ¬ Ledgered s' d) → Clear s' st

variable {s'' : System}

theorem Kept.trans (h : Kept s s') (h' : Kept s' s'') : Kept s s'' where
  keeps hdb := h'.keeps (h.keeps hdb)
  one hone := h'.one (h.one hone)
  clear hc hst := h'.clear (h.clear hc fun d hd hdb => hst d hd (h'.keeps hdb)) hst

theorem Kept.of_clear (hl : s'.launcher.ledger = s.launcher.ledger)
    (hc : ∀ st, Clear s st → Clear s' st) : Kept s s' where
  keeps hdb := by
    rw [Ledgered, hl]
    exact hdb
  one hone := by
    rw [One, hl]
    exact hone
  clear h _ := hc _ h

theorem Kept.of_quiet (hl : s'.launcher.ledger = s.launcher.ledger) (hq : Quiet s s') :
    Kept s s' := Kept.of_clear hl fun _ h => h.quiet hq

section

variable (s : System)

theorem Kept.rfl' : Kept s s := Kept.of_quiet rfl (Quiet.of_eq rfl rfl)

theorem Kept.goTo (phase : LauncherPhase) : Kept s (s.goTo phase) :=
  Kept.of_quiet rfl (Quiet.of_eq rfl rfl)

theorem Kept.setOrphans (orphans : List (Nat × Nat)) : Kept s (s.setOrphans orphans) :=
  Kept.of_quiet rfl (Quiet.of_eq rfl rfl)

theorem Kept.terminate (handle : Nat) : Kept s (s.terminateBackgroundWorker handle) :=
  Kept.of_quiet rfl (Quiet.of_eq rfl rfl)

theorem release_same (db : Nat) : SameButBlocks s (s.vamanaWorkerReleaseSlot db) := by
  unfold vamanaWorkerReleaseSlot
  split <;> exact ⟨rfl, rfl, rfl, rfl, rfl⟩

theorem Kept.release (db : Nat) : Kept s (s.vamanaWorkerReleaseSlot db) :=
  Kept.of_clear (by rw [(release_same s db).launcher]) fun _ h =>
    (h.release db).mono fun _ hd => mem_cons_of_mem db hd

theorem Kept.setLedgerEntry (w : LauncherWorker) : Kept s (s.setLedgerEntry w) := by
  refine ⟨?_, ?_, fun h _ => h.quiet (Quiet.of_eq rfl rfl)⟩
  · rintro db ⟨v, hv, rfl⟩
    refine ⟨_, mem_map.mpr ⟨v, hv, rfl⟩, ?_⟩
    split
    · next heq => exact heq.symm
    · rfl
  · intro hone v' hv' u' hu' heq
    obtain ⟨v, hv, rfl⟩ := mem_map.mp hv'
    obtain ⟨u, hu, rfl⟩ := mem_map.mp hu'
    by_cases hvw : v.dbOid = w.dbOid <;> by_cases huw : u.dbOid = w.dbOid
    · rw [if_pos hvw, if_pos huw]
    · rw [if_pos hvw, if_neg huw] at heq
      exact absurd heq.symm huw
    · rw [if_neg hvw, if_pos huw] at heq
      exact absurd heq hvw
    · rw [if_neg hvw, if_neg huw] at heq ⊢
      exact hone v hv u hu heq

/-! ## The passes that drop nothing -/

end

theorem ledgered_of_launcher (h : s'.launcher = s.launcher) : Ledgered s' db ↔ Ledgered s db := by
  rw [Ledgered, Ledgered, h]

variable {registers : Bool}

theorem Clear.register (h : Clear s st) {slot : Option Nat}
    (hreg : s.registerDatabaseWorker registers db = (s', slot)) (hst : slot ≠ none → db ∉ st) :
    Clear s' st := by
  obtain ⟨-, rfl⟩ | ⟨hs, rfl⟩ := register_cases hreg
  · exact h.reserve db
  have hnot : db ∉ st := hst (by simp [hs])
  have ha : Clear ((s.vamanaWorkerReserveSlot db).1.addProc db) st :=
    (h.reserve db).quiet (Quiet.of_eq rfl rfl)
  exact ha.withEntry db (fun d hd => .inr hd) fun hmem => absurd hmem hnot

theorem Kept.spawnWorker {row : Row} (hn : ¬ Ledgered s row.dbOid) (registers : Bool) :
    Kept s (s.spawnWorker registers row) := by
  unfold System.spawnWorker
  cases hreg : s.registerDatabaseWorker registers row.dbOid with
  | mk s' slot =>
    have hl := register_launcher hreg
    cases slot with
    | none =>
      refine Kept.of_clear (by rw [hl]) fun st h => ?_
      exact h.register hreg fun hs => absurd rfl hs
    | some handle =>
      refine Kept.trans ?_ (Kept.of_quiet (by rw [(withEntry_same _ _ _).launcher])
        (withEntry_quiet _ _ fun _ => rfl))
      rw [hl]
      refine ⟨?_, ?_, ?_⟩
      · rintro db ⟨w, hw, hdb⟩
        exact ⟨w, mem_append_left _ hw, hdb⟩
      · intro hone v hv w hw heq
        obtain hv | hv := mem_append.mp hv <;> obtain hw | hw := mem_append.mp hw
        · exact hone v hv w hw heq
        · rw [mem_singleton.mp hw] at heq
          exact absurd ⟨v, hv, heq⟩ hn
        · rw [mem_singleton.mp hv] at heq
          exact absurd ⟨w, hw, heq.symm⟩ hn
        · rw [mem_singleton.mp hv, mem_singleton.mp hw]
      · intro st h hst
        -- the database has an entry afterwards, so its stamp is no matter
        refine Clear.quiet (h.register hreg fun _ hmem => ?_) (Quiet.of_eq rfl rfl)
        exact hst _ hmem ⟨_, mem_append_right _ (mem_singleton.mpr rfl), rfl⟩

theorem Kept.respawnWorker {row : Row} (hw : Ledgered s row.dbOid) (registers : Bool) :
    Kept s (s.respawnWorker registers w row) := by
  unfold System.respawnWorker
  cases hreg : s.registerDatabaseWorker registers row.dbOid with
  | mk s' slot =>
    have hl := register_launcher hreg
    have hr : Kept s s' := by
      refine ⟨(ledgered_of_launcher hl).mpr, fun hone => ?_, fun h hst => ?_⟩
      · rw [One, hl]
        exact hone
      · refine h.register hreg fun _ hmem => ?_
        exact hst _ hmem ((ledgered_of_launcher hl).mpr hw)
    cases slot with
    | none => exact hr
    | some handle =>
      refine Kept.trans ?_ (Kept.of_quiet (by rw [(withEntry_same _ _ _).launcher])
        (withEntry_quiet _ _ fun _ => rfl))
      exact hr.trans (Kept.setLedgerEntry s' _)

theorem Kept.converge (hw : w ∈ s.launcher.ledger) (registers : Bool) :
    Kept s (s.reconcileRestartConvergence registers w) := by
  unfold reconcileRestartConvergence
  cases hrow : findDatabaseRow s.launcher.rows w.dbOid with
  | none => exact Kept.rfl' s
  | some row =>
    dsimp only
    split
    · exact Kept.rfl' s
    cases vamanaRestartStateAdvance s.settings.stopTimeoutMs w.restart row.restartGeneration
      (s.handleStatus w.handle) s.launcher.now with
    | mk restart action =>
      have hset := Kept.setLedgerEntry s { w with restart := restart }
      cases action with
      | noop => exact hset
      | wait => exact hset
      | waitTimeout => exact hset
      | terminate => exact hset.trans (Kept.terminate _ w.handle)
      | respawn =>
        refine hset.trans (Kept.respawnWorker (hset.keeps ?_) registers)
        exact ⟨w, hw, (findDatabaseRow_dbOid hrow).symm⟩

section

variable (s : System)

theorem Kept.terminateDisabled (w : LauncherWorker) : Kept s (s.terminateDisabledWorkers w) := by
  unfold terminateDisabledWorkers
  split
  · exact Kept.rfl' s
  · split
    · exact Kept.terminate s w.handle
    · exact Kept.rfl' s

theorem Kept.ask (db : Nat) : Kept s (s.reconcileUnledgeredWorkers db) := by
  unfold reconcileUnledgeredWorkers
  split
  · exact Kept.rfl' s
  split
  · exact Kept.rfl' s
  refine Kept.of_quiet (by rw [(withEntry_same _ _ _).launcher]) (withEntry_quiet _ _ fun b => ?_)
  split
  · split <;> rfl
  · rfl

theorem Kept.releaseOrphaned (db : Nat) : Kept s (s.releaseOrphanedReservedSlots db) := by
  unfold releaseOrphanedReservedSlots
  split
  · exact Kept.rfl' s
  split
  · split
    · exact Kept.setOrphans s _
    · exact (Kept.release s db).trans (Kept.setOrphans _ _)
  · exact Kept.setOrphans s _

theorem Kept.spawnDiff (registers : Bool) (db : Nat) : Kept s (s.spawnDiff registers db) := by
  unfold System.spawnDiff
  cases hrow : findDatabaseRow s.launcher.rows db with
  | none => exact Kept.rfl' s
  | some row =>
    dsimp only
    split
    · exact Kept.rfl' s
    next hn =>
    have hl : ¬ Ledgered s row.dbOid := by
      rw [findDatabaseRow_dbOid hrow, ← findLedgerEntry_isNone]
      simpa using hn
    split
    · exact Kept.rfl' s
    split <;> split
    · exact Kept.spawnWorker hl registers
    · exact Kept.rfl' s
    · exact Kept.spawnWorker hl registers
    · exact Kept.rfl' s

/-- Only the liveness pass drops an entry, and only that pass is left in the liveness pass. -/
theorem launch_kept (registers : Bool)
    (hph : ∀ db todo, s.launcher.phase ≠ .liveness (db :: todo)) :
    Kept s (s.launch registers) ∧ ∀ todo, (s.launch registers).launcher.phase ≠ .liveness todo := by
  unfold launch
  cases hp : s.launcher.phase with
  | idle => exact ⟨Kept.rfl' s, fun todo => by simp [hp]⟩
  | liveness todo =>
    cases todo with
    | nil => exact ⟨Kept.goTo s _, by simp [goTo]⟩
    | cons db todo => exact absurd hp (hph db todo)
  | terminating todo =>
    cases todo with
    | nil => exact ⟨Kept.goTo s _, by simp [goTo]⟩
    | cons db todo =>
      dsimp only
      split
      · exact ⟨(Kept.terminateDisabled s _).trans (Kept.goTo _ _), by simp [goTo]⟩
      · exact ⟨Kept.goTo s _, by simp [goTo]⟩
  | converging todo =>
    cases todo with
    | nil => exact ⟨Kept.goTo s _, by simp [goTo]⟩
    | cons db todo =>
      dsimp only
      split
      · next w hw =>
        refine ⟨(Kept.converge ?_ registers).trans (Kept.goTo _ _), by simp [goTo]⟩
        exact (findLedgerEntry_some hw).1
      · exact ⟨Kept.goTo s _, by simp [goTo]⟩
  | asking todo reserved =>
    cases todo with
    | nil => exact ⟨(Kept.setOrphans s _).trans (Kept.goTo _ _), by simp [goTo]⟩
    | cons db todo => exact ⟨(Kept.ask s db).trans (Kept.goTo _ _), by simp [goTo]⟩
  | releasing todo =>
    cases todo with
    | nil => exact ⟨Kept.goTo s _, by simp [goTo]⟩
    | cons db todo =>
      exact ⟨(Kept.releaseOrphaned s db).trans (Kept.goTo _ _), by simp [goTo]⟩
  | spawning todo =>
    cases todo with
    | nil => exact ⟨Kept.goTo s _, by simp [goTo]⟩
    | cons db todo =>
      exact ⟨(Kept.spawnDiff s registers db).trans (Kept.goTo _ _), by simp [goTo]⟩

/-! ## The liveness pass -/

end

theorem classify_crash {rows : List Row} (h : classifyWorkerStop rows w = .crash) :
    isDatabaseEnabled rows w.dbOid = true ∧ w.restart.restarting = false := by
  unfold classifyWorkerStop at h
  unfold isDatabaseEnabled
  cases hrow : findDatabaseRow rows w.dbOid with
  | none => simp [hrow] at h
  | some row =>
    split at h
    · cases h
    · split at h
      · cases h
      · simp_all

/-- What the pass leaves of the ledger: every entry was there with its handle and its restart, and
no database but the one in question loses its own. -/
structure Thinned (s s' : System) (db : Nat) : Prop where
  entries : ∀ v ∈ s'.launcher.ledger, ∃ u ∈ s.launcher.ledger,
    u.dbOid = v.dbOid ∧ u.handle = v.handle ∧ u.restart = v.restart
  others : ∀ {d}, d ≠ db → Ledgered s d → Ledgered s' d
  one : One s → One s'
  rows : s'.launcher.rows = s.launcher.rows
  procs : s'.procs = s.procs

theorem Thinned.of_same (h : SameButBlocks s s') (db : Nat) : Thinned s s' db := by
  have hl := h.launcher
  refine ⟨?_, ?_, ?_, by rw [hl], h.procs⟩
  · rw [hl]
    exact fun v hv => ⟨v, hv, rfl, rfl, rfl⟩
  · exact fun _ => (ledgered_of_launcher hl).mpr
  · rw [One, One, hl]
    exact id

theorem Thinned.rfl' (s : System) (db : Nat) : Thinned s s db :=
  Thinned.of_same ⟨rfl, rfl, rfl, rfl, rfl⟩ db

theorem Thinned.trans (h : Thinned s s' db) (h' : Thinned s' s'' db) :
    Thinned s s'' db where
  entries v hv := by
    obtain ⟨u, hu, hdb, hh, hr⟩ := h'.entries v hv
    obtain ⟨t, ht, hdb', hh', hr'⟩ := h.entries u hu
    exact ⟨t, ht, hdb'.trans hdb, hh'.trans hh, hr'.trans hr⟩
  others hd hdb := h'.others hd (h.others hd hdb)
  one hone := h'.one (h.one hone)
  rows := h'.rows.trans h.rows
  procs := h'.procs.trans h.procs

theorem Thinned.drop (s : System) (db : Nat) : Thinned s (s.dropLedgerEntry db) db := by
  refine ⟨?_, ?_, ?_, rfl, rfl⟩
  · intro v hv
    exact ⟨v, (mem_filter.mp hv).1, rfl, rfl, rfl⟩
  · rintro d hd ⟨w, hw, rfl⟩
    exact ⟨w, mem_filter.mpr ⟨hw, by simpa using hd⟩, rfl⟩
  · intro hone v hv w hw
    exact hone v (mem_filter.mp hv).1 w (mem_filter.mp hw).1

theorem liveness_thinned (hw : w ∈ s.launcher.ledger) :
    Thinned s (s.reconcileLedgerLiveness w) w.dbOid := by
  unfold reconcileLedgerLiveness
  cases s.handleStatus w.handle with
  | notYetStarted => exact Thinned.rfl' s _
  | started =>
    dsimp only
    split
    · have hk := Kept.setLedgerEntry s { w with startedTime := s.launcher.now }
      refine ⟨?_, fun _ => hk.keeps, hk.one, rfl, rfl⟩
      intro v hv
      obtain ⟨u, hu, rfl⟩ := mem_map.mp hv
      split
      · exact ⟨w, hw, rfl, rfl, rfl⟩
      · exact ⟨u, hu, rfl, rfl, rfl⟩
    · exact Thinned.rfl' s _
  | stopped =>
    cases classifyWorkerStop s.launcher.rows w with
    | restartDrain => exact Thinned.of_same (withEntry_same _ _ _) _
    | disabled | crash => exact (Thinned.of_same (withEntry_same _ _ _) _).trans (Thinned.drop _ _)
    | removed => exact (Thinned.of_same (release_same _ _) _).trans (Thinned.drop _ _)

/-- The pass leaves a database without backoff that it leaves without an entry, unless it takes the
stop for a crash. -/
theorem Clear.liveness (h : Clear s st) (hw : w ∈ s.launcher.ledger)
    (hst : ∀ d ∈ st', d = w.dbOid ∨ d ∈ st)
    (hdr : w.dbOid ∈ st' → ¬ Ledgered (s.reconcileLedgerLiveness w) w.dbOid)
    (hcr : classifyWorkerStop s.launcher.rows w = .crash → w.dbOid ∉ st') :
    Clear (s.reconcileLedgerLiveness w) st' := by
  have hen : Ledgered s w.dbOid := ⟨w, hw, rfl⟩
  -- where the entry stays, its database is not one of those in question
  have hs : Ledgered (s.reconcileLedgerLiveness w) w.dbOid → Clear s st' := by
    intro hl
    refine h.mono fun d hd => (hst d hd).resolve_left ?_
    rintro rfl
    exact hdr hd hl
  unfold reconcileLedgerLiveness at hs ⊢
  cases hsta : s.handleStatus w.handle with
  | notYetStarted =>
    rw [hsta] at hs
    exact hs hen
  | started =>
    rw [hsta] at hs
    dsimp only at hs ⊢
    split
    · next hz =>
      rw [if_pos hz] at hs
      refine (hs ?_).quiet (Quiet.of_eq rfl rfl)
      exact (Kept.setLedgerEntry s { w with startedTime := s.launcher.now }).keeps hen
    · next hz =>
      rw [if_neg hz] at hs
      exact hs hen
  | stopped =>
    rw [hsta] at hs
    cases hr : classifyWorkerStop s.launcher.rows w with
    | restartDrain =>
      rw [hr] at hs
      refine (hs ?_).quiet (withEntry_quiet _ _ fun _ => rfl)
      exact (ledgered_of_launcher (withEntry_same _ _ _).launcher).mpr hen
    | disabled =>
      have hc := h.withEntry w.dbOid hst (fun _ (b : ControlBlock) =>
        (rfl : ({ b with backoff := ⟨0, 0⟩ } : ControlBlock).backoff = ⟨0, 0⟩))
      exact hc.quiet (Quiet.of_eq rfl rfl)
    | removed =>
      have hre : Clear (s.vamanaWorkerReleaseSlot w.dbOid) st' :=
        (h.release w.dbOid).mono fun d hd => mem_cons.mpr (hst d hd)
      exact hre.quiet (Quiet.of_eq rfl rfl)
    | crash =>
      refine Clear.quiet (h.withEntry w.dbOid hst fun hmem => ?_) (Quiet.of_eq rfl rfl)
      exact absurd hmem (hcr hr)

theorem liveness_failures (hc : classifyWorkerStop s.launcher.rows w ≠ .crash) (i : Nat) :
    ((s.reconcileLedgerLiveness w).blocks i).backoff.consecutiveFailures ≤
      (s.blocks i).backoff.consecutiveFailures := by
  unfold reconcileLedgerLiveness
  cases s.handleStatus w.handle with
  | notYetStarted => exact Nat.le_refl _
  | started =>
    dsimp only
    split <;> exact Nat.le_refl _
  | stopped =>
    cases hr : classifyWorkerStop s.launcher.rows w with
    | restartDrain =>
      have hq : Quiet s (s.withEntry w.dbOid fun b => { b with heartbeatTs := 0 }) :=
        withEntry_quiet s w.dbOid fun _ => rfl
      exact Nat.le_of_eq (congrArg Backoff.consecutiveFailures (hq.backoff i))
    | disabled =>
      simp only [dropLedgerEntry, setLedger, withEntry]
      split
      · next j _ =>
        by_cases hij : i = j
        · rw [hij, writeBlock, setBlock_self]
          exact Nat.zero_le _
        · apply Nat.le_of_eq
          rw [writeBlock, setBlock_of_ne hij]
      · exact Nat.le_refl _
    | removed =>
      simp only [dropLedgerEntry, setLedger]
      obtain hs | hn := release_backoff s w.dbOid i
      · exact Nat.le_of_eq (congrArg Backoff.consecutiveFailures hs)
      · rw [hn]
        exact Nat.zero_le _
    | crash => exact absurd hr hc

/-! ## What happens beside the launcher -/

/-- What a process was before a step that has neither registered nor signalled it. -/
structure Earlier (q p : Proc) : Prop where
  pid : q.pid = p.pid
  sigterm : q.sigterm = p.sigterm
  registered : p.stage = .registered → q.stage = .registered

theorem Earlier.refl (p : Proc) : Earlier p p := ⟨rfl, rfl, id⟩

/-- A step of another process: it registers and signals no worker, and gives no backoff. -/
structure Aside (s s' : System) : Prop where
  launcher : s'.launcher = s.launcher
  procs : ∀ p ∈ s'.procs, ∃ q ∈ s.procs, Earlier q p
  backoff : ∀ i, (s'.blocks i).backoff = (s.blocks i).backoff ∨ (s'.blocks i).backoff = ⟨0, 0⟩
  clear : ∀ {st}, Clear s st → Clear s' st

theorem Aside.of_quiet (hl : s'.launcher = s.launcher) (hpr : s'.procs = s.procs)
    (hq : Quiet s s') : Aside s s' where
  launcher := hl
  procs p hp := ⟨p, hpr ▸ hp, Earlier.refl p⟩
  backoff i := .inl (hq.backoff i)
  clear h := h.quiet hq

theorem Aside.rfl' (s : System) : Aside s s := Aside.of_quiet rfl rfl (Quiet.of_eq rfl rfl)

theorem Aside.trans (h : Aside s s') (h' : Aside s' s'') : Aside s s'' where
  launcher := h'.launcher.trans h.launcher
  procs p hp := by
    obtain ⟨q, hq, hqp⟩ := h'.procs p hp
    obtain ⟨r, hr, hrq⟩ := h.procs q hq
    refine ⟨r, hr, hrq.pid.trans hqp.pid, hrq.sigterm.trans hqp.sigterm, ?_⟩
    exact fun hp => hrq.registered (hqp.registered hp)
  backoff i := by
    obtain hs | hn := h'.backoff i
    · rw [hs]
      exact h.backoff i
    · exact .inr hn
  clear hc := h'.clear (h.clear hc)

theorem Aside.of_blocks (h : SameButBlocks s s')
    (hba : ∀ i, (s'.blocks i).backoff = (s.blocks i).backoff ∨ (s'.blocks i).backoff = ⟨0, 0⟩)
    (hc : ∀ {st}, Clear s st → Clear s' st) : Aside s s' where
  launcher := h.launcher
  procs p hp := ⟨p, h.procs ▸ hp, Earlier.refl p⟩
  backoff := hba
  clear := hc

variable (s : System)

theorem Aside.reserve (db : Nat) : Aside s (s.vamanaWorkerReserveSlot db).1 :=
  Aside.of_blocks (reserve_same s db) (fun i => .inl (reserve_backoff s db i)) fun h => h.reserve db

theorem Aside.release (db : Nat) : Aside s (s.vamanaWorkerReleaseSlot db) :=
  Aside.of_blocks (release_same s db) (release_backoff s db) fun h =>
    (h.release db).mono fun _ hd => mem_cons_of_mem db hd

theorem Aside.setStage (pid : Nat) {stage : Stage} (hs : stage ≠ .registered) :
    Aside s (s.setStage pid stage) := by
  refine ⟨rfl, ?_, fun _ => .inl rfl, fun h => h.quiet (Quiet.of_eq rfl rfl)⟩
  intro p hp
  obtain ⟨q, hq, rfl⟩ := mem_map.mp hp
  refine ⟨q, hq, ?_⟩
  split
  · exact ⟨rfl, rfl, fun heq => absurd heq hs⟩
  · exact Earlier.refl q

theorem Aside.exitProc (pid : Nat) : Aside s (s.exitProc pid) :=
  ⟨rfl, fun p hp => ⟨p, (mem_filter.mp hp).1, Earlier.refl p⟩, fun _ => .inl rfl,
    fun h => h.quiet (Quiet.of_eq rfl rfl)⟩

theorem Aside.writeBlock (i : Nat) (hf : ∀ b, (f b).backoff = b.backoff) :
    Aside s (s.writeBlock i f) :=
  Aside.of_quiet rfl rfl (writeBlock_quiet s i hf)

theorem Aside.workerStep (p : Proc) (cancelled : Bool) : Aside s (s.workerStep p cancelled) := by
  have hm : ∀ i {stage} {f : ControlBlock → ControlBlock}, stage ≠ .registered →
      (∀ b, (f b).backoff = b.backoff) → Aside s ((s.writeBlock i f).setStage p.pid stage) :=
    fun i _ f hs hf => (Aside.writeBlock s i hf).trans (Aside.setStage _ _ hs)
  unfold System.workerStep
  cases p.stage with
  | registered | claimed i =>
    dsimp only
    split
    · exact Aside.exitProc s p.pid
    · exact Aside.setStage s p.pid (by simp)
  | starting =>
    have hr := Aside.reserve s p.dbOid
    generalize s.vamanaWorkerReserveSlot p.dbOid = r at hr
    obtain ⟨t, found⟩ := r
    cases found with
    | none => exact hr.trans (Aside.exitProc t p.pid)
    | some i => exact hr.trans (Aside.setStage t p.pid (by simp))
  | checked i => exact hm i (by simp) fun _ => rfl
  | preparing i =>
    dsimp only
    split
    · exact hm i (by simp) fun _ => rfl
    · exact hm i (by simp) fun _ => rfl
  | serving i =>
    dsimp only
    split
    · exact hm i (by simp) fun _ => rfl
    · exact Aside.writeBlock s i fun _ => rfl
  | draining i =>
    refine Aside.trans ?_ (Aside.exitProc _ _)
    exact Aside.writeBlock s i fun _ => rfl

theorem Aside.enroll (db : Nat) : Aside s (s.enroll db) := by
  unfold System.enroll
  split
  · exact Aside.rfl' s
  have hr := Aside.reserve s db
  generalize s.vamanaWorkerReserveSlot db = r at hr
  obtain ⟨t, found⟩ := r
  cases found with
  | none => exact hr
  | some i =>
    exact hr.trans (Aside.of_quiet rfl rfl (Quiet.of_eq rfl rfl))

variable {e : Event}

theorem step_aside (hw : e ≠ .wake) (hr : e ≠ .restartLauncher)
    (hl : ∀ registers, e ≠ .launch registers) : Aside s (s.step e) := by
  cases e with
  | tick us | setRow row | deleteRow db => exact Aside.of_quiet rfl rfl (Quiet.of_eq rfl rfl)
  | enroll db => exact Aside.enroll s db
  | abortEnroll db =>
    simp only [step, abortEnroll]
    split
    · exact (Aside.release s db).trans (Aside.of_quiet rfl rfl (Quiet.of_eq rfl rfl))
    · exact Aside.rfl' s
  | wake => exact absurd rfl hw
  | launch registers => exact absurd rfl (hl registers)
  | restartLauncher => exact absurd rfl hr
  | worker pid cancelled =>
    simp only [step]
    split
    · exact Aside.workerStep s _ cancelled
    · exact Aside.rfl' s
  | beat pid =>
    simp only [step, beat]
    split
    · split
      · exact Aside.writeBlock s _ fun _ => rfl
      · exact Aside.rfl' s
    · exact Aside.rfl' s
  | exit pid => exact Aside.exitProc s pid

/-! ## The law -/

/-- The launcher takes no stop of a worker that it has signalled for a crash. -/
def Asked (s : System) (signalled : List Nat) : Prop :=
  ∀ w ∈ s.launcher.ledger, w.handle ∈ signalled → w.restart.restarting = false →
    isDatabaseEnabled s.launcher.rows w.dbOid = false

structure Inv (x : Watched) : Prop where
  clear : Clear x.sys x.stopped
  one : One x.sys
  gone : ∀ db ∈ x.stopped, ¬ Ledgered x.sys db
  known : ∀ p ∈ x.sys.procs, p.sigterm = true → p.pid ∈ x.signalled
  asked : ∀ todo, x.sys.launcher.phase = .liveness todo → Asked x.sys x.signalled

variable {x : Watched}

theorem mem_stopped :
    db ∈ (watch x e).stopped ↔ (db ∈ x.stopped ∨ ∃ w ∈ x.sys.launcher.ledger,
      w.handle ∈ x.signalled ∧ w.dbOid = db) ∧ ¬ Ledgered (x.sys.step e) db := by
  simp only [watch, mem_filter, mem_append, mem_map, decide_eq_true_eq,
    findLedgerEntry_isNone, and_assoc]

/-- The history after a step follows from the state after it. -/
theorem Inv.of_state (hc : Clear (x.sys.step e) (watch x e).stopped) (hone : One (x.sys.step e))
    (ha : ∀ todo, (x.sys.step e).launcher.phase = .liveness todo →
      Asked (x.sys.step e) (watch x e).signalled) : Inv (watch x e) where
  clear := hc
  one := hone
  gone db hdb := (mem_stopped.mp hdb).2
  known p hp hsig := by
    refine mem_append_right _ (mem_map.mpr ⟨p, ?_, rfl⟩)
    exact mem_filter.mpr ⟨hp, hsig⟩
  asked := ha

section

variable (h : Inv x)
include h

theorem Inv.of_kept (hk : Kept x.sys (x.sys.step e))
    (ha : ∀ todo, (x.sys.step e).launcher.phase = .liveness todo →
      Asked (x.sys.step e) (watch x e).signalled) : Inv (watch x e) := by
  refine Inv.of_state ?_ (hk.one h.one) ha
  have hc : Clear x.sys (watch x e).stopped := by
    refine h.clear.mono fun db hdb => ?_
    obtain ⟨hbe | ⟨w, hw, -, rfl⟩, hn⟩ := mem_stopped.mp hdb
    · exact hbe
    · exact absurd (hk.keeps ⟨w, hw, rfl⟩) hn
  exact hk.clear hc fun db hdb => (mem_stopped.mp hdb).2

theorem Inv.signalled (hpr : ∀ p ∈ (x.sys.step e).procs, ∃ q ∈ x.sys.procs, Earlier q p) {pid : Nat}
    (hpid : pid ∈ (watch x e).signalled) : pid ∈ x.signalled := by
  obtain hpid | hpid := mem_append.mp hpid
  · exact hpid
  obtain ⟨p, hp, rfl⟩ := mem_map.mp hpid
  obtain ⟨hp, hsig⟩ := mem_filter.mp hp
  obtain ⟨q, hq, hqp⟩ := hpr p hp
  rw [← hqp.pid]
  exact h.known q hq (hqp.sigterm.trans hsig)

theorem Inv.aside (ha : Aside x.sys (x.sys.step e)) : Inv (watch x e) := by
  have hl := ha.launcher
  refine h.of_kept (Kept.of_clear (by rw [hl]) fun st hst => ha.clear hst) ?_
  intro todo hp w
  rw [hl] at hp ⊢
  exact fun hw hsig => h.asked todo hp w hw (h.signalled ha.procs hsig)

theorem Inv.wake (hpa : Patient x .wake) : Inv (watch x .wake) := by
  by_cases hi : x.sys.launcher.phase = .idle
  · have hs : x.sys.step .wake = { x.sys with launcher := { x.sys.launcher with
        rows := x.sys.table
        now := x.sys.now
        phase := .liveness (x.sys.launcher.ledger.map (·.dbOid)) } } := if_pos hi
    have hpr : (x.sys.step .wake).procs = x.sys.procs := by rw [hs]
    have hk : Kept x.sys (x.sys.step .wake) := by
      rw [hs]
      exact Kept.of_quiet rfl (Quiet.of_eq rfl rfl)
    refine h.of_kept hk ?_
    intro todo _ w hw hsig
    have hold : w.handle ∈ x.signalled := by
      refine h.signalled (fun p hp => ?_) hsig
      exact ⟨p, hpr ▸ hp, Earlier.refl p⟩
    rw [hs] at hw ⊢
    exact hpa.2 rfl hi w hw hold
  · have hs : x.sys.step .wake = x.sys := if_neg hi
    refine h.aside ?_
    rw [hs]
    exact Aside.rfl' x.sys

variable {todo : List Nat}

/-- In the liveness pass, a signalled worker that has stopped is not taken for a crashed one. -/
theorem Inv.not_crash (hp : x.sys.launcher.phase = .liveness todo)
    (hw : w ∈ x.sys.launcher.ledger) (hsig : w.handle ∈ x.signalled) :
    classifyWorkerStop x.sys.launcher.rows w ≠ .crash := by
  intro hc
  obtain ⟨hen, hr⟩ := classify_crash hc
  rw [h.asked todo hp w hw hsig hr] at hen
  cases hen

theorem Inv.liveness (hph : x.sys.launcher.phase = .liveness (db :: todo))
    (hf : x.sys.findLedgerEntry db = some w) : Inv (watch x (.launch registers)) := by
  obtain ⟨hw, hdb⟩ := findLedgerEntry_some hf
  have hs : x.sys.step (.launch registers) =
      (x.sys.reconcileLedgerLiveness w).goTo (.liveness todo) := by
    simp only [step, launch, hph, hf]
  have ht := liveness_thinned hw
  refine Inv.of_state ?_ ?_ ?_
  · -- the only database that may join those without an entry is the one whose worker has stopped
    have hnew : ∀ d ∈ (watch x (.launch registers)).stopped, d = w.dbOid ∨ d ∈ x.stopped := by
      intro d hd
      obtain ⟨hold | ⟨v, hv, -, rfl⟩, hn⟩ := mem_stopped.mp hd
      · exact .inr hold
      · refine .inl (Classical.byContradiction fun hne => hn ?_)
        rw [hs]
        exact ht.others hne ⟨v, hv, rfl⟩
    have hc : Clear (x.sys.reconcileLedgerLiveness w) (watch x (.launch registers)).stopped := by
      refine h.clear.liveness hw hnew (fun hmem => ?_) fun hcr hmem => ?_
      · have hn := (mem_stopped.mp hmem).2
        rw [hs] at hn
        exact hn
      · obtain ⟨hold | ⟨v, hv, hsig, hvw⟩, -⟩ := mem_stopped.mp hmem
        · exact h.gone _ hold ⟨w, hw, rfl⟩
        · obtain rfl := h.one v hv w hw hvw
          exact h.not_crash hph hw hsig hcr
    rw [hs]
    exact hc.quiet (Quiet.of_eq rfl rfl)
  · rw [hs]
    exact ht.one h.one
  · intro _ _ v hv hsig hr
    have hold : v.handle ∈ x.signalled := by
      refine h.signalled (fun p hp => ⟨p, ?_, Earlier.refl p⟩) hsig
      rw [hs] at hp
      exact ht.procs ▸ hp
    rw [hs] at hv ⊢
    obtain ⟨u, hu, hudb, huh, hur⟩ := ht.entries v hv
    have hro : ((x.sys.reconcileLedgerLiveness w).goTo (.liveness todo)).launcher.rows =
        x.sys.launcher.rows := ht.rows
    rw [hro, ← hudb]
    exact h.asked _ hph u hu (huh ▸ hold) (hur ▸ hr)

theorem Inv.launch (registers : Bool) : Inv (watch x (.launch registers)) := by
  by_cases hph : ∃ db todo, x.sys.launcher.phase = .liveness (db :: todo)
  · obtain ⟨db, todo, hph⟩ := hph
    cases hf : x.sys.findLedgerEntry db with
    | some w => exact h.liveness hph hf
    | none =>
      have hs : x.sys.step (.launch registers) = x.sys.goTo (.liveness todo) := by
        simp only [System.step, System.launch, hph, hf]
      refine h.of_kept ?_ ?_
      · rw [hs]
        exact Kept.goTo x.sys _
      · intro _ _ w hw hsig
        have hold : w.handle ∈ x.signalled := by
          refine h.signalled (fun p hp => ⟨p, ?_, Earlier.refl p⟩) hsig
          rw [hs] at hp
          exact hp
        rw [hs] at hw ⊢
        exact h.asked _ hph w hw hold
  · obtain ⟨hk, hl⟩ := launch_kept x.sys registers fun db todo heq => hph ⟨db, todo, heq⟩
    exact h.of_kept hk fun todo heq => absurd heq (hl todo)

end

theorem inv_step (x : Watched) (e : Event) (h : Inv x) (hp : Patient x e) : Inv (watch x e) := by
  by_cases hw : e = .wake
  · subst hw
    exact h.wake hp
  by_cases hl : ∃ registers, e = .launch registers
  · obtain ⟨registers, rfl⟩ := hl
    exact h.launch registers
  · exact h.aside (step_aside x.sys hw hp.1 fun registers heq => hl ⟨registers, heq⟩)

theorem inv_start (settings : Settings) (now : Nat) : Inv (start settings now) where
  clear := ⟨fun i j db _ _ hi => (by cases hi), fun _ _ => rfl, fun _ h => (by cases h)⟩
  one := fun _ h => by cases h
  gone := fun _ h => by cases h
  known := fun _ h => by cases h
  asked := fun _ h => by cases h

theorem Inv.notCharged (h : Inv x) (e : Event) : NotCharged x e := by
  cases e with
  | launch registers =>
    refine ⟨?_, ?_⟩
    · intro db todo w i hp hf _ hsig _
      have hc := h.not_crash hp (findLedgerEntry_some hf).1 hsig
      have hst : x.sys.launch registers =
          (x.sys.reconcileLedgerLiveness w).goTo (.liveness todo) := by
        simp only [System.launch, hp, hf]
      rw [hst]
      exact liveness_failures hc i
    · intro db todo i _ hs hsl
      obtain ⟨hi, hdb⟩ := findSlot_some hsl
      rw [h.clear.stopped db hs i hi hdb]
      simp [backoffIsOver]
  | _ => trivial

/-- As long as no cycle enables a database again before its signalled worker is seen stopped, no
stop that the launcher has asked for counts as a failure. -/
theorem deliberate_stops_are_not_charged (settings : Settings) (now : Nat) {es : List Event}
    (h : EachStep watch Patient (start settings now) es) :
    EachStep watch NotCharged (start settings now) es :=
  eachStep_invariant Inv inv_step (fun _ e hinv _ => hinv.notCharged e) (inv_start settings now) h

def cycle : List Event := .wake :: replicate 14 (.launch true)

/-- Database 5 is served, disabled, and its worker signalled by a cycle. -/
def disabled : List Event :=
  spawned ++ started 1 ++ [.launch true, .setRow ⟨5, 0, false⟩] ++ cycle

def drains : List Event := [.worker 1 true, .worker 1 true]

theorem a_database_that_is_enabled_again_spawns_at_once :
    ((run watch (start oneDatabase 1) (disabled ++ drains ++ cycle ++ [.setRow ⟨5, 0, true⟩] ++
        cycle)).sys.procs.map fun p => p.pid) = [2] ∧
      EachStep watch NotCharged (start oneDatabase 1)
        (disabled ++ drains ++ cycle ++ [.setRow ⟨5, 0, true⟩] ++ cycle) :=
  ⟨by decide +kernel, deliberate_stops_are_not_charged oneDatabase 1 (by decide +kernel)⟩

/-- Enabled again before the worker's stop is seen: the launcher looks at the stopped worker with
the row that it has now. -/
def enabledTooSoon : List Event := disabled ++ [.setRow ⟨5, 0, true⟩] ++ drains ++ [.wake]

/-- The worker that the launcher has told to stop counts as crashed, and the database that is enabled
again gets no worker in that cycle. -/
theorem a_disabled_worker_counts_as_crashed :
    ¬ NotCharged (run watch (start oneDatabase 1) enabledTooSoon) (.launch true) ∧
    1 ∈ (run watch (start oneDatabase 1) enabledTooSoon).signalled ∧
    ((run watch (start oneDatabase 1) enabledTooSoon).sys.blocks 0).backoff = ⟨1, 0⟩ ∧
    ((run watch (start oneDatabase 1) (enabledTooSoon ++ [.launch true])).sys.blocks 0).backoff =
      ⟨1, 1⟩ ∧
    (run watch (start oneDatabase 1)
      (enabledTooSoon ++ replicate 14 (.launch true))).sys.procs = [] := by
  refine ⟨fun h => ?_, by decide +kernel, by decide +kernel, by decide +kernel, by decide +kernel⟩
  have hf := h.1 5 [] ⟨5, 1, 1, ⟨false, 0, 0, 0⟩⟩ 0 (by decide +kernel) (by decide +kernel)
    (by decide +kernel) (by decide +kernel) (by decide +kernel)
  revert hf
  decide +kernel

end svs_vamana.deliberate_stop
