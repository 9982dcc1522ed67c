-- The law of the serving worker: a control block has at most one worker process, and stays with its
-- database. The launcher knows a worker by its handle, or by the pid and the heartbeat in the
-- block.
import SvsVamana.Launcher

namespace svs_vamana.serving_worker

open launcher transition_runs System List

/-! ## What a state promises -/

/-- No process of the database is registered or running. -/
def NoWorker (s : System) (db : Nat) : Prop := ∀ p ∈ s.procs, p.dbOid ≠ db

structure Ok (s : System) : Prop where
  slots : ∀ i j db, i < s.settings.maxDatabases → j < s.settings.maxDatabases →
    (s.blocks i).dbOid = some db → (s.blocks j).dbOid = some db → i = j
  pids : ∀ p ∈ s.procs, 0 < p.pid ∧ p.pid < s.nextPid
  next : 0 < s.nextPid
  distinct : ∀ p ∈ s.procs, ∀ q ∈ s.procs, p.pid = q.pid → p = q
  one : ∀ p ∈ s.procs, ∀ q ∈ s.procs, p.dbOid = q.dbOid → p = q
  held : ∀ p ∈ s.procs, ∀ i, p.stage.block = some i →
    i < s.settings.maxDatabases ∧ (s.blocks i).dbOid = some p.dbOid
  shown : ∀ p ∈ s.procs, ∀ i, p.stage = .serving i → (s.blocks i).workerPid = p.pid
  ledger : ∀ w ∈ s.launcher.ledger, ∀ p ∈ s.procs, p.dbOid = w.dbOid → p.pid = w.handle

theorem ok_init (settings : Settings) (now : Nat) : Ok (init settings now) where
  slots _ _ _ _ _ h _ := by cases h
  pids := by simp [init]
  next := Nat.one_pos
  distinct := by simp [init]
  one := by simp [init]
  held := by simp [init]
  shown := by simp [init]
  ledger := by simp [init]

/-! ## The slots -/

variable {s : System} {i : Nat} {key : Option Nat}

theorem findSlot_some (h : s.findSlot key = some i) :
    i < s.settings.maxDatabases ∧ (s.blocks i).dbOid = key := by
  unfold findSlot at h
  have hp := find?_some h
  have hmem := mem_of_find?_eq_some h
  exact ⟨mem_range.mp hmem, by simpa using hp⟩

theorem findSlot_none (h : s.findSlot key = none)
    (hi : i < s.settings.maxDatabases) : (s.blocks i).dbOid ≠ key := by
  unfold findSlot at h
  have := find?_eq_none.mp h i (mem_range.mpr hi)
  simpa using this

variable {db : Nat}

theorem Ok.findSlot (h : Ok s) (hi : i < s.settings.maxDatabases)
    (hdb : (s.blocks i).dbOid = some db) : s.findSlot (some db) = some i := by
  cases hf : s.findSlot (some db) with
  | none => exact absurd hdb (findSlot_none hf hi)
  | some j =>
    obtain ⟨hj, hjdb⟩ := findSlot_some hf
    rw [h.slots j i db hj hi hjdb hdb]

variable {s' : System}

/-- A step that leaves the processes and the identity of the blocks alone, forgets or keeps
entries of the ledger, and writes no pid that a serving process shows. -/
theorem Ok.same (h : Ok s) (hs : s'.settings = s.settings) (hpr : s'.procs = s.procs)
    (hn : s'.nextPid = s.nextPid)
    (hl : ∀ w ∈ s'.launcher.ledger, ∃ v ∈ s.launcher.ledger,
      v.dbOid = w.dbOid ∧ v.handle = w.handle) (hdb : ∀ i, (s'.blocks i).dbOid = (s.blocks i).dbOid)
    (hpid : ∀ i, (∃ p ∈ s.procs, p.stage = .serving i) →
      (s'.blocks i).workerPid = (s.blocks i).workerPid) : Ok s' where
  slots := by simpa only [hs, hdb] using h.slots
  pids := by simpa only [hpr, hn] using h.pids
  next := hn ▸ h.next
  distinct := hpr ▸ h.distinct
  one := hpr ▸ h.one
  held := by simpa only [hpr, hs, hdb] using h.held
  shown := by
    rw [hpr]
    intro p hp i hi
    rw [hpid i ⟨p, hp, hi⟩]
    exact h.shown p hp i hi
  ledger := by
    rw [hpr]
    intro w hw p hp hd
    obtain ⟨v, hv, hvdb, hvh⟩ := hl w hw
    rw [← hvh]
    exact h.ledger v hv p hp (hd.trans hvdb.symm)

variable {b : ControlBlock}

theorem setBlock_self (s : System) (i : Nat) (b : ControlBlock) : (s.setBlock i b).blocks i = b := by
  simp [setBlock]

theorem setBlock_of_ne {j : Nat} (hj : j ≠ i) : (s.setBlock i b).blocks j = s.blocks j := by
  simp [setBlock, hj]

theorem setBlock_dbOid (hb : b.dbOid = (s.blocks i).dbOid) (j : Nat) :
    ((s.setBlock i b).blocks j).dbOid = (s.blocks j).dbOid := by
  by_cases hj : j = i
  · rw [hj, setBlock_self, hb]
  · rw [setBlock_of_ne hj]

theorem Ok.setBlock (h : Ok s) (hb : b.dbOid = (s.blocks i).dbOid)
    (hpid : (∃ p ∈ s.procs, p.stage = .serving i) → b.workerPid = (s.blocks i).workerPid) :
    Ok (s.setBlock i b) := by
  refine h.same rfl rfl rfl (fun w hw => ⟨w, hw, rfl, rfl⟩) (setBlock_dbOid hb) fun j hj => ?_
  by_cases hij : j = i
  · subst hij
    rw [setBlock_self]
    exact hpid hj
  · rw [setBlock_of_ne hij]

variable {f : ControlBlock → ControlBlock}

theorem Ok.writeBlock (h : Ok s)
    (hf : (∃ p ∈ s.procs, p.stage = .serving i) →
      (f (s.blocks i)).workerPid = (s.blocks i).workerPid) : Ok (s.writeBlock i f) :=
  h.setBlock rfl hf

theorem Ok.withEntry (h : Ok s) (hf : (∀ b, (f b).workerPid = b.workerPid) ∨ NoWorker s db) :
    Ok (s.withEntry db f) := by
  unfold System.withEntry
  cases hsl : s.findSlot (some db) with
  | none => exact h
  | some i =>
    apply h.writeBlock
    rintro ⟨p, hp, hs⟩
    rcases hf with hf | hno
    · exact hf _
    · have hdb := (h.held p hp i (by rw [hs]; rfl)).2
      rw [(findSlot_some hsl).2, Option.some.injEq] at hdb
      exact absurd hdb.symm (hno p hp)

variable {ledger : List LauncherWorker}

theorem Ok.setLedger (h : Ok s)
    (hl : ∀ w ∈ ledger, ∃ v ∈ s.launcher.ledger, v.dbOid = w.dbOid ∧ v.handle = w.handle) :
    Ok (s.setLedger ledger) :=
  h.same rfl rfl rfl hl (fun _ => rfl) fun _ _ => rfl

theorem Ok.dropLedgerEntry (h : Ok s) (db : Nat) : Ok (s.dropLedgerEntry db) := by
  apply h.setLedger
  intro w hw
  exact ⟨w, (mem_filter.mp hw).1, rfl, rfl⟩

variable {w : LauncherWorker}

theorem Ok.setLedgerEntry (h : Ok s) {w' : LauncherWorker} (hw : w ∈ s.launcher.ledger)
    (hdb : w'.dbOid = w.dbOid) (hh : w'.handle = w.handle) : Ok (s.setLedgerEntry w') := by
  apply h.setLedger
  intro v hv
  obtain ⟨u, hu, rfl⟩ := mem_map.mp hv
  by_cases heq : u.dbOid = w'.dbOid
  · rw [if_pos heq]
    exact ⟨w, hw, hdb.symm, hh.symm⟩
  · rw [if_neg heq]
    exact ⟨u, hu, rfl, rfl⟩

theorem Ok.goTo (h : Ok s) (phase : LauncherPhase) : Ok (s.goTo phase) :=
  h.same rfl rfl rfl (fun w hw => ⟨w, hw, rfl, rfl⟩) (fun _ => rfl) fun _ _ => rfl

theorem Ok.setOrphans (h : Ok s) (orphans : List (Nat × Nat)) : Ok (s.setOrphans orphans) :=
  h.same rfl rfl rfl (fun w hw => ⟨w, hw, rfl, rfl⟩) (fun _ => rfl) fun _ _ => rfl

/-- What a reservation leaves as it is. -/
structure SameButBlocks (s s' : System) : Prop where
  settings : s'.settings = s.settings
  now : s'.now = s.now
  procs : s'.procs = s.procs
  nextPid : s'.nextPid = s.nextPid
  launcher : s'.launcher = s.launcher

theorem reserve_same (s : System) (db : Nat) :
    SameButBlocks s (s.vamanaWorkerReserveSlot db).1 := by
  unfold vamanaWorkerReserveSlot
  split
  · exact ⟨rfl, rfl, rfl, rfl, rfl⟩
  · split <;> exact ⟨rfl, rfl, rfl, rfl, rfl⟩

/-- No two blocks are of one database. -/
def OneBlock (s : System) : Prop := ∀ i j db, i < s.settings.maxDatabases →
  j < s.settings.maxDatabases → (s.blocks i).dbOid = some db → (s.blocks j).dbOid = some db → i = j

theorem OneBlock.setBlock (h : OneBlock s)
    (hnew : ∀ d, b.dbOid = some d → ∀ j, j < s.settings.maxDatabases → (s.blocks j).dbOid ≠ some d) :
    OneBlock (s.setBlock i b) := by
  intro j k d hj hk hdj hdk
  by_cases hji : j = i <;> by_cases hki : k = i
  · rw [hji, hki]
  · rw [hji, setBlock_self] at hdj
    rw [setBlock_of_ne hki] at hdk
    exact absurd hdk (hnew d hdj k hk)
  · rw [setBlock_of_ne hji] at hdj
    rw [hki, setBlock_self] at hdk
    exact absurd hdj (hnew d hdk j hj)
  · rw [setBlock_of_ne hji] at hdj
    rw [setBlock_of_ne hki] at hdk
    exact h j k d hj hk hdj hdk

theorem Ok.replaceBlock (h : Ok s) (hf : ∀ p ∈ s.procs, p.stage.block ≠ some i)
    (hnew : ∀ d, b.dbOid = some d → ∀ j, j < s.settings.maxDatabases → (s.blocks j).dbOid ≠ some d) :
    Ok (s.setBlock i b) := by
  have hne : ∀ p ∈ s.procs, ∀ j, p.stage.block = some j → j ≠ i := by
    rintro p hp j hj rfl
    exact hf p hp hj
  refine ⟨OneBlock.setBlock h.slots hnew, h.pids, h.next, h.distinct, h.one, ?_, ?_, h.ledger⟩
  · intro p hp j hj
    rw [setBlock_of_ne (hne p hp j hj)]
    exact h.held p hp j hj
  · intro p hp j hj
    rw [setBlock_of_ne (hne p hp j (by rw [hj]; rfl))]
    exact h.shown p hp j hj

theorem Ok.reserve (h : Ok s) (db : Nat) :
    Ok (s.vamanaWorkerReserveSlot db).1 ∧
      ∀ i, (s.vamanaWorkerReserveSlot db).2 = some i → i < s.settings.maxDatabases ∧
        ((s.vamanaWorkerReserveSlot db).1.blocks i).dbOid = some db := by
  unfold vamanaWorkerReserveSlot
  cases hs : s.findSlot (some db) with
  | some i =>
    refine ⟨h, fun j hj => ?_⟩
    cases hj
    exact findSlot_some hs
  | none =>
    cases hf : s.findSlot none with
    | none => exact ⟨h, nofun⟩
    | some i =>
      obtain ⟨hi, hn⟩ := findSlot_some hf
      refine ⟨h.replaceBlock ?_ ?_, fun j hj => ?_⟩
      · intro p hp hh
        have hdb := (h.held p hp i hh).2
        rw [hn] at hdb
        cases hdb
      · rintro d ⟨⟩ j hj
        exact findSlot_none hs hj
      · cases hj
        exact ⟨hi, by rw [setBlock_self]⟩

theorem Ok.release (h : Ok s) (hno : NoWorker s db) : Ok (s.vamanaWorkerReleaseSlot db) := by
  unfold vamanaWorkerReleaseSlot
  cases hs : s.findSlot (some db) with
  | none => exact h
  | some i =>
    apply h.replaceBlock
    · intro p hp hh
      have hdb := (h.held p hp i hh).2
      rw [(findSlot_some hs).2, Option.some.injEq] at hdb
      exact hno p hp hdb.symm
    · intro d hd
      cases hd

/-! ## The processes -/

theorem Ok.mapProcs (h : Ok s) {f : Proc → Proc} (hpid : ∀ p, (f p).pid = p.pid)
    (hdb : ∀ p, (f p).dbOid = p.dbOid)
    (hh : ∀ p ∈ s.procs, ∀ i, (f p).stage.block = some i →
      i < s.settings.maxDatabases ∧ (s.blocks i).dbOid = some p.dbOid)
    (hs : ∀ p ∈ s.procs, ∀ i, (f p).stage = .serving i → (s.blocks i).workerPid = p.pid) :
    Ok { s with procs := s.procs.map f } where
  slots := h.slots
  next := h.next
  pids := by simpa only [forall_mem_map, hpid] using h.pids
  distinct := by
    simp only [forall_mem_map, hpid]
    intro p hp q hq heq
    rw [h.distinct p hp q hq heq]
  one := by
    simp only [forall_mem_map, hdb]
    intro p hp q hq heq
    rw [h.one p hp q hq heq]
  held := by simpa only [forall_mem_map, hdb] using hh
  shown := by simpa only [forall_mem_map, hpid] using hs
  ledger := by simpa only [forall_mem_map, hdb, hpid] using h.ledger

theorem Ok.terminate (h : Ok s) (handle : Nat) : Ok (s.terminateBackgroundWorker handle) := by
  apply h.mapProcs
  · intro p
    split <;> rfl
  · intro p
    split <;> rfl
  · intro p hp i hi
    apply h.held p hp i
    rw [← hi]
    split <;> rfl
  · intro p hp i hi
    apply h.shown p hp i
    rw [← hi]
    split <;> rfl

variable {p : Proc}

theorem Ok.setStage (h : Ok s) (hp : p ∈ s.procs) (stage : Stage)
    (hh : ∀ i, stage.block = some i →
      i < s.settings.maxDatabases ∧ (s.blocks i).dbOid = some p.dbOid)
    (hs : ∀ i, stage = .serving i → (s.blocks i).workerPid = p.pid) :
    Ok (s.setStage p.pid stage) := by
  apply h.mapProcs
  · intro q
    split <;> rfl
  · intro q
    split <;> rfl
  · intro q hq i hi
    by_cases heq : q.pid = p.pid
    · rw [if_pos heq] at hi
      rw [h.distinct q hq p hp heq]
      exact hh i hi
    · rw [if_neg heq] at hi
      exact h.held q hq i hi
  · intro q hq i hi
    by_cases heq : q.pid = p.pid
    · rw [if_pos heq] at hi
      rw [heq]
      exact hs i hi
    · rw [if_neg heq] at hi
      exact h.shown q hq i hi

variable {stage : Stage}

theorem Ok.move (h : Ok s) (hp : p ∈ s.procs) (hi : p.stage.block = some i)
    (hbl : stage.block = some i)
    (hsh : ∀ j, stage = .serving j → (f (s.blocks i)).workerPid = p.pid) :
    Ok ((s.writeBlock i f).setStage p.pid stage) := by
  -- the process first leaves the stage it is in, so that no process serves the block it writes
  have hh := h.held p hp i hi
  have hf : Ok (s.setStage p.pid (.claimed i)) := by
    apply h.setStage hp (.claimed i)
    · intro j hj
      cases hj
      exact hh
    · intro j hj
      cases hj
  have hw : Ok ((s.setStage p.pid (.claimed i)).writeBlock i f) := by
    apply hf.writeBlock
    rintro ⟨q', hq', hs⟩
    obtain ⟨q, hq, rfl⟩ := mem_map.mp hq'
    by_cases heq : q.pid = p.pid
    · rw [if_pos heq] at hs
      cases hs
    rw [if_neg heq] at hs
    have hdb := (h.held q hq i (by rw [hs]; rfl)).2
    rw [hh.2, Option.some.injEq] at hdb
    exact absurd (congrArg Proc.pid (h.one q hq p hp hdb.symm)) heq
  have hmem : { p with stage := .claimed i } ∈
      ((s.setStage p.pid (.claimed i)).writeBlock i f).procs :=
    mem_map.mpr ⟨p, hp, if_pos rfl⟩
  have hl := hw.setStage hmem stage (fun j hj => ?_) (fun j hj => ?_)
  · have heq : ((s.setStage p.pid (.claimed i)).writeBlock i f).setStage p.pid stage =
        (s.writeBlock i f).setStage p.pid stage := by
      simp only [System.setStage, System.writeBlock, System.setBlock, map_map]
      congr 1
      apply map_congr_left
      intro q _
      by_cases hq : q.pid = p.pid <;> simp [hq]
    exact heq ▸ hl
  · rw [hbl] at hj
    cases hj
    refine ⟨hh.1, ?_⟩
    have := setBlock_dbOid (s := s) (i := i)
      (b := { f (s.blocks i) with dbOid := (s.blocks i).dbOid }) rfl i
    exact this.trans hh.2
  · have hji : j = i := by
      rw [hj] at hbl
      simpa [Stage.block] using hbl
    subst hji
    simpa [System.writeBlock, System.setBlock, System.setStage] using hsh j hj

theorem Ok.exitProc (h : Ok s) (pid : Nat) : Ok (s.exitProc pid) := by
  have hsub : ∀ p ∈ (s.exitProc pid).procs, p ∈ s.procs := fun p hp => (mem_filter.mp hp).1
  exact ⟨h.slots, fun p hp => h.pids p (hsub p hp), h.next,
    fun p hp q hq => h.distinct p (hsub p hp) q (hsub q hq),
    fun p hp q hq => h.one p (hsub p hp) q (hsub q hq), fun p hp => h.held p (hsub p hp),
    fun p hp => h.shown p (hsub p hp), fun w hw p hp => h.ledger w hw p (hsub p hp)⟩

/-- A new process for a database that has none, together with the entry that the ledger gets for
it. -/
theorem Ok.addProc (h : Ok s) (hno : NoWorker s db)
    (hl : ∀ w ∈ ledger, (w.dbOid = db ∧ w.handle = s.nextPid) ∨
      (w.dbOid ≠ db ∧ w ∈ s.launcher.ledger)) : Ok ((s.addProc db).setLedger ledger) := by
  have hmem : ∀ p ∈ ((s.addProc db).setLedger ledger).procs,
      p ∈ s.procs ∨ p = ⟨s.nextPid, db, .registered, false⟩ := by
    intro p hp
    exact (mem_append.mp hp).imp id mem_singleton.mp
  refine ⟨h.slots, fun p hp => ?_, Nat.succ_pos _, fun p hp q hq heq => ?_,
    fun p hp q hq heq => ?_, fun p hp i hi => ?_, fun p hp i hi => ?_, fun w hw p hp heq => ?_⟩
  · rcases hmem p hp with hp | rfl
    · exact ⟨(h.pids p hp).1, Nat.lt_succ_of_lt (h.pids p hp).2⟩
    · exact ⟨h.next, Nat.lt_succ_self _⟩
  · rcases hmem p hp with hp | rfl <;> rcases hmem q hq with hq | rfl
    · exact h.distinct p hp q hq heq
    · exact absurd heq (Nat.ne_of_lt (h.pids p hp).2)
    · exact absurd heq.symm (Nat.ne_of_lt (h.pids q hq).2)
    · rfl
  · rcases hmem p hp with hp | rfl <;> rcases hmem q hq with hq | rfl
    · exact h.one p hp q hq heq
    · exact absurd heq (hno p hp)
    · exact absurd heq.symm (hno q hq)
    · rfl
  · rcases hmem p hp with hp | rfl
    · exact h.held p hp i hi
    · cases hi
  · rcases hmem p hp with hp | rfl
    · exact h.shown p hp i hi
    · cases hi
  · rcases hl w hw with ⟨hdb, hh⟩ | ⟨hdb, hw⟩
    · rcases hmem p hp with hp | rfl
      · exact absurd (heq.trans hdb) (hno p hp)
      · exact hh.symm
    · rcases hmem p hp with hp | rfl
      · exact h.ledger w hw p hp heq
      · exact absurd heq.symm hdb

/-! ## The launcher's passes -/

theorem Ok.noWorker_of_stopped (h : Ok s) (hw : w ∈ s.launcher.ledger)
    (hs : s.handleStatus w.handle = .stopped) : NoWorker s w.dbOid := by
  intro p hp hdb
  have hpid := h.ledger w hw p hp hdb
  unfold handleStatus at hs
  cases hf : s.procs.find? (fun p => p.pid = w.handle) with
  | none =>
    have := find?_eq_none.mp hf p hp
    exact this (by simpa using hpid)
  | some q =>
    rw [hf] at hs
    dsimp only at hs
    split at hs <;> cases hs

section

variable (s : System) (db : Nat)

theorem withEntry_same (f : ControlBlock → ControlBlock) : SameButBlocks s (s.withEntry db f) := by
  unfold withEntry
  split <;> exact ⟨rfl, rfl, rfl, rfl, rfl⟩

theorem withEntry_dbOid (f : ControlBlock → ControlBlock) (j : Nat) :
    ((s.withEntry db f).blocks j).dbOid = (s.blocks j).dbOid := by
  unfold withEntry
  split
  · apply setBlock_dbOid
    rfl
  · rfl

theorem withEntry_workerPid (hf : ∀ b, (f b).workerPid = b.workerPid)
    (j : Nat) : ((s.withEntry db f).blocks j).workerPid = (s.blocks j).workerPid := by
  unfold withEntry
  split
  · rename_i i _
    by_cases hj : j = i
    · rw [hj, writeBlock, setBlock_self]
      exact hf _
    · rw [writeBlock, setBlock_of_ne hj]
  · rfl

end

theorem Ok.liveness (h : Ok s) (hw : w ∈ s.launcher.ledger) : Ok (s.reconcileLedgerLiveness w) := by
  unfold reconcileLedgerLiveness
  cases hs : s.handleStatus w.handle with
  | notYetStarted => exact h
  | started =>
    dsimp only
    split
    · exact h.setLedgerEntry hw rfl rfl
    · exact h
  | stopped =>
    have hno := h.noWorker_of_stopped hw hs
    dsimp only
    cases classifyWorkerStop s.launcher.rows w with
    | restartDrain => exact h.withEntry (.inr hno)
    | disabled | crash => exact (h.withEntry (.inr hno)).dropLedgerEntry w.dbOid
    | removed => exact (h.release hno).dropLedgerEntry w.dbOid

variable {registers : Bool} {slot : Option Nat}

theorem register_cases (hreg : s.registerDatabaseWorker registers db = (s', slot)) :
    (slot = none ∧ s' = (s.vamanaWorkerReserveSlot db).1) ∨
    (slot = some s.nextPid ∧ s' = ((s.vamanaWorkerReserveSlot db).1.addProc db).withEntry db fun b =>
      { b with backoff := { b.backoff with lastAttemptTime := s.launcher.now } }) := by
  have hs := reserve_same s db
  unfold registerDatabaseWorker at hreg
  generalize s.vamanaWorkerReserveSlot db = r at hreg hs ⊢
  obtain ⟨t, found⟩ := r
  dsimp only at hs
  cases found with
  | none =>
    cases hreg
    exact .inl ⟨rfl, rfl⟩
  | some i =>
    cases registers with
    | false =>
      cases hreg
      exact .inl ⟨rfl, rfl⟩
    | true =>
      cases hreg
      rw [hs.nextPid, hs.launcher]
      exact .inr ⟨rfl, rfl⟩

theorem register_launcher
    (hreg : s.registerDatabaseWorker registers db = (s', slot)) : s'.launcher = s.launcher := by
  rcases register_cases hreg with ⟨_, rfl⟩ | ⟨_, rfl⟩
  · exact (reserve_same s db).launcher
  · exact (withEntry_same _ _ _).launcher.trans (reserve_same s db).launcher

theorem Ok.notRegistered (h : Ok s) (hreg : s.registerDatabaseWorker registers db = (s', none)) :
    Ok s' := by
  rcases register_cases hreg with ⟨_, rfl⟩ | ⟨hs, _⟩
  · exact (h.reserve db).1
  · cases hs

theorem Ok.register (h : Ok s) (hno : NoWorker s db) {handle : Nat}
    (hreg : s.registerDatabaseWorker registers db = (s', some handle))
    (hl : ∀ w ∈ ledger, (w.dbOid = db ∧ w.handle = handle) ∨ (w.dbOid ≠ db ∧ w ∈ s.launcher.ledger)) :
    Ok (s'.setLedger ledger) := by
  rcases register_cases hreg with ⟨hsl, _⟩ | ⟨hsl, rfl⟩
  · cases hsl
  · cases hsl
    have hs := reserve_same s db
    have hno' : NoWorker (s.vamanaWorkerReserveSlot db).1 db := by
      rw [NoWorker, hs.procs]
      exact hno
    have hl' : ∀ w ∈ ledger, (w.dbOid = db ∧
        w.handle = (s.vamanaWorkerReserveSlot db).1.nextPid) ∨
        (w.dbOid ≠ db ∧ w ∈ (s.vamanaWorkerReserveSlot db).1.launcher.ledger) := by
      rw [hs.nextPid, hs.launcher]
      exact hl
    apply ((h.reserve db).1.addProc hno' hl').same
    · exact (withEntry_same _ _ _).settings
    · exact (withEntry_same _ _ _).procs
    · exact (withEntry_same _ _ _).nextPid
    · exact fun w hw => ⟨w, hw, rfl, rfl⟩
    · exact withEntry_dbOid _ _ _
    · intro j _
      apply withEntry_workerPid
      exact fun _ => rfl

variable {row : Row}

theorem Ok.spawnWorker (h : Ok s) (hno : NoWorker s row.dbOid)
    (hl : s.findLedgerEntry row.dbOid = none) (registers : Bool) :
    Ok (s.spawnWorker registers row) := by
  unfold System.spawnWorker
  cases hreg : s.registerDatabaseWorker registers row.dbOid with
  | mk s' slot =>
    cases slot with
    | none => exact h.notRegistered hreg
    | some handle =>
      dsimp only
      refine Ok.withEntry (h.register hno hreg fun w hw => ?_) (.inl fun _ => rfl)
      rw [register_launcher hreg] at hw
      rcases mem_append.mp hw with hw | hw
      · refine .inr ⟨fun hdb => ?_, hw⟩
        exact find?_eq_none.mp hl w hw (by simpa using hdb)
      · rw [mem_singleton.mp hw]
        exact .inl ⟨rfl, rfl⟩

theorem Ok.respawnWorker (h : Ok s) (hno : NoWorker s w.dbOid) (hrow : row.dbOid = w.dbOid)
    (registers : Bool) : Ok (s.respawnWorker registers w row) := by
  unfold System.respawnWorker
  rw [hrow]
  cases hreg : s.registerDatabaseWorker registers w.dbOid with
  | mk s' slot =>
    cases slot with
    | none => exact h.notRegistered hreg
    | some handle =>
      dsimp only
      refine Ok.withEntry (h.register hno hreg fun v hv => ?_) (.inl fun _ => rfl)
      rw [register_launcher hreg] at hv
      obtain ⟨u, hu, rfl⟩ := mem_map.mp hv
      by_cases hdb : u.dbOid = w.dbOid
      · rw [if_pos hdb]
        exact .inl ⟨rfl, rfl⟩
      · rw [if_neg hdb]
        exact .inr ⟨hdb, hu⟩

theorem findDatabaseRow_dbOid {rows : List Row} (h : findDatabaseRow rows db = some row) :
    row.dbOid = db := by
  simpa using find?_some h

theorem restart_respawn {stopTimeoutMs : Nat} {state state' : RestartState} {generation now : Nat}
    {status : HandleStatus}
    (h : vamanaRestartStateAdvance stopTimeoutMs state generation status now = (state', .respawn)) :
    status = .stopped := by
  unfold vamanaRestartStateAdvance at h
  cases status with
  | stopped => rfl
  | _ =>
    split at h
    · split at h <;> cases h
    · simp only [ne_eq, reduceCtorEq, not_false_eq_true, if_true] at h
      split at h <;> split at h <;> cases h

theorem Ok.converge (h : Ok s) (hw : w ∈ s.launcher.ledger) (registers : Bool) :
    Ok (s.reconcileRestartConvergence registers w) := by
  unfold reconcileRestartConvergence
  cases hrow : findDatabaseRow s.launcher.rows w.dbOid with
  | none => exact h
  | some row =>
    dsimp only
    split
    · exact h
    cases ha : vamanaRestartStateAdvance s.settings.stopTimeoutMs w.restart
      row.restartGeneration (s.handleStatus w.handle) s.launcher.now with
    | mk restart action =>
      have hset : Ok (s.setLedgerEntry { w with restart := restart }) :=
        h.setLedgerEntry hw rfl rfl
      cases action with
      | noop => exact hset
      | wait => exact hset
      | waitTimeout => exact hset
      | terminate => exact hset.terminate w.handle
      | respawn =>
        have hno : NoWorker s w.dbOid := h.noWorker_of_stopped hw (restart_respawn ha)
        exact Ok.respawnWorker (w := { w with restart := restart }) hset hno
          (findDatabaseRow_dbOid hrow) registers

theorem Ok.terminateDisabled (h : Ok s) (w : LauncherWorker) :
    Ok (s.terminateDisabledWorkers w) := by
  unfold terminateDisabledWorkers
  split
  · exact h
  · split
    · exact h.terminate w.handle
    · exact h

theorem Ok.ask (h : Ok s) (db : Nat) : Ok (s.reconcileUnledgeredWorkers db) := by
  unfold reconcileUnledgeredWorkers
  split
  · exact h
  split
  · exact h
  refine h.withEntry (.inl fun b => ?_)
  split
  · split <;> rfl
  · rfl

/-! ## What the launcher sees in the control blocks -/

def shows (s : System) (p : Proc) : Bool :=
  match p.stage with
  | .serving i => !vamanaHeartbeatIsStale (s.blocks i).heartbeatTs s.now
  | _ => false

def WorkersSeen (s : System) (db : Nat) : Prop :=
  ∀ p ∈ s.procs, p.dbOid = db → shows s p = true

theorem shows_serving (h : shows s p = true) :
    ∃ i, p.stage = .serving i ∧
      vamanaHeartbeatIsStale (s.blocks i).heartbeatTs s.now = false := by
  unfold shows at h
  cases hs : p.stage with
  | serving i =>
    rw [hs] at h
    exact ⟨i, rfl, by simpa using h⟩
  | _ =>
    rw [hs] at h
    cases h

section

variable (h : Ok s)
include h

theorem Ok.noWorker_of_notLive (hse : WorkersSeen s db)
    (hl : s.databaseIsLive db = false) : NoWorker s db := by
  intro p hp hdb
  obtain ⟨i, hs, hf⟩ := shows_serving (hse p hp hdb)
  obtain ⟨hi, hbl⟩ := h.held p hp i (by rw [hs]; rfl)
  rw [hdb] at hbl
  have hen : s.vamanaWorkerEntryIsLive i = true := by
    have hpid := h.shown p hp i hs
    have hpos := (h.pids p hp).1
    have hany : s.procs.any (fun q => q.pid = p.pid && q.stage ≠ .registered) = true := by
      apply any_eq_true.mpr
      exact ⟨p, hp, by simp [hs]⟩
    simp only [vamanaWorkerEntryIsLive, hpid, hany, hf, Bool.not_false, Bool.and_true,
      decide_eq_true_eq]
    omega
  rw [databaseIsLive, h.findSlot hi hbl] at hl
  exact Bool.false_ne_true (hl.symm.trans hen)

theorem Ok.releaseOrphaned (hs : s.OrphanIsDue db → WorkersSeen s db) :
    Ok (s.releaseOrphanedReservedSlots db) := by
  unfold releaseOrphanedReservedSlots
  split
  · exact h
  dsimp only
  split
  · rename_i hdue
    split
    · exact h.setOrphans _
    · rename_i hl
      exact (h.release (h.noWorker_of_notLive (hs hdue) (by simpa using hl))).setOrphans _
  · exact h.setOrphans _

theorem Ok.spawnDiff (hs : s.findLedgerEntry db = none → WorkersSeen s db)
    (registers : Bool) : Ok (s.spawnDiff registers db) := by
  unfold System.spawnDiff
  cases hrow : findDatabaseRow s.launcher.rows db with
  | none => exact h
  | some row =>
    dsimp only
    split
    · exact h
    rename_i hn
    have hl : s.findLedgerEntry db = none := by simpa using hn
    split
    · exact h
    rename_i hli
    have hno := h.noWorker_of_notLive (hs hl) (by simpa using hli)
    have hdb := findDatabaseRow_dbOid hrow
    split <;> split
    · exact h.spawnWorker (hdb ▸ hno) (hdb ▸ hl) registers
    · exact h
    · exact h.spawnWorker (hdb ▸ hno) (hdb ▸ hl) registers
    · exact h

/-! ## The steps -/

/-- The database that the launcher judges by its control block: in the spawn loop one without an
entry, among the reserved ones one without a row whose grace is over. -/
def judges (s : System) : Event → Option Nat
  | .launch _ =>
    match s.launcher.phase with
    | .spawning (db :: _) => if (s.findLedgerEntry db).isNone then some db else none
    | .releasing (db :: _) => if s.OrphanIsDue db then some db else none
    | _ => none
  | _ => none

/-- The database whose reservation an aborted enrollment takes back. -/
def takesBack (s : System) : Event → Option Nat
  | .abortEnroll db => if db ∈ s.enrolling then some db else none
  | _ => none

/-- No worker of a database that the launcher judges by its control block is starting, draining or
stalled, and no worker was started on a reservation that is taken back. -/
def NoUnseenWorker (s : System) (e : Event) : Prop :=
  (∀ db ∈ judges s e, WorkersSeen s db) ∧ ∀ db ∈ takesBack s e, NoWorker s db

deriving instance Decidable for WorkersSeen

deriving instance Decidable for NoWorker

deriving instance Decidable for NoUnseenWorker

theorem Ok.launch (hok : NoUnseenWorker s (.launch registers)) : Ok (s.launch registers) := by
  have hs := hok.1
  unfold judges at hs
  unfold System.launch
  cases hp : s.launcher.phase with
  | idle => exact h
  | liveness todo =>
    cases todo with
    | nil => exact h.goTo _
    | cons db todo =>
      dsimp only
      split
      · rename_i w hw
        exact (h.liveness (mem_of_find?_eq_some hw)).goTo _
      · exact h.goTo _
  | terminating todo =>
    cases todo with
    | nil => exact h.goTo _
    | cons db todo =>
      dsimp only
      split
      · exact (h.terminateDisabled _).goTo _
      · exact h.goTo _
  | converging todo =>
    cases todo with
    | nil => exact h.goTo _
    | cons db todo =>
      dsimp only
      split
      · rename_i w hw
        exact (h.converge (mem_of_find?_eq_some hw) registers).goTo _
      · exact h.goTo _
  | asking todo reserved =>
    cases todo with
    | nil => exact (h.setOrphans _).goTo _
    | cons db todo => exact (h.ask db).goTo _
  | releasing todo =>
    cases todo with
    | nil => exact h.goTo _
    | cons db todo =>
      rw [hp] at hs
      exact (h.releaseOrphaned fun hdue => hs db (if_pos hdue)).goTo _
  | spawning todo =>
    cases todo with
    | nil => exact h.goTo _
    | cons db todo =>
      rw [hp] at hs
      refine (h.spawnDiff (fun hn => hs db (if_pos ?_)) registers).goTo _
      rw [hn]
      rfl

theorem Ok.workerStep (hp : p ∈ s.procs) (cancelled : Bool) : Ok (s.workerStep p cancelled) := by
  unfold System.workerStep
  cases hs : p.stage with
  | registered =>
    dsimp only
    split
    · exact h.exitProc p.pid
    · exact h.setStage hp .starting nofun nofun
  | starting =>
    obtain ⟨hok, hsl⟩ := h.reserve p.dbOid
    have hsa := reserve_same s p.dbOid
    generalize s.vamanaWorkerReserveSlot p.dbOid = r at hok hsl hsa
    obtain ⟨t, found⟩ := r
    dsimp only at hok hsl hsa
    cases found with
    | none => exact hok.exitProc p.pid
    | some i =>
      have hp' : p ∈ t.procs := by
        rw [hsa.procs]
        exact hp
      apply hok.setStage hp' (.claimed i)
      · intro j hj
        cases hj
        rw [hsa.settings]
        exact hsl i rfl
      · nofun
  | claimed i =>
    dsimp only
    split
    · exact h.exitProc p.pid
    apply h.setStage hp (.checked i)
    · intro j hj
      cases hj
      exact h.held p hp i (by rw [hs]; rfl)
    · nofun
  | checked i => exact h.move hp (by rw [hs]; rfl) rfl nofun
  | preparing i =>
    dsimp only
    split
    · exact h.move hp (by rw [hs]; rfl) rfl nofun
    · exact h.move hp (by rw [hs]; rfl) rfl fun _ _ => rfl
  | serving i =>
    dsimp only
    split
    · exact h.move hp (by rw [hs]; rfl) rfl nofun
    · exact h.writeBlock fun _ => rfl
  | draining i => exact (h.writeBlock fun _ => rfl).exitProc p.pid

theorem Ok.restartLauncher : Ok s.restartLauncher := by
  unfold System.restartLauncher
  have hs : Ok { s with launcher := ⟨[], s.now, [], [], .idle⟩ } :=
    h.same rfl rfl rfl nofun (fun _ => rfl) fun _ _ => rfl
  generalize (s.table.filter (·.enabled)).map (·.dbOid) = dbs
  generalize { s with launcher := ⟨[], s.now, [], [], .idle⟩ } = t at hs
  induction dbs generalizing t with
  | nil => exact hs
  | cons db rest ih => exact ih _ (hs.reserve db).1

theorem Ok.enroll (db : Nat) : Ok (s.enroll db) := by
  unfold System.enroll
  split
  · exact h
  have hok := (h.reserve db).1
  generalize s.vamanaWorkerReserveSlot db = r at hok
  obtain ⟨t, found⟩ := r
  cases found with
  | none => exact hok
  | some i => exact hok.same rfl rfl rfl (fun w hw => ⟨w, hw, rfl, rfl⟩) (fun _ => rfl) fun _ _ => rfl

end

theorem ok_step (s : System) (e : Event) (h : Ok s) (hok : NoUnseenWorker s e) : Ok (s.step e) := by
  -- the steps that change neither a process nor a block nor the ledger
  have hsa : ∀ s' : System, s'.settings = s.settings → s'.procs = s.procs →
      s'.nextPid = s.nextPid → s'.launcher.ledger = s.launcher.ledger → s'.blocks = s.blocks →
      Ok s' := by
    intro s' hs hpr hn hl hbl
    refine h.same hs hpr hn ?_ (fun i => by rw [hbl]) fun i _ => by rw [hbl]
    rw [hl]
    exact fun w hw => ⟨w, hw, rfl, rfl⟩
  cases e with
  | tick us | setRow row | deleteRow db => exact hsa _ rfl rfl rfl rfl rfl
  | enroll db => exact h.enroll db
  | abortEnroll db =>
    simp only [step, abortEnroll]
    split
    · rename_i hmem
      exact (h.release (hok.2 db (if_pos hmem))).same rfl rfl rfl (fun w hw => ⟨w, hw, rfl, rfl⟩)
        (fun _ => rfl) fun _ _ => rfl
    · exact h
  | wake =>
    simp only [step, wake]
    split
    · exact hsa _ rfl rfl rfl rfl rfl
    · exact h
  | launch registers => exact h.launch hok
  | restartLauncher => exact h.restartLauncher
  | worker pid cancelled =>
    simp only [step]
    split
    · rename_i p hp
      exact h.workerStep (mem_of_find?_eq_some hp) cancelled
    · exact h
  | beat pid =>
    simp only [step, beat]
    split
    · split
      · exact h.writeBlock fun _ => rfl
      · exact h
    · exact h
  | exit pid => exact h.exitProc pid

/-! ## The law -/

/-- The control block that a process serves. A draining worker still answers its last requests. -/
def serves : Stage → Option Nat
  | .serving i => some i
  | .draining i => some i
  | _ => none

theorem serves_block (h : serves stage = some i) : stage.block = some i := by
  cases stage <;> first | exact h | cases h

/-- No control block is served by two processes. -/
def ServedOnce (s : System) : Prop :=
  ∀ p ∈ s.procs, ∀ q ∈ s.procs, ∀ i, serves p.stage = some i → serves q.stage = some i →
    p.pid = q.pid

/-- A control block that a process runs against is still that of its database. -/
def KeepsBlock (s : System) : Prop :=
  ∀ p ∈ s.procs, ∀ i, p.stage.block = some i → (s.blocks i).dbOid = some p.dbOid

theorem Ok.servedOnce (h : Ok s) : ServedOnce s := by
  intro p hp q hq i hpi hqi
  have hpdb := (h.held p hp i (serves_block hpi)).2
  have hqdb := (h.held q hq i (serves_block hqi)).2
  rw [hpdb, Option.some.injEq] at hqdb
  rw [h.one p hp q hq hqdb]

/-- As long as the launcher judges no database by its block while a worker of it is starting,
draining or stalled, a block is served by one process at most and stays with its database. -/
theorem a_control_block_has_one_worker (settings : Settings) (now : Nat) {es : List Event}
    (h : EachStep step NoUnseenWorker (init settings now) es) :
    EachState step (fun s => ServedOnce s ∧ KeepsBlock s) (init settings now) es :=
  eachState_invariant Ok ok_step
    (fun _ hs => ⟨hs.servedOnce, fun p hp i hi => (hs.held p hp i hi).2⟩) (ok_init settings now) h

def oneDatabase : Settings := ⟨1, 1000, 30000⟩

/-- Database 5 is enabled, and the launcher spawns its worker. -/
def spawned : List Event :=
  [.enroll 5, .setRow ⟨5, 0, true⟩, .wake] ++ replicate 9 (.launch true)

def started (pid : Nat) : List Event := replicate 5 (.worker pid false)

/-- A cycle of the launcher after a restart, while its worker has just had a heartbeat. -/
def restartsBesideLiveWorker : List Event :=
  spawned ++ started 1 ++ [.worker 1 false, .restartLauncher, .tick 2000000, .wake] ++
    replicate 9 (.launch true)

theorem a_restarted_launcher_leaves_a_live_worker_alone :
    ((run step (init oneDatabase 1) restartsBesideLiveWorker).procs.map
        fun p => (p.pid, p.stage)) = [(1, .serving 0)] ∧
      EachState step (fun s => ServedOnce s ∧ KeepsBlock s) (init oneDatabase 1)
        restartsBesideLiveWorker :=
  ⟨by decide, a_control_block_has_one_worker oneDatabase 1 (by decide)⟩

/-- The launcher restarts while the worker is in a long call, and its next worker comes to
serve. -/
def restartsBesideStalledWorker : List Event :=
  spawned ++ started 1 ++ [.worker 1 false, .restartLauncher, .tick 4000000, .wake] ++
    replicate 9 (.launch true) ++ started 2

/-- The row is deleted, and the worker drains when the launcher comes back after the grace. -/
def releasesUnderDrainingWorker : List Event :=
  spawned ++ started 1 ++ [.deleteRow 5, .tick 1000000, .wake] ++ replicate 11 (.launch true) ++
    [.worker 1 true, .tick 6000000, .wake] ++ replicate 11 (.launch true)

/-- Two processes serve one control block after a restart of the launcher. And without one, a block
is released under a worker in its final checkpoints. -/
theorem a_launcher_takes_a_worker_for_gone :
    ((run step (init oneDatabase 1) restartsBesideStalledWorker).procs.map
        fun p => (p.pid, p.stage)) = [(1, .serving 0), (2, .serving 0)] ∧
    ¬ ServedOnce (run step (init oneDatabase 1) restartsBesideStalledWorker) ∧
    ((run step (init oneDatabase 1) releasesUnderDrainingWorker).procs.map
        fun p => (p.dbOid, p.stage)) = [(5, .draining 0)] ∧
    ¬ KeepsBlock (run step (init oneDatabase 1) releasesUnderDrainingWorker) := by
  refine ⟨by decide, fun h => ?_, by decide, fun h => ?_⟩
  · have hpid := h ⟨1, 5, .serving 0, false⟩ (by decide) ⟨2, 5, .serving 0, false⟩ (by decide) 0
      rfl rfl
    cases hpid
  · have hdb := h ⟨1, 5, .draining 0, true⟩ (by decide) 0 rfl
    revert hdb
    decide

end svs_vamana.serving_worker
