-- A step of the launcher: what it leaves as it was, and where the cycle goes on.
import SvsVamana.ServingWorker

namespace svs_vamana.launcher_cycles

open launcher serving_worker System

variable {s : System}

/-! ## What a step leaves as it was -/

/-- What the launcher has read, and what it would read now, is as it was. -/
structure SameReads (s s' : System) : Prop where
  rows : s'.launcher.rows = s.launcher.rows
  read : s'.launcher.now = s.launcher.now
  table : s'.table = s.table
  now : s'.now = s.now

/-- And so are the candidates for a release and the place in the cycle. -/
structure SameRows (s s' : System) : Prop extends SameReads s s' where
  orphans : s'.launcher.orphans = s.launcher.orphans
  phase : s'.launcher.phase = s.launcher.phase

theorem SameRows.refl (s : System) : SameRows s s := ⟨⟨rfl, rfl, rfl, rfl⟩, rfl, rfl⟩

theorem SameRows.trans {s' s'' : System} (h : SameRows s s') (h' : SameRows s' s'') :
    SameRows s s'' :=
  ⟨⟨h'.rows.trans h.rows, h'.read.trans h.read, h'.table.trans h.table, h'.now.trans h.now⟩,
    h'.orphans.trans h.orphans, h'.phase.trans h.phase⟩

section

variable (s : System) (d : Nat)

theorem withEntry_rows (f : ControlBlock → ControlBlock) : SameRows s (s.withEntry d f) := by
  unfold withEntry
  split <;> exact ⟨⟨rfl, rfl, rfl, rfl⟩, rfl, rfl⟩

theorem reserve_rows : SameRows s (s.vamanaWorkerReserveSlot d).1 := by
  unfold vamanaWorkerReserveSlot
  split
  · exact SameRows.refl s
  · split <;> exact ⟨⟨rfl, rfl, rfl, rfl⟩, rfl, rfl⟩

theorem release_rows : SameRows s (s.vamanaWorkerReleaseSlot d) := by
  unfold vamanaWorkerReleaseSlot
  split <;> exact ⟨⟨rfl, rfl, rfl, rfl⟩, rfl, rfl⟩

end

theorem register_rows {s' : System} {registers : Bool} {d : Nat} {slot : Option Nat}
    (hreg : s.registerDatabaseWorker registers d = (s', slot)) : SameRows s s' := by
  have hr := reserve_rows s d
  obtain ⟨-, rfl⟩ | ⟨-, rfl⟩ := register_cases hreg
  · exact hr
  · have ha : SameRows s ((s.vamanaWorkerReserveSlot d).1.addProc d) :=
      hr.trans ⟨⟨rfl, rfl, rfl, rfl⟩, rfl, rfl⟩
    exact ha.trans (withEntry_rows _ d _)

variable (s : System)

theorem spawnWorker_rows (registers : Bool) (row : Row) :
    SameRows s (s.spawnWorker registers row) := by
  unfold spawnWorker
  cases hreg : s.registerDatabaseWorker registers row.dbOid with
  | mk s' slot =>
    have hr := register_rows hreg
    cases slot with
    | none => exact hr
    | some handle =>
      refine SameRows.trans ?_ (withEntry_rows _ _ _)
      exact hr.trans ⟨⟨rfl, rfl, rfl, rfl⟩, rfl, rfl⟩

theorem respawnWorker_rows (registers : Bool) (w : LauncherWorker) (row : Row) :
    SameRows s (s.respawnWorker registers w row) := by
  unfold respawnWorker
  cases hreg : s.registerDatabaseWorker registers row.dbOid with
  | mk s' slot =>
    have hr := register_rows hreg
    cases slot with
    | none => exact hr
    | some handle =>
      refine SameRows.trans ?_ (withEntry_rows _ _ _)
      exact hr.trans ⟨⟨rfl, rfl, rfl, rfl⟩, rfl, rfl⟩

theorem liveness_rows (w : LauncherWorker) : SameRows s (s.reconcileLedgerLiveness w) := by
  have hd : ∀ s', SameRows s s' → SameRows s (s'.dropLedgerEntry w.dbOid) :=
    fun _ h => h.trans ⟨⟨rfl, rfl, rfl, rfl⟩, rfl, rfl⟩
  unfold reconcileLedgerLiveness
  cases s.handleStatus w.handle with
  | notYetStarted => exact SameRows.refl s
  | started =>
    dsimp only
    split <;> exact ⟨⟨rfl, rfl, rfl, rfl⟩, rfl, rfl⟩
  | stopped =>
    cases classifyWorkerStop s.launcher.rows w with
    | restartDrain => exact withEntry_rows s _ _
    | disabled | crash => exact hd _ (withEntry_rows s _ _)
    | removed => exact hd _ (release_rows s _)

theorem converge_rows (registers : Bool) (w : LauncherWorker) :
    SameRows s (s.reconcileRestartConvergence registers w) := by
  unfold reconcileRestartConvergence
  cases findDatabaseRow s.launcher.rows w.dbOid with
  | none => exact SameRows.refl s
  | some row =>
    dsimp only
    split
    · exact SameRows.refl s
    cases vamanaRestartStateAdvance s.settings.stopTimeoutMs w.restart row.restartGeneration
      (s.handleStatus w.handle) s.launcher.now with
    | mk restart action =>
      have hset : SameRows s (s.setLedgerEntry { w with restart := restart }) :=
        ⟨⟨rfl, rfl, rfl, rfl⟩, rfl, rfl⟩
      cases action with
      | noop => exact hset
      | wait => exact hset
      | waitTimeout => exact hset
      | terminate => exact ⟨⟨rfl, rfl, rfl, rfl⟩, rfl, rfl⟩
      | respawn => exact hset.trans (respawnWorker_rows _ registers _ row)

theorem spawnDiff_rows (registers : Bool) (d : Nat) : SameRows s (s.spawnDiff registers d) := by
  unfold spawnDiff
  cases findDatabaseRow s.launcher.rows d with
  | none => exact SameRows.refl s
  | some row =>
    dsimp only
    split
    · exact SameRows.refl s
    split
    · exact SameRows.refl s
    split <;> split
    · exact spawnWorker_rows s registers row
    · exact SameRows.refl s
    · exact spawnWorker_rows s registers row
    · exact SameRows.refl s

theorem terminateDisabled_rows (w : LauncherWorker) :
    SameRows s (s.terminateDisabledWorkers w) := by
  unfold terminateDisabledWorkers
  split
  · exact SameRows.refl s
  · split
    · exact ⟨⟨rfl, rfl, rfl, rfl⟩, rfl, rfl⟩
    · exact SameRows.refl s

theorem ask_rows (d : Nat) : SameRows s (s.reconcileUnledgeredWorkers d) := by
  unfold reconcileUnledgeredWorkers
  split
  · exact SameRows.refl s
  · split
    · exact SameRows.refl s
    · exact withEntry_rows s d _

def orphansAfter (s : System) (d : Nat) : List (Nat × Nat) :=
  if (findDatabaseRow s.launcher.rows d).isSome then s.launcher.orphans
  else if s.OrphanIsDue d ∧ s.databaseIsLive d = false then
    s.launcher.orphans.filter fun c => c.1 ≠ d
  else (d, s.firstSeenOrphaned d) :: s.launcher.orphans.filter fun c => c.1 ≠ d

theorem release_pass (d : Nat) : SameReads s (s.releaseOrphanedReservedSlots d) ∧
    (s.releaseOrphanedReservedSlots d).launcher.orphans = orphansAfter s d := by
  have hr := release_rows s d
  unfold releaseOrphanedReservedSlots orphansAfter
  split
  · exact ⟨⟨rfl, rfl, rfl, rfl⟩, rfl⟩
  by_cases hdue : s.OrphanIsDue d
  · rw [if_pos hdue]
    cases hl : s.databaseIsLive d with
    | true => exact ⟨⟨rfl, rfl, rfl, rfl⟩, by simp [setOrphans]⟩
    | false =>
      refine ⟨⟨hr.rows, hr.read, hr.table, hr.now⟩, ?_⟩
      simp [setOrphans, hdue]
  · rw [if_neg hdue]
    exact ⟨⟨rfl, rfl, rfl, rfl⟩, by simp [setOrphans, hdue]⟩

def nextOrphans (s : System) : List (Nat × Nat) :=
  match s.launcher.phase with
  | .asking [] reserved => s.launcher.orphans.filter fun c =>
      (findDatabaseRow s.launcher.rows c.1).isNone && reserved.contains c.1
  | .releasing (d :: _) => orphansAfter s d
  | _ => s.launcher.orphans

theorem launch_pass (registers : Bool) : SameReads s (s.launch registers) ∧
    (s.launch registers).launcher.orphans = nextOrphans s := by
  have hp : ∀ {s'}, SameRows s s' → ∀ phase, SameReads s (s'.goTo phase) ∧
      (s'.goTo phase).launcher.orphans = s.launcher.orphans :=
    fun h phase => ⟨⟨h.rows, h.read, h.table, h.now⟩, h.orphans⟩
  have hs := hp (SameRows.refl s)
  unfold launch nextOrphans
  cases s.launcher.phase with
  | idle => exact ⟨⟨rfl, rfl, rfl, rfl⟩, rfl⟩
  | liveness todo =>
    cases todo with
    | nil => exact hs _
    | cons d todo =>
      dsimp only
      split
      · exact hp (liveness_rows s _) _
      · exact hs _
  | terminating todo =>
    cases todo with
    | nil => exact hs _
    | cons d todo =>
      dsimp only
      split
      · exact hp (terminateDisabled_rows s _) _
      · exact hs _
  | converging todo =>
    cases todo with
    | nil => exact hs _
    | cons d todo =>
      dsimp only
      split
      · exact hp (converge_rows s registers _) _
      · exact hs _
  | asking todo reserved =>
    cases todo with
    | nil => exact ⟨⟨rfl, rfl, rfl, rfl⟩, rfl⟩
    | cons d todo => exact hp (ask_rows s d) _
  | releasing todo =>
    cases todo with
    | nil => exact hs _
    | cons d todo =>
      obtain ⟨hr, ho⟩ := release_pass s d
      exact ⟨⟨hr.rows, hr.read, hr.table, hr.now⟩, ho⟩
  | spawning todo =>
    cases todo with
    | nil => exact hs _
    | cons d todo => exact hp (spawnDiff_rows s registers d) _

theorem launch_rows (registers : Bool) : SameReads s (s.launch registers) :=
  (launch_pass s registers).1

/-! ## The worker processes and the enrollments -/

theorem workerStep_rows (p : Proc) (cancelled : Bool) : SameRows s (s.workerStep p cancelled) := by
  have hr := reserve_rows s p.dbOid
  unfold workerStep
  cases p.stage with
  | registered | claimed i | preparing i | serving i =>
    dsimp only
    split <;> exact ⟨⟨rfl, rfl, rfl, rfl⟩, rfl, rfl⟩
  | starting =>
    generalize s.vamanaWorkerReserveSlot p.dbOid = r at hr
    obtain ⟨t, found⟩ := r
    cases found <;> exact hr.trans ⟨⟨rfl, rfl, rfl, rfl⟩, rfl, rfl⟩
  | checked i | draining i => exact ⟨⟨rfl, rfl, rfl, rfl⟩, rfl, rfl⟩

theorem enroll_rows (d : Nat) : SameRows s (s.enroll d) := by
  have hr := reserve_rows s d
  unfold enroll
  split
  · exact SameRows.refl s
  · generalize s.vamanaWorkerReserveSlot d = r at hr
    obtain ⟨t, found⟩ := r
    cases found <;> exact hr.trans ⟨⟨rfl, rfl, rfl, rfl⟩, rfl, rfl⟩

/-! ## The phases -/

def nextPhase (s : System) : LauncherPhase :=
  match s.launcher.phase with
  | .idle => .idle
  | .liveness [] => .terminating (s.launcher.ledger.map (·.dbOid))
  | .liveness (_ :: todo) => .liveness todo
  | .terminating [] => .converging (s.launcher.ledger.map (·.dbOid))
  | .terminating (_ :: todo) => .terminating todo
  | .converging [] => .asking s.collectReservedDbOids s.collectReservedDbOids
  | .converging (_ :: todo) => .converging todo
  | .asking [] reserved => .releasing reserved
  | .asking (_ :: todo) reserved => .asking todo reserved
  | .releasing [] => .spawning ((s.launcher.rows.filter (·.enabled)).map (·.dbOid))
  | .releasing (_ :: todo) => .releasing todo
  | .spawning [] => .idle
  | .spawning (_ :: todo) => .spawning todo

theorem launch_phase (registers : Bool) : (s.launch registers).launcher.phase = nextPhase s := by
  unfold launch nextPhase
  cases hp : s.launcher.phase with
  | idle => exact hp
  | liveness todo | terminating todo | converging todo =>
    cases todo with
    | nil => rfl
    | cons d todo =>
      dsimp only
      split <;> rfl
  | asking todo reserved | releasing todo | spawning todo => cases todo <;> rfl

end svs_vamana.launcher_cycles
