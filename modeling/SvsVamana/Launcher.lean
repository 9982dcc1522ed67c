-- The launcher, the per-database workers and their control blocks. The launcher reconciles its
-- workers against the config table in passes, one database at a time.
import SvsVamana.Lib.Runs
import Mathlib.Logic.Function.Basic

namespace svs_vamana.launcher

/-! ## The control blocks -/

/-- `VamanaLauncherBackoff`. -/
structure Backoff where
  lastAttemptTime : Nat
  consecutiveFailures : Nat
deriving DecidableEq, Repr

/-- The identity and the liveness fields of `VamanaWorkerShmem`. A pid of 0 is none, a heartbeat
of 0 was never beaten. Times are in microseconds. -/
structure ControlBlock where
  dbOid : Option Nat
  workerPid : Nat
  heartbeatTs : Nat
  stopRequested : Bool
  servicedRestartGeneration : Nat
  backoff : Backoff
deriving DecidableEq, Repr

/-- `VamanaWorkerResetEntryState` on a block without a database. -/
def ControlBlock.init : ControlBlock := ⟨none, 0, 0, false, 0, ⟨0, 0⟩⟩

/-- `TimestampDifferenceMilliseconds`, which rounds up. -/
def differenceMs (start stop : Nat) : Nat := (stop - start + 999) / 1000

/-- `TimestampDifferenceExceeds`. -/
def differenceExceeds (start stop ms : Nat) : Bool := decide (ms * 1000 ≤ stop - start)

/-- `VAMANA_HEARTBEAT_STALE_MS`. -/
def heartbeatStaleMs : Nat := 3000

/-- `VAMANA_ORPHAN_SLOT_GRACE_MS`. -/
def orphanSlotGraceMs : Nat := 5000

/-- `VAMANA_BACKOFF_DWELL_RESET_MS`. -/
def backoffDwellResetMs : Nat := 10000

/-- `VAMANA_RESTART_BACKOFF_CEILING_MS`. -/
def restartBackoffCeilingMs : Nat := 60000

/-- `VAMANA_BACKOFF_MAX_SHIFT`. -/
def backoffMaxShift : Nat := 20

/-- `VamanaHeartbeatIsStale`. -/
def vamanaHeartbeatIsStale (rawHb now : Nat) : Bool :=
  if rawHb = 0 then false else decide (heartbeatStaleMs < (now - rawHb) / 1000)

/-! ## The processes -/

/-- Where a worker process is in `VamanaWorkerMain`; from its claim on it holds the pointer to a
control block. -/
inductive Stage
  | registered
  | starting
  | claimed (block : Nat)
  | checked (block : Nat)
  | preparing (block : Nat)
  | serving (block : Nat)
  | draining (block : Nat)
deriving DecidableEq, Repr

def Stage.block : Stage → Option Nat
  | .registered => none
  | .starting => none
  | .claimed b => some b
  | .checked b => some b
  | .preparing b => some b
  | .serving b => some b
  | .draining b => some b

structure Proc where
  pid : Nat
  dbOid : Nat
  stage : Stage
  sigterm : Bool
deriving DecidableEq, Repr

/-- `BgwHandleStatus`. -/
inductive HandleStatus
  | notYetStarted
  | started
  | stopped
deriving DecidableEq, Repr

/-! ## The launcher's own state -/

/-- A row of `vamana_databases`. -/
structure Row where
  dbOid : Nat
  restartGeneration : Nat
  enabled : Bool
deriving DecidableEq, Repr

/-- `VamanaRestartState`. -/
structure RestartState where
  restarting : Bool
  servicedGeneration : Nat
  targetGeneration : Nat
  waitStarted : Nat
deriving DecidableEq, Repr

/-- `VamanaLauncherWorker`; the handle is named by the process it stands for. -/
structure LauncherWorker where
  dbOid : Nat
  handle : Nat
  startedTime : Nat
  restart : RestartState
deriving DecidableEq, Repr

/-- Where the launcher is in `VamanaLauncherReconcileWorkers`: the databases that a pass has still
to look at. -/
inductive LauncherPhase
  | idle
  | liveness (todo : List Nat)
  | terminating (todo : List Nat)
  | converging (todo : List Nat)
  | asking (todo reserved : List Nat)
  | releasing (todo : List Nat)
  | spawning (todo : List Nat)
deriving DecidableEq, Repr

/-- The launcher. The rows and the time are those its cycle has started with. -/
structure Launcher where
  rows : List Row
  now : Nat
  ledger : List LauncherWorker
  orphans : List (Nat × Nat)
  phase : LauncherPhase
deriving DecidableEq, Repr

/-- The settings that the modelled functions read. -/
structure Settings where
  maxDatabases : Nat
  restartBackoffMs : Nat
  stopTimeoutMs : Nat
deriving DecidableEq, Repr

/-- All processes and what they share. `enrolling` has the databases whose control block an open
transaction has reserved. -/
structure System where
  settings : Settings
  now : Nat
  table : List Row
  enrolling : List Nat
  blocks : Nat → ControlBlock
  procs : List Proc
  nextPid : Nat
  launcher : Launcher

/-- `VamanaRestartAction`. -/
inductive RestartAction
  | noop
  | terminate
  | wait
  | waitTimeout
  | respawn
deriving DecidableEq, Repr

/-- `VamanaStopReason`. -/
inductive StopReason
  | crash
  | disabled
  | removed
  | restartDrain
deriving DecidableEq, Repr

/-- `FindDatabaseRow`. -/
def findDatabaseRow (rows : List Row) (db : Nat) : Option Row := rows.find? fun r => r.dbOid = db

/-- `IsDatabaseEnabled`. -/
def isDatabaseEnabled (rows : List Row) (db : Nat) : Bool :=
  match findDatabaseRow rows db with
  | some row => row.enabled
  | none => false

/-- `ClassifyWorkerStop`. -/
def classifyWorkerStop (rows : List Row) (w : LauncherWorker) : StopReason :=
  match findDatabaseRow rows w.dbOid with
  | none => .removed
  | some row =>
    if !row.enabled then .disabled
    else if w.restart.restarting then .restartDrain
    else .crash

/-- `VamanaRestartStateAdvance`. -/
def vamanaRestartStateAdvance (stopTimeoutMs : Nat) (state : RestartState)
    (currentGeneration : Nat) (status : HandleStatus) (now : Nat) :
    RestartState × RestartAction :=
  if !state.restarting then
    if state.servicedGeneration = currentGeneration then (state, .noop)
    else
      ({ state with restarting := true, targetGeneration := currentGeneration, waitStarted := 0 },
        .terminate)
  else if status ≠ .stopped then
    let state := if state.waitStarted = 0 then { state with waitStarted := now } else state
    if differenceExceeds state.waitStarted now stopTimeoutMs then (state, .waitTimeout)
    else (state, .wait)
  else (state, .respawn)

/-- `BackoffThresholdMs`. -/
def backoffThresholdMs (restartBackoffMs consecutiveFailures : Nat) : Nat :=
  min (restartBackoffMs <<< min consecutiveFailures backoffMaxShift) restartBackoffCeilingMs

/-- Whether `BackoffRemainingMs` is over. -/
def backoffIsOver (restartBackoffMs : Nat) (b : Backoff) (now : Nat) : Bool :=
  b.lastAttemptTime = 0 ||
    backoffThresholdMs restartBackoffMs b.consecutiveFailures ≤ differenceMs b.lastAttemptTime now

namespace System

/-! ## The slots under the header lock -/

/-- `VamanaWorkerFindSlot`; `none` looks for a free one. -/
def findSlot (s : System) (key : Option Nat) : Option Nat :=
  (List.range s.settings.maxDatabases).find? fun i => (s.blocks i).dbOid = key

def setBlock (s : System) (i : Nat) (b : ControlBlock) : System :=
  { s with blocks := Function.update s.blocks i b }

def writeBlock (s : System) (i : Nat) (f : ControlBlock → ControlBlock) : System :=
  s.setBlock i { f (s.blocks i) with dbOid := (s.blocks i).dbOid }

def withEntry (s : System) (db : Nat) (f : ControlBlock → ControlBlock) : System :=
  match s.findSlot (some db) with
  | some i => s.writeBlock i f
  | none => s

/-- `VamanaWorkerReserveSlot`. -/
def vamanaWorkerReserveSlot (s : System) (db : Nat) : System × Option Nat :=
  match s.findSlot (some db) with
  | some i => (s, some i)
  | none =>
    match s.findSlot none with
    | some i => (s.setBlock i { s.blocks i with dbOid := some db }, some i)
    | none => (s, none)

/-- `VamanaWorkerReleaseSlot`. -/
def vamanaWorkerReleaseSlot (s : System) (db : Nat) : System :=
  match s.findSlot (some db) with
  | some i => s.setBlock i .init
  | none => s

/-- `VamanaWorkerEntryIsLive`. -/
def vamanaWorkerEntryIsLive (s : System) (i : Nat) : Bool :=
  decide ((s.blocks i).workerPid ≠ 0) &&
    s.procs.any (fun p => p.pid = (s.blocks i).workerPid && p.stage ≠ .registered) &&
    !vamanaHeartbeatIsStale (s.blocks i).heartbeatTs s.now

def databaseIsLive (s : System) (db : Nat) : Bool :=
  match s.findSlot (some db) with
  | some i => s.vamanaWorkerEntryIsLive i
  | none => false

/-! ## The handles -/

/-- `GetBackgroundWorkerPid`. -/
def handleStatus (s : System) (handle : Nat) : HandleStatus :=
  match s.procs.find? (fun p => p.pid = handle) with
  | some p => if p.stage = .registered then .notYetStarted else .started
  | none => .stopped

/-- `TerminateBackgroundWorker`. -/
def terminateBackgroundWorker (s : System) (handle : Nat) : System :=
  { s with procs := s.procs.map fun p => if p.pid = handle then { p with sigterm := true } else p }

def setLedger (s : System) (ledger : List LauncherWorker) : System :=
  { s with launcher := { s.launcher with ledger := ledger } }

/-- `FindLedgerEntry`. -/
def findLedgerEntry (s : System) (db : Nat) : Option LauncherWorker :=
  s.launcher.ledger.find? fun w => w.dbOid = db

def dropLedgerEntry (s : System) (db : Nat) : System :=
  s.setLedger (s.launcher.ledger.filter fun w => w.dbOid ≠ db)

def setLedgerEntry (s : System) (w : LauncherWorker) : System :=
  s.setLedger (s.launcher.ledger.map fun v => if v.dbOid = w.dbOid then w else v)

/-- A new process for a database, which the postmaster has not started yet. -/
def addProc (s : System) (db : Nat) : System :=
  { s with procs := s.procs ++ [⟨s.nextPid, db, .registered, false⟩], nextPid := s.nextPid + 1 }

/-- `RegisterDatabaseWorker`: the slot is reserved, and a process is registered if the postmaster
has room. -/
def registerDatabaseWorker (s : System) (registers : Bool) (db : Nat) : System × Option Nat :=
  match s.vamanaWorkerReserveSlot db with
  | (s, none) => (s, none)
  | (s, some _) =>
    if !registers then (s, none)
    else
      ((s.addProc db).withEntry db fun b =>
          { b with backoff := { b.backoff with lastAttemptTime := s.launcher.now } },
        some s.nextPid)

/-- `SpawnWorker`. -/
def spawnWorker (s : System) (registers : Bool) (row : Row) : System :=
  match s.registerDatabaseWorker registers row.dbOid with
  | (s, none) => s
  | (s, some handle) =>
    (s.setLedger (s.launcher.ledger ++
      [⟨row.dbOid, handle, 0, ⟨false, row.restartGeneration, row.restartGeneration, 0⟩⟩])).withEntry
        row.dbOid fun b => { b with servicedRestartGeneration := row.restartGeneration }

/-- `RespawnWorker`. -/
def respawnWorker (s : System) (registers : Bool) (w : LauncherWorker) (row : Row) : System :=
  match s.registerDatabaseWorker registers row.dbOid with
  | (s, none) => s
  | (s, some handle) =>
    (s.setLedgerEntry { w with
      handle := handle
      startedTime := 0
      restart := { w.restart with
        restarting := false
        servicedGeneration := w.restart.targetGeneration
        waitStarted := 0 } }).withEntry row.dbOid
          fun b => { b with servicedRestartGeneration := w.restart.targetGeneration }

/-! ## The passes of a cycle -/

/-- `ReconcileLedgerLiveness` for one entry. -/
def reconcileLedgerLiveness (s : System) (w : LauncherWorker) : System :=
  match s.handleStatus w.handle with
  | .notYetStarted => s
  | .started =>
    if w.startedTime = 0 then s.setLedgerEntry { w with startedTime := s.launcher.now } else s
  | .stopped =>
    match classifyWorkerStop s.launcher.rows w with
    | .restartDrain => s.withEntry w.dbOid fun b => { b with heartbeatTs := 0 }
    | .disabled =>
      (s.withEntry w.dbOid fun b => { b with backoff := ⟨0, 0⟩ }).dropLedgerEntry w.dbOid
    | .removed => (s.vamanaWorkerReleaseSlot w.dbOid).dropLedgerEntry w.dbOid
    | .crash =>
      let recovered := w.startedTime ≠ 0 ∧
        backoffDwellResetMs ≤ differenceMs w.startedTime s.launcher.now
      -- the death is recorded, and the dead worker's pid and heartbeat are cleared
      (s.withEntry w.dbOid fun b => { b with
        backoff := { b.backoff with
          consecutiveFailures := if recovered then 0 else b.backoff.consecutiveFailures + 1 }
        workerPid := 0
        heartbeatTs := 0 }).dropLedgerEntry w.dbOid

/-- `TerminateDisabledWorkers` for one entry. -/
def terminateDisabledWorkers (s : System) (w : LauncherWorker) : System :=
  if isDatabaseEnabled s.launcher.rows w.dbOid then s
  else if s.handleStatus w.handle = .started then s.terminateBackgroundWorker w.handle
  else s

/-- `ReconcileRestartConvergence` with `ExecuteRestartAction` for one entry. -/
def reconcileRestartConvergence (s : System) (registers : Bool) (w : LauncherWorker) : System :=
  match findDatabaseRow s.launcher.rows w.dbOid with
  | none => s
  | some row =>
    if !row.enabled then s
    else
      let (restart, action) := vamanaRestartStateAdvance s.settings.stopTimeoutMs w.restart
        row.restartGeneration (s.handleStatus w.handle) s.launcher.now
      let s := s.setLedgerEntry { w with restart := restart }
      match action with
      | .noop => s
      | .wait => s
      | .waitTimeout => s
      | .terminate => s.terminateBackgroundWorker w.handle
      | .respawn => s.respawnWorker registers { w with restart := restart } row

/-- `ReconcileUnledgeredWorkers` for one reserved database: a live worker that the launcher has no
handle for is asked to stop. -/
def reconcileUnledgeredWorkers (s : System) (db : Nat) : System :=
  if (s.findLedgerEntry db).isSome then s
  else if !s.databaseIsLive db then s
  else
    s.withEntry db fun b =>
      match findDatabaseRow s.launcher.rows db with
      | some row =>
        if !row.enabled || decide (row.restartGeneration ≠ b.servicedRestartGeneration) then
          { b with stopRequested := true }
        else b
      | none => { b with stopRequested := true }

/-- When the launcher has first seen a database without a row. -/
def firstSeenOrphaned (s : System) (db : Nat) : Nat :=
  match s.launcher.orphans.find? fun c => c.1 = db with
  | some c => c.2
  | none => s.launcher.now

/-- A reserved database without a row is past its grace. -/
def OrphanIsDue (s : System) (db : Nat) : Prop :=
  findDatabaseRow s.launcher.rows db = none ∧
    differenceExceeds (s.firstSeenOrphaned db) s.launcher.now orphanSlotGraceMs = true

deriving instance Decidable for System.OrphanIsDue

def setOrphans (s : System) (orphans : List (Nat × Nat)) : System :=
  { s with launcher := { s.launcher with orphans := orphans } }

/-- `ReleaseOrphanedReservedSlots` for one reserved database. -/
def releaseOrphanedReservedSlots (s : System) (db : Nat) : System :=
  if (findDatabaseRow s.launcher.rows db).isSome then s
  else
    let others := s.launcher.orphans.filter fun c => c.1 ≠ db
    if s.OrphanIsDue db then
      if s.databaseIsLive db then s.setOrphans ((db, s.firstSeenOrphaned db) :: others)
      else (s.vamanaWorkerReleaseSlot db).setOrphans others
    else s.setOrphans ((db, s.firstSeenOrphaned db) :: others)

/-- The spawn loop for one enabled row. -/
def spawnDiff (s : System) (registers : Bool) (db : Nat) : System :=
  match findDatabaseRow s.launcher.rows db with
  | none => s
  | some row =>
    if (s.findLedgerEntry db).isSome then s
    else if s.databaseIsLive db then s
    else
      let backoff := match s.findSlot (some db) with
        | some i => (s.blocks i).backoff
        | none => ⟨0, 0⟩
      if backoffIsOver s.settings.restartBackoffMs backoff s.launcher.now then
        s.spawnWorker registers row
      else s

/-- `CollectReservedDbOids`. -/
def collectReservedDbOids (s : System) : List Nat :=
  (List.range s.settings.maxDatabases).filterMap fun i => (s.blocks i).dbOid

def goTo (s : System) (phase : LauncherPhase) : System :=
  { s with launcher := { s.launcher with phase := phase } }

/-- One step of `VamanaLauncherReconcileWorkers`: the pass that it is in looks at one database, or
the next pass begins. -/
def launch (s : System) (registers : Bool) : System :=
  match s.launcher.phase with
  | .idle => s
  | .liveness [] => s.goTo (.terminating (s.launcher.ledger.map (·.dbOid)))
  | .liveness (db :: todo) =>
    match s.findLedgerEntry db with
    | some w => (s.reconcileLedgerLiveness w).goTo (.liveness todo)
    | none => s.goTo (.liveness todo)
  | .terminating [] => s.goTo (.converging (s.launcher.ledger.map (·.dbOid)))
  | .terminating (db :: todo) =>
    match s.findLedgerEntry db with
    | some w => (s.terminateDisabledWorkers w).goTo (.terminating todo)
    | none => s.goTo (.terminating todo)
  | .converging [] => s.goTo (.asking s.collectReservedDbOids s.collectReservedDbOids)
  | .converging (db :: todo) =>
    match s.findLedgerEntry db with
    | some w => (s.reconcileRestartConvergence registers w).goTo (.converging todo)
    | none => s.goTo (.converging todo)
  | .asking [] reserved =>
    -- a candidate that has a row again or is not reserved any more starts over
    (s.setOrphans (s.launcher.orphans.filter fun c =>
      (findDatabaseRow s.launcher.rows c.1).isNone && reserved.contains c.1)).goTo
        (.releasing reserved)
  | .asking (db :: todo) reserved => (s.reconcileUnledgeredWorkers db).goTo (.asking todo reserved)
  | .releasing [] =>
    s.goTo (.spawning ((s.launcher.rows.filter (·.enabled)).map (·.dbOid)))
  | .releasing (db :: todo) => (s.releaseOrphanedReservedSlots db).goTo (.releasing todo)
  | .spawning [] => s.goTo .idle
  | .spawning (db :: todo) => (s.spawnDiff registers db).goTo (.spawning todo)

/-! ## The worker processes -/

def setStage (s : System) (pid : Nat) (stage : Stage) : System :=
  { s with procs := s.procs.map fun p => if p.pid = pid then { p with stage := stage } else p }

def exitProc (s : System) (pid : Nat) : System :=
  { s with procs := s.procs.filter fun p => p.pid ≠ pid }

/-- `VamanaWorkerDrainAndStop` begins: `workerPid` is cleared before the last sweep. -/
def beginDrain (s : System) (p : Proc) (i : Nat) : System :=
  (s.writeBlock i fun b => { b with workerPid := 0 }).setStage p.pid (.draining i)

/-- The next step of `VamanaWorkerMain`. A shutdown may cancel a worker that is not serving
yet. -/
def workerStep (s : System) (p : Proc) (cancelled : Bool) : System :=
  match p.stage with
  | .registered => if p.sigterm then s.exitProc p.pid else s.setStage p.pid .starting
  | .starting =>
    match s.vamanaWorkerReserveSlot p.dbOid with
    | (s, some i) => s.setStage p.pid (.claimed i)
    | (s, none) => s.exitProc p.pid
  | .claimed i =>
    if s.vamanaWorkerEntryIsLive i then s.exitProc p.pid else s.setStage p.pid (.checked i)
  | .checked i =>
    (s.writeBlock i fun b =>
      { b with workerPid := 0, heartbeatTs := 0, stopRequested := false }).setStage p.pid
        (.preparing i)
  | .preparing i =>
    if p.sigterm && cancelled then s.beginDrain p i
    else (s.writeBlock i fun b => { b with workerPid := p.pid }).setStage p.pid (.serving i)
  | .serving i =>
    if (p.sigterm && cancelled) || (s.blocks i).stopRequested then s.beginDrain p i
    else s.writeBlock i fun b => { b with heartbeatTs := s.now }
  | .draining i => (s.writeBlock i fun b => { b with heartbeatTs := 0 }).exitProc p.pid

/-- A heartbeat between two final checkpoints. -/
def beat (s : System) (p : Proc) : System :=
  match p.stage with
  | .draining i => s.writeBlock i fun b => { b with heartbeatTs := s.now }
  | _ => s

/-! ## The runs -/

def setRow (s : System) (row : Row) : System :=
  { s with
    table := row :: s.table.filter fun r => r.dbOid ≠ row.dbOid
    enrolling := s.enrolling.filter (· ≠ row.dbOid) }

/-- An open transaction reserves the slot of a database, and remembers whether it was free. -/
def enroll (s : System) (db : Nat) : System :=
  if (s.findSlot (some db)).isSome then s
  else
    match s.vamanaWorkerReserveSlot db with
    | (s, some _) => { s with enrolling := db :: s.enrolling }
    | (s, none) => s

/-- The transaction aborts and releases what it has reserved. -/
def abortEnroll (s : System) (db : Nat) : System :=
  if db ∈ s.enrolling then
    { s.vamanaWorkerReleaseSlot db with enrolling := s.enrolling.filter (· ≠ db) }
  else s

/-- The launcher starts a cycle with the rows that it reads. -/
def wake (s : System) : System :=
  if s.launcher.phase = .idle then
    { s with launcher := { s.launcher with
      rows := s.table
      now := s.now
      phase := .liveness (s.launcher.ledger.map (·.dbOid)) } }
  else s

/-- A new launcher process, with nothing of what the last one knew. It reserves the slots of the
enabled databases. -/
def restartLauncher (s : System) : System :=
  ((s.table.filter (·.enabled)).map (·.dbOid)).foldl
    (fun s db => (s.vamanaWorkerReserveSlot db).1)
    { s with launcher := ⟨[], s.now, [], [], .idle⟩ }

end System

/-- What may happen next. -/
inductive Event
  | tick (us : Nat)
  | enroll (db : Nat)
  | abortEnroll (db : Nat)
  | setRow (row : Row)
  | deleteRow (db : Nat)
  | wake
  | launch (registers : Bool)
  | restartLauncher
  | worker (pid : Nat) (cancelled : Bool)
  | beat (pid : Nat)
  | exit (pid : Nat)
deriving DecidableEq, Repr

namespace System

def findProc (s : System) (pid : Nat) : Option Proc := s.procs.find? fun p => p.pid = pid

def step (s : System) : Event → System
  | .tick us => { s with now := s.now + us }
  | .enroll db => s.enroll db
  | .abortEnroll db => s.abortEnroll db
  | .setRow row => s.setRow row
  | .deleteRow db => { s with table := s.table.filter fun r => r.dbOid ≠ db }
  | .wake => s.wake
  | .launch registers => s.launch registers
  | .restartLauncher => s.restartLauncher
  | .worker pid cancelled =>
    match s.findProc pid with
    | some p => s.workerStep p cancelled
    | none => s
  | .beat pid =>
    match s.findProc pid with
    | some p => s.beat p
    | none => s
  | .exit pid => s.exitProc pid

def init (settings : Settings) (now : Nat) : System :=
  ⟨settings, now, [], [], fun _ => .init, [], 1, ⟨[], 0, [], [], .idle⟩⟩

end System

end svs_vamana.launcher
