-- Restart convergence: a bump of the restart generation is serviced by a worker that was registered
-- after a cycle has read it, with no more signals than bumps.
import SvsVamana.RestartMoves

namespace svs_vamana.restart_convergence

open launcher transition_runs serving_worker launcher_cycles restart_moves System List Option

/-! ## The history of a run -/

/-- The history: the registered workers with the generation that was read for each, the generations
read in the place of another, and those of the requests to stop. -/
structure Watched where
  sys : System
  registered : List (Nat × Option Nat)
  changes : List (Option Nat)
  terminations : List (Option Nat)

/-- The step calls `TerminateBackgroundWorker` for the database. -/
def terminates (db : Nat) (s : System) : Event → Bool
  | .launch _ =>
    match s.launcher.phase, s.findLedgerEntry db with
    | .terminating (d :: _), some w =>
      d = db && !isDatabaseEnabled s.launcher.rows db && s.handleStatus w.handle = .started
    | .converging (d :: _), some w =>
      d = db && (findDatabaseRow s.launcher.rows db).any fun row =>
        row.enabled && (vamanaRestartStateAdvance s.settings.stopTimeoutMs w.restart
          row.restartGeneration (s.handleStatus w.handle) s.launcher.now).2 = .terminate
    | _, _ => false
  | _ => false

/-- The generation that a cycle reads when the last one has read another. -/
def changed (db : Nat) (s : System) (e : Event) : List (Option Nat) :=
  if e = .wake ∧ s.launcher.phase = .idle ∧ generation s.launcher.rows db ≠ none ∧
      generation s.launcher.rows db ≠ generation s.table db then
    [generation s.table db]
  else []

def watch (db : Nat) (x : Watched) (e : Event) : Watched :=
  let sys := x.sys.step e
  { sys
    registered := x.registered ++ (sys.procs.filter fun p => x.sys.nextPid ≤ p.pid).map fun p =>
      (p.pid, generation sys.launcher.rows p.dbOid)
    changes := x.changes ++ changed db x.sys e
    terminations := x.terminations ++
      if terminates db x.sys e then [generation x.sys.launcher.rows db] else [] }

def start (settings : Settings) (now : Nat) : Watched := ⟨init settings now, [], [], []⟩

/-- The worker of the entry was registered by a cycle that had read the generation which the entry
has as serviced, or a later one. -/
def ServicedByNewer (db : Nat) (x : Watched) : Prop :=
  ∀ w, x.sys.findLedgerEntry db = some w →
    ∃ g, (w.handle, some g) ∈ x.registered ∧ w.restart.servicedGeneration ≤ g

/-- Every request to stop belongs to a change of its own, in the order of the changes. -/
def TerminatesPerChange (x : Watched) : Prop := x.terminations.Sublist x.changes

/-! ## The history is kept -/

/-- The generation that the worker has or is on its way to. -/
def aim (restart : RestartState) : Nat :=
  if restart.restarting then restart.targetGeneration else restart.servicedGeneration

structure History (db : Nat) (x : Watched) : Prop where
  inv : Inv db x.sys
  registered : ∀ w ∈ x.sys.launcher.ledger, ∃ g, (w.handle, some g) ∈ x.registered ∧
    w.restart.servicedGeneration ≤ g
  terminations : x.terminations.Sublist x.changes
  pending : ∀ w ∈ x.sys.launcher.ledger, ∀ g, generation x.sys.launcher.rows db = some g →
    aim w.restart ≠ g → (x.terminations ++ [some g]).Sublist x.changes

theorem history_start (db : Nat) (settings : Settings) (now : Nat) :
    History db (start settings now) where
  inv := inv_init db settings now
  registered := by simp [start, init]
  terminations := Sublist.slnil
  pending := by simp [start, init]

variable {db : Nat} {x : Watched} {e : Event} {w : LauncherWorker}

theorem mem_registered (h : Inv db (x.sys.step e)) (hl : (x.sys.step e).launcher.ledger = [w])
    (hh : w.handle = x.sys.nextPid)
    (hp : (x.sys.step e).procs = [⟨x.sys.nextPid, db, .registered, false⟩]) :
    ∃ g, (w.handle, some g) ∈ (watch db x e).registered ∧ w.restart.servicedGeneration ≤ g := by
  obtain ⟨g, hg⟩ := h.read (by simp [hl])
  refine ⟨g, ?_, (h.serviced w (by simp [hl]) g hg).1⟩
  simp [watch, hp, hh, hg]

theorem History.registers (h : History db x) (hs : Serving db x.sys e) :
    ∀ w ∈ (x.sys.step e).launcher.ledger, ∃ g, (w.handle, some g) ∈ (watch db x e).registered ∧
      w.restart.servicedGeneration ≤ g := by
  have hinv := inv_step x.sys e h.inv hs
  -- an entry with an old handle finds its worker where it was
  have hold : ∀ {w w' : LauncherWorker}, w ∈ x.sys.launcher.ledger → w'.handle = w.handle →
      w'.restart.servicedGeneration = w.restart.servicedGeneration →
      ∃ g, (w'.handle, some g) ∈ (watch db x e).registered ∧
        w'.restart.servicedGeneration ≤ g := by
    intro w w' hw hh hse
    obtain ⟨g, hg, hle⟩ := h.registered w hw
    rw [hh, hse]
    exact ⟨g, mem_append_left _ hg, hle⟩
  cases step_moves h.inv hs with
  | stays ledger _ _ =>
    rw [ledger]
    exact fun w hw => hold hw rfl rfl
  | @marks w w' ledger marked =>
    rw [marked.ledger]
    intro v hv
    rw [mem_singleton.mp hv]
    exact hold (w := w) (by simp [ledger]) marked.alike.handle marked.alike.serviced
  | drops _ _ _ ledger' _ _ =>
    rw [ledger']
    exact fun w hw => by cases hw
  | @terminates w w' g ledger _ _ _ terminated =>
    rw [terminated.ledger]
    intro v hv
    rw [mem_singleton.mp hv]
    exact hold (w := w) (by simp [ledger]) terminated.handle (by rw [terminated.restart])
  | respawns _ _ ledger' entry registered | spawns _ _ ledger' entry registered =>
    intro v hv
    rw [ledger', mem_singleton] at hv
    subst hv
    exact mem_registered hinv ledger' entry.handle registered.procs

variable {g : Nat}

theorem advance_terminate {timeout now : Nat} {state : RestartState} {status : HandleStatus}
    (h : (vamanaRestartStateAdvance timeout state g status now).2 = .terminate) :
    state.restarting = false ∧ state.servicedGeneration ≠ g := by
  have ha := advance_cases timeout state g status now
  generalize vamanaRestartStateAdvance timeout state g status now = advanced at h ha
  cases ha with
  | level _ _ => cases h
  | behind restarting behind => exact ⟨restarting, behind⟩
  | waits _ _ _ waits =>
    obtain rfl | rfl := waits
    · cases h
    · cases h
  | stopped _ _ => cases h

variable {s : System}

/-- A request to stop comes from the convergence pass, which has the entry behind what was read and
leaves it on its way there. -/
theorem terminates_spec (h : Inv db s) (ht : terminates db s e = true) :
    ∃ w w' g, s.launcher.ledger = [w] ∧ generation s.launcher.rows db = some g ∧
      aim w.restart ≠ g ∧ (s.step e).launcher.ledger = [w'] ∧ aim w'.restart = g ∧
      (s.step e).launcher.rows = s.launcher.rows := by
  cases e with
  | launch registers =>
    have hrows := (launch_rows s registers).rows
    obtain hl | ⟨w, hl, hdb⟩ := h.ledger
    · simp [terminates, findLedgerEntry, hl] at ht
    obtain ⟨g, hg⟩ := h.read (by simp [hl])
    obtain ⟨row, hrow, -, hen, hro⟩ := h.row hg
    have hent := findLedgerEntry_of hl hdb
    cases hp : s.launcher.phase with
    | terminating todo =>
      cases todo with
      | nil => simp [terminates, hp] at ht
      | cons d todo =>
        simp [terminates, hp, hent, isDatabaseEnabled, hrow, hen] at ht
    | converging todo =>
      cases todo with
      | nil => simp [terminates, hp] at ht
      | cons d todo =>
        simp only [terminates, hp, hent, hrow, hen, any_some, Bool.true_and,
          Bool.and_eq_true, decide_eq_true_eq, hro] at ht
        obtain ⟨rfl, ha⟩ := ht
        have hs : s.step (.launch registers) =
            (s.reconcileRestartConvergence registers w).goTo (.converging todo) := by
          simp only [step, launch, hp, hent]
        obtain ⟨hr, hbe⟩ := advance_terminate ha
        cases converges h hl hdb hg registers with
        | @terminates w' _ _ terminated =>
          refine ⟨w, w', g, hl, hg, by simpa [aim, hr] using hbe, ?_, ?_, hrows⟩
          · rw [hs]
            exact terminated.ledger
          · simp [aim, terminated.restart]
        | level _ level _ => exact absurd level hbe
        | waits restarting _ _ | fails restarting _ _ _ | respawns restarting _ _ _ =>
          simp [hr] at restarting
    | _ => simp [terminates, hp] at ht
  | _ => simp [terminates] at ht

variable {s' : System} {w' : LauncherWorker}

/-- What a step leaves the entry on its way to, unless the step reads anew: what it was on its way
to, or what was read. -/
theorem aim_moves (hm : Moves db s s') (hw' : w' ∈ s'.launcher.ledger) :
    (∃ w ∈ s.launcher.ledger, aim w.restart = aim w'.restart) ∨
      generation s.launcher.rows db = some (aim w'.restart) := by
  cases hm with
  | stays ledger _ _ =>
    rw [ledger] at hw'
    exact .inl ⟨w', hw', rfl⟩
  | @marks w v ledger marked =>
    rw [marked.ledger, mem_singleton] at hw'
    subst hw'
    have ha := marked.alike
    refine .inl ⟨w, by simp [ledger], ?_⟩
    rw [aim, aim, ha.restarting, ha.serviced, ha.target]
  | drops _ _ _ ledger' _ _ =>
    rw [ledger'] at hw'
    cases hw'
  | @terminates w v g _ _ read _ terminated =>
    rw [terminated.ledger, mem_singleton] at hw'
    subst hw'
    refine .inr ?_
    rw [read, terminated.restart]
    rfl
  | @respawns w v ledger restarting ledger' entry _ =>
    rw [ledger', mem_singleton] at hw'
    subst hw'
    refine .inl ⟨w, by simp [ledger], ?_⟩
    simp [aim, restarting, entry.restarting, entry.serviced]
  | @spawns v g _ read ledger' entry _ =>
    rw [ledger', mem_singleton] at hw'
    subst hw'
    refine .inr ?_
    simp [aim, read, entry.restarting, entry.serviced]

theorem wake_rows (hi : s.launcher.phase = .idle) :
    (s.step .wake).launcher.rows = s.table ∧
      (s.step .wake).launcher.ledger = s.launcher.ledger := by
  simp [step, wake, hi]

theorem step_beside (hs : Serving db s e) (hw : e ≠ .wake)
    (hl : ¬ ∃ registers, e = .launch registers) : (s.step e).launcher = s.launcher := by
  have hr : e ≠ .restartLauncher := by
    rintro rfl
    exact hs
  exact (deliberate_stop.step_aside s hw hr fun registers heq =>
    hl ⟨registers, heq⟩).launcher

theorem step_rows (hs : Serving db s e) (hr : ¬ (e = .wake ∧ s.launcher.phase = .idle)) :
    (s.step e).launcher.rows = s.launcher.rows := by
  by_cases hw : e = .wake
  · subst hw
    have hbu : s.launcher.phase ≠ .idle := fun hi => hr ⟨rfl, hi⟩
    simp [step, wake, hbu]
  · by_cases hl : ∃ registers, e = .launch registers
    · obtain ⟨registers, rfl⟩ := hl
      exact (launch_rows s registers).rows
    · rw [step_beside hs hw hl]

/-- A cycle that begins: an entry that is behind what is read has a change for it. -/
theorem History.pending_wake (h : History db x) (hi : x.sys.launcher.phase = .idle)
    (hw : w ∈ x.sys.launcher.ledger) (hg : generation x.sys.table db = some g)
    (hbe : aim w.restart ≠ g) :
    (x.terminations ++ [some g]).Sublist (x.changes ++ changed db x.sys .wake) := by
  obtain ⟨g', hg'⟩ := h.inv.read (ne_nil_of_mem hw)
  by_cases heq : g' = g
  · subst heq
    exact (h.pending w hw g' hg' hbe).trans (sublist_append_left _ _)
  have hc : changed db x.sys .wake = [some g] := by
    simp [changed, hi, hg', hg, heq]
  rw [hc]
  exact h.terminations.append (Sublist.refl _)

theorem history_step (x : Watched) (e : Event) (h : History db x)
    (hs : Serving db x.sys e) : History db (watch db x e) := by
  have hinv := inv_step x.sys e h.inv hs
  have hgr : x.changes.Sublist (watch db x e).changes := sublist_append_left _ _
  cases ht : terminates db x.sys e with
  | true =>
    obtain ⟨w, w', g, hl, hg, hbe, hl', haim, hro⟩ := terminates_spec h.inv ht
    have hte : (watch db x e).terminations = x.terminations ++ [some g] := by
      simp [watch, ht, hg]
    refine ⟨hinv, h.registers hs, ?_, ?_⟩
    · rw [hte]
      exact (h.pending w (by simp [hl]) g hg hbe).trans hgr
    · intro v hv g' hg' hne
      have hv' : v ∈ (x.sys.step e).launcher.ledger := hv
      rw [hl', mem_singleton] at hv'
      subst hv'
      have hr : generation (x.sys.step e).launcher.rows db = some g' := hg'
      rw [hro, hg, some.injEq] at hr
      exact absurd (haim.trans hr) hne
  | false =>
    have hte : (watch db x e).terminations = x.terminations := by simp [watch, ht]
    refine ⟨hinv, h.registers hs, ?_, ?_⟩
    · rw [hte]
      exact h.terminations.trans hgr
    · rw [hte]
      intro v hv g hg hne
      by_cases hr : e = .wake ∧ x.sys.launcher.phase = .idle
      · obtain ⟨rfl, hi⟩ := hr
        obtain ⟨hro, hle⟩ := wake_rows hi
        have hv' : v ∈ (x.sys.step .wake).launcher.ledger := hv
        have hg' : generation (x.sys.step .wake).launcher.rows db = some g := hg
        rw [hle] at hv'
        rw [hro] at hg'
        exact h.pending_wake hi hv' hg' hne
      · have hg' : generation (x.sys.step e).launcher.rows db = some g := hg
        rw [step_rows hs hr] at hg'
        obtain ⟨w, hw, haim⟩ | haim := aim_moves (step_moves h.inv hs) hv
        · exact (h.pending w hw g hg' (haim ▸ hne)).trans hgr
        · rw [haim, some.injEq] at hg'
          exact absurd hg' hne

theorem History.serviced (h : History db x) : ServicedByNewer db x :=
  fun w hw => h.registered w (deliberate_stop.findLedgerEntry_some hw).1

/-! ## Cycles without end -/

/-- Each cycle begins with a read of the rows and is over when the next one begins; the database is
enabled when the first one begins. -/
structure CycleRun (db : Nat) (settings : Settings) (now : Nat) where
  first : List Event
  cycles : Nat → List Event
  serving_first : EachStep (watch db) (fun x => Serving db x.sys) (start settings now) first
  serving : ∀ k, EachStep (watch db) (fun x => Serving db x.sys)
    (rounds (watch db) (run (watch db) (start settings now) first) cycles k) (cycles k)
  enabled : isDatabaseEnabled (run (watch db) (start settings now) first).sys.table db = true
  wakes : ∀ k, (cycles k).head? = some .wake
  idle : ∀ k, (rounds (watch db) (run (watch db) (start settings now) first)
    cycles k).sys.launcher.phase = .idle

def CycleRun.state {settings : Settings} {now : Nat} (r : CycleRun db settings now) :
    Nat → Watched :=
  rounds (watch db) (run (watch db) (start settings now) r.first) r.cycles

def Unbumped (db : Nat) (s : System) (e : Event) : Prop :=
  generation (s.step e).table db = generation s.table db

/-- No worker goes that was not signalled. -/
def Calm (s : System) (e : Event) : Prop :=
  ∀ p ∈ s.procs, p.sigterm = false → ∃ q ∈ (s.step e).procs, q.pid = p.pid

/-- A registration succeeds if the step makes one. -/
def Registers (db : Nat) (s : System) (e : Event) : Prop :=
  ∀ registers, e = .launch registers → (s.registerDatabaseWorker registers db).2 ≠ none

/-- The generation stops changing, signalled workers stop, registrations succeed again and again,
workers stop crashing, and the clock goes on. -/
structure Settles {settings : Settings} {now : Nat} (r : CycleRun db settings now) : Prop where
  unbumped : ∃ k, ∀ n, k ≤ n →
    EachStep (watch db) (fun x => Unbumped db x.sys) (r.state n) (r.cycles n)
  stops : ∀ n, ∀ p ∈ (r.state n).sys.procs, p.sigterm = true →
    ∃ m, n ≤ m ∧ ∀ q ∈ (r.state m).sys.procs, q.pid ≠ p.pid
  registers : ∀ n, ∃ m, n ≤ m ∧
    EachStep (watch db) (fun x => Registers db x.sys) (r.state m) (r.cycles m)
  calm : ∃ k, ∀ n, k ≤ n → EachStep (watch db) (fun x => Calm x.sys) (r.state n) (r.cycles n)
  clock : ∀ t, ∃ n, t ≤ (r.state n).sys.now

/-- The postmaster starts the workers that are registered. -/
def Starts {settings : Settings} {now : Nat} (r : CycleRun db settings now) : Prop :=
  ∀ n, ∀ p ∈ (r.state n).sys.procs, p.stage = .registered →
    ∃ m, n ≤ m ∧ ∀ q ∈ (r.state m).sys.procs, q.pid = p.pid → q.stage ≠ .registered

def Converged (db : Nat) (x : Watched) : Prop :=
  ∃ w, x.sys.findLedgerEntry db = some w ∧
    generation x.sys.table db = some w.restart.servicedGeneration ∧
    x.sys.handleStatus w.handle ≠ .stopped

def Running (db : Nat) (x : Watched) : Prop :=
  ∃ w, x.sys.findLedgerEntry db = some w ∧
    generation x.sys.table db = some w.restart.servicedGeneration ∧
    x.sys.handleStatus w.handle = .started

/-! ## The way to convergence -/

/-- What is read is what is in the table. -/
structure Settled (db g : Nat) (s : System) : Prop where
  inv : Inv db s
  table : generation s.table db = some g
  rows : generation s.launcher.rows db = some g

theorem settled_step (h : Settled db g s) (hs : Serving db s e) (hu : Unbumped db s e) :
    Settled db g (s.step e) where
  inv := inv_step s e h.inv hs
  table := hu.trans h.table
  rows := by
    by_cases hr : e = .wake ∧ s.launcher.phase = .idle
    · obtain ⟨rfl, hi⟩ := hr
      rw [(wake_rows hi).1]
      exact h.table
    · rw [step_rows hs hr]
      exact h.rows

/-- How far an entry is from its generation: a crashed worker is dropped and spawned anew, one that
is behind is signalled, drains and is replaced. -/
def rankOf (g : Nat) (w : LauncherWorker) (stopped : Bool) : Nat :=
  if w.restart.restarting then
    if w.restart.targetGeneration = g then
      if stopped then 2 else 3
    else
      if stopped then 6 else 7
  else if stopped then 4
  else if w.restart.servicedGeneration = g then 0 else 5

def rank (g : Nat) (s : System) : Nat :=
  match s.launcher.ledger with
  | [] => 1
  | w :: _ => rankOf g w s.procs.isEmpty

theorem rank_nil (hl : s.launcher.ledger = []) : rank g s = 1 := by
  simp [rank, hl]

theorem rank_entry (hl : s.launcher.ledger = [w]) : rank g s = rankOf g w s.procs.isEmpty := by
  simp [rank, hl]

/-- The rank falls, or handle and stamps are as they were. -/
def Falls (g : Nat) (s s' : System) : Prop :=
  rank g s' < rank g s ∨ rank g s' = rank g s ∧
    (s'.launcher.ledger.map fun w => w.handle) = (s.launcher.ledger.map fun w => w.handle) ∧
    ∀ t, Stamped t s → Stamped t s'

theorem Falls.refl (g : Nat) (s : System) : Falls g s s := .inr ⟨rfl, rfl, fun _ h => h⟩

theorem Falls.le (h : Falls g s s') : rank g s' ≤ rank g s := by
  obtain h | ⟨h, -⟩ := h <;> omega

theorem Falls.trans {s'' : System} (h : Falls g s s') (h' : Falls g s' s'') : Falls g s s'' := by
  obtain hlt | ⟨heq, hh, hs⟩ := h
  · exact .inl (Nat.lt_of_le_of_lt h'.le hlt)
  · obtain hlt' | ⟨heq', hh', hs'⟩ := h'
    · exact .inl (heq ▸ hlt')
    · exact .inr ⟨heq'.trans heq, hh'.trans hh, fun t ht => hs' t (hs t ht)⟩

theorem terminated_falls (ledger : s.launcher.ledger = [w])
    (restarting : w.restart.restarting = false) (behind : w.restart.servicedGeneration ≠ g)
    (terminated : Terminated s s' w w' g) : rank g s' < rank g s := by
  rw [rank_entry ledger, rank_entry terminated.ledger, terminated.procs]
  by_cases hp : s.procs = [] <;>
    simp [rankOf, restarting, behind, terminated.restart, hp]

theorem respawned_falls (ledger : s.launcher.ledger = [w])
    (restarting : w.restart.restarting = true) (ledger' : s'.launcher.ledger = [w'])
    (entry : NewEntry db s w' w.restart.targetGeneration) (registered : Registered db s s') :
    rank g s' < rank g s := by
  rw [rank_entry ledger, rank_entry ledger', registered.before, registered.procs]
  by_cases ht : w.restart.targetGeneration = g <;>
    simp [rankOf, restarting, entry.restarting, entry.serviced, ht]

theorem spawned_rank (ledger' : s'.launcher.ledger = [w']) (entry : NewEntry db s w' g)
    (registered : Registered db s s') : rank g s' = 0 := by
  rw [rank_entry ledger', registered.procs]
  simp [rankOf, entry.restarting, entry.serviced]

theorem moves_falls (hm : Moves db s s') (h : Settled db g s)
    (hc : ∀ p ∈ s.procs, p.sigterm = false → s'.procs ≠ []) : Falls g s s' := by
  cases hm with
  | stays ledger procs stamps =>
    have hs : rank g s' = rank g s → Falls g s s' := fun heq => .inr ⟨heq, by rw [ledger], stamps⟩
    obtain hl | ⟨w, hl, -⟩ := h.inv.ledger
    · exact hs (by rw [rank_nil hl, rank_nil (ledger.trans hl)])
    have hr := rank_entry (g := g) hl
    have hr' := rank_entry (g := g) (ledger.trans hl)
    by_cases hpr : s.procs = []
    · have hpr' : s'.procs = [] := by
        apply eq_nil_iff_forall_not_mem.mpr
        intro p hp
        obtain ⟨q, hq, -⟩ := procs p hp
        rw [hpr] at hq
        cases hq
      exact hs (by rw [hr, hr', hpr, hpr'])
    · by_cases hpr' : s'.procs = []
      · -- only a signalled worker may go, and then a restart is in flight
        obtain ⟨p, hp⟩ := exists_mem_of_ne_nil _ hpr
        have hre : w.restart.restarting = true := by
          by_contra hnot
          have hsig := (h.inv.pid hl hp).2
          exact hc p hp (hsig.trans (by simpa using hnot)) hpr'
        refine .inl ?_
        rw [hr, hr', hpr']
        by_cases ht : w.restart.targetGeneration = g <;>
          simp [rankOf, hre, ht, hpr]
      · exact hs (by rw [hr, hr', isEmpty_eq_false_iff.mpr hpr, isEmpty_eq_false_iff.mpr hpr'])
  | @marks w w' ledger marked =>
    have ha := marked.alike
    refine .inr ⟨?_, ?_, marked.stamps⟩
    · rw [rank_entry ledger, rank_entry marked.ledger, marked.procs, rankOf, rankOf,
        ha.restarting, ha.serviced, ha.target]
    · simp [ledger, marked.ledger, ha.handle]
  | drops ledger restarting procs ledger' _ _ =>
    refine .inl ?_
    rw [rank_entry ledger, rank_nil ledger', procs]
    simp [rankOf, restarting]
  | @terminates w w' g' ledger restarting read behind terminated =>
    obtain rfl : g' = g := some.inj (read.symm.trans h.rows)
    exact .inl (terminated_falls ledger restarting behind terminated)
  | respawns ledger restarting ledger' entry registered =>
    exact .inl (respawned_falls ledger restarting ledger' entry registered)
  | @spawns w' g' ledger read ledger' entry registered =>
    obtain rfl : g' = g := some.inj (read.symm.trans h.rows)
    refine .inl ?_
    rw [rank_nil ledger, spawned_rank ledger' entry registered]
    omega

theorem step_falls (h : Settled db g s) (hs : Serving db s e) (hc : Calm s e) :
    Falls g s (s.step e) := by
  refine moves_falls (step_moves h.inv hs) h fun p hp hsig => ?_
  obtain ⟨q, hq, -⟩ := hc p hp hsig
  exact ne_nil_of_mem hq

/-! ## The passes that are still to come -/

theorem step_phase (hs : Serving db s e) (hbu : s.launcher.phase ≠ .idle) :
    (∃ registers, e = .launch registers) ∨ (s.step e).launcher.phase = s.launcher.phase := by
  by_cases hl : ∃ registers, e = .launch registers
  · exact .inl hl
  refine .inr ?_
  by_cases hw : e = .wake
  · subst hw
    simp [step, wake, hbu]
  · rw [step_beside hs hw hl]

def beforeLiveness (db : Nat) : LauncherPhase → Prop
  | .liveness todo => db ∈ todo
  | _ => False

def beforeConvergence (db : Nat) : LauncherPhase → Prop
  | .liveness _ => True
  | .terminating _ => True
  | .converging todo => db ∈ todo
  | _ => False

def beforeSpawn (db : Nat) : LauncherPhase → Prop
  | .idle => False
  | .spawning todo => db ∈ todo
  | _ => True

/-- A pass that is to come is still to come after a step of the launcher, or the step is the one in
which it looks at the database. -/
theorem beforeLiveness_next (h : beforeLiveness db s.launcher.phase) :
    (∃ todo, s.launcher.phase = .liveness (db :: todo)) ∨ beforeLiveness db (nextPhase s) := by
  unfold nextPhase
  cases hp : s.launcher.phase with
  | liveness todo =>
    rw [hp] at h
    cases todo with
    | nil => cases h
    | cons d todo =>
      obtain rfl | ht := mem_cons.mp h
      · exact .inl ⟨todo, rfl⟩
      · exact .inr ht
  | _ =>
    rw [hp] at h
    exact h.elim

theorem beforeConvergence_next (h : beforeConvergence db s.launcher.phase)
    (hl : ∃ w ∈ s.launcher.ledger, w.dbOid = db) :
    (∃ todo, s.launcher.phase = .converging (db :: todo)) ∨
      beforeConvergence db (nextPhase s) := by
  unfold nextPhase
  cases hp : s.launcher.phase with
  | liveness todo => cases todo <;> exact .inr trivial
  | terminating todo =>
    cases todo with
    | nil =>
      refine .inr (mem_map.mpr ?_)
      exact hl
    | cons d todo => exact .inr trivial
  | converging todo =>
    rw [hp] at h
    cases todo with
    | nil => cases h
    | cons d todo =>
      obtain rfl | ht := mem_cons.mp h
      · exact .inl ⟨todo, rfl⟩
      · exact .inr ht
  | _ =>
    rw [hp] at h
    exact h.elim

theorem beforeSpawn_next (h : beforeSpawn db s.launcher.phase)
    (hrow : ∃ row ∈ s.launcher.rows, row.dbOid = db ∧ row.enabled = true) :
    (∃ todo, s.launcher.phase = .spawning (db :: todo)) ∨ beforeSpawn db (nextPhase s) := by
  unfold nextPhase
  cases hp : s.launcher.phase with
  | idle =>
    rw [hp] at h
    exact h.elim
  | releasing todo =>
    cases todo with
    | nil =>
      obtain ⟨row, hmem, hdb, hen⟩ := hrow
      refine .inr (mem_map.mpr ⟨row, ?_, hdb⟩)
      exact mem_filter.mpr ⟨hmem, hen⟩
    | cons d todo => exact .inr trivial
  | spawning todo =>
    rw [hp] at h
    cases todo with
    | nil => cases h
    | cons d todo =>
      obtain rfl | ht := mem_cons.mp h
      · exact .inl ⟨todo, rfl⟩
      · exact .inr ht
  | liveness todo | terminating todo | converging todo | asking todo reserved =>
    cases todo <;> exact .inr trivial

/-! ## What a pass does to the rank -/

variable {todo : List Nat}

theorem liveness_falls (h : Settled db g s) (hr : rank g s = 4)
    (hp : s.launcher.phase = .liveness (db :: todo)) (registers : Bool) :
    rank g (s.launch registers) < 4 := by
  obtain hl | ⟨w, hl, hdb⟩ := h.inv.ledger
  · rw [rank_nil hl] at hr
    cases hr
  obtain ⟨hre, hpr⟩ : w.restart.restarting = false ∧ s.procs = [] := by
    rw [rank_entry hl] at hr
    unfold rankOf at hr
    split at hr
    · split at hr <;> split at hr <;> cases hr
    next hnot =>
    refine ⟨by simpa using hnot, ?_⟩
    split at hr
    · next hem => simpa using hem
    · split at hr <;> cases hr
  have hs : s.launch registers = (s.reconcileLedgerLiveness w).goTo (.liveness todo) := by
    simp only [launch, hp, findLedgerEntry_of hl hdb]
  have hg : (s.launch registers).launcher.ledger = [] := by
    rw [hs]
    exact liveness_drops h.inv hl hdb hre hpr
  rw [rank_nil hg]
  omega

/-- An entry that is behind, or whose worker has drained, is moved on by the convergence pass. -/
theorem convergence_falls (h : Settled db g s) {registers : Bool}
    (hra : rank g s = 5 ∨
      (rank g s = 2 ∨ rank g s = 6) ∧ (s.registerDatabaseWorker registers db).2 ≠ none)
    (hp : s.launcher.phase = .converging (db :: todo)) :
    rank g (s.launch registers) < rank g s := by
  obtain hl | ⟨w, hl, hdb⟩ := h.inv.ledger
  · rw [rank_nil hl] at hra
    omega
  have hs : s.launch registers =
      (s.reconcileRestartConvergence registers w).goTo (.converging todo) := by
    simp only [launch, hp, findLedgerEntry_of hl hdb]
  have hbe := rank_entry (g := g) hl
  have ha : rank g (s.launch registers) =
      rank g (s.reconcileRestartConvergence registers w) := by
    rw [hs]
    rfl
  rw [ha]
  cases converges h.inv hl hdb h.rows registers with
  | terminates restarting behind terminated =>
    exact terminated_falls hl restarting behind terminated
  | respawns restarting ledger' entry registered =>
    exact respawned_falls hl restarting ledger' entry registered
  | level restarting level _ =>
    simp only [rankOf, restarting, level, Bool.false_eq_true, if_false, if_true] at hbe
    split at hbe <;> omega
  | waits restarting procs _ =>
    simp only [rankOf, restarting, if_true, isEmpty_eq_false_iff.mpr procs,
      Bool.false_eq_true, if_false] at hbe
    split at hbe <;> omega
  | fails restarting procs fails _ =>
    obtain hf | ⟨-, hr⟩ := hra
    · simp only [rankOf, restarting, procs, isEmpty_nil, if_true] at hbe
      split at hbe <;> omega
    · exact absurd fails hr

/-- Attempts were stamped long enough before the cycle has begun. -/
def Over (t : Nat) (s : System) : Prop :=
  Stamped t s ∧ t + restartBackoffCeilingMs * 1000 ≤ s.launcher.now

theorem backoff_over {t : Nat} (h : Over t s) :
    backoffIsOver s.settings.restartBackoffMs (backoffOf s db) s.launcher.now = true := by
  obtain ⟨hs, hnow⟩ := h
  have hl : (backoffOf s db).lastAttemptTime ≤ t := by
    unfold backoffOf
    split
    · exact hs _
    · exact Nat.zero_le t
  have ht : backoffThresholdMs s.settings.restartBackoffMs
      (backoffOf s db).consecutiveFailures ≤ restartBackoffCeilingMs := Nat.min_le_right _ _
  have hms : restartBackoffCeilingMs ≤
      differenceMs (backoffOf s db).lastAttemptTime s.launcher.now := by
    unfold differenceMs
    generalize restartBackoffCeilingMs = ceiling at hnow ⊢
    omega
  simp only [backoffIsOver, Bool.or_eq_true, decide_eq_true_eq]
  exact .inr (Nat.le_trans ht hms)

theorem spawn_falls {t : Nat} (h : Settled db g s) (hr : rank g s = 1) (ho : Over t s)
    {registers : Bool} (hre : (s.registerDatabaseWorker registers db).2 ≠ none)
    (hp : s.launcher.phase = .spawning (db :: todo)) : rank g (s.launch registers) < 1 := by
  obtain hl | ⟨w, hl, hdb⟩ := h.inv.ledger
  · have ha : rank g (s.launch registers) = rank g (s.spawnDiff registers db) := by
      simp only [launch, hp]
      rfl
    rw [ha]
    cases spawns h.inv hl h.rows registers with
    | spawns ledger' entry registered =>
      rw [spawned_rank ledger' entry registered]
      omega
    | waits backoff _ =>
      rw [backoff_over ho] at backoff
      cases backoff
    | fails fails _ _ _ => exact absurd fails hre
  · rw [rank_entry hl] at hr
    unfold rankOf at hr
    split at hr
    · split at hr <;> split at hr <;> cases hr
    · split at hr
      · cases hr
      · split at hr <;> cases hr

/-! ## One cycle -/

/-- What each step of a cycle meets in the end. -/
def Settling (db : Nat) (x : Watched) (e : Event) : Prop :=
  Serving db x.sys e ∧ Unbumped db x.sys e ∧ Calm x.sys e

theorem settling_step (g : Nat) (x : Watched) (e : Event) (h : Settled db g x.sys)
    (hok : Settling db x e) : Settled db g (watch db x e).sys := settled_step h hok.1 hok.2.1

theorem settling_falls (g : Nat) (x : Watched) (e : Event) (h : Settled db g x.sys)
    (hok : Settling db x e) : Falls g x.sys (watch db x e).sys := step_falls h hok.1 hok.2.2

/-- The rank has fallen below `r`, or it is `r` and there is something ahead. -/
def Due (g r : Nat) (ahead : System → Prop) (x : Watched) : Prop :=
  rank g x.sys < r ∨ rank g x.sys = r ∧ ahead x.sys

variable {es : List Event}

/-- What is ahead of a cycle that has begun comes to pass before the cycle is over. -/
theorem cycle_falls {r : Nat} {ok : Watched → Event → Prop} (ahead : System → Prop)
    (hok : ∀ x e, ok x e → Settling db x e)
    (hs : ∀ x e, Settled db g x.sys → ok x e → rank g x.sys = r → ahead x.sys →
      Due g r ahead (watch db x e)) (hi : ∀ s : System, s.launcher.phase = .idle → ¬ ahead s)
    (h : Settled db g x.sys) (hr : rank g x.sys = r) (hbe : ahead (watch db x .wake).sys)
    (hes : EachStep (watch db) ok x (.wake :: es))
    (hend : (run (watch db) x (.wake :: es)).sys.launcher.phase = .idle) :
    rank g (run (watch db) x (.wake :: es)).sys < r := by
  have hbeg : Due g r ahead (watch db x .wake) := by
    obtain hlt | ⟨heq, -⟩ := settling_falls g x .wake h (hok _ _ hes.1)
    · exact .inl (hr ▸ hlt)
    · exact .inr ⟨heq.trans hr, hbe⟩
  have hw := settling_step g x .wake h (hok _ _ hes.1)
  have hinv := run_invariant (fun x => Settled db g x.sys ∧ Due g r ahead x) (fun x e hx he => by
    refine ⟨settling_step g x e hx.1 (hok x e he), ?_⟩
    obtain hlt | ⟨heq, ha⟩ := hx.2
    · exact .inl (Nat.lt_of_le_of_lt (settling_falls g x e hx.1 (hok x e he)).le hlt)
    · exact hs x e hx.1 he heq ha) ⟨hw, hbeg⟩ hes.2
  obtain hlt | ⟨-, ha⟩ := hinv.2
  · exact hlt
  · exact absurd ha (hi _ hend)

/-- A pass that looks at the database before the cycle is over: a step of the launcher brings it
nearer or is the pass, and all other steps leave it ahead. -/
theorem due_step {r : Nat} {before : LauncherPhase → Prop} {keeps : System → Prop}
    (hok : Settling db x e) (h : Settled db g x.sys) (hi : ¬ before .idle)
    (hr : rank g x.sys = r) (hbe : before x.sys.launcher.phase)
    (hk : Falls g x.sys (x.sys.step e) → rank g (x.sys.step e) = r → keeps (x.sys.step e))
    (hl : ∀ registers, e = .launch registers →
      rank g (x.sys.launch registers) < r ∨ before (nextPhase x.sys)) :
    Due g r (fun s => before s.launcher.phase ∧ keeps s) (watch db x e) := by
  have hf : Falls g x.sys (x.sys.step e) := settling_falls g x e h hok
  have hle : rank g (x.sys.step e) ≤ r := hr ▸ hf.le
  by_cases hlt : rank g (x.sys.step e) < r
  · exact .inl hlt
  have heq : rank g (x.sys.step e) = r := by omega
  refine .inr ⟨heq, ?_, hk hf heq⟩
  have hbu : x.sys.launcher.phase ≠ .idle := fun hp => hi (hp ▸ hbe)
  obtain ⟨registers, rfl⟩ | hp := step_phase hok.1 hbu
  · obtain hlt' | hn := hl registers rfl
    · exact absurd hlt' hlt
    have hp : (watch db x (.launch registers)).sys.launcher.phase = nextPhase x.sys :=
      launch_phase x.sys registers
    rw [hp]
    exact hn
  · have hp' : (watch db x e).sys.launcher.phase = x.sys.launcher.phase := hp
    rw [hp']
    exact hbe

theorem wake_begins (hi : x.sys.launcher.phase = .idle) :
    (watch db x .wake).sys.launcher.phase = .liveness (x.sys.launcher.ledger.map (·.dbOid)) ∧
      (watch db x .wake).sys.launcher.now = x.sys.now := by
  simp [watch, step, wake, hi]

theorem rank_ledger (h : Inv db s) (hr : rank g s ≠ 1) : ∃ w ∈ s.launcher.ledger, w.dbOid = db := by
  obtain hl | ⟨w, hl, hdb⟩ := h.ledger
  · exact absurd (rank_nil hl) hr
  · exact ⟨w, by simp [hl], hdb⟩

theorem wake_beforeLiveness (h : Settled db g x.sys) (hi : x.sys.launcher.phase = .idle)
    (hr : rank g x.sys ≠ 1) : beforeLiveness db (watch db x .wake).sys.launcher.phase := by
  rw [(wake_begins hi).1]
  exact mem_map.mpr (rank_ledger h.inv hr)

theorem cycle_drops (h : Settled db g x.sys) (hi : x.sys.launcher.phase = .idle)
    (hra : rank g x.sys = 4) (hes : EachStep (watch db) (Settling db) x (.wake :: es))
    (hend : (run (watch db) x (.wake :: es)).sys.launcher.phase = .idle) :
    rank g (run (watch db) x (.wake :: es)).sys < 4 := by
  refine cycle_falls (fun s => beforeLiveness db s.launcher.phase ∧ True) (fun _ _ hok => hok) ?_
    (fun s hp ha => ?_) h hra ?_ hes hend
  · rintro y e hy hok hr ⟨hbe, -⟩
    refine due_step hok hy (fun hno => hno) hr hbe (fun _ _ => trivial) fun registers _ => ?_
    obtain ⟨todo, hp⟩ | hn := beforeLiveness_next hbe
    · exact .inl (liveness_falls hy hr hp registers)
    · exact .inr hn
  · rw [hp] at ha
    exact ha.1
  · exact ⟨wake_beforeLiveness h hi (by omega), trivial⟩

theorem cycle_converges {r : Nat} {ok : Watched → Event → Prop}
    (hok : ∀ y e, ok y e → Settling db y e)
    (hcan : ∀ y registers, ok y (.launch registers) →
      r = 5 ∨ (r = 2 ∨ r = 6) ∧ (y.sys.registerDatabaseWorker registers db).2 ≠ none)
    (hr : r ≠ 1) (h : Settled db g x.sys) (hi : x.sys.launcher.phase = .idle)
    (hra : rank g x.sys = r) (hes : EachStep (watch db) ok x (.wake :: es))
    (hend : (run (watch db) x (.wake :: es)).sys.launcher.phase = .idle) :
    rank g (run (watch db) x (.wake :: es)).sys < r := by
  refine cycle_falls (fun s => beforeConvergence db s.launcher.phase ∧ True) hok ?_
    (fun s hp ha => ?_) h hra ?_ hes hend
  · rintro y e hy hyok hry ⟨hbe, -⟩
    refine due_step (hok y e hyok) hy (fun hno => hno) hry hbe (fun _ _ => trivial)
      fun registers he => ?_
    obtain ⟨todo, hp⟩ | hn := beforeConvergence_next hbe (rank_ledger (g := g) hy.inv (by omega))
    · exact .inl (hry ▸ convergence_falls hy (hry ▸ hcan y registers (he ▸ hyok)) hp)
    · exact .inr hn
  · rw [hp] at ha
    exact ha.1
  · rw [(wake_begins hi).1]
    exact ⟨trivial, trivial⟩

theorem launcher_now_le (h : Inv db s) (hs : Serving db s e) :
    s.launcher.now ≤ (s.step e).launcher.now := by
  have hc := h.clock
  obtain ⟨-, heq⟩ | ⟨-, heq, -⟩ := (step_reads h hs).rows <;> omega

/-- A database without an entry gets one in the next cycle that is late enough and in which
registrations succeed. -/
theorem cycle_spawns {t : Nat} (h : Settled db g x.sys) (hi : x.sys.launcher.phase = .idle)
    (hra : rank g x.sys = 1) (hs : Stamped t x.sys)
    (hl : t + restartBackoffCeilingMs * 1000 ≤ x.sys.now)
    (hes : EachStep (watch db) (fun x e => Settling db x e ∧ Registers db x.sys e) x (.wake :: es))
    (hend : (run (watch db) x (.wake :: es)).sys.launcher.phase = .idle) :
    rank g (run (watch db) x (.wake :: es)).sys < 1 := by
  refine cycle_falls (fun s => beforeSpawn db s.launcher.phase ∧ Over t s) (fun _ _ hok => hok.1) ?_
    (fun s hp ha => ?_) h hra ?_ hes hend
  · rintro y e hy ⟨hok, hre⟩ hr ⟨hbe, ho⟩
    refine due_step hok hy (fun hno => hno) hr hbe (fun hf heq => ?_) fun registers he => ?_
    · obtain hlt | ⟨-, -, hst⟩ := hf
      · omega
      · exact ⟨hst t ho.1, Nat.le_trans ho.2 (launcher_now_le hy.inv hok.1)⟩
    · obtain ⟨row, hrow, hdb, hen, -⟩ := hy.inv.row hy.rows
      have hmem : row ∈ y.sys.launcher.rows := mem_of_find?_eq_some hrow
      obtain ⟨todo, hp⟩ | hn := beforeSpawn_next hbe ⟨row, hmem, hdb, hen⟩
      · exact .inl (spawn_falls hy hr ho (hre registers he) hp)
      · exact .inr hn
  · rw [hp] at ha
    exact ha.1
  · obtain ⟨hp, hnow⟩ := wake_begins (x := x) hi
    refine ⟨?_, ?_, ?_⟩
    · rw [hp]
      trivial
    · have hsa : (watch db x .wake).sys.blocks = x.sys.blocks := by
        simp [watch, step, wake, hi]
      intro i
      rw [hsa]
      exact hs i
    · rw [hnow]
      exact hl

/-! ## All cycles -/

theorem rank_draining (h : Inv db s) (hra : rank g s = 3 ∨ rank g s = 7) :
    ∃ w, s.launcher.ledger = [w] ∧ w.restart.restarting = true ∧ s.procs ≠ [] := by
  obtain hl | ⟨w, hl, -⟩ := h.ledger
  · rw [rank_nil hl] at hra
    omega
  refine ⟨w, hl, ?_⟩
  rw [rank_entry hl] at hra
  by_cases hr : w.restart.restarting = true
  · refine ⟨hr, fun hp => ?_⟩
    by_cases ht : w.restart.targetGeneration = g <;>
      simp [rankOf, hr, ht, hp] at hra
  · by_cases hp : s.procs.isEmpty = true <;>
      by_cases hs : w.restart.servicedGeneration = g <;>
        simp [rankOf, hr, hp, hs] at hra

theorem rank_le (g : Nat) (s : System) : rank g s ≤ 7 := by
  unfold rank
  split
  · omega
  · unfold rankOf
    repeat' split
    all_goals omega

section Runs

variable {settings : Settings} {now : Nat} (r : CycleRun db settings now) {k : Nat}

theorem CycleRun.cycle {ok : Watched → Event → Prop}
    (hes : EachStep (watch db) ok (r.state k) (r.cycles k)) :
    ∃ es, EachStep (watch db) ok (r.state k) (.wake :: es) ∧
      run (watch db) (r.state k) (.wake :: es) = r.state (k + 1) := by
  have hw := r.wakes k
  have hn : r.state (k + 1) = run (watch db) (r.state k) (r.cycles k) := rfl
  cases hc : r.cycles k with
  | nil => simp [hc] at hw
  | cons e es =>
    rw [hc, head?_cons, some.injEq] at hw
    rw [hc, hw] at hes hn
    exact ⟨es, hes, hn.symm⟩

theorem CycleRun.history (k : Nat) : History db (r.state k) := by
  have hf := run_invariant (History db) history_step (history_start db settings now) r.serving_first
  exact rounds_invariant (History db) history_step (k := 0) hf (fun n _ => r.serving n)
    (Nat.zero_le k)

theorem CycleRun.row (k : Nat) : ∃ g, generation (r.state k).sys.table db = some g := by
  have hst : ∀ x e, (Inv db x.sys ∧ ∃ g, generation x.sys.table db = some g) →
      Serving db x.sys e → Inv db (watch db x e).sys ∧
        ∃ g, generation (watch db x e).sys.table db = some g := by
    rintro x e ⟨hinv, g, hg⟩ hs
    obtain ⟨g', hg', -⟩ := (step_reads hinv hs).rises g hg
    exact ⟨inv_step x.sys e hinv hs, g', hg'⟩
  have hf : ∃ g, generation (r.state 0).sys.table db = some g := by
    have hen := r.enabled
    unfold isDatabaseEnabled at hen
    split at hen
    · next row hrow => exact ⟨row.restartGeneration, congrArg _ hrow⟩
    · cases hen
  exact (rounds_invariant (fun x => Inv db x.sys ∧ ∃ g, generation x.sys.table db = some g) hst
    (k := 0) ⟨(r.history 0).inv, hf⟩ (fun n _ => r.serving n) (Nat.zero_le k)).2

variable {r}

theorem Settles.settling (h : Settles r) :
    ∃ k, ∀ n, k ≤ n → EachStep (watch db) (Settling db) (r.state n) (r.cycles n) := by
  obtain ⟨k, hu⟩ := h.unbumped
  obtain ⟨k', hc⟩ := h.calm
  refine ⟨max k k', fun n hn => ?_⟩
  exact eachStep_and (r.serving n) (eachStep_and (hu n (by omega)) (hc n (by omega)))

/-- From some cycle on, nothing disturbs the database, and what is read is what is in the table. -/
structure Steady (r : CycleRun db settings now) (k g : Nat) : Prop where
  settling : ∀ n, k ≤ n → EachStep (watch db) (Settling db) (r.state n) (r.cycles n)
  settled : ∀ n, k ≤ n → Settled db g (r.state n).sys

theorem Settles.steady (h : Settles r) : ∃ k g, Steady r k g := by
  obtain ⟨k, hs⟩ := h.settling
  obtain ⟨g, hg⟩ := r.row k
  obtain ⟨es, hes, hne⟩ := r.cycle (hs k (Nat.le_refl k))
  have hw : Settled db g (watch db (r.state k) .wake).sys := by
    refine ⟨inv_step _ _ (r.history k).inv hes.1.1, hes.1.2.1.trans hg, ?_⟩
    have hr := (wake_rows (r.idle k)).1
    exact (congrArg (generation · db) hr).trans hg
  have hse : Settled db g (r.state (k + 1)).sys := by
    rw [← hne]
    exact run_invariant (fun x => Settled db g x.sys) (settling_step g) hw hes.2
  refine ⟨k + 1, g, fun n hn => hs n (by omega), fun n hn => ?_⟩
  exact rounds_invariant (fun x => Settled db g x.sys) (settling_step g) hse
    (fun m hm => hs m (by omega)) hn

variable {g n : Nat}

theorem Steady.falls (h : Steady r k g) {m : Nat} (hn : k ≤ n) (hm : n ≤ m) :
    Falls g (r.state n).sys (r.state m).sys := by
  refine rounds_related (R := fun x y : Watched => Falls g x.sys y.sys)
    (fun x => Falls.refl g x.sys) (fun h h' => Falls.trans h h') (fun i hi => ?_) hn hm
  exact run_related (R := fun x y : Watched => Falls g x.sys y.sys) (fun x => Settled db g x.sys)
    (fun x => Falls.refl g x.sys) (fun h h' => Falls.trans h h') (settling_step g)
    (settling_falls g) (h.settled i hi) (h.settling i hi)

theorem CycleRun.now_le (r : CycleRun db settings now) {m : Nat} (hm : n ≤ m) :
    (r.state n).sys.now ≤ (r.state m).sys.now := by
  refine rounds_related (R := fun x y : Watched => x.sys.now ≤ y.sys.now)
    (fun _ => Nat.le_refl _) (fun h h' => Nat.le_trans h h') (k := 0) (fun i _ => ?_)
    (Nat.zero_le n) hm
  exact run_related (R := fun x y : Watched => x.sys.now ≤ y.sys.now) (History db)
    (fun _ => Nat.le_refl _) (fun h h' => Nat.le_trans h h') history_step
    (fun x e hx he => (step_reads hx.inv he).now) (r.history i) (r.serving i)

section

variable (h : Steady r k g) (hs : Settles r) (hn : k ≤ n)
include h hs hn

theorem Steady.registers (t : Nat) :
    ∃ m, n ≤ m ∧ t ≤ (r.state m).sys.now ∧ EachStep (watch db)
      (fun x e => Settling db x e ∧ Registers db x.sys e) (r.state m) (r.cycles m) := by
  obtain ⟨late, hl⟩ := hs.clock t
  obtain ⟨m, hm, hr⟩ := hs.registers (max n late)
  have hnow := r.now_le (n := late) (m := m) (by omega)
  exact ⟨m, by omega, by omega, eachStep_and (h.settling m (by omega)) hr⟩

theorem Steady.spawns
    (hra : rank g (r.state n).sys = 1) : ∃ m, n ≤ m ∧ rank g (r.state m).sys < 1 := by
  obtain ⟨m, hm, hl, hr⟩ := h.registers hs hn
    ((r.state n).sys.launcher.now + restartBackoffCeilingMs * 1000)
  obtain hlt | ⟨heq, -, hsta⟩ := h.falls hn hm
  · exact ⟨m, hm, hra ▸ hlt⟩
  -- no attempt is stamped as long as there is no entry, so that the backoff is over by now
  have hst := hsta _ (h.settled n hn).inv.stamped
  obtain ⟨es, hes, hne⟩ := r.cycle hr
  refine ⟨m + 1, Nat.le_succ_of_le hm, ?_⟩
  rw [← hne]
  refine cycle_spawns (h.settled m (Nat.le_trans hn hm)) (r.idle m) (heq.trans hra) hst hl hes ?_
  rw [hne]
  exact r.idle (m + 1)

theorem Steady.respawns (hra : rank g (r.state n).sys = 2 ∨ rank g (r.state n).sys = 6) :
    ∃ m, n ≤ m ∧ rank g (r.state m).sys < rank g (r.state n).sys := by
  obtain ⟨m, hm, -, hr⟩ := h.registers hs hn 0
  obtain hlt | ⟨heq, -⟩ := h.falls hn hm
  · exact ⟨m, hm, hlt⟩
  obtain ⟨es, hes, hne⟩ := r.cycle hr
  refine ⟨m + 1, by omega, ?_⟩
  rw [← hne]
  refine cycle_converges (fun _ _ hok => hok.1) (fun y registers hok => ?_) (by omega)
    (h.settled m (by omega)) (r.idle m) heq hes ?_
  · exact .inr ⟨hra, hok.2 registers rfl⟩
  rw [hne]
  exact r.idle (m + 1)

theorem Steady.drains (hra : rank g (r.state n).sys = 3 ∨ rank g (r.state n).sys = 7) :
    ∃ m, n ≤ m ∧ rank g (r.state m).sys < rank g (r.state n).sys := by
  have hinv := (h.settled n hn).inv
  obtain ⟨w, hl, hr, hpr⟩ := rank_draining hinv hra
  obtain ⟨p, hp⟩ := exists_mem_of_ne_nil _ hpr
  obtain ⟨hpid, hsig⟩ := hinv.pid hl hp
  obtain ⟨m, hm, hg⟩ := hs.stops n p hp (hsig.trans hr)
  obtain hlt | ⟨heq, hh, -⟩ := h.falls hn hm
  · exact ⟨m, hm, hlt⟩
  -- the rank could only stay if the worker with that handle were still there
  exfalso
  have hinv' := (h.settled m (by omega)).inv
  obtain ⟨w', hl', -, hpr'⟩ := rank_draining (g := g) hinv' (by omega)
  obtain ⟨q, hq⟩ := exists_mem_of_ne_nil _ hpr'
  simp only [hl, hl', map_cons, map_nil, cons.injEq, and_true] at hh
  exact hg q hq ((hinv'.pid hl' hq).1.trans (hh.trans hpid.symm))

theorem Steady.rank_falls (hr : rank g (r.state n).sys ≠ 0) :
    ∃ m, n ≤ m ∧ rank g (r.state m).sys < rank g (r.state n).sys := by
  have hle := rank_le g (r.state n).sys
  obtain ⟨es, hes, hne⟩ := r.cycle (h.settling n hn)
  have hend : (run (watch db) (r.state n) (.wake :: es)).sys.launcher.phase = .idle := by
    rw [hne]
    exact r.idle (n + 1)
  obtain hone | hst | hd | hfo | hf : rank g (r.state n).sys = 1 ∨
      (rank g (r.state n).sys = 2 ∨ rank g (r.state n).sys = 6) ∨
      (rank g (r.state n).sys = 3 ∨ rank g (r.state n).sys = 7) ∨
      rank g (r.state n).sys = 4 ∨ rank g (r.state n).sys = 5 := by omega
  · rw [hone]
    exact h.spawns hs hn hone
  · exact h.respawns hs hn hst
  · exact h.drains hs hn hd
  · refine ⟨n + 1, by omega, ?_⟩
    rw [← hne, hfo]
    exact cycle_drops (h.settled n hn) (r.idle n) hfo hes hend
  · refine ⟨n + 1, by omega, ?_⟩
    rw [← hne, hf]
    exact cycle_converges (fun _ _ hok => hok) (fun _ _ _ => .inl rfl) (by omega)
      (h.settled n hn) (r.idle n) hf hes hend

end

theorem Settles.reached (h : Settles r) :
    ∃ k g, Steady r k g ∧ ∀ n, k ≤ n → rank g (r.state n).sys = 0 := by
  obtain ⟨k, g, hs⟩ := h.steady
  obtain ⟨n, hn, hz⟩ := eventually_zero (fun n => rank g (r.state n).sys)
    (fun n hn => (hs.falls hn (Nat.le_succ n)).le) fun n hn => hs.rank_falls h hn
  refine ⟨n, g, ⟨fun m hm => hs.settling m (by omega), fun m hm => ?_⟩, hz⟩
  exact hs.settled m (by omega)

/-! ## The law -/

theorem rank_zero {s : System} (h : Inv db s) (hr : rank g s = 0) :
    ∃ w, s.launcher.ledger = [w] ∧ w.dbOid = db ∧ w.restart.servicedGeneration = g ∧
      s.procs ≠ [] := by
  obtain hl | ⟨w, hl, hdb⟩ := h.ledger
  · rw [rank_nil hl] at hr
    cases hr
  refine ⟨w, hl, hdb, ?_⟩
  rw [rank_entry hl] at hr
  by_cases hre : w.restart.restarting = true <;>
    by_cases hp : s.procs = [] <;>
      by_cases ht : w.restart.targetGeneration = g <;>
        by_cases hs : w.restart.servicedGeneration = g <;>
          simp_all [rankOf]

theorem converged {x : Watched} (h : Settled db g x.sys) (hr : rank g x.sys = 0) :
    Converged db x := by
  obtain ⟨w, hl, hdb, hs, hp⟩ := rank_zero h.inv hr
  refine ⟨w, findLedgerEntry_of hl hdb, ?_, fun hst => ?_⟩
  · rw [h.table, hs]
  · exact hp ((h.inv.stopped_iff hl).mp hst)

def AllStarted (s : System) : Prop := ∀ p ∈ s.procs, p.stage ≠ .registered

theorem running {x : Watched} (h : Settled db g x.sys) (hr : rank g x.sys = 0)
    (hst : AllStarted x.sys) : Running db x := by
  obtain ⟨w, hen, hse, hs⟩ := converged h hr
  refine ⟨w, hen, hse, ?_⟩
  unfold handleStatus at hs ⊢
  cases hf : x.sys.procs.find? (fun p => p.pid = w.handle) with
  | none => simp [hf] at hs
  | some p => simp [hst p (mem_of_find?_eq_some hf)]

/-- A worker that has been started and is where it should be is not registered anew. -/
theorem allStarted_step {s : System} {e : Event} (h : Settled db g s) (hse : Serving db s e)
    (hra : rank g s = 0) (hs : AllStarted s) : AllStarted (s.step e) := by
  obtain ⟨w, hl, -, -, hpr⟩ := rank_zero h.inv hra
  cases step_moves h.inv hse with
  | stays _ procs _ =>
    intro p hp hr
    obtain ⟨q, hq, hqp⟩ := procs p hp
    exact hs q hq (hqp.registered hr)
  | marks _ marked =>
    rw [AllStarted, marked.procs]
    exact hs
  | drops _ _ hn _ _ _ => exact absurd hn hpr
  | terminates ledger _ _ _ terminated =>
    intro p hp
    rw [terminated.procs] at hp
    obtain ⟨q, hq, rfl⟩ := mem_map.mp hp
    have hst := hs q hq
    split <;> exact hst
  | respawns _ _ _ _ registered | spawns ledger _ _ _ registered =>
    exact absurd registered.before hpr

/-- As long as nothing disturbs the database, an entry stays where it should be. -/
theorem zero_step (g : Nat) (x : Watched) (e : Event) (h : Settled db g x.sys ∧ rank g x.sys = 0)
    (hok : Settling db x e) : Settled db g (watch db x e).sys ∧ rank g (watch db x e).sys = 0 := by
  have hle := (settling_falls g x e h.1 hok).le
  exact ⟨settling_step g x e h.1 hok, by omega⟩

theorem Settles.converges (h : Settles r) :
    ∃ k, ∀ n, k ≤ n → EachState (watch db) (Converged db) (r.state n) (r.cycles n) := by
  obtain ⟨k, g, hs, hz⟩ := h.reached
  refine ⟨k, fun n hn => ?_⟩
  exact eachState_invariant (fun x => Settled db g x.sys ∧ rank g x.sys = 0) (zero_step g)
    (fun x hx => converged hx.1 hx.2) ⟨hs.settled n hn, hz n hn⟩ (hs.settling n hn)

theorem Settles.started (h : Settles r) (hsta : Starts r) :
    ∃ k g, Steady r k g ∧ (∀ n, k ≤ n → rank g (r.state n).sys = 0) ∧
      AllStarted (r.state k).sys := by
  obtain ⟨k, g, hs, hz⟩ := h.reached
  by_cases hst : AllStarted (r.state k).sys
  · exact ⟨k, g, hs, hz, hst⟩
  obtain ⟨p, hp, hr⟩ : ∃ p ∈ (r.state k).sys.procs, p.stage = .registered := by
    simpa [AllStarted] using hst
  obtain ⟨m, hm, hru⟩ := hsta k p hp hr
  refine ⟨m, g, ⟨fun n hn => hs.settling n (by omega),
    fun n hn => hs.settled n (by omega)⟩, fun n hn => hz n (by omega), fun q hq => ?_⟩
  -- its handle is the one that the entry has had all along
  obtain ⟨w, hl, -⟩ := rank_zero (hs.settled k (Nat.le_refl k)).inv (hz k (Nat.le_refl k))
  obtain ⟨w', hl', -⟩ := rank_zero (hs.settled m hm).inv (hz m hm)
  have hpid := ((hs.settled k (Nat.le_refl k)).inv.pid hl hp).1
  have hqid := ((hs.settled m hm).inv.pid hl' hq).1
  obtain hlt | ⟨-, hh, -⟩ := hs.falls (Nat.le_refl k) hm
  · rw [hz k (Nat.le_refl k)] at hlt
    omega
  · simp only [hl, hl', map_cons, map_nil, cons.injEq, and_true] at hh
    exact hru q hq (hqid.trans (hh.trans hpid.symm))

theorem Settles.runs (h : Settles r) (hsta : Starts r) :
    ∃ k, ∀ n, k ≤ n → EachState (watch db) (Running db) (r.state n) (r.cycles n) := by
  obtain ⟨k, g, hs, hz, hst⟩ := h.started hsta
  have hstep : ∀ x e, (Settled db g x.sys ∧ rank g x.sys = 0) ∧ AllStarted x.sys →
      Settling db x e → (Settled db g (watch db x e).sys ∧ rank g (watch db x e).sys = 0) ∧
        AllStarted (watch db x e).sys :=
    fun x e hx hok => ⟨zero_step g x e hx.1 hok, allStarted_step hx.1.1 hok.1 hx.1.2 hx.2⟩
  refine ⟨k, fun n hn => ?_⟩
  have hr := rounds_invariant _ hstep (k := k)
    ⟨⟨hs.settled k (Nat.le_refl k), hz k (Nat.le_refl k)⟩, hst⟩
    (fun m hm => hs.settling m hm) hn
  exact eachState_invariant _ hstep (fun x hx => running hx.1.1 hx.1.2 hx.2) hr (hs.settling n hn)

end Runs

/-- The worker of an enabled database was registered by a cycle that had read the serviced
generation or a later one, every request to stop belongs to a change of its own, and if the
environment settles, the entry converges and its worker runs. -/
theorem restarts_converge (db : Nat) (settings : Settings) (now : Nat) :
    (∀ es, EachStep (watch db) (fun x => Serving db x.sys) (start settings now) es →
      EachState (watch db) (fun x => ServicedByNewer db x ∧ TerminatesPerChange x)
        (start settings now) es) ∧
    ∀ r : CycleRun db settings now, Settles r →
      (∃ k, ∀ n, k ≤ n → EachState (watch db) (Converged db) (r.state n) (r.cycles n)) ∧
      (Starts r →
        ∃ k, ∀ n, k ≤ n → EachState (watch db) (Running db) (r.state n) (r.cycles n)) := by
  refine ⟨fun es hes => ?_, fun r hr => ⟨hr.converges, hr.runs⟩⟩
  exact eachState_invariant (History db) history_step (fun x hx => ⟨hx.serviced, hx.terminations⟩)
    (history_start db settings now) hes

/-! ## A run that settles -/

theorem run_sys (db : Nat) (x : Watched) (es : List Event) :
    (run (watch db) x es).sys = run step x.sys es := by
  induction es generalizing x with
  | nil => rfl
  | cons e es ih => exact ih (watch db x e)

theorem eachStep_sys {P : System → Event → Prop} (db : Nat) (h : EachStep step P x.sys es) :
    EachStep (watch db) (fun x => P x.sys) x es := by
  induction es generalizing x with
  | nil => trivial
  | cons e es ih => exact ⟨h.1, ih h.2⟩

def cycle : List Event := .wake :: replicate 12 (.launch true)

def enrolled : List Event := [.enroll 5, .setRow ⟨5, 0, true⟩]

/-- The worker of database 5 is spawned, and its generation bumped; the worker is signalled and
drains; it is replaced; and then only the time goes on. -/
def bumped : Nat → List Event
  | 0 => cycle ++ started 1 ++ [.setRow ⟨5, 1, true⟩]
  | 1 => cycle ++ [.worker 1 true, .worker 1 true]
  | 2 => cycle ++ started 2 ++ cycle
  | _ => cycle ++ [.tick 1]

def bumpedState : Nat → Watched :=
  rounds (watch 5) (run (watch 5) (start oneDatabase 1) enrolled) bumped

/-- The database at rest: its second worker serves, at the generation of the catalog. -/
def resting (b : Nat → ControlBlock) (now read : Nat) (phase : LauncherPhase) : System :=
  ⟨oneDatabase, now, [⟨5, 1, true⟩], [], b, [⟨2, 5, .serving 0, false⟩], 3,
    ⟨[⟨5, 1, true⟩], read, [⟨5, 2, 1, ⟨false, 1, 1, 0⟩⟩], [], phase⟩⟩

/-- The phases of a cycle at rest. -/
inductive RestPhase : LauncherPhase → LauncherPhase → Prop
  | liveness : RestPhase (.liveness [5]) (.liveness [])
  | terminate : RestPhase (.liveness []) (.terminating [5])
  | terminating : RestPhase (.terminating [5]) (.terminating [])
  | converge : RestPhase (.terminating []) (.converging [5])
  | converging : RestPhase (.converging [5]) (.converging [])
  | ask : RestPhase (.converging []) (.asking [5] [5])
  | asking : RestPhase (.asking [5] [5]) (.asking [] [5])
  | release : RestPhase (.asking [] [5]) (.releasing [5])
  | releasing : RestPhase (.releasing [5]) (.releasing [])
  | spawn : RestPhase (.releasing []) (.spawning [5])
  | spawning : RestPhase (.spawning [5]) (.spawning [])
  | ends : RestPhase (.spawning []) .idle

section Rest

variable {b : Nat → ControlBlock} (hb : (b 0).dbOid = some 5)

include hb in
theorem resting_launch (now read : Nat) {phase phase' : LauncherPhase} (h : RestPhase phase phase') :
    (resting b now read phase).step (.launch true) = resting b now read phase' := by
  cases h with
  | ask =>
    have hc : (resting b now read (.converging [])).collectReservedDbOids = [5] := by
      simp [collectReservedDbOids, resting, oneDatabase, hb]
    simp only [step, launch, resting] at hc ⊢
    rw [hc]
    rfl
  | _ => rfl

include hb in
theorem resting_cycle (now read : Nat) :
    run step (resting b now read .idle) (bumped 3) = resting b (now + 1) now .idle := by
  have hw : (resting b now read .idle).step .wake = resting b now now (.liveness [5]) := rfl
  have ht : (resting b now now .idle).step (.tick 1) = resting b (now + 1) now .idle := rfl
  simp only [bumped, cycle, replicate, cons_append, nil_append, run_cons, run_nil,
    hw, resting_launch hb now now .liveness, resting_launch hb now now .terminate,
    resting_launch hb now now .terminating, resting_launch hb now now .converge,
    resting_launch hb now now .converging, resting_launch hb now now .ask,
    resting_launch hb now now .asking, resting_launch hb now now .release,
    resting_launch hb now now .releasing, resting_launch hb now now .spawn,
    resting_launch hb now now .spawning, resting_launch hb now now .ends, ht]

include hb in
theorem resting_each {P : System → Event → Prop}
    (hwa : ∀ now read, P (resting b now read .idle) .wake)
    (hl : ∀ now read {phase phase'}, RestPhase phase phase' →
      P (resting b now read phase) (.launch true))
    (ht : ∀ now read, P (resting b now read .idle) (.tick 1)) (now read : Nat) :
    EachStep step P (resting b now read .idle) (bumped 3) := by
  have hw : (resting b now read .idle).step .wake = resting b now now (.liveness [5]) := rfl
  simp only [bumped, cycle, replicate, cons_append, nil_append, EachStep,
    hw, resting_launch hb now now .liveness, resting_launch hb now now .terminate,
    resting_launch hb now now .terminating, resting_launch hb now now .converge,
    resting_launch hb now now .converging, resting_launch hb now now .ask,
    resting_launch hb now now .asking, resting_launch hb now now .release,
    resting_launch hb now now .releasing, resting_launch hb now now .spawn,
    resting_launch hb now now .spawning, resting_launch hb now now .ends]
  exact ⟨hwa _ _, hl _ _ .liveness, hl _ _ .terminate, hl _ _ .terminating,
    hl _ _ .converge, hl _ _ .converging, hl _ _ .ask, hl _ _ .asking,
    hl _ _ .release, hl _ _ .releasing, hl _ _ .spawn, hl _ _ .spawning,
    hl _ _ .ends, ht _ _, trivial⟩

variable (now read : Nat)

include hb in
theorem resting_unbumped : EachStep step (Unbumped 5) (resting b now read .idle) (bumped 3) := by
  refine resting_each hb (fun _ _ => rfl) (fun now read {phase phase'} h => ?_) (fun _ _ => rfl) _ _
  rw [Unbumped, resting_launch hb now read h]
  rfl

include hb in
theorem resting_calm : EachStep step Calm (resting b now read .idle) (bumped 3) := by
  refine resting_each hb (fun _ _ p hp _ => ⟨p, hp, rfl⟩) (fun now read {phase phase'} h => ?_)
    (fun _ _ p hp _ => ⟨p, hp, rfl⟩) _ _
  rw [Calm, resting_launch hb now read h]
  exact fun p hp _ => ⟨p, hp, rfl⟩

include hb in
theorem resting_registers : EachStep step (Registers 5) (resting b now read .idle) (bumped 3) := by
  refine resting_each hb (by simp [Registers]) (fun now read {phase phase'} h => ?_)
    (by simp [Registers]) _ _
  rintro registers ⟨⟩
  rw [ne_eq, register_fails_iff]
  simp [vamanaWorkerReserveSlot, findSlot, resting, oneDatabase, hb]

end Rest

theorem eq_resting {now read : Nat} (hs : s.settings = oneDatabase) (hnow : s.now = now)
    (ht : s.table = [⟨5, 1, true⟩]) (hen : s.enrolling = [])
    (hp : s.procs = [⟨2, 5, .serving 0, false⟩]) (hn : s.nextPid = 3)
    (hl : s.launcher = ⟨[⟨5, 1, true⟩], read, [⟨5, 2, 1, ⟨false, 1, 1, 0⟩⟩], [], .idle⟩) :
    s = resting s.blocks now read .idle := by
  obtain ⟨settings, now', table, enrolling, blocks, procs, nextPid, launcher⟩ := s
  dsimp only at hs hnow ht hen hp hn hl
  subst hs hnow ht hen hp hn hl
  rfl

theorem bumpedState_rests (n : Nat) : ∃ b now read, (b 0).dbOid = some 5 ∧ n ≤ now ∧
    (bumpedState (n + 3)).sys = resting b now read .idle := by
  induction n with
  | zero =>
    refine ⟨(bumpedState 3).sys.blocks, 1, 1, by decide +kernel, by omega, ?_⟩
    apply eq_resting <;> decide +kernel
  | succ n ih =>
    obtain ⟨b, now, read, hb, hn, hs⟩ := ih
    refine ⟨b, now + 1, now, hb, by omega, ?_⟩
    have hne : bumpedState (n + 1 + 3) = run (watch 5) (bumpedState (n + 3)) (bumped 3) := rfl
    rw [hne, run_sys, hs]
    exact resting_cycle hb now read

theorem bumpedState_each {P : System → Event → Prop}
    (hr : ∀ b now read, (b 0).dbOid = some 5 →
      EachStep step P (resting b now read .idle) (bumped 3)) {n : Nat} (hn : 3 ≤ n) :
    EachStep (watch 5) (fun x => P x.sys) (bumpedState n) (bumped n) := by
  obtain ⟨n, rfl⟩ := Nat.exists_eq_add_of_le' hn
  obtain ⟨b, now, read, hb, -, hs⟩ := bumpedState_rests n
  refine eachStep_sys 5 ?_
  rw [hs]
  exact hr b now read hb

theorem bumpedState_all {P : Nat → Prop} (h0 : P 0) (h1 : P 1) (h2 : P 2)
    (hr : ∀ n, P (n + 3)) (n : Nat) : P n := by
  rcases n with _ | _ | _ | n
  · exact h0
  · exact h1
  · exact h2
  · exact hr n

def bumpedRun : CycleRun 5 oneDatabase 1 where
  first := enrolled
  cycles := bumped
  serving_first := by decide +kernel
  serving := by
    refine bumpedState_all (by decide +kernel) (by decide +kernel) (by decide +kernel) fun n => ?_
    refine bumpedState_each (P := Serving 5) (fun b now read hb => ?_) (by omega)
    exact resting_each hb (fun _ _ => trivial) (fun _ _ {_ _} _ => trivial) (fun _ _ => trivial) _ _
  enabled := by decide +kernel
  wakes := bumpedState_all rfl rfl rfl fun _ => rfl
  idle := by
    refine bumpedState_all (by decide +kernel) (by decide +kernel) (by decide +kernel) fun n => ?_
    obtain ⟨b, now, read, -, -, hstate⟩ := bumpedState_rests n
    exact congrArg (fun s : System => s.launcher.phase) hstate

theorem bumpedRun_procs (n : Nat) : ∀ p ∈ (bumpedRun.state n).sys.procs,
    p.sigterm = false ∧ p.stage ≠ .registered := by
  refine bumpedState_all (P := fun n => ∀ p ∈ (bumpedState n).sys.procs,
    p.sigterm = false ∧ p.stage ≠ .registered) (by decide +kernel) (by decide +kernel)
    (by decide +kernel) (fun n => ?_) n
  obtain ⟨b, now, read, -, -, hs⟩ := bumpedState_rests n
  rw [hs]
  simp [resting]

theorem bumpedRun_settles : Settles bumpedRun where
  unbumped := ⟨3, fun n hn => bumpedState_each (fun b now read hb => resting_unbumped hb now read) hn⟩
  stops n p hp hsig := by
    rw [(bumpedRun_procs n p hp).1] at hsig
    cases hsig
  registers n := ⟨n + 3, by omega,
    bumpedState_each (fun b now read hb => resting_registers hb now read) (by omega)⟩
  calm := ⟨3, fun n hn => bumpedState_each (fun b now read hb => resting_calm hb now read) hn⟩
  clock t := by
    obtain ⟨b, now, read, -, hnow, hs⟩ := bumpedState_rests t
    refine ⟨t + 3, ?_⟩
    have hsys : (bumpedRun.state (t + 3)).sys.now = now :=
      congrArg (fun s : System => s.now) hs
    rw [hsys]
    exact hnow

theorem bumpedRun_starts : Starts bumpedRun :=
  fun n p hp hr => absurd hr (bumpedRun_procs n p hp).2

/-- The worker was asked to stop once, for the one change. -/
theorem a_bumped_database_is_served_by_its_second_worker :
    (bumpedRun.state 3).changes = [some 1] ∧ (bumpedRun.state 3).terminations = [some 1] ∧
    (bumpedRun.state 3).registered = [(1, some 0), (2, some 1)] ∧
    EachState (watch 5) (fun x => ServicedByNewer 5 x ∧ TerminatesPerChange x)
      (start oneDatabase 1) (enrolled ++ bumped 0 ++ bumped 1 ++ bumped 2) ∧
    (∃ k, ∀ n, k ≤ n →
      EachState (watch 5) (Converged 5) (bumpedRun.state n) (bumpedRun.cycles n)) ∧
    ∃ k, ∀ n, k ≤ n →
      EachState (watch 5) (Running 5) (bumpedRun.state n) (bumpedRun.cycles n) := by
  obtain ⟨hs, hl⟩ := restarts_converge 5 oneDatabase 1
  obtain ⟨hc, hr⟩ := hl bumpedRun bumpedRun_settles
  exact ⟨by decide +kernel, by decide +kernel, by decide +kernel, hs _ (by decide +kernel),
    hc, hr bumpedRun_starts⟩

end svs_vamana.restart_convergence
