-- The handshake over a build's threads (svs_build_request_protocol.c, vamanalauncher.c), access by
-- access: backends claim, await and give back requests while the launcher gathers and publishes.
import SvsVamana.CpuGrants
import Mathlib.Data.List.FinRange

namespace svs_vamana.build_request

open transition_runs cpu_budget cpu_grants List

/-! ## The parties -/

abbrev CellIx := Fin svsMaxPendingBuilds

def allCells : List CellIx := finRange svsMaxPendingBuilds

/-- A claim of a request; the number tells the claims of one process apart. -/
structure Claim where
  ticket : Nat
  cell : CellIx
  requested : Nat
deriving DecidableEq, Repr

/-- Where a backend is in `SvsRunGovernedBuild`. The last three writes of a claim and all four of
a release are steps of their own. -/
inductive Backend
  | absent
  | idle
  | scanning (requested : Nat) (cells : List CellIx)
  | claimed (c : Claim)
  | wroteRequested (c : Claim)
  | wroteGranted (c : Claim)
  | waiting (c : Claim)
  | sawGranted (c : Claim)
  | building (c : Claim) (granted : Nat)
  | releasing (c : Claim) (written : Nat)
deriving DecidableEq, Repr

/-- A request that the launcher has in hand, with the claim it was read from; it has a grant once
the budget is computed. -/
structure InHand where
  pid : Nat
  cell : CellIx
  ticket : Nat
  requested : Nat := 0
  granted : Nat := 0
deriving DecidableEq, Repr

/-- Where the launcher is: `cells` are still to be looked at, `mine` is gathered, `due` is to be
published. -/
inductive Launcher
  | rest
  | readPid (cells : List CellIx) (mine : List InHand)
  | checkPid (x : InHand) (cells : List CellIx) (mine : List InHand)
  | readStatus (x : InHand) (cells : List CellIx) (mine : List InHand)
  | readRequested (x : InHand) (cells : List CellIx) (mine : List InHand)
  | cleanUp (x : InHand) (written : Nat) (cells : List CellIx) (mine : List InHand)
  | publish (due : List InHand)
  | seek (x : InHand) (cells : List CellIx) (due : List InHand)
  | writeGranted (x : InHand) (cell : CellIx) (due : List InHand)
  | writeStatus (x : InHand) (cell : CellIx) (due : List InHand)
deriving DecidableEq, Repr

/-- A call of the calculator: its input, with the claim that each build was read from. -/
structure Computation where
  gucs : SvsCpuGucs
  dbs : List SvsDbCpuRequest
  builds : List (SvsBuildCpuRequest × Nat)
deriving DecidableEq, Repr

def Computation.input (comp : Computation) : SvsCpuBudgetInput :=
  { gucs := comp.gucs, dbs := comp.dbs, builds := comp.builds.map Prod.fst }

structure World where
  dbOid : Nat
  cells : CellIx → SvsBuildRequest := fun _ => {}
  tickets : CellIx → Nat := fun _ => 0
  nextTicket : Nat := 1
  backends : Nat → Backend := fun _ => .absent
  launcher : Launcher := .rest
  computed : List Computation := []

open World

def World.setCell (w : World) (i : CellIx) (req : SvsBuildRequest) : World :=
  { w with cells := fun k => if k = i then req else w.cells k }

def World.setBackend (w : World) (pid : Nat) (b : Backend) : World :=
  { w with backends := fun p => if p = pid then b else w.backends p }

/-! ## Accesses -/

/-- The writes of `SvsReleaseBuildRequestSlot` in their order. -/
def releaseWrite (req : SvsBuildRequest) : Nat → SvsBuildRequest
  | 0 => { req with requested := 0 }
  | 1 => { req with granted := 0 }
  | 2 => { req with status := .pending }
  | _ => { req with pid := 0 }

def claimCell (w : World) (pid requested : Nat) (i : CellIx) (cells : List CellIx) : World :=
  if (w.cells i).pid = 0 then
    { w.setCell i { w.cells i with pid } with
      tickets := fun k => if k = i then w.nextTicket else w.tickets k
      nextTicket := w.nextTicket + 1 }.setBackend pid (.claimed ⟨w.nextTicket, i, requested⟩)
  else w.setBackend pid (.scanning requested cells)

/-- The next access of a backend. A waiting one makes its last check here: the loop before it only
decides when. -/
def access (w : World) (pid : Nat) : World :=
  match w.backends pid with
  | .scanning _ [] => w.setBackend pid .idle
  | .scanning requested (i :: cells) => claimCell w pid requested i cells
  | .claimed c =>
    (w.setCell c.cell { w.cells c.cell with requested := c.requested }).setBackend pid
      (.wroteRequested c)
  | .wroteRequested c =>
    (w.setCell c.cell { w.cells c.cell with granted := 0 }).setBackend pid (.wroteGranted c)
  | .wroteGranted c =>
    (w.setCell c.cell { w.cells c.cell with status := .pending }).setBackend pid (.waiting c)
  | .waiting c =>
    w.setBackend pid
      (if (w.cells c.cell).status = .granted then .sawGranted c else .releasing c 0)
  | .sawGranted c => w.setBackend pid (.building c (w.cells c.cell).granted)
  | .releasing c written =>
    (w.setCell c.cell (releaseWrite (w.cells c.cell) written)).setBackend pid
      (if written < 3 then .releasing c (written + 1) else .idle)
  | _ => w

def gather (w : World) : World :=
  match w.launcher with
  | .readPid (i :: cells) mine =>
    if (w.cells i).pid = 0 then { w with launcher := .readPid cells mine }
    else { w with launcher := .checkPid ⟨(w.cells i).pid, i, w.tickets i, 0, 0⟩ cells mine }
  | .checkPid x cells mine =>
    if w.backends x.pid = .absent then { w with launcher := .cleanUp x 0 cells mine }
    else { w with launcher := .readStatus x cells mine }
  | .readStatus x cells mine =>
    if (w.cells x.cell).status = .pending then { w with launcher := .readRequested x cells mine }
    else { w with launcher := .readPid cells mine }
  | .readRequested x cells mine =>
    let read := { x with requested := (w.cells x.cell).requested }
    { w with launcher := .readPid cells (mine ++ [read]) }
  | .cleanUp x written cells mine =>
    { w.setCell x.cell (releaseWrite (w.cells x.cell) written) with
      launcher := if written < 3 then .cleanUp x (written + 1) cells mine else .readPid cells mine }
  | _ => w

/-- The builds of this database between those that were gathered of others. -/
def labelled (dbOid : Nat) (mine : List InHand) (before after : List SvsBuildCpuRequest) :
    List (SvsBuildCpuRequest × Nat) :=
  (before.filter fun b => b.dbOid != dbOid).map (fun b => (b, 0)) ++
    mine.map (fun x => (⟨dbOid, x.pid, x.requested⟩, x.ticket)) ++
    (after.filter fun b => b.dbOid != dbOid).map fun b => (b, 0)

/-- The grants of a budget that are published to this database's block. -/
def dueGrants (dbOid : Nat) (mine : List InHand) (comp : Computation) : List InHand :=
  let ours := (svsComputeCpuGrants comp.input).buildGrants.filter fun g => g.dbOid == dbOid
  mine.zipWith (fun x g => { x with pid := g.requestPid, granted := g.grantedThreads }) ours

def compute (w : World) (gucs : SvsCpuGucs) (dbs : List SvsDbCpuRequest)
    (before after : List SvsBuildCpuRequest) : World :=
  match w.launcher with
  | .readPid [] mine =>
    let comp := ⟨gucs, dbs, labelled w.dbOid mine before after⟩
    { w with
      computed := w.computed ++ [comp]
      launcher := .publish (dueGrants w.dbOid mine comp) }
  | _ => w

/-- The next access of the launcher while it publishes; the pid is all that it compares. -/
def publish (w : World) : World :=
  match w.launcher with
  | .publish [] => { w with launcher := .rest }
  | .publish (x :: due) => { w with launcher := .seek x allCells due }
  | .seek _ [] due => { w with launcher := .publish due }
  | .seek x (i :: cells) due =>
    if (w.cells i).pid = x.pid then { w with launcher := .writeGranted x i due }
    else { w with launcher := .seek x cells due }
  | .writeGranted x i due =>
    { w.setCell i { w.cells i with granted := x.granted } with launcher := .writeStatus x i due }
  | .writeStatus _ i due =>
    { w.setCell i { w.cells i with status := .granted } with launcher := .publish due }
  | _ => w

inductive Event
  | start (pid : Nat)
  | exit (pid : Nat)
  | ask (pid requested : Nat)
  | access (pid : Nat)
  | leave (pid : Nat)
  | beginCycle
  | gather
  | compute (gucs : SvsCpuGucs) (dbs : List SvsDbCpuRequest) (before after : List SvsBuildCpuRequest)
  | publish

/-- One shared-memory access of one party. A wait can be left by an interrupt, and a build ends
some time; a process may exit wherever it is. -/
def step (w : World) : Event → World
  | .start pid => if pid ≠ 0 ∧ w.backends pid = .absent then w.setBackend pid .idle else w
  | .exit pid => w.setBackend pid .absent
  | .ask pid requested =>
    if w.backends pid = .idle then w.setBackend pid (.scanning requested allCells) else w
  | .access pid => access w pid
  | .leave pid =>
    match w.backends pid with
    | .waiting c => w.setBackend pid (.releasing c 0)
    | .building c _ => w.setBackend pid (.releasing c 0)
    | _ => w
  | .beginCycle => if w.launcher = .rest then { w with launcher := .readPid allCells [] } else w
  | .gather => gather w
  | .compute gucs dbs before after => compute w gucs dbs before after
  | .publish => publish w

/-! ## What a grant answers -/

/-- The calculator has had this claim's own request among its builds, and has granted it `n`
threads. -/
def Answered (w : World) (pid requested ticket n : Nat) : Prop :=
  ∃ comp ∈ w.computed, ∃ k < comp.builds.length,
    comp.builds[k]? = some (⟨w.dbOid, pid, requested⟩, ticket) ∧
      (svsComputeCpuGrants comp.input).buildGrants[k]? = some ⟨w.dbOid, pid, n⟩

instance (w : World) (pid requested ticket n : Nat) : Decidable (Answered w pid requested ticket n) :=
  inferInstanceAs (Decidable (∃ comp ∈ w.computed, ∃ k < comp.builds.length, _ ∧ _))

/-- Every wait that has returned OK was given what the calculator granted to its own claim, and no
more than the claim asks for. -/
def GrantsAnswer (w : World) : Prop :=
  ∀ pid c n, w.backends pid = .building c n →
    Answered w pid c.requested c.ticket n ∧ n ≤ c.requested

def Launcher.pids : Launcher → List Nat
  | .rest => []
  | .readPid _ mine => mine.map InHand.pid
  | .checkPid x _ mine => x.pid :: mine.map InHand.pid
  | .readStatus x _ mine => x.pid :: mine.map InHand.pid
  | .readRequested x _ mine => x.pid :: mine.map InHand.pid
  | .cleanUp x _ _ mine => x.pid :: mine.map InHand.pid
  | .publish due => due.map InHand.pid
  | .seek x _ due => x.pid :: due.map InHand.pid
  | .writeGranted x _ due => x.pid :: due.map InHand.pid
  | .writeStatus x _ due => x.pid :: due.map InHand.pid

def Backend.midClaim : Backend → Bool
  | .claimed _ => true
  | .wroteRequested _ => true
  | .wroteGranted _ => true
  | _ => false

/-- A process claims a request only while its pid is in no request and not in the launcher's hands;
the launcher reads no half-written request, and writes only where the pid that it has read still
stands. -/
def Careful (w : World) : Event → Prop
  | .access pid =>
    match w.backends pid with
    | .scanning _ (i :: _) => (w.cells i).pid = 0 →
        (∀ k, (w.cells k).pid ≠ pid) ∧ pid ∉ w.launcher.pids
    | _ => True
  | .gather =>
    match w.launcher with
    | .readRequested x _ _ => (w.backends x.pid).midClaim = false
    | .cleanUp x _ _ _ => (w.cells x.cell).pid = x.pid
    | _ => True
  | .publish =>
    match w.launcher with
    | .writeGranted x i _ => (w.cells i).pid = x.pid
    | .writeStatus x i _ => (w.cells i).pid = x.pid
    | _ => True
  | _ => True

instance (w : World) (e : Event) : Decidable (Careful w e) := by
  unfold Careful
  repeat' split
  all_goals infer_instance

/-! ## The invariant -/

/-- A claim's request is the backend's, and no later claim has taken it. -/
def Holds (w : World) (pid : Nat) (c : Claim) : Prop :=
  (w.cells c.cell).pid = pid ∧ w.tickets c.cell = c.ticket

def BackendOk (w : World) (pid : Nat) : Backend → Prop
  | .absent => True
  | .idle => True
  | .scanning _ _ => True
  | .claimed c => Holds w pid c
  | .wroteRequested c => Holds w pid c ∧ (w.cells c.cell).requested = c.requested
  | .wroteGranted c => Holds w pid c ∧ (w.cells c.cell).requested = c.requested
  | .waiting c => Holds w pid c ∧ (w.cells c.cell).requested = c.requested ∧
      ((w.cells c.cell).status = .granted →
        Answered w pid c.requested c.ticket (w.cells c.cell).granted)
  | .sawGranted c => Holds w pid c ∧ (w.cells c.cell).status = .granted ∧
      Answered w pid c.requested c.ticket (w.cells c.cell).granted
  | .building c n => Holds w pid c ∧ (w.cells c.cell).status = .granted ∧
      Answered w pid c.requested c.ticket n
  | .releasing c _ => Holds w pid c

/-- What a backend may be doing while the launcher is about to answer its request. -/
def Quiescent (requested : Nat) : Backend → Prop
  | .absent => True
  | .idle => True
  | .scanning _ _ => True
  | .waiting c => c.requested = requested
  | .releasing _ _ => True
  | _ => False

def Unclaimed : Backend → Prop
  | .absent => True
  | .idle => True
  | .scanning _ _ => True
  | _ => False

/-- A pid that was read stands nowhere but where it was read, in the same claim. -/
def Seen (w : World) (x : InHand) : Prop :=
  ∀ k, (w.cells k).pid = x.pid → k = x.cell ∧ w.tickets k = x.ticket

/-- A request in hand is unanswered, and what was read of it still holds. -/
structure Settled (w : World) (x : InHand) : Prop where
  seen : Seen w x
  pending : ∀ k, (w.cells k).pid = x.pid → (w.cells k).status = .pending
  backend : Quiescent x.requested (w.backends x.pid)

/-- The cells still to be looked at are not those of the requests in hand. -/
def Apart (cells : List CellIx) (mine : List InHand) : Prop :=
  cells.Nodup ∧ ∀ x ∈ mine, x.cell ∉ cells

/-- The requests that are completely read and not yet answered. -/
def Launcher.entries : Launcher → List InHand
  | .rest => []
  | .readPid _ mine => mine
  | .checkPid _ _ mine => mine
  | .readStatus _ _ mine => mine
  | .readRequested _ _ mine => mine
  | .cleanUp _ _ _ mine => mine
  | .publish due => due
  | .seek x _ due => x :: due
  | .writeGranted x _ due => x :: due
  | .writeStatus x _ due => x :: due

def Granted (w : World) (x : InHand) : Prop := Answered w x.pid x.requested x.ticket x.granted

def LauncherOk (w : World) : Launcher → Prop
  | .rest => True
  | .readPid cells mine => Apart cells mine
  | .checkPid x cells mine => Apart (x.cell :: cells) mine ∧ Seen w x
  | .readStatus x cells mine => Apart (x.cell :: cells) mine ∧ Seen w x
  | .readRequested x cells mine =>
    Apart (x.cell :: cells) mine ∧ Seen w x ∧ (w.cells x.cell).status = .pending
  | .cleanUp x _ cells mine => Apart (x.cell :: cells) mine ∧ Unclaimed (w.backends x.pid)
  | .publish due => ∀ x ∈ due, Granted w x
  | .seek x _ due => ∀ y ∈ x :: due, Granted w y
  | .writeGranted x _ due => ∀ y ∈ x :: due, Granted w y
  | .writeStatus x _ due => (∀ y ∈ x :: due, Granted w y) ∧
      ∀ c, w.backends x.pid = .waiting c → (w.cells c.cell).granted = x.granted

structure Inv (w : World) : Prop where
  zero : w.backends 0 = .absent
  backend : ∀ pid, BackendOk w pid (w.backends pid)
  distinct : ∀ i j, (w.cells i).pid = (w.cells j).pid → (w.cells i).pid ≠ 0 → i = j
  settled : ∀ x ∈ w.launcher.entries, Settled w x
  nodup : w.launcher.pids.Nodup
  nonzero : ∀ p ∈ w.launcher.pids, p ≠ 0
  launcher : LauncherOk w w.launcher

variable {x : InHand} {l : Launcher}

theorem Inv.inPhase {w : World} (h : Inv w) (hp : w.launcher = l) :
    LauncherOk w l ∧ (∀ x ∈ l.entries, Settled w x) ∧ l.pids.Nodup ∧ ∀ p ∈ l.pids, p ≠ 0 :=
  hp ▸ ⟨h.launcher, h.settled, h.nodup, h.nonzero⟩

theorem mem_pids_of_entry (h : x ∈ l.entries) : x.pid ∈ l.pids := by
  cases l <;> simp_all [Launcher.entries, Launcher.pids] <;> grind

variable {w w' : World} {pid : Nat} {b : Backend}

theorem backendOk_frame (hdb : w'.dbOid = w.dbOid) (hco : ∀ comp ∈ w.computed, comp ∈ w'.computed)
    (hce : ∀ k, (w.cells k).pid = pid → w'.cells k = w.cells k ∧ w'.tickets k = w.tickets k)
    (h : BackendOk w pid b) : BackendOk w' pid b := by
  have ha : ∀ {requested ticket n}, Answered w pid requested ticket n →
      Answered w' pid requested ticket n := by
    rintro requested ticket n ⟨comp, hmem, k, hk, hbu, hg⟩
    exact ⟨comp, hco comp hmem, k, hk, hdb ▸ hbu, hdb ▸ hg⟩
  have hh : ∀ {c}, Holds w pid c → Holds w' pid c ∧ w'.cells c.cell = w.cells c.cell := by
    rintro c ⟨hpid, hti⟩
    obtain ⟨hc, ht⟩ := hce c.cell hpid
    exact ⟨⟨hc ▸ hpid, ht.trans hti⟩, hc⟩
  cases b with
  | absent | idle | scanning => trivial
  | claimed c => exact (hh h).1
  | wroteRequested c | wroteGranted c =>
    obtain ⟨hnew, hc⟩ := hh h.1
    exact ⟨hnew, hc ▸ h.2⟩
  | waiting c =>
    obtain ⟨hnew, hc⟩ := hh h.1
    refine ⟨hnew, hc ▸ h.2.1, ?_⟩
    rw [hc]
    exact fun hs => ha (h.2.2 hs)
  | sawGranted c =>
    obtain ⟨hnew, hc⟩ := hh h.1
    refine ⟨hnew, hc ▸ h.2.1, ?_⟩
    rw [hc]
    exact ha h.2.2
  | building c n =>
    obtain ⟨hnew, hc⟩ := hh h.1
    exact ⟨hnew, hc ▸ h.2.1, ha h.2.2⟩
  | releasing c written => exact (hh h).1

/-! ## Steps of a backend -/

/-- What a backend's step leaves of everything that is not its own. -/
structure BackendStep (w w' : World) (pid : Nat) : Prop where
  dbOid : w'.dbOid = w.dbOid
  launcher : w'.launcher = w.launcher
  computed : w'.computed = w.computed
  others : ∀ p, p ≠ pid → w'.backends p = w.backends p
  cells : ∀ k, (w.cells k).pid ≠ pid → (w.cells k).pid ≠ 0 →
    w'.cells k = w.cells k ∧ w'.tickets k = w.tickets k
  status : ∀ k, (w'.cells k).status = (w.cells k).status ∨ (w'.cells k).status = .pending
  read : ∀ p ∈ w.launcher.pids, ∀ k, (w'.cells k).pid = p →
    (w.cells k).pid = p ∧ w'.tickets k = w.tickets k
  zero : w'.backends 0 = .absent
  own : BackendOk w' pid (w'.backends pid)
  distinct : ∀ i j, (w'.cells i).pid = (w'.cells j).pid → (w'.cells i).pid ≠ 0 → i = j
  hand : ∀ x ∈ w.launcher.entries, x.pid = pid →
    Quiescent x.requested (w'.backends pid) ∧ ∀ c, w'.backends pid ≠ .waiting c
  unclaimed : pid ∈ w.launcher.pids → Unclaimed (w.backends pid) → Unclaimed (w'.backends pid)

section

variable (hs : BackendStep w w' pid)
include hs

theorem BackendStep.seen (hx : x.pid ∈ w.launcher.pids) (h : Seen w x) : Seen w' x := by
  intro k hk
  obtain ⟨hpid, ht⟩ := hs.read x.pid hx k hk
  exact ⟨(h k hpid).1, ht.trans (h k hpid).2⟩

theorem BackendStep.quiescent (hx : x ∈ w.launcher.entries)
    (h : Quiescent x.requested (w.backends x.pid)) : Quiescent x.requested (w'.backends x.pid) := by
  by_cases hpid : x.pid = pid
  · rw [hpid]
    exact (hs.hand x hx hpid).1
  · rw [hs.others x.pid hpid]
    exact h

theorem BackendStep.settled (hx : x ∈ w.launcher.entries)
    (h : Settled w x) : Settled w' x := by
  have hmem := mem_pids_of_entry hx
  refine ⟨hs.seen hmem h.seen, ?_, hs.quiescent hx h.backend⟩
  intro k hk
  obtain ⟨hpid, -⟩ := hs.read x.pid hmem k hk
  obtain hsa | hp := hs.status k
  · exact hsa.trans (h.pending k hpid)
  · exact hp

theorem BackendStep.granted (h : Granted w x) : Granted w' x := by
  unfold Granted Answered at *
  rwa [hs.computed, hs.dbOid]

theorem BackendStep.launcherOk (h : Inv w) : LauncherOk w' w.launcher := by
  have hok := h.launcher
  have hse : ∀ {x}, x.pid ∈ w.launcher.pids → Seen w x → Seen w' x :=
    fun hx hse => hs.seen hx hse
  have hba := h.backend
  have hset := h.settled
  have hn := h.nonzero
  have hh := hs.hand
  have hu := hs.unclaimed
  cases hl : w.launcher with
  | rest => trivial
  | readPid cells mine => rwa [hl] at hok
  | checkPid x cells mine | readStatus x cells mine =>
    rw [hl] at hok
    exact ⟨hok.1, hse (by simp [hl, Launcher.pids]) hok.2⟩
  | readRequested x cells mine =>
    rw [hl] at hok
    refine ⟨hok.1, hse (by simp [hl, Launcher.pids]) hok.2.1, ?_⟩
    obtain hsa | hp := hs.status x.cell
    · exact hsa.trans hok.2.2
    · exact hp
  | cleanUp x written cells mine =>
    rw [hl] at hok
    refine ⟨hok.1, ?_⟩
    by_cases hpid : x.pid = pid
    · rw [hpid]
      exact hu (by simp [hl, Launcher.pids, hpid]) (hpid ▸ hok.2)
    · rw [hs.others x.pid hpid]
      exact hok.2
  | publish due =>
    rw [hl] at hok
    exact fun x hx => hs.granted (hok x hx)
  | seek x cells due | writeGranted x cell due =>
    rw [hl] at hok
    exact fun y hy => hs.granted (hok y hy)
  | writeStatus x cell due =>
    rw [hl] at hok
    refine ⟨fun y hy => hs.granted (hok.1 y hy), ?_⟩
    intro c hc
    by_cases hpid : x.pid = pid
    · rw [hpid] at hc
      exact absurd hc ((hh x (by simp [hl, Launcher.entries]) hpid).2 c)
    rw [hs.others x.pid hpid] at hc
    have hown := hba x.pid
    rw [hc] at hown
    have hpos := hn x.pid (by simp [hl, Launcher.pids])
    obtain ⟨hce, -⟩ := hs.cells c.cell (by rwa [hown.1.1]) (by rwa [hown.1.1])
    rw [hce]
    exact hok.2 c hc

theorem BackendStep.inv (h : Inv w) : Inv w' := by
  have hl := hs.launcher
  refine ⟨hs.zero, ?_, hs.distinct, ?_, ?_, ?_, ?_⟩
  · intro p
    by_cases hp : p = pid
    · rw [hp]
      exact hs.own
    rw [hs.others p hp]
    by_cases hz : p = 0
    · rw [hz, h.zero]
      trivial
    · refine backendOk_frame hs.dbOid (fun comp hc => hs.computed ▸ hc) ?_ (h.backend p)
      intro k hk
      exact hs.cells k (by rwa [hk]) (by rwa [hk])
  · rw [hl]
    exact fun x hx => hs.settled hx (h.settled x hx)
  · rw [hl]
    exact h.nodup
  · rw [hl]
    exact h.nonzero
  · rw [hl]
    exact hs.launcherOk h

end

theorem setBackend_self (w : World) (pid : Nat) (b : Backend) :
    (w.setBackend pid b).backends pid = b := if_pos rfl

theorem backendStep_setBackend (h : Inv w) (hpos : pid = 0 → b = .absent) (hown : BackendOk w pid b)
    (hh : ∀ x ∈ w.launcher.entries, x.pid = pid → Quiescent x.requested b ∧ ∀ c, b ≠ .waiting c)
    (hu : pid ∈ w.launcher.pids → Unclaimed (w.backends pid) → Unclaimed b) :
    BackendStep w (w.setBackend pid b) pid where
  dbOid := rfl
  launcher := rfl
  computed := rfl
  others := fun p hp => if_neg hp
  cells := fun k _ _ => ⟨rfl, rfl⟩
  status := fun k => .inl rfl
  read := fun p _ k hk => ⟨hk, rfl⟩
  zero := by
    unfold setBackend
    dsimp only
    split
    · rename_i hz
      exact hpos hz.symm
    · exact h.zero
  own := by
    rw [setBackend_self]
    exact backendOk_frame rfl (fun comp hc => hc) (fun k _ => ⟨rfl, rfl⟩) hown
  distinct := h.distinct
  hand := by
    rw [setBackend_self]
    exact hh
  unclaimed := by
    rw [setBackend_self]
    exact hu

theorem setCell_self (w : World) (i : CellIx) (req : SvsBuildRequest) :
    (w.setCell i req).cells i = req := if_pos rfl

variable {i : CellIx}

theorem setCell_other (w : World) {k : CellIx} (hk : k ≠ i) (req : SvsBuildRequest) :
    (w.setCell i req).cells k = w.cells k := if_neg hk

variable {req : SvsBuildRequest}

section

variable (h : Inv w)
include h

/-- A cell that is written keeps its pid or is free, so that no two cells come to have one pid. -/
theorem distinct_setCell {p : Nat} (hi : (w.cells i).pid = p)
    (hpid : req.pid = p ∨ req.pid = 0) (j k : CellIx)
    (hjk : ((w.setCell i req).cells j).pid = ((w.setCell i req).cells k).pid)
    (hj : ((w.setCell i req).cells j).pid ≠ 0) : j = k := by
  have hke : ∀ k, ((w.setCell i req).cells k).pid ≠ 0 →
      ((w.setCell i req).cells k).pid = (w.cells k).pid := by
    intro k hk
    by_cases hki : k = i
    · rw [hki, setCell_self] at hk ⊢
      exact (hpid.resolve_right hk).trans hi.symm
    · rw [setCell_other w hki]
  have hjke := hke j hj
  have hkk := hke k (hjk ▸ hj)
  exact h.distinct j k (hjke.symm.trans (hjk.trans hkk)) (hjke ▸ hj)

/-- The compare-and-exchange takes a free cell for a pid that stands in no cell and that the
launcher does not have in hand. -/
theorem backendStep_claimCell {requested : Nat} (cells : List CellIx) (hpos : pid ≠ 0)
    (hfr : (w.cells i).pid = 0 → (∀ k, (w.cells k).pid ≠ pid) ∧ pid ∉ w.launcher.pids) :
    BackendStep w (claimCell w pid requested i cells) pid := by
  unfold claimCell
  split
  · rename_i hf
    obtain ⟨hn, hh⟩ := hfr hf
    have ho : ∀ k, k ≠ i → (if k = i then { w.cells i with pid } else w.cells k) = w.cells k :=
      fun k hk => if_neg hk
    refine ⟨rfl, rfl, rfl, fun p hp => if_neg hp, ?_, ?_, ?_, ?_, ?_, ?_, ?_, ?_⟩
    · intro k _ hk
      have hne : k ≠ i := fun hki => hk (hki ▸ hf)
      exact ⟨if_neg hne, if_neg hne⟩
    · intro k
      refine .inl ?_
      by_cases hk : k = i
      · simp [setBackend, setCell, hk]
      · simp [setBackend, setCell, hk]
    · intro p hp k hkp
      by_cases hk : k = i
      · simp [setBackend, setCell, hk] at hkp
        exact absurd (hkp ▸ hp) hh
      · simp [setBackend, setCell, hk] at hkp ⊢
        exact hkp
    · simp [setBackend, setCell, hpos.symm, h.zero]
    · simp [setBackend, setCell, BackendOk, Holds]
    · intro j k hjk hj
      by_cases hji : j = i
      · by_cases hki : k = i
        · exact hji.trans hki.symm
        · simp [setBackend, setCell, hji, hki] at hjk
          exact absurd hjk.symm (hn k)
      · by_cases hki : k = i
        · simp [setBackend, setCell, hji, hki] at hjk
          exact absurd hjk (hn j)
        · simp [setBackend, setCell, hji, hki] at hjk hj
          exact h.distinct j k hjk hj
    · intro x hx hxp
      exact absurd (hxp ▸ mem_pids_of_entry hx) hh
    · exact fun hp => absurd hp hh
  · exact backendStep_setBackend h (fun hz => absurd hz hpos) trivial
      (fun x _ _ => ⟨trivial, fun c hc => by cases hc⟩) fun _ _ => trivial

theorem Inv.quiescent (hx : x ∈ w.launcher.entries) (hpid : x.pid = pid) :
    Quiescent x.requested (w.backends pid) :=
  hpid ▸ (h.settled x hx).backend

theorem Inv.pos (hnot : ¬ Unclaimed (w.backends pid)) : pid ≠ 0 := by
  rintro rfl
  exact hnot (h.zero ▸ trivial)

theorem inv_setBackend (hnot : ¬ Unclaimed (w.backends pid)) (hown : BackendOk w pid b)
    (hh : ∀ x ∈ w.launcher.entries, x.pid = pid → Quiescent x.requested b ∧ ∀ c, b ≠ .waiting c) :
    Inv (w.setBackend pid b) :=
  (backendStep_setBackend h (fun hz => absurd hz (h.pos hnot)) hown hh
    fun _ hun => absurd hun hnot).inv h

theorem inv_unclaimed (hpos : pid = 0 → b = .absent) (hb : Unclaimed b) :
    Inv (w.setBackend pid b) := by
  refine (backendStep_setBackend h hpos ?_ ?_ fun _ _ => hb).inv h
  · cases b <;> trivial
  · intro x _ _
    cases b <;> first | exact ⟨trivial, fun c hc => by cases hc⟩ | exact hb.elim

theorem inv_write {c : Claim} (hu : ¬ Unclaimed (w.backends pid)) (hh : Holds w pid c)
    (hpid : req.pid = pid ∨ req.pid = 0)
    (hst : req.status = (w.cells c.cell).status ∨ req.status = .pending)
    (hown : BackendOk (w.setCell c.cell req) pid b)
    (hha : ∀ x ∈ w.launcher.entries, x.pid = pid → Quiescent x.requested b ∧ ∀ c, b ≠ .waiting c) :
    Inv ((w.setCell c.cell req).setBackend pid b) := by
  have hs : BackendStep w ((w.setCell c.cell req).setBackend pid b) pid := {
    dbOid := rfl
    launcher := rfl
    computed := rfl
    others := fun p hp => if_neg hp
    cells := by
      intro k hk _
      have hne : k ≠ c.cell := by
        rintro rfl
        exact hk hh.1
      exact ⟨setCell_other w hne req, rfl⟩
    status := by
      intro k
      by_cases hk : k = c.cell
      · have hse : ((w.setCell c.cell req).setBackend pid b).cells c.cell = req :=
          setCell_self w c.cell req
        rw [hk, hse]
        exact hst
      · exact .inl (congrArg _ (setCell_other w hk req))
    read := by
      intro p hp k hkp
      refine ⟨?_, rfl⟩
      by_cases hk : k = c.cell
      · rw [hk] at hkp ⊢
        change ((w.setCell c.cell req).cells c.cell).pid = p at hkp
        rw [setCell_self] at hkp
        obtain hpid | hpid := hpid
        · exact hh.1.trans (hpid.symm.trans hkp)
        · exact absurd (hkp.symm.trans hpid) (h.nonzero p hp)
      · exact (congrArg _ (setCell_other w hk req)).symm.trans hkp
    zero := by
      unfold setBackend setCell
      dsimp only
      rw [if_neg (h.pos hu).symm]
      exact h.zero
    own := by
      rw [setBackend_self]
      exact backendOk_frame rfl (fun comp hc => hc) (fun k _ => ⟨rfl, rfl⟩) hown
    distinct := distinct_setCell h hh.1 hpid
    hand := by
      rw [setBackend_self]
      exact hha
    unclaimed := fun _ hun => absurd hun hu }
  exact hs.inv h

end

section

variable (req : SvsBuildRequest)

theorem releaseWrite_pid (written : Nat) :
    (releaseWrite req written).pid = req.pid ∨ (releaseWrite req written).pid = 0 := by
  unfold releaseWrite
  split <;> simp

theorem releaseWrite_status (written : Nat) :
    (releaseWrite req written).status = req.status ∨
      (releaseWrite req written).status = .pending := by
  unfold releaseWrite
  split <;> simp

theorem releaseWrite_keeps {written : Nat} (h : written < 3) :
    (releaseWrite req written).pid = req.pid := by
  obtain rfl | rfl | rfl : written = 0 ∨ written = 1 ∨ written = 2 := by omega
  all_goals rfl

end

theorem inv_access (h : Inv w) (hok : Careful w (.access pid)) : Inv (access w pid) := by
  have hown := h.backend pid
  have hq : ∀ x ∈ w.launcher.entries, x.pid = pid → Quiescent x.requested (w.backends pid) :=
    fun x hx hpid => h.quiescent hx hpid
  unfold access
  unfold Careful at hok
  cases hb : w.backends pid with
  | absent | idle | building => exact h
  | scanning requested cells =>
    have hpid : pid ≠ 0 := by
      rintro rfl
      simp [h.zero] at hb
    cases cells with
    | nil => exact inv_unclaimed h (fun hz => absurd hz hpid) trivial
    | cons i cells =>
      simp only [hb] at hok
      exact (backendStep_claimCell h cells hpid hok).inv h
  | claimed c =>
    rw [hb] at hown hq
    refine inv_write h (by simp [hb, Unclaimed]) hown (.inl hown.1) (.inl rfl) ?_
      fun x hx hxp => (hq x hx hxp).elim
    exact ⟨⟨by rw [setCell_self]; exact hown.1, hown.2⟩, by rw [setCell_self]⟩
  | wroteRequested c =>
    rw [hb] at hown hq
    refine inv_write h (by simp [hb, Unclaimed]) hown.1 (.inl hown.1.1) (.inl rfl) ?_
      fun x hx hxp => (hq x hx hxp).elim
    exact ⟨⟨by rw [setCell_self]; exact hown.1.1, hown.1.2⟩, by rw [setCell_self]; exact hown.2⟩
  | wroteGranted c =>
    rw [hb] at hown hq
    refine inv_write h (by simp [hb, Unclaimed]) hown.1 (.inl hown.1.1) (.inr rfl) ?_
      fun x hx hxp => (hq x hx hxp).elim
    refine ⟨⟨by rw [setCell_self]; exact hown.1.1, hown.1.2⟩, by rw [setCell_self]; exact hown.2, ?_⟩
    rw [setCell_self]
    intro hs
    cases hs
  | waiting c =>
    rw [hb] at hown hq
    have hnot : ¬ Unclaimed (w.backends pid) := by simp [hb, Unclaimed]
    dsimp only
    split
    · rename_i hs
      refine inv_setBackend h hnot ⟨hown.1, hs, hown.2.2 hs⟩ ?_
      -- a request in hand is pending, so its backend sees no grant
      intro x hx hxp
      have hp := (h.settled x hx).pending c.cell (hown.1.1.trans hxp.symm)
      rw [hp] at hs
      cases hs
    · exact inv_setBackend h hnot hown.1 fun x _ _ => ⟨trivial, fun c hc => by cases hc⟩
  | sawGranted c =>
    rw [hb] at hown hq
    exact inv_setBackend h (by simp [hb, Unclaimed]) hown fun x hx hxp => (hq x hx hxp).elim
  | releasing c written =>
    rw [hb] at hown
    have hpid := releaseWrite_pid (w.cells c.cell) written
    rw [hown.1] at hpid
    refine inv_write h (by simp [hb, Unclaimed]) hown hpid (releaseWrite_status _ written) ?_ ?_
    · split
      · rename_i hm
        refine ⟨?_, hown.2⟩
        rw [setCell_self, releaseWrite_keeps _ hm]
        exact hown.1
      · trivial
    · intro x _ _
      split <;> exact ⟨trivial, fun c hc => by cases hc⟩

theorem inv_leave (h : Inv w) (pid : Nat) : Inv (step w (.leave pid)) := by
  have hown := h.backend pid
  have hr : ∀ c, Holds w pid c → ¬ Unclaimed (w.backends pid) →
      Inv (w.setBackend pid (.releasing c 0)) := fun c hh hnot =>
    inv_setBackend h hnot hh fun x _ _ => ⟨trivial, fun c hc => by cases hc⟩
  unfold step
  dsimp only
  split
  · rename_i c hb
    exact hr c (hb ▸ hown).1 (by simp [hb, Unclaimed])
  · rename_i c n hb
    exact hr c (hb ▸ hown).1 (by simp [hb, Unclaimed])
  · exact h

/-! ## Steps of the launcher -/

theorem inv_launcher (h : Inv w) (hs : ∀ x ∈ l.entries, Settled w x) (hno : l.pids.Nodup)
    (hn : ∀ p ∈ l.pids, p ≠ 0) (hok : LauncherOk w l) : Inv { w with launcher := l } := by
  refine ⟨h.zero, ?_, h.distinct, ?_, hno, hn, ?_⟩
  · exact fun pid => backendOk_frame rfl (fun comp hc => hc) (fun k _ => ⟨rfl, rfl⟩) (h.backend pid)
  · exact fun x hx => ⟨(hs x hx).seen, (hs x hx).pending, (hs x hx).backend⟩
  · cases l <;> exact hok

/-- The launcher writes to a request whose pid it has read there, and leaves the pid or frees the
request. -/
theorem inv_launcher_write (h : Inv w) {p : Nat} (hi : (w.cells i).pid = p)
    (hpid : req.pid = p ∨ req.pid = 0) (hown : BackendOk (w.setCell i req) p (w.backends p))
    (hen : ∀ x ∈ l.entries, x.pid ≠ p ∧ Settled w x ∨ Settled (w.setCell i req) x)
    (hno : l.pids.Nodup) (hn : ∀ p ∈ l.pids, p ≠ 0) (hok : LauncherOk (w.setCell i req) l) :
    Inv { w.setCell i req with launcher := l } := by
  refine ⟨h.zero, ?_, distinct_setCell h hi hpid, ?_, hno, hn, ?_⟩
  · intro q
    by_cases hq : q = p
    · rw [hq]
      exact backendOk_frame rfl (fun comp hc => hc) (fun k _ => ⟨rfl, rfl⟩) hown
    refine backendOk_frame (w := w) rfl (fun comp hc => hc) ?_ (h.backend q)
    intro k hk
    have hki : k ≠ i := by
      rintro rfl
      exact hq (hk.symm.trans hi)
    exact ⟨setCell_other w hki req, rfl⟩
  · intro x hx
    obtain ⟨hne, hs⟩ | hs := hen x hx
    · have hmem := hn x.pid (mem_pids_of_entry hx)
      have hsa : ∀ k, ((w.setCell i req).cells k).pid = x.pid →
          (w.setCell i req).cells k = w.cells k := by
        intro k hk
        refine setCell_other w ?_ req
        rintro rfl
        rw [setCell_self] at hk
        obtain hpid | hpid := hpid
        · exact hne (hk.symm.trans hpid)
        · exact hmem (hk.symm.trans hpid)
      refine ⟨?_, ?_, hs.backend⟩
      · intro k hk
        exact hs.seen k (hsa k hk ▸ hk)
      · intro k hk
        exact (congrArg _ (hsa k hk)).trans (hs.pending k (hsa k hk ▸ hk))
    · exact ⟨hs.seen, hs.pending, hs.backend⟩
  · cases l <;> exact hok

variable {mine : List InHand} {cells : List CellIx}

theorem Apart.tail (h : Apart (i :: cells) mine) : Apart cells mine :=
  ⟨(nodup_cons.mp h.1).2, fun x hx hmem => h.2 x hx (mem_cons_of_mem i hmem)⟩

theorem not_mem_of_apart (ha : Apart (i :: cells) mine)
    (hm : ∀ x ∈ mine, Settled w x) : (w.cells i).pid ∉ mine.map InHand.pid := by
  intro hmem
  obtain ⟨x, hx, hpid⟩ := mem_map.mp hmem
  have hc := ((hm x hx).seen i hpid.symm).1
  exact ha.2 x hx (hc ▸ mem_cons_self)

theorem settled_read (h : Inv w) (hs : Seen w x) (hp : (w.cells x.cell).status = .pending)
    (hmid : (w.backends x.pid).midClaim = false) :
    Settled w { x with requested := (w.cells x.cell).requested } := by
  have hown := h.backend x.pid
  -- a backend that has seen its grant reads a status that is not pending
  have hu : ∀ c, Holds w x.pid c → (w.cells c.cell).status = .granted → False := by
    intro c hh hst
    rw [(hs c.cell hh.1).1, hp] at hst
    cases hst
  refine ⟨hs, ?_, ?_⟩
  · intro k hk
    rw [(hs k hk).1]
    exact hp
  · dsimp only
    cases hb : w.backends x.pid with
    | absent | idle | scanning | releasing => trivial
    | claimed c | wroteRequested c | wroteGranted c => simp [hb, Backend.midClaim] at hmid
    | waiting c =>
      rw [hb] at hown
      rw [← (hs c.cell hown.1.1).1]
      exact hown.2.1.symm
    | sawGranted c | building c n =>
      rw [hb] at hown
      exact hu c hown.1 hown.2.1

theorem inv_gather (h : Inv w) (hok : Careful w .gather) : Inv (gather w) := by
  unfold gather
  unfold Careful at hok
  split
  · rename_i i cells mine hph
    obtain ⟨hl, hs, hno, hn⟩ := h.inPhase hph
    split
    · exact inv_launcher h hs hno hn hl.tail
    rename_i hpid
    have hnew := not_mem_of_apart hl hs
    refine inv_launcher h hs (nodup_cons.mpr ⟨hnew, hno⟩) ?_ ⟨hl, ?_⟩
    · intro p hp
      obtain rfl | hp := mem_cons.mp hp
      · exact hpid
      · exact hn p hp
    · intro k hk
      obtain rfl := h.distinct k i hk (hk ▸ hpid)
      exact ⟨rfl, rfl⟩
  · rename_i x cells mine hph
    obtain ⟨hl, hs, hno, hn⟩ := h.inPhase hph
    split
    · rename_i hab
      refine inv_launcher h hs hno hn ⟨hl.1, ?_⟩
      rw [hab]
      trivial
    · exact inv_launcher h hs hno hn hl
  · rename_i x cells mine hph
    obtain ⟨hl, hs, hno, hn⟩ := h.inPhase hph
    split
    · rename_i hst
      exact inv_launcher h hs hno hn ⟨hl.1, hl.2, hst⟩
    · exact inv_launcher h hs (nodup_cons.mp hno).2
        (fun p hp => hn p (mem_cons_of_mem _ hp)) hl.1.tail
  · -- the request is read: it is complete, and pending since its status was read
    rename_i x cells mine hph
    obtain ⟨hl, hs, hno, hn⟩ := h.inPhase hph
    simp only [hph] at hok
    obtain ⟨ha, hse, hpe⟩ := hl
    have hr := settled_read h hse hpe hok
    have hperm : ((mine ++ [{ x with requested := (w.cells x.cell).requested }]).map
        InHand.pid).Perm (x.pid :: mine.map InHand.pid) := by
      rw [map_append, map_singleton]
      exact perm_append_singleton _ _
    refine inv_launcher h ?_ ?_ ?_ ?_
    · intro y hy
      obtain hy | hy := mem_append.mp hy
      · exact hs y hy
      · exact mem_singleton.mp hy ▸ hr
    · exact hperm.nodup_iff.mpr hno
    · exact fun p hp => hn p (hperm.mem_iff.mp hp)
    · refine ⟨ha.tail.1, ?_⟩
      intro y hy
      obtain hy | hy := mem_append.mp hy
      · exact ha.tail.2 y hy
      · rw [mem_singleton.mp hy]
        exact (nodup_cons.mp ha.1).1
  · rename_i x written cells mine hph
    obtain ⟨hl, hs, hno, hn⟩ := h.inPhase hph
    simp only [hph] at hok
    obtain ⟨ha, hu⟩ := hl
    have hpid := releaseWrite_pid (w.cells x.cell) written
    rw [hok] at hpid
    have hown : BackendOk (w.setCell x.cell (releaseWrite (w.cells x.cell) written)) x.pid
        (w.backends x.pid) := by
      cases hb : w.backends x.pid <;> rw [hb] at hu <;> trivial
    have hen : ∀ y ∈ mine, y.pid ≠ x.pid := by
      intro y hy hyx
      exact (nodup_cons.mp hno).1 (mem_map.mpr ⟨y, hy, hyx⟩)
    split
    · exact inv_launcher_write h hok hpid hown
        (fun y hy => .inl ⟨hen y hy, hs y hy⟩) hno hn ⟨ha, hu⟩
    · exact inv_launcher_write h hok hpid hown
        (fun y hy => .inl ⟨hen y hy, hs y hy⟩) (nodup_cons.mp hno).2
        (fun p hp => hn p (mem_cons_of_mem _ hp)) ha.tail
  · exact h

theorem buildGrants_eq (input : SvsCpuBudgetInput) :
    ∃ n : Nat → Nat, (svsComputeCpuGrants input).buildGrants =
      input.builds.mapIdx fun k b => ⟨b.dbOid, b.requestPid, n k⟩ :=
  ⟨_, rfl⟩

theorem filter_grants {dbOid : Nat} (n : Nat → Nat) {before mid after : List SvsBuildCpuRequest}
    (hbe : ∀ b ∈ before, b.dbOid ≠ dbOid) (hmid : ∀ b ∈ mid, b.dbOid = dbOid)
    (ha : ∀ b ∈ after, b.dbOid ≠ dbOid) :
    ((before ++ mid ++ after).mapIdx fun k b => SvsBuildCpuGrant.mk b.dbOid b.requestPid (n k)).filter
        (fun g => g.dbOid == dbOid) =
      mid.mapIdx fun k b => ⟨b.dbOid, b.requestPid, n (k + before.length)⟩ := by
  have hn : ∀ (l : List SvsBuildCpuRequest) (f : Nat → Nat), (∀ b ∈ l, b.dbOid ≠ dbOid) →
      (l.mapIdx fun k b => SvsBuildCpuGrant.mk b.dbOid b.requestPid (f k)).filter
        (fun g => g.dbOid == dbOid) = [] := by
    intro l f hl
    refine filter_eq_nil_iff.mpr fun g hg => ?_
    obtain ⟨k, hk, rfl⟩ := mem_mapIdx.mp hg
    simpa using hl _ (getElem_mem hk)
  have hall : ∀ (l : List SvsBuildCpuRequest) (f : Nat → Nat), (∀ b ∈ l, b.dbOid = dbOid) →
      (l.mapIdx fun k b => SvsBuildCpuGrant.mk b.dbOid b.requestPid (f k)).filter
        (fun g => g.dbOid == dbOid) =
          l.mapIdx fun k b => SvsBuildCpuGrant.mk b.dbOid b.requestPid (f k) := by
    intro l f hl
    refine filter_eq_self.mpr fun g hg => ?_
    obtain ⟨k, hk, rfl⟩ := mem_mapIdx.mp hg
    simpa using hl _ (getElem_mem hk)
  rw [mapIdx_append, mapIdx_append, filter_append, filter_append,
    hn before n hbe, hall mid (fun k => n (k + before.length)) hmid,
    hn after (fun k => n (k + (before ++ mid).length)) ha, nil_append, append_nil]

theorem dueGrants_spec {dbOid : Nat} (comp : Computation) (before after : List SvsBuildCpuRequest)
    (hc : comp.builds = labelled dbOid mine before after) :
    ∃ n : Nat → Nat, dueGrants dbOid mine comp =
        mine.mapIdx (fun i x => { x with granted := n i }) ∧
      ∀ i x, mine[i]? = some x → ∃ k < comp.builds.length,
        comp.builds[k]? = some (⟨dbOid, x.pid, x.requested⟩, x.ticket) ∧
          (svsComputeCpuGrants comp.input).buildGrants[k]? = some ⟨dbOid, x.pid, n i⟩ := by
  obtain ⟨n, hn⟩ := buildGrants_eq comp.input
  let others := before.filter fun b => b.dbOid != dbOid
  let ours := mine.map fun x => SvsBuildCpuRequest.mk dbOid x.pid x.requested
  have hbu : comp.input.builds =
      others ++ ours ++ after.filter fun b => b.dbOid != dbOid := by
    unfold Computation.input
    rw [hc]
    simp [labelled, others, ours, Function.comp_def]
  refine ⟨fun i => n (i + others.length), ?_, ?_⟩
  · have hf : (svsComputeCpuGrants comp.input).buildGrants.filter (fun g => g.dbOid == dbOid) =
        ours.mapIdx fun k b => ⟨b.dbOid, b.requestPid, n (k + others.length)⟩ := by
      rw [hn, hbu]
      refine filter_grants n ?_ ?_ ?_
      · exact fun b hb => by simpa using (mem_filter.mp hb).2
      · intro b hb
        obtain ⟨x, -, rfl⟩ := mem_map.mp hb
        rfl
      · exact fun b hb => by simpa using (mem_filter.mp hb).2
    unfold dueGrants
    rw [hf]
    refine ext_getElem? fun k => ?_
    rw [getElem?_zipWith, getElem?_mapIdx, getElem?_mapIdx, getElem?_map]
    cases mine[k]? <;> rfl
  · intro i x hx
    have hlt : i < mine.length := (List.getElem?_eq_some_iff.mp hx).1
    have hp : comp.builds[i + others.length]? = some (⟨dbOid, x.pid, x.requested⟩, x.ticket) := by
      rw [hc]
      unfold labelled
      rw [append_assoc, getElem?_append_right (by simp [others]),
        getElem?_append_left (by simp [others, hlt])]
      simp [others, hx]
    refine ⟨i + others.length, (List.getElem?_eq_some_iff.mp hp).1, hp, ?_⟩
    rw [hn, getElem?_mapIdx]
    unfold Computation.input
    rw [getElem?_map, hp]
    rfl

theorem inv_compute (h : Inv w) (gucs : SvsCpuGucs) (dbs : List SvsDbCpuRequest)
    (before after : List SvsBuildCpuRequest) : Inv (compute w gucs dbs before after) := by
  unfold compute
  split
  · rename_i mine hph
    obtain ⟨-, hs, hno, hn⟩ := h.inPhase hph
    dsimp only
    obtain ⟨n, hdue, hg⟩ :=
      dueGrants_spec ⟨gucs, dbs, labelled w.dbOid mine before after⟩ before after rfl
    rw [hdue]
    have hpi : (mine.mapIdx fun i x => { x with granted := n i }).map InHand.pid =
        mine.map InHand.pid := by
      refine ext_getElem? fun k => ?_
      rw [getElem?_map, getElem?_mapIdx, getElem?_map]
      cases mine[k]? <;> rfl
    refine ⟨h.zero, ?_, h.distinct, ?_, ?_, ?_, ?_⟩
    · exact fun pid => backendOk_frame (w := w) rfl
        (fun comp hc => mem_append_left _ hc) (fun k _ => ⟨rfl, rfl⟩) (h.backend pid)
    · intro x hx
      obtain ⟨i, hi, rfl⟩ := mem_mapIdx.mp hx
      have hold := hs mine[i] (getElem_mem hi)
      exact ⟨hold.seen, hold.pending, hold.backend⟩
    · exact (congrArg Nodup hpi).mpr hno
    · exact fun p hp => hn p ((congrArg (p ∈ ·) hpi).mp hp)
    · intro x hx
      obtain ⟨i, hi, rfl⟩ := mem_mapIdx.mp hx
      obtain ⟨k, hk, hbu, hgr⟩ := hg i mine[i] (getElem?_eq_getElem hi)
      exact ⟨_, mem_append_right _ mem_cons_self, k, hk, hbu, hgr⟩
  · exact h

theorem settled_granted (h : Settled w x) (i : CellIx) (n : Nat) :
    Settled (w.setCell i { w.cells i with granted := n }) x := by
  have hke : ∀ k, ((w.setCell i { w.cells i with granted := n }).cells k).pid =
      (w.cells k).pid ∧ ((w.setCell i { w.cells i with granted := n }).cells k).status =
        (w.cells k).status := by
    intro k
    by_cases hk : k = i
    · rw [hk, setCell_self]
      exact ⟨rfl, rfl⟩
    · rw [setCell_other w hk]
      exact ⟨rfl, rfl⟩
  refine ⟨?_, ?_, h.backend⟩
  · exact fun k hk => h.seen k ((hke k).1.symm.trans hk)
  · exact fun k hk => (hke k).2.trans (h.pending k ((hke k).1.symm.trans hk))

/-- The launcher writes a request it has in hand: the backend still waits for it, and finds an
answer if the status says so. -/
theorem backendOk_written (h : Inv w) (hx : Settled w x) (hi : (w.cells i).pid = x.pid)
    (hpid : req.pid = x.pid) (hr : req.requested = (w.cells i).requested)
    (ha : ∀ c, w.backends x.pid = .waiting c → Holds w x.pid c → c.cell = i →
      req.status = .granted → Answered w x.pid c.requested c.ticket req.granted) :
    BackendOk (w.setCell i req) x.pid (w.backends x.pid) := by
  have hce : ∀ c, Holds w x.pid c → c.cell = i := fun c hc =>
    (hx.seen c.cell hc.1).1.trans (hx.seen i hi).1.symm
  have hh : ∀ c, Holds w x.pid c → Holds (w.setCell i req) x.pid c := by
    intro c hc
    obtain rfl := hce c hc
    refine ⟨?_, hc.2⟩
    rw [setCell_self]
    exact hpid
  have hown := h.backend x.pid
  have hq := hx.backend
  cases hb : w.backends x.pid with
  | absent | idle | scanning => trivial
  | claimed c | wroteRequested c | wroteGranted c | sawGranted c | building c n =>
    exact (hb ▸ hq).elim
  | waiting c =>
    rw [hb] at hown
    have hci := hce c hown.1
    refine ⟨hh c hown.1, ?_, ?_⟩
    · rw [hci, setCell_self, hr, ← hci]
      exact hown.2.1
    · rw [hci, setCell_self]
      exact ha c hb hown.1 hci
  | releasing c written =>
    rw [hb] at hown
    exact hh c hown

variable {due : List InHand}

theorem inv_writeGranted (h : Inv w)
    (hph : w.launcher = .writeGranted x i due) (hi : (w.cells i).pid = x.pid) :
    Inv { w.setCell i { w.cells i with granted := x.granted } with
      launcher := .writeStatus x i due } := by
  obtain ⟨hl, hs, hno, hn⟩ := h.inPhase hph
  have hx := hs x mem_cons_self
  have hp := hx.pending i hi
  refine inv_launcher_write h hi (.inl hi) ?_ (fun y hy => .inr (settled_granted (hs y hy) i _))
    hno hn ⟨hl, ?_⟩
  · refine backendOk_written h hx hi (by exact hi) (by rfl) ?_
    intro c _ _ _ hst
    simp [hp] at hst
  · intro c hc
    change w.backends x.pid = .waiting c at hc
    have hown := h.backend x.pid
    rw [hc] at hown
    have hci : c.cell = i := (hx.seen c.cell hown.1.1).1.trans (hx.seen i hi).1.symm
    rw [hci, setCell_self]

theorem inv_writeStatus (h : Inv w) (hph : w.launcher = .writeStatus x i due)
    (hi : (w.cells i).pid = x.pid) :
    Inv { w.setCell i { w.cells i with status := .granted } with launcher := .publish due } := by
  obtain ⟨hl, hs, hn, hno⟩ := h.inPhase hph
  have hx := hs x mem_cons_self
  have ho : ∀ y ∈ due, y.pid ≠ x.pid := fun y hy hyx =>
    (nodup_cons.mp hn).1 (mem_map.mpr ⟨y, hy, hyx⟩)
  refine inv_launcher_write h hi (.inl hi) ?_
    (fun y hy => .inl ⟨ho y hy, hs y (mem_cons_of_mem x hy)⟩)
    (nodup_cons.mp hn).2 (fun p hp => hno p (mem_cons_of_mem _ hp))
    fun y hy => hl.1 y (mem_cons_of_mem x hy)
  refine backendOk_written h hx hi (by exact hi) (by rfl) ?_
  -- the waiting backend now sees the grant that was computed for its claim
  intro c hc hh hci _
  have hg : (w.cells i).granted = x.granted := hci ▸ hl.2 c hc
  have hcl : Answered w x.pid x.requested x.ticket x.granted := hl.1 x mem_cons_self
  have hq := hx.backend
  rw [hc] at hq
  have ht : c.ticket = x.ticket := hh.2.symm.trans (hx.seen c.cell hh.1).2
  rw [hg, ht, show c.requested = x.requested from hq]
  exact hcl

theorem inv_publish (h : Inv w) (hok : Careful w .publish) : Inv (publish w) := by
  unfold publish
  unfold Careful at hok
  split
  · exact inv_launcher h (fun x hx => absurd hx not_mem_nil) nodup_nil
      (fun p hp => absurd hp not_mem_nil) trivial
  · rename_i x due hph
    obtain ⟨hl, hs, hno, hn⟩ := h.inPhase hph
    exact inv_launcher h hs hno hn hl
  · rename_i x due hph
    obtain ⟨hl, hs, hno, hn⟩ := h.inPhase hph
    exact inv_launcher h (fun y hy => hs y (mem_cons_of_mem x hy))
      (nodup_cons.mp hno).2 (fun p hp => hn p (mem_cons_of_mem _ hp))
      fun y hy => hl y (mem_cons_of_mem x hy)
  · rename_i x i cells due hph
    obtain ⟨hl, hs, hno, hn⟩ := h.inPhase hph
    split <;> exact inv_launcher h hs hno hn hl
  · rename_i x i due hph
    simp only [hph] at hok
    exact inv_writeGranted h hph hok
  · rename_i x i due hph
    simp only [hph] at hok
    exact inv_writeStatus h hph hok
  · exact h

/-! ## Every run -/

theorem inv_step (w : World) (e : Event) (h : Inv w) (hok : Careful w e) : Inv (step w e) := by
  cases e with
  | start pid =>
    unfold step
    dsimp only
    split
    · rename_i hs
      exact inv_unclaimed h (fun hz => absurd hz hs.1) trivial
    · exact h
  | exit pid => exact inv_unclaimed h (fun _ => rfl) trivial
  | ask pid requested =>
    unfold step
    dsimp only
    split
    · rename_i hi
      refine inv_unclaimed h ?_ trivial
      rintro rfl
      rw [h.zero] at hi
      cases hi
    · exact h
  | access pid => exact inv_access h hok
  | leave pid => exact inv_leave h pid
  | beginCycle =>
    unfold step
    dsimp only
    split
    · exact inv_launcher h (fun x hx => absurd hx not_mem_nil) nodup_nil
        (fun p hp => absurd hp not_mem_nil)
        ⟨nodup_finRange _, fun x hx => absurd hx not_mem_nil⟩
    · exact h
  | gather => exact inv_gather h hok
  | compute gucs dbs before after => exact inv_compute h gucs dbs before after
  | publish => exact inv_publish h hok

theorem inv_init (dbOid : Nat) : Inv { dbOid } := by
  refine ⟨rfl, fun _ => trivial, ?_, ?_, nodup_nil, ?_, trivial⟩
  · exact fun i j _ hpos => absurd rfl hpos
  · exact fun x hx => absurd hx not_mem_nil
  · exact fun p hp => absurd hp not_mem_nil

theorem answered_le {requested ticket n : Nat} (h : Answered w pid requested ticket n) :
    n ≤ requested := by
  obtain ⟨comp, -, k, -, hbu, hg⟩ := h
  have hi : comp.input.builds[k]? = some ⟨w.dbOid, pid, requested⟩ := by
    unfold Computation.input
    rw [getElem?_map, hbu]
    rfl
  obtain ⟨m, hm, hg'⟩ := buildGrant_le hi
  rw [hg] at hg'
  obtain rfl : n = m := by simpa using hg'
  exact hm

/-- In every interleaving of backends and launcher whose claims, reads and writes are careful, a
wait that returns OK returns the grant of its own claim. -/
theorem a_grant_answers_its_claim (dbOid : Nat) (events : List Event)
    (h : EachStep step Careful { dbOid } events) :
    EachState step GrantsAnswer { dbOid } events := by
  refine eachState_invariant Inv inv_step ?_ (inv_init dbOid) h
  intro w hw pid c n hb
  have hown := hw.backend pid
  rw [hb] at hown
  exact ⟨hown.2.2, answered_le hown.2.2⟩

def firstCell : CellIx := ⟨0, by decide⟩

/-- Backend 42 asks for a number of threads and is waiting; the launcher gathers its request, the
only one, and computes a budget over a pool of eight. -/
def askAndCompute (requested : Nat) : List Event :=
  [.ask 42 requested] ++ replicate 4 (.access 42) ++ .beginCycle :: replicate 11 .gather ++
    [.compute ⟨1, 0, 0, 8⟩ [] [] []]

theorem a_build_is_granted_what_it_asked_for :
    let events := [.start 42] ++ askAndCompute 6 ++ replicate 5 .publish ++
      replicate 2 (.access 42)
    EachState step GrantsAnswer { dbOid := 5 } events ∧
      (run step { dbOid := 5 } events).backends 42 = .building ⟨1, firstCell, 6⟩ 6 :=
  ⟨a_grant_answers_its_claim 5 _ (by decide +kernel), by decide +kernel⟩

/-- A request for eight threads is computed; before it is published its backend times out, gives
it back and claims again, for two threads. -/
def claimAgain : List Event :=
  [.start 42] ++ askAndCompute 8 ++ replicate 5 (.access 42) ++ [.ask 42 2] ++
    replicate 4 (.access 42)

/-- The publish finds the pid, and the claim for two threads is answered with eight. -/
theorem a_second_claim_is_given_the_first_ones_grant :
    let w := run step { dbOid := 5 }
      (claimAgain ++ replicate 4 .publish ++ replicate 2 (.access 42))
    w.backends 42 = .building ⟨2, firstCell, 2⟩ 8 ∧ ¬ Answered w 42 2 2 8 ∧ ¬ GrantsAnswer w := by
  intro w
  have hb : w.backends 42 = .building ⟨2, firstCell, 2⟩ 8 := by decide +kernel
  refine ⟨hb, by decide +kernel, ?_⟩
  intro h
  exact absurd (h 42 _ _ hb).2 (by decide)

end svs_vamana.build_request
