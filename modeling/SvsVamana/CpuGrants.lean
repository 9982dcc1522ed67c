-- The CPU pass of the launcher over whole runs (PublishCpuGrants in vamanalauncher.c). The builds
-- that were granted threads in earlier cycles are not among what a cycle gathers.
import SvsVamana.CpuBudget
import SvsVamana.Lib.Runs

namespace svs_vamana.cpu_grants

open transition_runs slot_table cpu_budget List Option

/-! ## Control blocks -/

inductive SvsBuildRequestStatus
  | pending
  | granted
deriving DecidableEq, Repr

/-- A request for build threads; it is free without a `pid`. -/
structure SvsBuildRequest where
  pid : Nat := 0
  status : SvsBuildRequestStatus := .pending
  requested : Nat := 0
  granted : Nat := 0
deriving DecidableEq, Repr

def svsMaxPendingBuilds : Nat := 8

/-- What the CPU pass reads and writes of a control block. A free block has no database. -/
structure VamanaWorkerShmem where
  dbOid : Nat := 0
  generation : UInt32 := 0
  live : Bool := false
  indexCount : Nat := 0
  desiredSearchThreads : Nat := 0
  grantedSearchThreads : Nat := 0
  reservedSearchThreads : Nat := 0
  buildRequests : List SvsBuildRequest := replicate svsMaxPendingBuilds {}
deriving DecidableEq, Repr

/-- The first block of a database; of database 0, the first free block. -/
def findSlot (blocks : List VamanaWorkerShmem) (dbOid : Nat) : Option (Nat × VamanaWorkerShmem) :=
  (blocks.findIdx? fun e => e.dbOid == dbOid).bind fun i => blocks[i]?.map fun e => (i, e)

def reserveSlot (blocks : List VamanaWorkerShmem) (dbOid : Nat) : List VamanaWorkerShmem :=
  if dbOid = 0 ∨ (findSlot blocks dbOid).isSome then blocks else
  match findSlot blocks 0 with
  | none => blocks
  | some (i, e) => blocks.set i { e with dbOid, generation := e.generation + 1 }

/-- `VamanaWorkerResetEntryState` leaves nothing of the tenant but the generation. -/
def releaseSlot (blocks : List VamanaWorkerShmem) (dbOid : Nat) : List VamanaWorkerShmem :=
  if dbOid = 0 then blocks else
  match findSlot blocks dbOid with
  | none => blocks
  | some (i, e) => blocks.set i { generation := e.generation + 1 }

def setRequest (blocks : List VamanaWorkerShmem) (i k : Nat) (req : SvsBuildRequest) :
    List VamanaWorkerShmem :=
  match blocks[i]? with
  | none => blocks
  | some e => blocks.set i { e with buildRequests := e.buildRequests.set k req }

/-- Without a free request the caller gets none, and nothing is written. -/
def svsClaimBuildRequestSlot (blocks : List VamanaWorkerShmem) (pid dbOid requested : Nat) :
    List VamanaWorkerShmem :=
  match findSlot blocks dbOid with
  | none => blocks
  | some (i, e) =>
    match e.buildRequests.findIdx? fun req => req.pid == 0 with
    | none => blocks
    | some k => setRequest blocks i k { pid, requested }

def svsReleaseBuildRequestSlot (blocks : List VamanaWorkerShmem) (i k : Nat) :
    List VamanaWorkerShmem :=
  setRequest blocks i k {}

/-! ## The cycle -/

structure VamanaDatabaseRow where
  dbOid : Nat
  enabled : Bool
  searchNumThreads : Option Nat := none
  searchThreadsReserved : Nat := 0
deriving DecidableEq, Repr

def appendDatabaseRow (rows : List VamanaDatabaseRow) (db : VamanaDatabaseRow) :
    List VamanaDatabaseRow :=
  if db.dbOid ∈ rows.map VamanaDatabaseRow.dbOid then rows else rows ++ [db]

/-- The rows of a catalog; one whose database does not exist is skipped. -/
def readDatabaseRows (catalog : List VamanaDatabaseRow) : List VamanaDatabaseRow :=
  (catalog.filter fun db => db.dbOid != 0).foldl appendDatabaseRow []

def enabledRowsOf (rows : List VamanaDatabaseRow) : List VamanaDatabaseRow :=
  rows.filter VamanaDatabaseRow.enabled

/-- The block of a database, as its lookup has found it. -/
structure GatheredDbEntry where
  dbOid : Nat
  entry : Option Nat
  generation : UInt32
deriving DecidableEq, Repr

def findGatheredEntry (entries : List GatheredDbEntry) (dbOid : Nat) : Option GatheredDbEntry :=
  entries.find? fun g => g.dbOid == dbOid

/-- The requests of a block that are still to be looked at. -/
structure Scan where
  dbOid : Nat
  block : Nat
  next : Nat
deriving DecidableEq, Repr

structure Gathering where
  rows : List VamanaDatabaseRow
  scan : Option Scan := none
  entries : List GatheredDbEntry := []
  dbs : List SvsDbCpuRequest := []
  builds : List SvsBuildCpuRequest := []
deriving DecidableEq, Repr

/-- A budget with the grants of it that are still to be published. -/
structure Publishing where
  entries : List GatheredDbEntry
  budget : SvsCpuBudget
  dbGrants : List SvsDbCpuGrant
  buildGrants : List SvsBuildCpuGrant
deriving DecidableEq, Repr

/-- Where the launcher is. Between two cycles it keeps which databases the last one found
enabled. -/
inductive Phase
  | resting (enabled : List Nat)
  | gathering (g : Gathering)
  | publishing (p : Publishing)
deriving DecidableEq, Repr

structure World where
  blocks : List VamanaWorkerShmem
  processes : List Nat := []
  phase : Phase := .resting []
deriving DecidableEq, Repr

def init (maxDatabases : Nat) : World := { blocks := replicate maxDatabases {} }

/-- Looks up the next enabled database. A standby does not maintain `indexCount`. -/
def gatherRow (w : World) (g : Gathering) (indexCountIsMaintained : Bool) : World :=
  match g.scan, g.rows with
  | none, db :: rows =>
    let found := findSlot w.blocks db.dbOid
    let live := match found with
      | none => false
      | some (_, e) => e.live
    let hasIndexes := !indexCountIsMaintained || match found with
      | none => false
      | some (_, e) => decide (e.indexCount > 0)
    let generation := match found with
      | none => 0
      | some (_, e) => e.generation
    { w with phase := .gathering { g with
        rows := rows
        scan := found.map fun x => ⟨db.dbOid, x.1, 0⟩
        entries := g.entries ++ [⟨db.dbOid, found.map Prod.fst, generation⟩]
        dbs := g.dbs ++
          [⟨db.dbOid, live, hasIndexes, db.searchNumThreads, db.searchThreadsReserved⟩] } }
  | _, _ => w

/-- One round of `AppendPendingBuildRequests`: the request of a dead process is freed, one that
is not pending is passed over. -/
def gatherRequest (w : World) (g : Gathering) : World :=
  match g.scan with
  | none => w
  | some s =>
    match w.blocks[s.block]?.bind fun e => e.buildRequests[s.next]? with
    | none => { w with phase := .gathering { g with scan := none } }
    | some req =>
      let after := { g with scan := some { s with next := s.next + 1 } }
      if req.pid = 0 then { w with phase := .gathering after }
      else if req.pid ∉ w.processes then
        { w with
          blocks := svsReleaseBuildRequestSlot w.blocks s.block s.next
          phase := .gathering after }
      else if req.status ≠ .pending then { w with phase := .gathering after }
      else
        let builds := g.builds ++ [⟨s.dbOid, req.pid, req.requested⟩]
        { w with phase := .gathering { after with builds } }

def Gathering.input (g : Gathering) (gucs : SvsCpuGucs) : SvsCpuBudgetInput :=
  { gucs, dbs := g.dbs, builds := g.builds }

def compute (gucs : SvsCpuGucs) (w : World) (g : Gathering) : World :=
  if g.rows = [] ∧ g.scan = none then
    let budget := svsComputeCpuGrants (g.input gucs)
    { w with phase := .publishing ⟨g.entries, budget, budget.dbGrants, budget.buildGrants⟩ }
  else w

/-- The block that was gathered for a database, if it still is that database's block. -/
def gatheredBlock (blocks : List VamanaWorkerShmem) (entries : List GatheredDbEntry)
    (dbOid : Nat) : Option (Nat × VamanaWorkerShmem) :=
  match findGatheredEntry entries dbOid with
  | none => none
  | some g =>
    match g.entry with
    | none => none
    | some i =>
      match blocks[i]? with
      | none => none
      | some e => if e.dbOid = g.dbOid ∧ e.generation = g.generation then some (i, e) else none

def publishDbGrant (blocks : List VamanaWorkerShmem) (entries : List GatheredDbEntry)
    (grant : SvsDbCpuGrant) : List VamanaWorkerShmem :=
  match gatheredBlock blocks entries grant.dbOid with
  | none => blocks
  | some (i, e) =>
    blocks.set i { e with
      desiredSearchThreads := grant.desiredSearchThreads
      reservedSearchThreads := grant.reservedSearchThreads
      grantedSearchThreads := grant.grantedSearchThreads }

/-- The grant goes to the first request of the process, whatever its status. -/
def publishBuildGrant (blocks : List VamanaWorkerShmem) (entries : List GatheredDbEntry)
    (grant : SvsBuildCpuGrant) : List VamanaWorkerShmem :=
  match gatheredBlock blocks entries grant.dbOid with
  | none => blocks
  | some (i, e) =>
    match e.buildRequests.findIdx? fun req => req.pid == grant.requestPid with
    | none => blocks
    | some k =>
      match e.buildRequests[k]? with
      | none => blocks
      | some req =>
        setRequest blocks i k { req with granted := grant.grantedThreads, status := .granted }

def publish (w : World) (p : Publishing) : World :=
  match p.dbGrants, p.buildGrants with
  | grant :: dbGrants, _ =>
    { w with
      blocks := publishDbGrant w.blocks p.entries grant
      phase := .publishing { p with dbGrants := dbGrants } }
  | [], grant :: buildGrants =>
    { w with
      blocks := publishBuildGrant w.blocks p.entries grant
      phase := .publishing { p with buildGrants := buildGrants } }
  | [], [] => { w with phase := .resting (p.entries.map GatheredDbEntry.dbOid) }

/-! ## Runs -/

inductive Event
  | beginCycle (catalog : List VamanaDatabaseRow)
  | gatherRow (indexCountIsMaintained : Bool)
  | gatherRequest
  | compute
  | publish
  | relaunch
  | reserveSlot (dbOid : Nat)
  | releaseSlot (dbOid : Nat)
  | serve (i : Nat) (live : Bool) (indexCount : Nat)
  | startProcess (pid : Nat)
  | exitProcess (pid : Nat)
  | claim (pid dbOid requested : Nat)
  | release (i k : Nat)
deriving DecidableEq, Repr

/-- A cycle begins with the catalog as it is then. A request is given back through the pointer that
its claim has returned, so `release` may hit any of them. -/
def step (gucs : SvsCpuGucs) (w : World) : Event → World
  | .beginCycle catalog =>
    match w.phase with
    | .resting _ =>
      { w with phase := .gathering { rows := enabledRowsOf (readDatabaseRows catalog) } }
    | _ => w
  | .gatherRow indexCountIsMaintained =>
    match w.phase with
    | .gathering g => gatherRow w g indexCountIsMaintained
    | _ => w
  | .gatherRequest =>
    match w.phase with
    | .gathering g => gatherRequest w g
    | _ => w
  | .compute =>
    match w.phase with
    | .gathering g => compute gucs w g
    | _ => w
  | .publish =>
    match w.phase with
    | .publishing p => publish w p
    | _ => w
  | .relaunch => { w with phase := .resting [] }
  | .reserveSlot dbOid => { w with blocks := reserveSlot w.blocks dbOid }
  | .releaseSlot dbOid => { w with blocks := releaseSlot w.blocks dbOid }
  | .serve i live indexCount =>
    match w.blocks[i]? with
    | none => w
    | some e => { w with blocks := w.blocks.set i { e with live, indexCount } }
  | .startProcess pid => { w with processes := pid :: w.processes }
  | .exitProcess pid => { w with processes := w.processes.filter fun p => p != pid }
  | .claim pid dbOid requested =>
    { w with blocks := svsClaimBuildRequestSlot w.blocks pid dbOid requested }
  | .release i k => { w with blocks := svsReleaseBuildRequestSlot w.blocks i k }

/-! ## What is granted -/

/-- The threads of a request that has been granted and not given back. -/
def SvsBuildRequest.held (req : SvsBuildRequest) : Nat :=
  if req.pid ≠ 0 ∧ req.status = .granted then req.granted else 0

def heldBuildThreads (blocks : List VamanaWorkerShmem) : Nat :=
  total (fun e => total SvsBuildRequest.held e.buildRequests) blocks

def searchThreadsOf (blocks : List VamanaWorkerShmem) (dbOid : Nat) : Nat :=
  match findSlot blocks dbOid with
  | none => 0
  | some (_, e) => e.grantedSearchThreads

def publishedSearchThreads (blocks : List VamanaWorkerShmem) (enabled : List Nat) : Nat :=
  total (searchThreadsOf blocks) enabled

/-- After a cycle, what it has published and what the builds hold fit the pool together. -/
def PoolKept (gucs : SvsCpuGucs) (w : World) : Prop :=
  match w.phase with
  | .resting enabled =>
    publishedSearchThreads w.blocks enabled + heldBuildThreads w.blocks ≤ computeSearchPool gucs
  | _ => True

instance (gucs : SvsCpuGucs) : ∀ w, Decidable (PoolKept gucs w)
  | ⟨_, _, .resting _⟩ => inferInstanceAs (Decidable (_ ≤ _))
  | ⟨_, _, .gathering _⟩ | ⟨_, _, .publishing _⟩ => .isTrue trivial

/-- When the budget is computed, no build holds threads of an earlier cycle, or they leave room
for all that is asked. -/
def Unheld (gucs : SvsCpuGucs) (w : World) (e : Event) : Prop :=
  match w.phase with
  | .gathering g => e = .compute → heldBuildThreads w.blocks = 0 ∨
      heldBuildThreads w.blocks + demand (g.input gucs) ≤ computeSearchPool gucs
  | _ => True

instance (gucs : SvsCpuGucs) : ∀ w e, Decidable (Unheld gucs w e)
  | ⟨_, _, .gathering _⟩, _ => inferInstanceAs (Decidable (_ → _ ∨ _))
  | ⟨_, _, .resting _⟩, _ | ⟨_, _, .publishing _⟩, _ => .isTrue trivial

/-! ## Blocks and their seats -/

variable {blocks : List VamanaWorkerShmem} {i : Nat} {e : VamanaWorkerShmem} {dbOid : Nat}

theorem findSlot_some (h : findSlot blocks dbOid = some (i, e)) :
    blocks[i]? = some e ∧ e.dbOid = dbOid := by
  unfold findSlot at h
  cases hf : blocks.findIdx? fun e => e.dbOid == dbOid with
  | none => simp [hf] at h
  | some j =>
    obtain ⟨hlt, ht, -⟩ := findIdx?_eq_some_iff_getElem.mp hf
    rw [hf, bind_some, getElem?_eq_getElem hlt, map_some] at h
    obtain ⟨rfl, rfl⟩ := Prod.mk.inj (some.inj h)
    exact ⟨getElem?_eq_getElem hlt, by simpa using ht⟩

theorem findSlot_none (h : findSlot blocks dbOid = none) : ∀ e ∈ blocks, e.dbOid ≠ dbOid := by
  intro e he hdb
  unfold findSlot at h
  cases hf : blocks.findIdx? fun e => e.dbOid == dbOid with
  | none =>
    have hno := findIdx?_eq_none_iff.mp hf e he
    simp [hdb] at hno
  | some j =>
    obtain ⟨hlt, -, -⟩ := findIdx?_eq_some_iff_getElem.mp hf
    rw [hf, bind_some, getElem?_eq_getElem hlt] at h
    cases h

/-- No database has two blocks, and a free block grants nothing. -/
structure Sound (blocks : List VamanaWorkerShmem) : Prop where
  unique : ∀ (i j : Nat) (a b : VamanaWorkerShmem), blocks[i]? = some a → blocks[j]? = some b → a.dbOid = b.dbOid →
    a.dbOid ≠ 0 → i = j
  blank : ∀ (i : Nat) (a : VamanaWorkerShmem), blocks[i]? = some a → a.dbOid = 0 → a.grantedSearchThreads = 0

/-- A written block keeps its tenant and what the tenant was granted. -/
def SameSeat (b b' : VamanaWorkerShmem) : Prop :=
  b'.dbOid = b.dbOid ∧ b'.generation = b.generation ∧
    b'.grantedSearchThreads = b.grantedSearchThreads

/-- Every block grants nothing, or is the seat that it was. -/
def Kept (blocks blocks' : List VamanaWorkerShmem) : Prop :=
  ∀ (j : Nat) (b' : VamanaWorkerShmem), blocks'[j]? = some b' →
    b'.grantedSearchThreads = 0 ∨ ∃ b, blocks[j]? = some b ∧ SameSeat b b'

theorem kept_refl (blocks : List VamanaWorkerShmem) : Kept blocks blocks :=
  fun _ b hb => .inr ⟨b, hb, rfl, rfl, rfl⟩

variable {j : Nat} {b : VamanaWorkerShmem}

theorem getElem?_of_set (h : (blocks.set i e)[j]? = some b) :
    (j = i ∧ b = e) ∨ (j ≠ i ∧ blocks[j]? = some b) := by
  rw [getElem?_set] at h
  by_cases hij : i = j
  · rw [if_pos hij] at h
    split at h
    · exact .inl ⟨hij.symm, (some.inj h).symm⟩
    · cases h
  · rw [if_neg hij] at h
    exact .inr ⟨fun hji => hij hji.symm, h⟩

variable {e' : VamanaWorkerShmem}

theorem kept_set (he : blocks[i]? = some e) (h : e'.grantedSearchThreads = 0 ∨ SameSeat e e') :
    Kept blocks (blocks.set i e') := by
  intro j b' hb'
  obtain ⟨rfl, rfl⟩ | ⟨-, hb'⟩ := getElem?_of_set hb'
  · obtain h | h := h
    · exact .inl h
    · exact .inr ⟨e, he, h⟩
  · exact kept_refl blocks j b' hb'

theorem Sound.set (h : Sound blocks) (he : blocks[i]? = some e)
    (hnew : e'.dbOid = 0 ∨ e'.dbOid = e.dbOid ∨ ∀ b ∈ blocks, b.dbOid ≠ e'.dbOid)
    (hbl : e'.dbOid = 0 → e'.grantedSearchThreads = 0) : Sound (blocks.set i e') := by
  -- the block written meets no other block of its database
  have ho : ∀ (j : Nat) b, j ≠ i → blocks[j]? = some b → e'.dbOid ≠ 0 →
      e'.dbOid ≠ b.dbOid := by
    intro j b hji hb hpos heq
    obtain hz | hs | hf := hnew
    · exact hpos hz
    · exact hji (h.unique j i b e hb he (heq.symm.trans hs) (heq ▸ hpos))
    · exact hf b (mem_of_getElem? hb) heq.symm
  refine ⟨?_, ?_⟩
  · intro j k a b ha hb hab hpos
    obtain ⟨rfl, rfl⟩ | ⟨hji, ha'⟩ := getElem?_of_set ha
    · obtain ⟨rfl, rfl⟩ | ⟨hki, hb'⟩ := getElem?_of_set hb
      · rfl
      · exact absurd hab (ho k b hki hb' hpos)
    · obtain ⟨rfl, rfl⟩ | ⟨hki, hb'⟩ := getElem?_of_set hb
      · exact absurd hab.symm (ho j a hji ha' (hab ▸ hpos))
      · exact h.unique j k a b ha' hb' hab hpos
  · intro j a ha hz
    obtain ⟨rfl, rfl⟩ | ⟨-, ha⟩ := getElem?_of_set ha
    · exact hbl hz
    · exact h.blank j a ha hz

theorem Sound.findSlot (h : Sound blocks) (hb : blocks[j]? = some b) (hpos : b.dbOid ≠ 0) :
    findSlot blocks b.dbOid = some (j, b) := by
  cases hf : cpu_grants.findSlot blocks b.dbOid with
  | none => exact absurd rfl (findSlot_none hf b (mem_of_getElem? hb))
  | some x =>
    obtain ⟨i, e⟩ := x
    obtain ⟨he, hdb⟩ := findSlot_some hf
    obtain rfl := h.unique i j e b he hb hdb (hdb ▸ hpos)
    rw [hb] at he
    rw [some.inj he]

variable {blocks' : List VamanaWorkerShmem}

theorem searchThreadsOf_le (h : Sound blocks) (hk : Kept blocks blocks') (dbOid : Nat) :
    searchThreadsOf blocks' dbOid ≤ searchThreadsOf blocks dbOid := by
  unfold searchThreadsOf
  cases hf : findSlot blocks' dbOid with
  | none => exact Nat.zero_le _
  | some x =>
    obtain ⟨j, b'⟩ := x
    obtain ⟨hb', hdb'⟩ := findSlot_some hf
    obtain hz | ⟨b, hb, hdb, -, hg⟩ := hk j b' hb'
    · simp [hz]
    by_cases hpos : b.dbOid = 0
    · have hbl := h.blank j b hb hpos
      simp [hg, hbl]
    · have ht := h.findSlot hb hpos
      rw [← hdb, hdb'] at ht
      rw [ht]
      exact Nat.le_of_eq hg

theorem publishedSearchThreads_le (h : Sound blocks) (hk : Kept blocks blocks')
    (enabled : List Nat) :
    publishedSearchThreads blocks' enabled ≤ publishedSearchThreads blocks enabled :=
  total_mono fun dbOid _ => searchThreadsOf_le h hk dbOid

/-! ## Requests -/

theorem heldBuildThreads_set (he : blocks[i]? = some e) (e' : VamanaWorkerShmem) :
    heldBuildThreads (blocks.set i e') + total SvsBuildRequest.held e.buildRequests =
      heldBuildThreads blocks + total SvsBuildRequest.held e'.buildRequests :=
  total_set (fun e : VamanaWorkerShmem => total SvsBuildRequest.held e.buildRequests) e' he

theorem heldBuildThreads_setRequest (blocks : List VamanaWorkerShmem) (i k : Nat)
    (req : SvsBuildRequest) :
    heldBuildThreads (setRequest blocks i k req) ≤ heldBuildThreads blocks + req.held := by
  unfold setRequest
  cases he : blocks[i]? with
  | none => exact Nat.le_add_right _ _
  | some e =>
    have hbl := heldBuildThreads_set he { e with buildRequests := e.buildRequests.set k req }
    dsimp only at hbl ⊢
    cases hold : e.buildRequests[k]? with
    | none =>
      rw [set_eq_of_length_le (getElem?_eq_none_iff.mp hold)] at hbl ⊢
      omega
    | some old =>
      have hset := total_set SvsBuildRequest.held req hold
      omega

theorem sound_setRequest (h : Sound blocks) (i k : Nat) (req : SvsBuildRequest) :
    Sound (setRequest blocks i k req) := by
  unfold setRequest
  split
  · exact h
  · rename_i e he
    exact h.set he (.inr (.inl rfl)) (h.blank i e he)

theorem kept_setRequest (blocks : List VamanaWorkerShmem) (i k : Nat) (req : SvsBuildRequest) :
    Kept blocks (setRequest blocks i k req) := by
  unfold setRequest
  split
  · exact kept_refl blocks
  · rename_i e he
    exact kept_set he (.inr ⟨rfl, rfl, rfl⟩)

/-- What the processes around the launcher do to the blocks: no grant goes up. -/
structure Quiet (blocks blocks' : List VamanaWorkerShmem) : Prop where
  sound : Sound blocks'
  kept : Kept blocks blocks'
  held : heldBuildThreads blocks' ≤ heldBuildThreads blocks

section

variable (h : Sound blocks)
include h

theorem quiet_refl : Quiet blocks blocks :=
  ⟨h, kept_refl blocks, Nat.le_refl _⟩

theorem quiet_setRequest (i k : Nat) {req : SvsBuildRequest}
    (hreq : req.held = 0) : Quiet blocks (setRequest blocks i k req) := by
  have hh := heldBuildThreads_setRequest blocks i k req
  exact ⟨sound_setRequest h i k req, kept_setRequest blocks i k req, by omega⟩

theorem quiet_set (he : blocks[i]? = some e)
    (hnew : e'.dbOid = 0 ∨ e'.dbOid = e.dbOid ∨ ∀ b ∈ blocks, b.dbOid ≠ e'.dbOid)
    (hs : e'.grantedSearchThreads = 0 ∨ SameSeat e e')
    (hh : total SvsBuildRequest.held e'.buildRequests ≤
      total SvsBuildRequest.held e.buildRequests) : Quiet blocks (blocks.set i e') := by
  refine ⟨h.set he hnew ?_, kept_set he hs, ?_⟩
  · intro hz
    obtain hs | ⟨hdb, -, hg⟩ := hs
    · exact hs
    · rw [hg]
      exact h.blank i e he (hdb ▸ hz)
  · have hset := heldBuildThreads_set he e'
    omega

theorem quiet_reserveSlot (dbOid : Nat) : Quiet blocks (reserveSlot blocks dbOid) := by
  unfold reserveSlot
  split
  · exact quiet_refl h
  rename_i hnew
  split
  · exact quiet_refl h
  rename_i i e hf
  obtain ⟨he, hfr⟩ := findSlot_some hf
  have hn : findSlot blocks dbOid = none := by
    simpa using fun hs => hnew (.inr hs)
  exact quiet_set h he (.inr (.inr (findSlot_none hn))) (.inl (h.blank i e he hfr)) (Nat.le_refl _)

theorem quiet_releaseSlot (dbOid : Nat) : Quiet blocks (releaseSlot blocks dbOid) := by
  unfold releaseSlot
  split
  · exact quiet_refl h
  split
  · exact quiet_refl h
  · rename_i i e hf
    exact quiet_set h (findSlot_some hf).1 (.inl rfl) (.inl rfl) (Nat.zero_le _)

end

theorem quiet_claim (h : Sound blocks) (pid dbOid requested : Nat) :
    Quiet blocks (svsClaimBuildRequestSlot blocks pid dbOid requested) := by
  unfold svsClaimBuildRequestSlot
  split
  · exact quiet_refl h
  · split
    · exact quiet_refl h
    · exact quiet_setRequest h _ _ (by simp [SvsBuildRequest.held])

/-! ## The invariant -/

/-- The block of a database was gathered as it still is. -/
def Known (entries : List GatheredDbEntry) (j : Nat) (b : VamanaWorkerShmem) : Prop :=
  ∃ g, findGatheredEntry entries b.dbOid = some g ∧ g.entry = some j ∧ g.generation = b.generation

structure GatherOk (gucs : SvsCpuGucs) (blocks : List VamanaWorkerShmem) (g : Gathering) :
    Prop where
  nodup : (g.entries.map GatheredDbEntry.dbOid ++ g.rows.map VamanaDatabaseRow.dbOid).Nodup
  valid : ∀ d ∈ g.entries.map GatheredDbEntry.dbOid ++ g.rows.map VamanaDatabaseRow.dbOid, d ≠ 0
  listed : g.dbs.map SvsDbCpuRequest.dbOid = g.entries.map GatheredDbEntry.dbOid
  known : ∀ (j : Nat) (b : VamanaWorkerShmem), blocks[j]? = some b → b.dbOid ∈ g.entries.map GatheredDbEntry.dbOid →
    b.grantedSearchThreads = 0 ∨ Known g.entries j b
  room : heldBuildThreads blocks ≤ computeSearchPool gucs

def grantOf (grants : List SvsDbCpuGrant) (dbOid : Nat) : Nat :=
  total (fun g => if g.dbOid = dbOid then g.grantedSearchThreads else 0) grants

/-- The block of an enabled database has no more than its grant, or its grant is still to be
published and will reach it. -/
structure PublishOk (gucs : SvsCpuGucs) (blocks : List VamanaWorkerShmem) (p : Publishing) :
    Prop where
  nodup : (p.entries.map GatheredDbEntry.dbOid).Nodup
  valid : ∀ d ∈ p.entries.map GatheredDbEntry.dbOid, d ≠ 0
  unpublished : ∀ grant ∈ p.dbGrants, grant ∈ p.budget.dbGrants
  awaiting : ∀ (j : Nat) (b : VamanaWorkerShmem), blocks[j]? = some b → b.dbOid ∈ p.entries.map GatheredDbEntry.dbOid →
    b.grantedSearchThreads ≤ grantOf p.budget.dbGrants b.dbOid ∨
      (b.dbOid ∈ p.dbGrants.map SvsDbCpuGrant.dbOid ∧ Known p.entries j b)
  room : total SvsDbCpuGrant.grantedSearchThreads p.budget.dbGrants + heldBuildThreads blocks +
    total SvsBuildCpuGrant.grantedThreads p.buildGrants ≤ computeSearchPool gucs

def PhaseOk (gucs : SvsCpuGucs) (blocks : List VamanaWorkerShmem) : Phase → Prop
  | .resting enabled =>
    publishedSearchThreads blocks enabled + heldBuildThreads blocks ≤ computeSearchPool gucs
  | .gathering g => GatherOk gucs blocks g
  | .publishing p => PublishOk gucs blocks p

structure Ok (gucs : SvsCpuGucs) (w : World) : Prop where
  sound : Sound w.blocks
  phase : PhaseOk gucs w.blocks w.phase

variable {entries : List GatheredDbEntry}

theorem known_of_sameSeat {b' : VamanaWorkerShmem} (hs : SameSeat b b') (h : Known entries j b) :
    Known entries j b' := by
  obtain ⟨g, hf, hen, hgen⟩ := h
  exact ⟨g, hs.1 ▸ hf, hen, hgen.trans hs.2.1.symm⟩

variable {gucs : SvsCpuGucs} {g : Gathering}

theorem gatherOk_quiet (hq : Quiet blocks blocks') (h : GatherOk gucs blocks g) :
    GatherOk gucs blocks' g := by
  refine ⟨h.nodup, h.valid, h.listed, ?_, Nat.le_trans hq.held h.room⟩
  intro j b' hb' hmem
  obtain hz | ⟨b, hb, hs⟩ := hq.kept j b' hb'
  · exact .inl hz
  · obtain hz | hk := h.known j b hb (hs.1 ▸ hmem)
    · exact .inl (hs.2.2.trans hz)
    · exact .inr (known_of_sameSeat hs hk)

variable {p : Publishing}

theorem awaiting_kept (hke : Kept blocks blocks') (h : PublishOk gucs blocks p) :
    ∀ (j : Nat) b, blocks'[j]? = some b → b.dbOid ∈ p.entries.map GatheredDbEntry.dbOid →
      b.grantedSearchThreads ≤ grantOf p.budget.dbGrants b.dbOid ∨
        (b.dbOid ∈ p.dbGrants.map SvsDbCpuGrant.dbOid ∧ Known p.entries j b) := by
  intro j b' hb' hmem
  obtain hz | ⟨b, hb, hs⟩ := hke j b' hb'
  · exact .inl (hz ▸ Nat.zero_le _)
  · obtain hle | ⟨hdue, hk⟩ := h.awaiting j b hb (hs.1 ▸ hmem)
    · exact .inl (hs.2.2 ▸ hs.1 ▸ hle)
    · exact .inr ⟨hs.1 ▸ hdue, known_of_sameSeat hs hk⟩

theorem publishOk_quiet (hq : Quiet blocks blocks') (h : PublishOk gucs blocks p) :
    PublishOk gucs blocks' p := by
  have hr := h.room
  have hh := hq.held
  exact ⟨h.nodup, h.valid, h.unpublished, awaiting_kept hq.kept h, by omega⟩

theorem phaseOk_quiet {ph : Phase} (hs : Sound blocks) (hq : Quiet blocks blocks')
    (h : PhaseOk gucs blocks ph) : PhaseOk gucs blocks' ph := by
  cases ph with
  | resting enabled =>
    have hle := publishedSearchThreads_le hs hq.kept enabled
    have hh := hq.held
    unfold PhaseOk at h ⊢
    omega
  | gathering g => exact gatherOk_quiet hq h
  | publishing p => exact publishOk_quiet hq h

theorem held_le {ph : Phase} (h : PhaseOk gucs blocks ph) :
    heldBuildThreads blocks ≤ computeSearchPool gucs := by
  cases ph with
  | resting enabled => exact Nat.le_trans (Nat.le_add_left _ _) h
  | gathering g => exact h.room
  | publishing p =>
    have hr := h.room
    omega

/-! ## The steps of a cycle -/

variable {rows : List VamanaDatabaseRow}

theorem appendDatabaseRow_nodup (db : VamanaDatabaseRow)
    (h : (rows.map VamanaDatabaseRow.dbOid).Nodup) :
    ((appendDatabaseRow rows db).map VamanaDatabaseRow.dbOid).Nodup := by
  unfold appendDatabaseRow
  split
  · exact h
  rename_i hnew
  rw [map_append, map_singleton]
  exact nodup_append.mpr ⟨h, pairwise_singleton _ _, fun a ha b hb hab =>
    hnew (mem_singleton.mp hb ▸ hab ▸ ha)⟩

theorem mem_appendDatabaseRow {db r : VamanaDatabaseRow} (h : r ∈ appendDatabaseRow rows db) :
    r ∈ rows ∨ r = db := by
  unfold appendDatabaseRow at h
  split at h
  · exact .inl h
  · simpa using h

theorem readDatabaseRows_ok (catalog : List VamanaDatabaseRow) :
    ((readDatabaseRows catalog).map VamanaDatabaseRow.dbOid).Nodup ∧
      ∀ db ∈ readDatabaseRows catalog, db.dbOid ≠ 0 := by
  have hpos : ∀ db ∈ catalog.filter fun db => db.dbOid != 0, db.dbOid ≠ 0 := by
    intro db hdb
    simpa using (mem_filter.mp hdb).2
  unfold readDatabaseRows
  generalize (catalog.filter fun db => db.dbOid != 0) = found at hpos
  suffices h : ∀ rows : List VamanaDatabaseRow, (rows.map VamanaDatabaseRow.dbOid).Nodup →
      (∀ db ∈ rows, db.dbOid ≠ 0) →
      ((found.foldl appendDatabaseRow rows).map VamanaDatabaseRow.dbOid).Nodup ∧
        ∀ db ∈ found.foldl appendDatabaseRow rows, db.dbOid ≠ 0 from
    h [] nodup_nil fun _ hdb => absurd hdb not_mem_nil
  induction found with
  | nil => exact fun rows hn hro => ⟨hn, hro⟩
  | cons db dbs ih =>
    intro rows hn hro
    refine ih (fun r hr => hpos r (mem_cons_of_mem _ hr)) _ (appendDatabaseRow_nodup db hn) ?_
    intro r hr
    obtain hr | rfl := mem_appendDatabaseRow hr
    · exact hro r hr
    · exact hpos r mem_cons_self

theorem ok_beginCycle (h : heldBuildThreads blocks ≤ computeSearchPool gucs)
    (catalog : List VamanaDatabaseRow) :
    GatherOk gucs blocks { rows := enabledRowsOf (readDatabaseRows catalog) } := by
  obtain ⟨hn, hpos⟩ := readDatabaseRows_ok catalog
  have hsub : ((enabledRowsOf (readDatabaseRows catalog)).map VamanaDatabaseRow.dbOid).Sublist
      ((readDatabaseRows catalog).map VamanaDatabaseRow.dbOid) :=
    filter_sublist.map _
  refine ⟨hn.sublist hsub, ?_, rfl, fun _ _ _ hmem => absurd hmem not_mem_nil, h⟩
  intro d hd
  obtain ⟨db, hdb, rfl⟩ := mem_map.mp (hsub.subset hd)
  exact hpos db hdb

theorem known_append (h : Known entries j b) (g : GatheredDbEntry) :
    Known (entries ++ [g]) j b := by
  obtain ⟨g', hf, hen, hgen⟩ := h
  refine ⟨g', ?_, hen, hgen⟩
  unfold findGatheredEntry at hf ⊢
  rw [find?_append, hf, some_or]

theorem known_new {g : GatheredDbEntry} (hnew : b.dbOid ∉ entries.map GatheredDbEntry.dbOid)
    (hdb : g.dbOid = b.dbOid) (hen : g.entry = some j) (hgen : g.generation = b.generation) :
    Known (entries ++ [g]) j b := by
  refine ⟨g, ?_, hen, hgen⟩
  have hn : entries.find? (fun g => g.dbOid == b.dbOid) = none := by
    refine find?_eq_none.mpr fun g' hg' ht => hnew ?_
    exact mem_map.mpr ⟨g', hg', by simpa using ht⟩
  unfold findGatheredEntry
  rw [find?_append, hn, none_or]
  simp [hdb]

variable {w : World}

theorem ok_gatherRow (hs : Sound w.blocks) (h : GatherOk gucs w.blocks g) (maintained : Bool)
    (hp : w.phase = .gathering g) : Ok gucs (gatherRow w g maintained) := by
  unfold gatherRow
  split
  · rename_i db rows hsc hr
    refine ⟨hs, ?_, ?_, ?_, ?_, h.room⟩
    · have hn := h.nodup
      rw [hr] at hn
      simpa using hn
    · have hv := h.valid
      rw [hr] at hv
      simpa using hv
    · rw [map_append, map_append, h.listed]
      rfl
    · intro j b hb hmem
      rw [map_append, mem_append, map_singleton, mem_singleton] at hmem
      by_cases hold : b.dbOid ∈ g.entries.map GatheredDbEntry.dbOid
      · obtain hz | hk := h.known j b hb hold
        · exact .inl hz
        · exact .inr (known_append hk _)
      · have hdb : b.dbOid = db.dbOid := hmem.resolve_left hold
        have hpos : b.dbOid ≠ 0 := by
          rw [hdb]
          exact h.valid db.dbOid (by simp [hr])
        have hf := hs.findSlot hb hpos
        rw [hdb] at hf
        refine .inr (known_new hold hdb.symm ?_ ?_)
        · rw [hf]
          rfl
        · rw [hf]
  · exact ⟨hs, hp ▸ h⟩

theorem gatherOk_scan (h : GatherOk gucs blocks g) (scan : Option Scan)
    (builds : List SvsBuildCpuRequest) : GatherOk gucs blocks { g with scan, builds } :=
  ⟨h.nodup, h.valid, h.listed, h.known, h.room⟩

theorem ok_gatherRequest (hs : Sound w.blocks) (h : GatherOk gucs w.blocks g)
    (hp : w.phase = .gathering g) : Ok gucs (gatherRequest w g) := by
  unfold gatherRequest
  split
  · exact ⟨hs, hp ▸ h⟩
  rename_i s hsc
  split
  · exact ⟨hs, gatherOk_scan h none g.builds⟩
  rename_i req hreq
  split
  · exact ⟨hs, gatherOk_scan h _ g.builds⟩
  split
  · -- a dead process's request is freed
    have hf : SvsBuildRequest.held {} = 0 := by simp [SvsBuildRequest.held]
    have hq := quiet_setRequest hs s.block s.next hf
    exact ⟨hq.sound, gatherOk_scan (gatherOk_quiet hq h) _ g.builds⟩
  · split
    · exact ⟨hs, gatherOk_scan h _ g.builds⟩
    · exact ⟨hs, gatherOk_scan h _ _⟩

theorem ok_compute (hs : Sound w.blocks) (h : GatherOk gucs w.blocks g)
    (hp : w.phase = .gathering g)
    (hr : heldBuildThreads w.blocks = 0 ∨
      heldBuildThreads w.blocks + demand (g.input gucs) ≤ computeSearchPool gucs) :
    Ok gucs (compute gucs w g) := by
  unfold compute
  split
  · rename_i hd
    have hn := h.nodup
    have hv := h.valid
    rw [hd.1, map_nil, append_nil] at hn hv
    have hl := dbGrants_dbOid (g.input gucs)
    have ht := total_granted (g.input gucs)
    have hpo : computeSearchPool (g.input gucs).gucs = computeSearchPool gucs := rfl
    refine ⟨hs, hn, hv, fun grant hg => hg, ?_, ?_⟩
    · intro j b hb hmem
      obtain hz | hk := h.known j b hb hmem
      · exact .inl (hz ▸ Nat.zero_le _)
      · refine .inr ⟨?_, hk⟩
        rw [hl]
        exact h.listed ▸ hmem
    · dsimp only
      omega
  · exact ⟨hs, hp ▸ h⟩

theorem gatheredBlock_some (h : gatheredBlock blocks entries dbOid = some (i, e)) :
    blocks[i]? = some e ∧ e.dbOid = dbOid ∧ dbOid ∈ entries.map GatheredDbEntry.dbOid := by
  unfold gatheredBlock at h
  split at h
  · cases h
  rename_i g hf
  have hdb : g.dbOid = dbOid := by simpa using find?_some hf
  split at h
  · cases h
  split at h
  · cases h
  rename_i e' he'
  split at h
  · rename_i hs
    obtain ⟨rfl, rfl⟩ := Prod.mk.inj (some.inj h)
    exact ⟨he', hs.1.trans hdb, mem_map.mpr ⟨g, mem_of_find?_eq_some hf, hdb⟩⟩
  · cases h

theorem gatheredBlock_known (hb : blocks[j]? = some b) (h : Known entries j b) :
    gatheredBlock blocks entries b.dbOid = some (j, b) := by
  obtain ⟨g, hf, hen, hgen⟩ := h
  have hdb : g.dbOid = b.dbOid := by simpa using find?_some hf
  unfold gatheredBlock
  simp [hf, hen, hb, hdb, hgen]

theorem le_grantOf {grants : List SvsDbCpuGrant} {grant : SvsDbCpuGrant} (h : grant ∈ grants) :
    grant.grantedSearchThreads ≤ grantOf grants grant.dbOid := by
  obtain ⟨i, hi⟩ := getElem?_of_mem h
  have hle := le_total (fun g => if g.dbOid = grant.dbOid then g.grantedSearchThreads else 0) hi
  rwa [if_pos rfl] at hle

theorem ok_publishDb {grant : SvsDbCpuGrant} {dbGrants : List SvsDbCpuGrant} (hs : Sound w.blocks)
    (h : PublishOk gucs w.blocks p) (hgr : p.dbGrants = grant :: dbGrants) :
    Ok gucs { w with
      blocks := publishDbGrant w.blocks p.entries grant
      phase := .publishing { p with dbGrants := dbGrants } } := by
  have hin : grant ∈ p.budget.dbGrants := h.unpublished grant (hgr ▸ mem_cons_self)
  have hr : ∀ g ∈ dbGrants, g ∈ p.budget.dbGrants := fun g hg =>
    h.unpublished g (hgr ▸ mem_cons_of_mem _ hg)
  -- a block that still awaits this very grant is the one that is written
  have hp : ∀ (j : Nat) b, w.blocks[j]? = some b →
      b.dbOid ∈ p.entries.map GatheredDbEntry.dbOid →
      gatheredBlock w.blocks p.entries grant.dbOid ≠ some (j, b) →
      b.grantedSearchThreads ≤ grantOf p.budget.dbGrants b.dbOid ∨
        (b.dbOid ∈ dbGrants.map SvsDbCpuGrant.dbOid ∧ Known p.entries j b) := by
    intro j b hb hmem ho
    obtain hle | ⟨hdue, hk⟩ := h.awaiting j b hb hmem
    · exact .inl hle
    rw [hgr, map_cons, mem_cons] at hdue
    obtain ht | hdue := hdue
    · exact absurd (ht ▸ gatheredBlock_known hb hk) ho
    · exact .inr ⟨hdue, hk⟩
  unfold publishDbGrant
  cases hf : gatheredBlock w.blocks p.entries grant.dbOid with
  | none =>
    refine ⟨hs, h.nodup, h.valid, hr, ?_, h.room⟩
    intro j b hb hmem
    exact hp j b hb hmem (by simp [hf])
  | some x =>
    obtain ⟨i, e⟩ := x
    obtain ⟨he, hdb, hen⟩ := gatheredBlock_some hf
    have hpos : e.dbOid ≠ 0 := hdb ▸ h.valid grant.dbOid hen
    refine ⟨hs.set he (.inr (.inl rfl)) (fun hz => absurd hz hpos), h.nodup, h.valid, hr, ?_, ?_⟩
    · intro j b hb hmem
      obtain ⟨rfl, rfl⟩ | ⟨hji, hb⟩ := getElem?_of_set hb
      · refine .inl ?_
        rw [hdb]
        exact le_grantOf hin
      · refine hp j b hb hmem ?_
        rw [hf]
        exact fun hsa => hji (Prod.mk.inj (some.inj hsa)).1.symm
    · have hset := heldBuildThreads_set he { e with
        desiredSearchThreads := grant.desiredSearchThreads
        reservedSearchThreads := grant.reservedSearchThreads
        grantedSearchThreads := grant.grantedSearchThreads }
      have hro := h.room
      dsimp only at hset ⊢
      omega

theorem sound_publishBuildGrant (h : Sound blocks) (entries : List GatheredDbEntry)
    (grant : SvsBuildCpuGrant) :
    Sound (publishBuildGrant blocks entries grant) ∧
      Kept blocks (publishBuildGrant blocks entries grant) ∧
      heldBuildThreads (publishBuildGrant blocks entries grant) ≤
        heldBuildThreads blocks + grant.grantedThreads := by
  have hs := kept_refl blocks
  unfold publishBuildGrant
  split
  · exact ⟨h, hs, Nat.le_add_right _ _⟩
  split
  · exact ⟨h, hs, Nat.le_add_right _ _⟩
  split
  · exact ⟨h, hs, Nat.le_add_right _ _⟩
  rename_i i e _ _ k _ _ req _
  let req' := { req with granted := grant.grantedThreads, status := .granted }
  have hreq : req'.held ≤ grant.grantedThreads := by
    unfold SvsBuildRequest.held
    split
    · exact Nat.le_refl _
    · exact Nat.zero_le _
  have hh := heldBuildThreads_setRequest blocks i k req'
  exact ⟨sound_setRequest h i k req', kept_setRequest blocks i k req',
    Nat.le_trans hh (Nat.add_le_add_left hreq _)⟩

/-- Databases that have no more than their grants have no more than the budget. -/
theorem publishedSearchThreads_le_budget (h : PublishOk gucs blocks p) (hdo : p.dbGrants = []) :
    publishedSearchThreads blocks (p.entries.map GatheredDbEntry.dbOid) ≤
      total SvsDbCpuGrant.grantedSearchThreads p.budget.dbGrants := by
  refine Nat.le_trans (total_mono ?_) (total_by_key_le SvsDbCpuGrant.dbOid
    SvsDbCpuGrant.grantedSearchThreads h.nodup p.budget.dbGrants)
  intro d hd
  unfold searchThreadsOf
  cases hf : findSlot blocks d with
  | none => exact Nat.zero_le _
  | some x =>
    obtain ⟨j, b⟩ := x
    obtain ⟨hb, rfl⟩ := findSlot_some hf
    obtain hle | ⟨hdue, -⟩ := h.awaiting j b hb hd
    · exact hle
    · rw [hdo] at hdue
      exact absurd hdue not_mem_nil

theorem ok_publish (hs : Sound w.blocks) (h : PublishOk gucs w.blocks p) :
    Ok gucs (publish w p) := by
  have hr := h.room
  unfold publish
  split
  · rename_i grant dbGrants hg
    exact ok_publishDb hs h hg
  · rename_i grant buildGrants hd hg
    obtain ⟨hso, hk, hh⟩ := sound_publishBuildGrant hs p.entries grant
    refine ⟨hso, h.nodup, h.valid, h.unpublished, awaiting_kept (p := p) hk h, ?_⟩
    rw [hg, total_cons] at hr
    dsimp only
    omega
  · rename_i hd _
    have hle := publishedSearchThreads_le_budget h hd
    refine ⟨hs, ?_⟩
    unfold PhaseOk
    dsimp only
    omega

/-! ## Every run -/

theorem ok_quiet (h : Ok gucs w) (hq : Quiet w.blocks blocks) (processes : List Nat) :
    Ok gucs { w with blocks, processes } :=
  ⟨hq.sound, phaseOk_quiet h.sound hq h.phase⟩

theorem ok_step (w : World) (e : Event) (h : Ok gucs w) (hok : Unheld gucs w e) :
    Ok gucs (step gucs w e) := by
  have hs := h.sound
  have hph := h.phase
  cases e with
  | beginCycle catalog =>
    simp only [step]
    split
    · exact ⟨hs, ok_beginCycle (held_le hph) catalog⟩
    · exact h
  | gatherRow maintained =>
    simp only [step]
    split
    · rename_i g hg
      exact ok_gatherRow hs (by rwa [hg] at hph) maintained hg
    · exact h
  | gatherRequest =>
    simp only [step]
    split
    · rename_i g hg
      exact ok_gatherRequest hs (by rwa [hg] at hph) hg
    · exact h
  | compute =>
    simp only [step]
    split
    · rename_i g hg
      unfold Unheld at hok
      rw [hg] at hok
      exact ok_compute hs (by rwa [hg] at hph) hg (hok rfl)
    · exact h
  | publish =>
    simp only [step]
    split
    · rename_i p hp
      exact ok_publish hs (by rwa [hp] at hph)
    · exact h
  | relaunch =>
    refine ⟨hs, ?_⟩
    have hh := held_le hph
    unfold PhaseOk step publishedSearchThreads
    dsimp only
    rw [total_nil]
    omega
  | reserveSlot dbOid => exact ok_quiet h (quiet_reserveSlot hs dbOid) w.processes
  | releaseSlot dbOid => exact ok_quiet h (quiet_releaseSlot hs dbOid) w.processes
  | serve i live indexCount =>
    simp only [step]
    split
    · exact h
    rename_i e he
    have hq : Quiet w.blocks (w.blocks.set i { e with live, indexCount }) :=
      quiet_set hs he (.inr (.inl rfl)) (.inr ⟨rfl, rfl, rfl⟩) (Nat.le_refl _)
    exact ok_quiet h hq w.processes
  | startProcess pid | exitProcess pid => exact ok_quiet h (quiet_refl hs) _
  | claim pid dbOid requested => exact ok_quiet h (quiet_claim hs pid dbOid requested) w.processes
  | release i k => exact ok_quiet h (quiet_setRequest hs i k rfl) w.processes

theorem ok_init (gucs : SvsCpuGucs) (maxDatabases : Nat) : Ok gucs (init maxDatabases) := by
  have hf : ∀ (i : Nat) (a : VamanaWorkerShmem), (init maxDatabases).blocks[i]? = some a →
      a = {} := by
    intro i a ha
    exact eq_of_mem_replicate (mem_of_getElem? ha)
  refine ⟨⟨?_, ?_⟩, ?_⟩
  · intro i j a b ha _ _ hpos
    rw [hf i a ha] at hpos
    exact absurd rfl hpos
  · intro i a ha _
    rw [hf i a ha]
  · have hh : heldBuildThreads (init maxDatabases).blocks = 0 := by
      refine total_eq_zero.mpr fun e he => ?_
      rw [eq_of_mem_replicate he]
      rfl
    have hn : publishedSearchThreads (init maxDatabases).blocks [] = 0 := rfl
    unfold PhaseOk init
    dsimp only [init] at hh hn ⊢
    omega

/-- In every run that computes its budgets while no threads of earlier cycles are held, or few
enough, the grants of each cycle fit the pool. -/
theorem the_grants_of_each_cycle_fit_the_pool (gucs : SvsCpuGucs) (maxDatabases : Nat)
    (events : List Event) (h : EachStep (step gucs) (Unheld gucs) (init maxDatabases) events) :
    EachState (step gucs) (PoolKept gucs) (init maxDatabases) events := by
  refine eachState_invariant (Ok gucs) ok_step ?_ (ok_init gucs maxDatabases) h
  intro w hw
  have hp := hw.phase
  unfold PoolKept
  split
  · rename_i enabled hr
    rwa [hr] at hp
  · trivial

def fourThreads : SvsCpuGucs := ⟨2, 0, 0, 4⟩

/-- A cycle over the one database there is, whose block is found and whose requests are all
looked at. -/
def wholeCycle (grants : Nat) : List Event :=
  [.beginCycle [⟨5, true, none, 0⟩], .gatherRow true] ++ replicate 9 .gatherRequest ++
    .compute :: replicate (grants + 1) .publish

/-- Two builds, one after the other: the first gives its threads back before the second asks. -/
def buildAfterBuild : List Event :=
  [.reserveSlot 5, .serve 0 true 1, .startProcess 42, .startProcess 43, .claim 42 5 4] ++
    wholeCycle 2 ++ [.release 0 0, .claim 43 5 4] ++ wholeCycle 2

theorem a_build_after_a_build_fits_the_pool :
    EachState (step fourThreads) (PoolKept fourThreads) (init 1) buildAfterBuild ∧
      (run (step fourThreads) (init 1) buildAfterBuild).phase = .resting [5] :=
  ⟨the_grants_of_each_cycle_fit_the_pool fourThreads 1 buildAfterBuild (by decide +kernel),
    by decide +kernel⟩

/-- The first build holds two threads when the second cycle shares out all four again, two to the
searches and two to the second build. -/
theorem a_build_beside_a_build_overdraws_the_pool :
    let w := run (step fourThreads) (init 1)
      ([.reserveSlot 5, .serve 0 true 1, .startProcess 42, .startProcess 43, .claim 42 5 4] ++
        wholeCycle 2 ++ [.claim 43 5 4] ++ wholeCycle 2)
    w.phase = .resting [5] ∧ publishedSearchThreads w.blocks [5] = 2 ∧
      heldBuildThreads w.blocks = 4 ∧ computeSearchPool fourThreads = 4 ∧
      ¬ PoolKept fourThreads w := by
  decide +kernel

end svs_vamana.cpu_grants
