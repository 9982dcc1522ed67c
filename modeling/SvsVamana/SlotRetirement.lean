-- The retirement of what an aborted build has left behind (vamana_replication.c): a drop by name
-- may meet a later slot of the same name, or an index that was loaded meanwhile.
import SvsVamana.SlotDropQueue

namespace svs_vamana.slot_retirement

open transition_runs List Option
open slot_drop_queue (VamanaSlotDropResult)

/-! ## The pure model -/

/-- A transaction that is aborted and still has to retire holds its locks. -/
inductive Phase
  | idle
  | active
  | aborted
deriving DecidableEq, Repr

/-- Whether the transaction creates the index, has built it or inserted; the entries of
`CurrentBuildRetires`, the slots there had been after the last of them, and whether its reload was
signalled. -/
structure Backend where
  phase : Phase := .idle
  created : Bool := false
  built : Bool := false
  inserted : Bool := false
  retires : Nat := 0
  bound : Nat := 0
  signalled : Bool := false
deriving DecidableEq, Repr

/-- The worker's cache entry: whether it has a graph, and whether its `replicationSlot` is set. -/
structure VamanaIndexCache where
  graph : Bool
  replicationSlot : Bool
deriving DecidableEq, Repr

/-- The catalog entry, committed rows, saved copy, slot, cache, queued drops and reload signal; and
for each drop that removed a slot, how many there had been after the aborted work and which it
removed. -/
structure State (n : Nat) where
  catalogued : Bool := false
  rows : Bool := false
  saved : Bool := false
  slot : Option Nat := none
  next : Nat := 0
  cache : Option VamanaIndexCache := none
  backends : Fin n → Backend := fun _ => {}
  queue : List Nat := []
  reload : Bool := false
  removed : List (Nat × Nat) := []

/-- What becomes of the LOAD slot of a build. -/
inductive LoadOutcome
  | loaded
  | failed
  | unavailable
deriving DecidableEq, Repr

inductive Event (n : Nat)
  | build (pid : Fin n) (outcome : LoadOutcome)
  | buildEmpty (pid : Fin n) (available : Bool)
  | insert (pid : Fin n)
  | commit (pid : Fin n)
  | abort (pid : Fin n)
  | signal (pid : Fin n) (available : Bool)
  | drop (pid : Fin n) (result : VamanaSlotDropResult) (queued : Bool)
  | workerDrop (i : Nat) (result : VamanaSlotDropResult)
  | reload
  | load
  | evict
  | checkpoint
  | deleteRows
deriving DecidableEq

variable {n : Nat}

namespace State

def setBackend (s : State n) (pid : Fin n) (b : Backend) : State n :=
  { s with backends := Function.update s.backends pid b }

/-- `VamanaReplicationCreate`: a slot of this name that stands is dropped first. -/
def replicationCreate (s : State n) : State n :=
  { s with slot := some s.next, next := s.next + 1, cache := some ⟨true, true⟩ }

/-- `VamanaReplicationDropIfExists` for work after which there had been `bound` slots. -/
def dropIfExists (s : State n) (bound : Nat) (result : VamanaSlotDropResult) : State n :=
  if result = .done then
    { s with slot := none, removed := (s.slot.toList.map fun k => (bound, k)) ++ s.removed }
  else s

/-- The worker loads an index that it finds in the catalog and that is not locked. -/
def MayLoad (s : State n) : Prop := s.catalogued = true ∧ ∀ p, (s.backends p).built = false

instance MayLoad.decidable (s : State n) : Decidable s.MayLoad :=
  inferInstanceAs (Decidable (_ ∧ ∀ p, (s.backends p).built = false))

/-- `VamanaWorkerGetOrLoadIndex` without a cache entry: the slot is opened, and not created. -/
def getOrLoad (s : State n) : State n :=
  { s with cache := if s.MayLoad then some ⟨s.saved || s.rows, s.slot.isSome⟩ else none }

end State

open State

/-- A build waits until every other transaction is off the index. -/
def MayBuild (s : State n) (pid : Fin n) : Prop :=
  (s.backends pid).phase ≠ .aborted ∧ ∀ p, p ≠ pid → (s.backends p).phase = .idle

deriving instance Decidable for MayBuild

def MayInsert (s : State n) (pid : Fin n) : Prop :=
  (s.backends pid).phase ≠ .aborted ∧
    (s.catalogued = true ∨ (s.backends pid).created = true) ∧
    ∀ p, p ≠ pid → (s.backends p).built = false

deriving instance Decidable for MayInsert

def building (s : State n) (pid : Fin n) : Backend :=
  let b := s.backends pid
  { b with phase := .active, created := b.created || !s.catalogued, built := true }

/-- `VamanaReplicationQueueRetireOnAbort`, when there have been `bound` slots. -/
def queueRetireOnAbort (b : Backend) (bound : Nat) : Backend :=
  { b with retires := b.retires + 1, bound }

def build (s : State n) (pid : Fin n) (outcome : LoadOutcome) : State n :=
  let b := building s pid
  let s := { s with saved := true }
  match outcome with
  | .loaded =>
    let s := s.replicationCreate
    s.setBackend pid (queueRetireOnAbort b s.next)
  | .failed => s.setBackend pid (queueRetireOnAbort b s.next)
  | .unavailable => s.setBackend pid b

/-- An insert into a graph, or the first one, which makes it (`VamanaWorkerBuildEmptyTableIndex`)
and creates a slot unless the cache entry has one. -/
def insert (s : State n) (pid : Fin n) (c : VamanaIndexCache) : State n :=
  let b := { s.backends pid with phase := .active, inserted := true }
  if c.graph = true then s.setBackend pid b
  else if c.replicationSlot = true then
    { s with cache := some { c with graph := true } }.setBackend pid b
  else
    let s := s.replicationCreate
    s.setBackend pid (queueRetireOnAbort b s.next)

/-- The next entry of `CurrentBuildRetires`, or the end of the transaction. -/
def nextEntry (b : Backend) : Backend :=
  if b.retires ≤ 1 then {} else { b with retires := b.retires - 1, signalled := false }

/-- `VamanaRetireIndexArtifacts` after its signal. A drop that was not done goes to the queue, if
that takes it. -/
def retireDrop (s : State n) (pid : Fin n) (result : VamanaSlotDropResult) (queued : Bool) :
    State n :=
  let b := s.backends pid
  let dropped := s.dropIfExists b.bound result
  let queue := if result = .done ∨ queued = false then s.queue else s.queue ++ [b.bound]
  { dropped with queue }.setBackend pid (nextEntry b)

/-- A turn of `VamanaWorkerProcessSlotDrops`, which evicts first. -/
def workerDrop (s : State n) (i : Nat) (bound : Nat) (result : VamanaSlotDropResult) : State n :=
  let evicted : State n := { s with cache := none }
  let s := evicted.dropIfExists bound result
  { s with queue := if result = .done then s.queue.eraseIdx i else s.queue }

def step (s : State n) : Event n → State n
  | .build pid outcome => if MayBuild s pid then build s pid outcome else s
  | .buildEmpty pid available =>
    if MayBuild s pid then
      { s with saved := false, reload := s.reload || available }.setBackend pid (building s pid)
    else s
  | .insert pid =>
    match s.cache with
    | none => s
    | some c => if MayInsert s pid then insert s pid c else s
  | .commit pid =>
    let b := s.backends pid
    if b.phase = .active then
      { s with catalogued := s.catalogued || b.created, rows := s.rows || b.inserted }.setBackend
        pid {}
    else s
  | .abort pid =>
    let b := s.backends pid
    if b.phase = .active then
      s.setBackend pid (if b.retires = 0 then {} else { b with phase := .aborted })
    else s
  | .signal pid available =>
    let b := s.backends pid
    if b.phase = .aborted then
      { s with reload := s.reload || available }.setBackend pid { b with signalled := true }
    else s
  | .drop pid result queued =>
    if (s.backends pid).signalled = true then retireDrop s pid result queued else s
  | .workerDrop i result =>
    match s.queue[i]? with
    | none => s
    | some bound => workerDrop s i bound result
  | .reload => if s.reload = true then { s with reload := false }.getOrLoad else s
  | .load => if s.cache = none then s.getOrLoad else s
  | .evict => { s with cache := none }
  | .checkpoint =>
    match s.cache with
    | some ⟨true, _⟩ => { s with saved := true }
    | _ => s
  | .deleteRows => { s with rows := false }

/-! ## What a retirement may remove -/

def Quiet (s : State n) : Prop :=
  (∀ p, (s.backends p).phase = .idle) ∧ s.queue = [] ∧ s.reload = false

deriving instance Decidable for Quiet

/-- No drop has removed a slot that was created after the aborted work; and when all is quiet, a
catalogued index with a graph in the cache has a slot. -/
structure Retired (s : State n) : Prop where
  own : ∀ r ∈ s.removed, r.2 < r.1
  slot : Quiet s → s.catalogued = true → ∀ c, s.cache = some c → c.graph = true → s.slot ≠ none

/-- Nothing of the index is left to retire but by `pid`. -/
def Clear (s : State n) (pid : Fin n) : Prop :=
  s.queue = [] ∧ ∀ p, p ≠ pid → (s.backends p).retires = 0

deriving instance Decidable for Clear

/-- Nothing is being retired, and an index without a slot has nothing to load. -/
def Loadable (s : State n) : Prop :=
  s.MayLoad → (∀ p, (s.backends p).phase ≠ .aborted) ∧
    (s.slot = none → s.saved = false ∧ s.rows = false)

deriving instance Decidable for Loadable

/-- A slot is created while nothing of the index is left to retire; the worker is signalled while it
is available, or caches nothing; and it loads the index while nothing is being retired, and without
a slot only when there is nothing to load. -/
def Careful (s : State n) : Event n → Prop
  | .build pid .loaded => Clear s pid
  | .insert pid => s.cache = some ⟨false, false⟩ → Clear s pid
  | .signal _ available => available = true ∨ s.cache = none
  | .reload => Loadable s
  | .load => Loadable s
  | _ => True

instance Careful.decidable (s : State n) : (e : Event n) → Decidable (Careful s e) := by
  intro e
  cases e with
  | build pid outcome => cases outcome <;> unfold Careful <;> infer_instance
  | _ =>
    unfold Careful
    infer_instance

/-! ## The steps -/

/-- A transaction and the slot that stands. -/
structure Backend.Fits (s : State n) (b : Backend) : Prop where
  bound : 0 < b.retires → ∀ k, s.slot = some k → k < b.bound
  pending : b.signalled = true → b.phase = .aborted ∧ 0 < b.retires
  signalled : b.signalled = true → s.reload = true ∨ s.cache = none
  aborted : b.phase = .aborted → 0 < b.retires

structure Inv (s : State n) : Prop where
  slot : ∀ k, s.slot = some k → k < s.next
  backends : ∀ p, (s.backends p).Fits s
  queue : ∀ w ∈ s.queue, ∀ k, s.slot = some k → k < w
  removed : ∀ r ∈ s.removed, r.2 < r.1
  stale : ∀ c, s.cache = some c → s.slot = none →
    c.graph = true ∨ c.replicationSlot = true → s.reload = true

variable {s : State n} {pid : Fin n}

theorem Inv.retired (h : Inv s) : Retired s := by
  refine ⟨h.removed, fun hq _ c hc hg hs => ?_⟩
  have hr := h.stale c hc hs (.inl hg)
  rw [hq.2.2] at hr
  cases hr

variable {b : Backend}

theorem forall_setBackend (P : Backend → Prop) (hb : P b)
    (h : ∀ p, p ≠ pid → P (s.backends p)) : ∀ p, P ((s.setBackend pid b).backends p) :=
  (Function.forall_update_iff s.backends fun _ b => P b).mpr ⟨hb, h⟩

theorem Backend.Fits.empty (s : State n) : ({} : Backend).Fits s :=
  ⟨fun h => absurd h (Nat.lt_irrefl 0), fun h => absurd h (by decide), fun h => absurd h (by decide),
    fun h => absurd h (by decide)⟩

theorem Backend.Fits.of_same {s s' : State n} (h : b.Fits s) (hs : s'.slot = s.slot)
    (hc : s'.cache = s.cache) (hr : s.reload = true → s'.reload = true) : b.Fits s' := by
  refine ⟨fun hpos k hk => h.bound hpos k (hs ▸ hk), h.pending, fun hsig => ?_, h.aborted⟩
  rw [hc]
  exact (h.signalled hsig).imp_left hr

theorem Backend.Fits.active (h : b.Fits s) (hp : b.phase ≠ .aborted) : b.signalled = false := by
  by_contra hsig
  rw [Bool.not_eq_false] at hsig
  exact hp (h.pending hsig).1

theorem Backend.fits_active (hph : b.phase = .active) (hsig : b.signalled = false)
    (hbo : 0 < b.retires → ∀ k, s.slot = some k → k < b.bound) : b.Fits s := by
  refine ⟨hbo, fun hs => ?_, fun hs => ?_, fun hp => ?_⟩
  · rw [hsig] at hs
    cases hs
  · rw [hsig] at hs
    cases hs
  · rw [hph] at hp
    cases hp

theorem Backend.Fits.abort (h : b.Fits s) (ha : b.phase = .active) :
    (if b.retires = 0 then {} else { b with phase := .aborted } : Backend).Fits s := by
  split
  · exact .empty s
  rename_i hso
  have hsig : b.signalled = false := h.active (by simp [ha])
  have hpos : 0 < b.retires := Nat.pos_of_ne_zero hso
  refine ⟨h.bound, fun _ => ⟨rfl, hpos⟩, fun hs => ?_, fun _ => hpos⟩
  simp [hsig] at hs

theorem Backend.Fits.signal (h : b.Fits s) (ha : b.phase = .aborted)
    (hs : s.reload = true ∨ s.cache = none) : { b with signalled := true }.Fits s :=
  ⟨h.bound, fun _ => ⟨ha, h.aborted ha⟩, fun _ => hs, h.aborted⟩

theorem inv_create (h : Inv s) (hc : Clear s pid)
    (hph : b.phase = .active) (hsig : b.signalled = false) :
    Inv (s.replicationCreate.setBackend pid (queueRetireOnAbort b (s.next + 1))) := by
  refine ⟨fun k hk => ?_, ?_, fun w hw => ?_, h.removed, fun c _ hsl => ?_⟩
  · cases hk
    exact Nat.lt_succ_self _
  · refine forall_setBackend _ (Backend.fits_active hph hsig fun _ k hk => ?_) fun p hp => ?_
    · cases hk
      exact Nat.lt_succ_self _
    · have hn : ¬ 0 < (s.backends p).retires := by
        rw [hc.2 p hp]
        exact Nat.lt_irrefl 0
      have hold := h.backends p
      exact ⟨fun hpos => absurd hpos hn, hold.pending,
        fun hs => absurd (hold.pending hs).2 hn, hold.aborted⟩
  · have hmem : w ∈ s.queue := hw
    rw [hc.1] at hmem
    cases hmem
  · cases hsl

/-- Nothing changes that a drop or a load depends on; a reload may become due. -/
structure Same (s s' : State n) : Prop where
  backends : s'.backends = s.backends
  slot : s'.slot = s.slot
  next : s'.next = s.next
  cache : s'.cache = s.cache
  queue : s'.queue = s.queue
  removed : s'.removed = s.removed
  reload : s.reload = true → s'.reload = true

theorem Inv.of_same {s s' : State n} (h : Inv s) (hs : Same s s') : Inv s' := by
  refine ⟨fun k hk => ?_, fun p => ?_, fun w hw k hk => ?_, fun r hr => ?_, fun c hc hn hst => ?_⟩
  · rw [hs.next]
    exact h.slot k (hs.slot ▸ hk)
  · rw [hs.backends]
    exact (h.backends p).of_same hs.slot hs.cache hs.reload
  · exact h.queue w (hs.queue ▸ hw) k (hs.slot ▸ hk)
  · exact h.removed r (hs.removed ▸ hr)
  · exact hs.reload (h.stale c (hs.cache ▸ hc) (hs.slot ▸ hn) hst)

theorem inv_setBackend (h : Inv s) (hb : b.Fits s) : Inv (s.setBackend pid b) := by
  refine ⟨h.slot, ?_, h.queue, h.removed, h.stale⟩
  apply forall_setBackend (fun x => x.Fits (s.setBackend pid b)) (hb.of_same rfl rfl id)
  intro p _
  exact (h.backends p).of_same rfl rfl id

theorem building_spec (h : Inv s) (hp : (s.backends pid).phase ≠ .aborted) :
    (building s pid).Fits s ∧ (building s pid).phase = .active ∧
      (building s pid).signalled = false := by
  have hold := h.backends pid
  have hsig : (building s pid).signalled = false := hold.active hp
  exact ⟨Backend.fits_active rfl hsig hold.bound, rfl, hsig⟩

theorem Backend.Fits.queued (h : b.Fits s) (hsl : ∀ k, s.slot = some k → k < s.next) :
    (queueRetireOnAbort b s.next).Fits s :=
  ⟨fun _ k hk => hsl k hk, fun hs => ⟨(h.pending hs).1, Nat.succ_pos _⟩, h.signalled,
    fun _ => Nat.succ_pos _⟩

section

variable (h : Inv s)
include h

theorem inv_saved (saved : Bool) : Inv { s with saved } :=
  h.of_same ⟨rfl, rfl, rfl, rfl, rfl, rfl, id⟩

theorem inv_signalled (saved available : Bool) :
    Inv { s with saved, reload := s.reload || available } := by
  refine h.of_same ⟨rfl, rfl, rfl, rfl, rfl, rfl, ?_⟩
  intro hr
  simp [hr]

theorem inv_committed (catalogued rows : Bool) : Inv { s with catalogued, rows } :=
  h.of_same ⟨rfl, rfl, rfl, rfl, rfl, rfl, id⟩

theorem inv_build (hmay : MayBuild s pid) (outcome : LoadOutcome)
    (hc : outcome = .loaded → Clear s pid) : Inv (build s pid outcome) := by
  obtain ⟨hf, hp, hsig⟩ := building_spec h hmay.1
  have hs := inv_saved h true
  have hf' : (building s pid).Fits { s with saved := true } := hf.of_same rfl rfl id
  cases outcome with
  | loaded => exact inv_create hs (hc rfl) hp hsig
  | failed => exact inv_setBackend hs (hf'.queued h.slot)
  | unavailable => exact inv_setBackend hs hf'

theorem inv_insert
    (hph : (s.backends pid).phase ≠ .aborted) {c : VamanaIndexCache} (hc : s.cache = some c)
    (hcl : s.cache = some ⟨false, false⟩ → Clear s pid) : Inv (insert s pid c) := by
  have hold := h.backends pid
  have hsig : (s.backends pid).signalled = false := hold.active hph
  unfold insert
  split
  · exact inv_setBackend h (Backend.fits_active rfl hsig hold.bound)
  rename_i hg
  split
  · rename_i hsl
    -- the graph is made in an entry that has a slot, if only by name
    have hca : Inv { s with cache := some { c with graph := true } } := by
      refine ⟨h.slot, fun p => ?_, h.queue, h.removed, fun c' hc' hn _ => ?_⟩
      · have hp := h.backends p
        refine ⟨hp.bound, hp.pending, fun hs => .inl ?_, hp.aborted⟩
        obtain hr | hn := hp.signalled hs
        · exact hr
        · rw [hc] at hn
          cases hn
      · exact h.stale c hc hn (.inr hsl)
    exact inv_setBackend hca (Backend.fits_active rfl hsig hold.bound)
  · rename_i hsl
    obtain ⟨graph, slot⟩ := c
    simp only [Bool.not_eq_true] at hg hsl
    subst hg hsl
    exact inv_create h (hcl hc) rfl hsig

/-- A drop of `bound`, which the slot that stands was created before. -/
theorem inv_dropIfExists {bound : Nat}
    (hbo : ∀ k, s.slot = some k → k < bound) (hca : ∀ c, s.cache = some c → s.reload = true)
    (result : VamanaSlotDropResult) : Inv (s.dropIfExists bound result) := by
  unfold dropIfExists
  split
  · refine ⟨fun k hk => ?_, fun p => ?_, fun w _ k hk => ?_, fun r hr => ?_, fun c hc _ _ => ?_⟩
    · cases hk
    · have hp := h.backends p
      exact ⟨fun _ k hk => absurd hk (some_ne_none k).symm, hp.pending, hp.signalled, hp.aborted⟩
    · cases hk
    · obtain hr | hr := mem_append.mp hr
      · obtain ⟨k, hk, rfl⟩ := mem_map.mp hr
        exact hbo k (mem_toList.mp hk)
      · exact h.removed r hr
    · exact hca c hc
  · exact h

end

theorem nextEntry_fits (h : b.Fits s) : (nextEntry b).Fits s := by
  unfold nextEntry
  split
  · exact .empty s
  rename_i hm
  rw [Nat.not_le] at hm
  exact ⟨fun _ => h.bound (Nat.lt_of_succ_lt hm), fun hs => absurd hs Bool.false_ne_true,
    fun hs => absurd hs Bool.false_ne_true, fun _ => Nat.sub_pos_of_lt hm⟩

theorem dropIfExists_spec (s : State n) (bound : Nat) (result : VamanaSlotDropResult) :
    (s.dropIfExists bound result).backends = s.backends ∧
      (s.dropIfExists bound result).queue = s.queue ∧
      ∀ k, (s.dropIfExists bound result).slot = some k → s.slot = some k := by
  unfold dropIfExists
  split
  · exact ⟨rfl, rfl, fun k hk => absurd hk (some_ne_none k).symm⟩
  · exact ⟨rfl, rfl, fun k hk => hk⟩

theorem inv_queue (h : Inv s) {queue : List Nat}
    (hq : ∀ w ∈ queue, ∀ k, s.slot = some k → k < w) : Inv { s with queue } :=
  ⟨h.slot, fun p => (h.backends p).of_same rfl rfl id, hq, h.removed, h.stale⟩

theorem inv_retireDrop (h : Inv s) (hsig : (s.backends pid).signalled = true)
    (result : VamanaSlotDropResult) (queued : Bool) : Inv (retireDrop s pid result queued) := by
  have hp := h.backends pid
  have hbo := hp.bound (hp.pending hsig).2
  have hd : Inv (s.dropIfExists (s.backends pid).bound result) := by
    refine inv_dropIfExists h hbo (fun c hc => ?_) result
    obtain hr | hn := hp.signalled hsig
    · exact hr
    · rw [hc] at hn
      cases hn
  obtain ⟨hba, -, hs⟩ := dropIfExists_spec s (s.backends pid).bound result
  have hqu : ∀ w ∈ if result = .done ∨ queued = false then s.queue
      else s.queue ++ [(s.backends pid).bound],
      ∀ k, (s.dropIfExists (s.backends pid).bound result).slot = some k → k < w := by
    intro w hw k hk
    split at hw
    · exact h.queue w hw k (hs k hk)
    obtain hw | hw := mem_append.mp hw
    · exact h.queue w hw k (hs k hk)
    · rw [mem_singleton.mp hw]
      exact hbo k (hs k hk)
  have hq := inv_queue hd hqu
  have hne := nextEntry_fits (hq.backends pid)
  refine inv_setBackend hq ?_
  rwa [show (State.backends _ pid) = s.backends pid from congrFun hba pid] at hne

theorem inv_evict (h : Inv s) : Inv { s with cache := none } :=
  ⟨h.slot, fun p => ⟨(h.backends p).bound, (h.backends p).pending, fun _ => .inr rfl,
    (h.backends p).aborted⟩, h.queue, h.removed, fun c hc => absurd hc (some_ne_none c).symm⟩

theorem inv_workerDrop (h : Inv s) {i bound : Nat} (hi : s.queue[i]? = some bound)
    (result : VamanaSlotDropResult) : Inv (workerDrop s i bound result) := by
  have hd := inv_dropIfExists (inv_evict h) (h.queue bound (mem_of_getElem? hi))
    (fun c hc => absurd hc (some_ne_none c).symm) result
  refine inv_queue hd fun w hw k hk => ?_
  obtain ⟨-, hq, hs⟩ := dropIfExists_spec { s with cache := none } bound result
  rw [hq] at hw
  refine h.queue w ?_ k (hs k hk)
  split at hw
  · exact mem_of_mem_eraseIdx hw
  · exact hw

theorem inv_getOrLoad (h : Inv s) (hl : Loadable s) (reload : Bool) :
    Inv { s.getOrLoad with reload } := by
  unfold getOrLoad
  split
  · rename_i hmay
    obtain ⟨hn, hem⟩ := hl hmay
    refine ⟨h.slot, fun p => ?_, h.queue, h.removed, fun c hc hsl hst => ?_⟩
    · have hp := h.backends p
      exact ⟨hp.bound, hp.pending, fun hs => absurd (hp.pending hs).1 (hn p), hp.aborted⟩
    · cases hc
      have hsl' : s.slot = none := hsl
      obtain ⟨hsa, hr⟩ := hem hsl'
      simp [hsa, hr, hsl'] at hst
  · exact ⟨h.slot, fun p => ⟨(h.backends p).bound, (h.backends p).pending, fun _ => .inr rfl,
      (h.backends p).aborted⟩, h.queue, h.removed,
      fun c hc => absurd hc (some_ne_none c).symm⟩


theorem inv_step (s : State n) (e : Event n) (h : Inv s) (hca : Careful s e) : Inv (step s e) := by
  cases e with
  | build pid outcome =>
    unfold step
    dsimp only
    split
    · rename_i hmay
      refine inv_build h hmay outcome fun hl => ?_
      subst hl
      exact hca
    · exact h
  | buildEmpty pid available =>
    unfold step
    dsimp only
    split
    · rename_i hmay
      have hs := inv_signalled h false available
      exact inv_setBackend hs (building_spec hs hmay.1).1
    · exact h
  | insert pid =>
    unfold step
    dsimp only
    split
    · exact h
    rename_i c hc
    split
    · rename_i hmay
      exact inv_insert h hmay.1 hc hca
    · exact h
  | commit pid =>
    unfold step
    dsimp only
    split
    · exact inv_setBackend (inv_committed h _ _) (.empty _)
    · exact h
  | abort pid =>
    unfold step
    dsimp only
    split
    · rename_i hac
      exact inv_setBackend h ((h.backends pid).abort hac)
    · exact h
  | signal pid available =>
    unfold step
    dsimp only
    split
    · rename_i hab
      have hs := inv_signalled h s.saved available
      apply inv_setBackend hs
      apply (hs.backends pid).signal hab
      obtain ha | hn := hca
      · exact .inl (by simp [ha])
      · exact .inr hn
    · exact h
  | drop pid result queued =>
    unfold step
    dsimp only
    split
    · rename_i hsig
      exact inv_retireDrop h hsig result queued
    · exact h
  | workerDrop i result =>
    unfold step
    dsimp only
    split
    · exact h
    · rename_i bound hi
      exact inv_workerDrop h hi result
  | reload =>
    unfold step
    dsimp only
    split
    · exact inv_getOrLoad h hca false
    · exact h
  | load =>
    unfold step
    dsimp only
    split
    · exact inv_getOrLoad h hca s.reload
    · exact h
  | evict => exact inv_evict h
  | checkpoint =>
    unfold step
    dsimp only
    split
    · exact inv_saved h true
    · exact h
  | deleteRows => exact inv_committed h s.catalogued false

/-! ## Every interleaving -/

theorem inv_start (rows : Bool) : Inv ({ rows } : State n) :=
  ⟨fun k hk => absurd hk (some_ne_none k).symm, fun _ => .empty _,
    fun _ hw => absurd hw not_mem_nil, fun _ hr => absurd hr not_mem_nil,
    fun c hc => absurd hc (some_ne_none c).symm⟩

/-- The first insert into an empty index is aborted and retired, and another session's follows. -/
def abortedFirstInsert : List (Event 3) :=
  [.buildEmpty 0 true, .commit 0, .reload, .insert 1, .abort 1, .signal 1 true, .drop 1 .busy true,
    .workerDrop 0 .done, .reload, .insert 2, .commit 2]

/-- A REINDEX is aborted while its slot is held, so that the drop is queued and tried again. In
between the next REINDEX commits, and the drop then removes its slot. -/
def abortedReindex : List (Event 1) :=
  [.build 0 .loaded, .commit 0, .build 0 .loaded, .abort 0, .signal 0 true, .drop 0 .busy true,
    .workerDrop 0 .busy, .build 0 .loaded, .commit 0, .workerDrop 0 .done, .reload]

end svs_vamana.slot_retirement
