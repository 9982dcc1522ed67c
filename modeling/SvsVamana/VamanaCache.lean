-- The worker's index cache (vamanacache.c) beside the builds of one of its indexes: an entry that
-- leaves the cache gives up the memory record of its index.
import SvsVamana.MemoryRecords
import Mathlib.Logic.Function.Basic

namespace svs_vamana.vamana_cache

open slot_table svs_memory residency_budgets residency_books memory_records

/-! ## The pure model -/

/-- A load of `VamanaCacheIndex` that has its entry and is still to be reconciled. -/
structure Load where
  indexRelid : Nat
  measuredBytes : Nat
  capacityHeadroomVectors : Nat
deriving DecidableEq, Repr

/-- How far a build of the index has come. It is `settled` when all that its owner has left to do
is to abort or to end its transaction. -/
inductive Build
  | none
  | building (pid reservedAt buildPeak : Nat)
  | confirmed
  | handedOff
  | settled
deriving DecidableEq, Repr

/-- A call returned, and returned true if it has an answer. -/
def succeeded : Except MemoryError Reply → Bool
  | .ok (.answer b) => b
  | .ok _ => true
  | .error _ => false

/-- One database: its memory books, the entries of the worker's hash table with their `isValid`,
the load the worker is in, and the build of the index in question. -/
structure Database where
  ledger : Ledger
  entries : Nat → Option Bool := fun _ => Option.none
  loading : Option Load := Option.none
  build : Build := .none

open Database

namespace Database

def call (s : Database) (op : Op) : Database := { s with ledger := (op.apply s.ledger).1 }

def succeeds (s : Database) (op : Op) : Bool := succeeded (op.apply s.ledger).2

def setEntry (s : Database) (relid : Nat) (entry : Option Bool) : Database :=
  { s with entries := Function.update s.entries relid entry }

/-- Whatever entry there is goes, valid or not, and `SvsMemoryAccountUnload` is called for its
index. -/
def destroyCacheEntry (s : Database) (relid : Nat) : Database :=
  match s.entries relid with
  | none => s
  | some _ => (s.call (.accountUnload relid)).setEntry relid none

/-- `VamanaFindCacheSlot` sees valid entries only. -/
def evictCacheEntry (s : Database) (relid : Nat) : Database :=
  if s.entries relid = some true then s.destroyCacheEntry relid else s

def allocCacheSlot (s : Database) (relid : Nat) : Database :=
  (s.destroyCacheEntry relid).setEntry relid (some false)

/-- `VamanaCacheIndex` up to `SvsMemoryReconcileLoad`. -/
def beginCacheIndex (s : Database) (load : Load) : Database :=
  { s.allocCacheSlot load.indexRelid with loading := some load }

/-- A load that is refused, or fails before its entry is `populated`, leaves an entry that is not
valid. The load of the index ends the hand-off of its build. -/
def endCacheIndex (relid : Nat) (s : Database) (now : Nat) (populated : Bool) : Database :=
  match s.loading with
  | none => s
  | some load =>
    let op := Op.reconcileLoad now load.indexRelid load.measuredBytes load.capacityHeadroomVectors
    let s' := { s.call op with loading := none }
    if s.succeeds op then
      let s' := s'.setEntry load.indexRelid (some populated)
      if load.indexRelid = relid ∧ (s.build = .confirmed ∨ s.build = .handedOff) then
        { s' with build := .settled }
      else s'
    else s'

/-- The lock on the index keeps other builds of it away, loads and unloads of it are the worker's
steps, and a reaper spares an owner that is alive. -/
def permits (relid : Nat) (s : Database) : Op → Bool
  | .reserveBuild _ _ other _ _ _ => other != relid
  | .confirmBuild other _ _ => other != relid
  | .handoffBuild other => other != relid
  | .abortBuild other => other != relid
  | .reconcileLoad _ other _ _ => other != relid || s.build == .none
  | .accountUnload other => other != relid
  | .reap dead =>
    match s.build with
    | .building pid reservedAt _ => !ownerPidIsDead dead pid reservedAt
    | _ => true
  | _ => true

end Database

/-- One step of the build of the index, of the worker, or of any other process. -/
inductive Event
  | reserveBuild (pid now buildPeak residencyEstimate ceiling : Nat)
  | confirmBuild (measuredResidencyBytes : Nat)
  | handoffBuild
  | abortBuild
  | endBuild
  | evict (relid : Nat)
  | beginLoad (load : Load)
  | endLoad (now : Nat) (populated : Bool)
  | restart
  | other (op : Op)

/-- A build of the index starts only while there is no other. The worker does one thing at a
time: within a load it neither evicts nor loads. -/
def step (relid : Nat) (s : Database) : Event → Database
  | .reserveBuild pid now buildPeak estimate ceiling =>
    if s.build = .none then
      let op := Op.reserveBuild pid now relid buildPeak estimate ceiling
      { s.call op with
        build := if s.succeeds op then .building pid now buildPeak else .none }
    else s
  | .confirmBuild measured =>
    match s.build with
    | .building _ _ buildPeak =>
      let op := Op.confirmBuild relid buildPeak measured
      { s.call op with build := if s.succeeds op then .confirmed else .settled }
    | _ => s
  | .handoffBuild =>
    if s.build = .confirmed then
      { s.call (.handoffBuild relid) with
        build := if s.succeeds (.handoffBuild relid) then .handedOff else .settled }
    else s
  | .abortBuild =>
    if s.build = .none then s else { s.call (.abortBuild relid) with build := .none }
  | .endBuild => if s.build = .settled then { s with build := .none } else s
  | .evict x => if s.loading = none then s.evictCacheEntry x else s
  | .beginLoad load => if s.loading = none then s.beginCacheIndex load else s
  | .endLoad now populated => s.endCacheIndex relid now populated
  | .restart => { s with entries := fun _ => none, loading := none }
  | .other op => if s.permits relid op then s.call op else s

def start (residencyBudget totalBuildCommittedGlobal : Nat) : Database where
  ledger :=
    { residencyBudget, totalBuildCommittedGlobal, residencyUnderflows := [], buildUnderflows := [] }

/-! ## The call an event makes -/

/-- The call of svs_memory.c that an event comes to. -/
def callOf (relid : Nat) (s : Database) : Event → Option Op
  | .reserveBuild pid now buildPeak estimate ceiling =>
    if s.build = .none then some (.reserveBuild pid now relid buildPeak estimate ceiling) else none
  | .confirmBuild measured =>
    match s.build with
    | .building _ _ buildPeak => some (.confirmBuild relid buildPeak measured)
    | _ => none
  | .handoffBuild => if s.build = .confirmed then some (.handoffBuild relid) else none
  | .abortBuild => if s.build = .none then none else some (.abortBuild relid)
  | .evict x =>
    if s.loading = none ∧ s.entries x = some true then some (.accountUnload x) else none
  | .beginLoad load =>
    if s.loading = none ∧ s.entries load.indexRelid ≠ none then
      some (.accountUnload load.indexRelid)
    else none
  | .endLoad now _ => s.loading.map fun load =>
    .reconcileLoad now load.indexRelid load.measuredBytes load.capacityHeadroomVectors
  | .other op => if s.permits relid op then some op else none
  | _ => none

def booksAfter (l : Ledger) : Option Op → Ledger
  | none => l
  | some op => (op.apply l).1

theorem destroyCacheEntry_ledger (s : Database) (relid : Nat) :
    (s.destroyCacheEntry relid).ledger =
      booksAfter s.ledger (if s.entries relid = none then none else some (.accountUnload relid)) := by
  unfold destroyCacheEntry
  cases hen : s.entries relid with
  | none => simp [booksAfter]
  | some valid => simp [booksAfter, call, setEntry]

theorem step_ledger (relid : Nat) (s : Database) (e : Event) :
    (step relid s e).ledger = booksAfter s.ledger (callOf relid s e) := by
  cases e with
  | reserveBuild pid now peak estimate ceiling | confirmBuild measured | handoffBuild
  | abortBuild | endBuild | other op =>
    simp only [step, callOf]
    split <;> rfl
  | evict x =>
    simp only [step, callOf]
    by_cases hl : s.loading = none
    · by_cases hv : s.entries x = some true
      · simp [hl, hv, evictCacheEntry, destroyCacheEntry_ledger]
      · simp [hl, hv, evictCacheEntry, booksAfter]
    · simp [hl, booksAfter]
  | beginLoad load =>
    simp only [step, callOf]
    by_cases hl : s.loading = none
    · have hle := destroyCacheEntry_ledger s load.indexRelid
      by_cases hen : s.entries load.indexRelid = none
      · simpa [hl, hen, beginCacheIndex, allocCacheSlot, setEntry] using hle
      · simpa [hl, hen, beginCacheIndex, allocCacheSlot, setEntry] using hle
    · simp [hl, booksAfter]
  | endLoad now populated =>
    simp only [step, callOf, endCacheIndex]
    cases s.loading with
    | none => rfl
    | some load =>
      dsimp only
      split
      · split <;> rfl
      · rfl
  | restart => rfl

/-! ## The build an event leaves -/

variable (s : Database)

@[simp] theorem call_build (op : Op) : (s.call op).build = s.build := rfl

@[simp] theorem setEntry_build (relid : Nat) (entry : Option Bool) :
    (s.setEntry relid entry).build = s.build := rfl

@[simp] theorem destroyCacheEntry_build (relid : Nat) :
    (s.destroyCacheEntry relid).build = s.build := by
  unfold destroyCacheEntry
  split <;> simp

@[simp] theorem evictCacheEntry_build (relid : Nat) :
    (s.evictCacheEntry relid).build = s.build := by
  unfold evictCacheEntry
  split <;> simp

@[simp] theorem beginCacheIndex_build (load : Load) : (s.beginCacheIndex load).build = s.build := by
  simp [beginCacheIndex, allocCacheSlot]

/-- The event does not move the build on: it is out of turn, or none of the build's own. -/
structure Leaves (relid : Nat) (s : Database) (e : Event) : Prop where
  confirm : ∀ measured, e = .confirmBuild measured → ∀ pid reservedAt peak,
    s.build ≠ .building pid reservedAt peak
  handoff : e = .handoffBuild → s.build ≠ .confirmed
  abort : e = .abortBuild → s.build = .none
  load : ∀ now populated, e = .endLoad now populated → ∀ load ∈ s.loading,
    load.indexRelid = relid → s.build = .confirmed ∨ s.build = .handedOff →
      s.succeeds (.reconcileLoad now relid load.measuredBytes load.capacityHeadroomVectors) = false

/-- What an event makes of the build. -/
inductive Advance (relid : Nat) (s : Database) (e : Event) : Build → Prop
  | same (h : Leaves relid s e) : Advance relid s e s.build
  | granted (pid now peak estimate ceiling : Nat) (hbuild : s.build = .none)
      (hcall : callOf relid s e = some (.reserveBuild pid now relid peak estimate ceiling))
      (hok : s.succeeds (.reserveBuild pid now relid peak estimate ceiling)) :
      Advance relid s e (.building pid now peak)
  | confirmed (pid reservedAt peak measured : Nat) (hbuild : s.build = .building pid reservedAt peak)
      (hcall : callOf relid s e = some (.confirmBuild relid peak measured))
      (hok : s.succeeds (.confirmBuild relid peak measured)) : Advance relid s e .confirmed
  | handedOff (hbuild : s.build = .confirmed)
      (hcall : callOf relid s e = some (.handoffBuild relid))
      (hok : s.succeeds (.handoffBuild relid)) : Advance relid s e .handedOff
  | settled (hbuild : s.build ≠ .none) : Advance relid s e .settled
  | ended : Advance relid s e .none

variable {relid : Nat} {s : Database} {e : Event}

theorem Advance.unmoved {build : Build} (hbu : build = s.build)
    (hc : ∀ measured, e ≠ .confirmBuild measured) (hh : e ≠ .handoffBuild)
    (ha : e ≠ .abortBuild) (hl : ∀ now populated, e ≠ .endLoad now populated) :
    Advance relid s e build := by
  subst hbu
  exact .same {
    confirm := fun measured he => absurd he (hc measured)
    handoff := fun he => absurd he hh
    abort := fun he => absurd he ha
    load := fun now populated he => absurd he (hl now populated) }

theorem endLoad_advance (relid : Nat) (s : Database) (now : Nat) (populated : Bool) :
    Advance relid s (.endLoad now populated) (s.endCacheIndex relid now populated).build := by
  have hle (h : ∀ load ∈ s.loading, load.indexRelid = relid →
      s.build = .confirmed ∨ s.build = .handedOff → s.succeeds
        (.reconcileLoad now relid load.measuredBytes load.capacityHeadroomVectors) = false) :
      Leaves relid s (.endLoad now populated) :=
    { confirm := by simp
      handoff := by simp
      abort := by simp
      load := by
        rintro _ _ ⟨rfl, rfl⟩
        exact h }
  unfold endCacheIndex
  cases hl : s.loading with
  | none => exact .same (hle (by simp [hl]))
  | some load =>
    dsimp only
    split
    · split
      · next hen =>
        apply Advance.settled
        obtain hbu | hbu := hen.2 <;> simp [hbu]
      · next hen =>
        refine .same (hle ?_)
        intro load' hlo' hr hh
        obtain rfl : load = load' := by simpa [hl] using hlo'
        exact absurd ⟨hr, hh⟩ hen
    · next hf =>
      refine .same (hle ?_)
      intro load' hlo' hr _
      obtain rfl : load = load' := by simpa [hl] using hlo'
      subst hr
      simpa using hf

theorem step_advance (relid : Nat) (s : Database) (e : Event) :
    Advance relid s e (step relid s e).build := by
  cases e with
  | reserveBuild pid now peak estimate ceiling =>
    simp only [step]
    split
    · next hn =>
      dsimp only
      split
      · next hok => exact .granted pid now peak estimate ceiling hn (by simp [callOf, hn]) hok
      · exact .ended
    · exact .unmoved rfl (by simp) (by simp) (by simp) (by simp)
  | confirmBuild measured =>
    simp only [step]
    split
    · next pid reservedAt peak hbu =>
      dsimp only
      split
      · next hok => exact .confirmed pid reservedAt peak measured hbu (by simp [callOf, hbu]) hok
      · exact .settled (by simp [hbu])
    · next hnot =>
      exact .same { confirm := fun _ _ => hnot, handoff := by simp, abort := by simp, load := by simp }
  | handoffBuild =>
    simp only [step]
    split
    · next hbu =>
      dsimp only
      split
      · next hok => exact .handedOff hbu (by simp [callOf, hbu]) hok
      · exact .settled (by simp [hbu])
    · next hnot =>
      exact .same { confirm := by simp, handoff := fun _ => hnot, abort := by simp, load := by simp }
  | abortBuild =>
    simp only [step]
    split
    · next hn =>
      exact .same { confirm := by simp, handoff := by simp, abort := fun _ => hn, load := by simp }
    · exact .ended
  | endBuild =>
    simp only [step]
    split
    · exact .ended
    · exact .unmoved rfl (by simp) (by simp) (by simp) (by simp)
  | evict x | beginLoad load | other op =>
    apply Advance.unmoved _ (by simp) (by simp) (by simp) (by simp)
    simp only [step]
    split <;> simp
  | endLoad now populated => exact endLoad_advance relid s now populated
  | restart => exact .unmoved rfl (by simp) (by simp) (by simp) (by simp)

/-! ## What a step keeps -/

/-- The laws of the books that hold whatever is called. -/
structure Books (l : Ledger) : Prop where
  covered : Covered l.toEntry
  distinct : OnePerIndex l.toEntry

theorem booksAfter_books {l : Ledger} (h : Books l) (op : Option Op) :
    Books (booksAfter l op) ∧ (booksAfter l op).residencyBudget = l.residencyBudget := by
  cases op with
  | none => exact ⟨h, rfl⟩
  | some op =>
    have hm := apply_moves l op
    have hk := moves_kept hm h.covered h.distinct
    exact ⟨⟨hk.covered, hk.distinct⟩, moves_budget hm⟩

theorem step_books (h : Books s.ledger) (e : Event) :
    Books (step relid s e).ledger ∧
      (step relid s e).ledger.residencyBudget = s.ledger.residencyBudget := by
  rw [step_ledger]
  exact booksAfter_books h _

theorem start_books (residencyBudget total : Nat) : Books (start residencyBudget total).ledger := by
  obtain ⟨hc, hd, -⟩ := empty_books (e := { residencyBudget }) rfl rfl rfl
  exact ⟨hc, hd⟩

def Unloads (relid : Nat) (s : Database) : Event → Prop
  | .evict x => x = relid ∧ s.entries relid = some true
  | .beginLoad load => load.indexRelid = relid ∧ s.entries relid ≠ none
  | _ => False

def Loads (relid : Nat) (s : Database) : Event → Prop
  | .endLoad _ _ => ∃ load ∈ s.loading, load.indexRelid = relid
  | _ => False

instance (relid : Nat) (s : Database) (e : Event) : Decidable (Unloads relid s e) := by
  cases e <;> unfold Unloads <;> infer_instance

instance (relid : Nat) (s : Database) (e : Event) : Decidable (Loads relid s e) := by
  cases e <;> unfold Loads <;> infer_instance

variable {k : RecordKey}

theorem permits_spares (hr : k.relid = relid) (hbui : s.build ≠ .none)
    (ha : k.Building → ∃ peak, s.build = .building k.ownerPid k.reservedAt peak) {op : Op}
    (hop : s.permits relid op) : Spares k op := by
  subst hr
  cases op with
  | confirmBuild other | handoffBuild other =>
    exact fun ho => absurd ho (by simpa [permits] using hop)
  | abortBuild other | accountUnload other => simpa [permits, Spares] using hop
  | reconcileLoad now other => simpa [permits, Spares, hbui] using hop
  | reap dead =>
    intro hbu
    obtain ⟨peak, hp⟩ := ha hbu
    simpa [permits, hp] using hop
  | _ => trivial

/-- While a build goes on, a step that neither moves it on nor loads or unloads its index
spares its record. -/
theorem callOf_spares (hr : k.relid = relid) (hbu : s.build ≠ .none)
    (ha : k.Building → ∃ peak, s.build = .building k.ownerPid k.reservedAt peak)
    (hl : Leaves relid s e) (hu : ¬ Unloads relid s e) (hloa : ¬ Loads relid s e)
    {op : Op} (hop : callOf relid s e = some op) : Spares k op := by
  cases e with
  | reserveBuild => simp [callOf, hbu] at hop
  | confirmBuild measured =>
    simp only [callOf] at hop
    split at hop
    · next hbui => exact absurd hbui (hl.confirm measured rfl _ _ _)
    · cases hop
  | handoffBuild =>
    simp only [callOf] at hop
    split at hop
    · next hc => exact absurd hc (hl.handoff rfl)
    · cases hop
  | abortBuild => exact absurd (hl.abort rfl) hbu
  | endBuild => cases hop
  | evict x =>
    simp only [callOf] at hop
    split at hop
    · next hv =>
      cases hop
      rintro rfl
      subst hr
      exact hu ⟨rfl, hv.2⟩
    · cases hop
  | beginLoad load =>
    simp only [callOf] at hop
    split at hop
    · next hen =>
      cases hop
      intro hs
      have hi : load.indexRelid = relid := hs.trans hr
      exact hu ⟨hi, hi ▸ hen.2⟩
    · cases hop
  | endLoad now populated =>
    simp only [callOf, Option.map_eq_some_iff] at hop
    obtain ⟨load, hlo, rfl⟩ := hop
    intro hs
    exact hloa ⟨load, hlo, hs.trans hr⟩
  | restart => cases hop
  | other op' =>
    simp only [callOf] at hop
    split at hop
    · next hp =>
      cases hop
      exact permits_spares hr hbu ha hp
    · cases hop

theorem step_standing (h : Standing k s.ledger) (hp : k.Pending)
    (hs : ∀ op, callOf relid s e = some op → Spares k op) : Standing k (step relid s e).ledger := by
  rw [step_ledger]
  cases hc : callOf relid s e with
  | none => exact h
  | some op => exact apply_standing h hp (hs op hc)

end svs_vamana.vamana_cache
