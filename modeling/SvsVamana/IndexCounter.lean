-- The live-index counter of a control block: the deltas of CREATE and DROP INDEX after their
-- commit, and the count that a starting worker takes of the catalog.
import Mathlib.Data.Finset.Card
import Mathlib.Data.Fintype.Card
import Mathlib.Logic.Function.Basic
import SvsVamana.Lib.Runs

namespace svs_vamana.index_counter

open transition_runs Finset Function Option

/-! ## The pure model -/

abbrev Oid := Fin 4294967296

/-- How far a backend is with its transaction. The callbacks that apply the deltas run after the
commit, and the locks are held until they have run. -/
inductive Phase
  | active
  | committed
deriving DecidableEq, Repr

/-- The transaction of a backend: the indexes that it has created and dropped so far, and the
deltas that it has queued. A backend without a transaction has an empty one. -/
structure Backend where
  phase : Phase := .active
  created : Finset Oid := ∅
  dropped : Finset Oid := ∅
  deltas : List Int := []
deriving DecidableEq

open Backend

namespace Backend

def touched (b : Backend) : Finset Oid := b.created ∪ b.dropped

/-- What `ApplyPendingIndexCountDeltas` folds the deltas into. -/
def net (b : Backend) : Int := b.deltas.foldr (· + ·) 0

def create (b : Backend) (relid : Oid) : Backend :=
  { b with created := insert relid b.created, deltas := 1 :: b.deltas }

/-- An index that the transaction has created itself is gone without a trace in the catalog. -/
def drop (b : Backend) (relid : Oid) : Backend :=
  if relid ∈ b.created then
    { b with created := b.created.erase relid, deltas := -1 :: b.deltas }
  else { b with dropped := insert relid b.dropped, deltas := -1 :: b.deltas }

end Backend

/-- The counter of a reserved control block, and whether a worker has seeded it. -/
structure VamanaWorkerShmem where
  indexCount : UInt32 := 0
  seeded : Bool := false
deriving DecidableEq, Repr

/-- `ApplyIndexCountDelta`. -/
def applyIndexCountDelta (delta : Int) (indexCount : UInt32) : UInt32 :=
  if delta > 0 then indexCount + UInt32.ofNat delta.toNat
  else indexCount - UInt32.ofNat (-delta).toNat

def wraps (delta : Int) (indexCount : UInt32) : Bool := indexCount.toNat < (-delta).toNat

/-- A database: its committed vamana indexes, its backends, its control block if one is reserved,
and the count that a starting worker has taken and not stored yet. -/
structure State (n : Nat) where
  catalog : Finset Oid
  backends : Fin n → Backend := fun _ => {}
  entry : Option VamanaWorkerShmem := none
  enumerated : Option Nat := none
  wrapped : Bool := false

inductive Event (n : Nat)
  | create (pid : Fin n) (relid : Oid)
  | drop (pid : Fin n) (relid : Oid)
  | abort (pid : Fin n)
  | commit (pid : Fin n)
  | apply (pid : Fin n)
  | enumerate
  | store
  | workerStops
  | reserve
  | release
deriving DecidableEq

variable {n : Nat}

def State.setBackend (s : State n) (pid : Fin n) (b : Backend) : State n :=
  { s with backends := update s.backends pid b }

/-- A new index has an OID of its own. -/
def MayCreate (s : State n) (pid : Fin n) (relid : Oid) : Prop :=
  (s.backends pid).phase = .active ∧ relid ≠ 0 ∧ relid ∉ s.catalog ∧
    ∀ p, relid ∉ (s.backends p).touched

deriving instance Decidable for MayCreate

/-- A drop sees the index, and waits for the lock of any other transaction on it. -/
def MayDrop (s : State n) (pid : Fin n) (relid : Oid) : Prop :=
  (s.backends pid).phase = .active ∧
    (relid ∈ (s.backends pid).created ∨
      relid ∈ s.catalog ∧ relid ∉ (s.backends pid).dropped) ∧
    ∀ p, p ≠ pid → relid ∉ (s.backends p).touched

deriving instance Decidable for MayDrop

/-- The commit itself, which other transactions see before the callbacks have run. -/
def committed (s : State n) (pid : Fin n) : State n :=
  let b := s.backends pid
  let s := s.setBackend pid { b with phase := .committed }
  { s with catalog := (s.catalog ∪ b.created) \ b.dropped }

/-- The callback at commit, after which the locks go: nothing moves without a control block. -/
def applyDeltas (s : State n) (pid : Fin n) : State n :=
  let net := (s.backends pid).net
  let s := s.setBackend pid {}
  match s.entry with
  | none => s
  | some e =>
    { s with
      entry := some { e with indexCount := applyIndexCountDelta net e.indexCount }
      wrapped := s.wrapped || wraps net e.indexCount }

/-- `VamanaWorkerSeedIndexCount`, from the count to the store. -/
def storeCount (s : State n) : State n :=
  match s.entry, s.enumerated with
  | some _, some count =>
    { s with entry := some ⟨UInt32.ofNat count, true⟩, enumerated := none }
  | _, _ => s

def step (s : State n) : Event n → State n
  | .create pid relid =>
    if MayCreate s pid relid then s.setBackend pid ((s.backends pid).create relid) else s
  | .drop pid relid =>
    if MayDrop s pid relid then s.setBackend pid ((s.backends pid).drop relid) else s
  | .abort pid => if (s.backends pid).phase = .active then s.setBackend pid {} else s
  | .commit pid =>
    if (s.backends pid).phase = .active then committed s pid else s
  | .apply pid => if (s.backends pid).phase = .committed then applyDeltas s pid else s
  -- the snapshot of the startup transaction
  | .enumerate => if s.entry.isSome then { s with enumerated := some s.catalog.card } else s
  | .store => storeCount s
  | .workerStops => { s with enumerated := none }
  | .reserve => if s.entry.isNone then { s with entry := some {} } else s
  | .release => { s with entry := none, enumerated := none }

/-! ## What the counter counts -/

/-- Every transaction has been applied that has been committed. -/
def Settled (s : State n) : Prop := ∀ p, (s.backends p).phase ≠ .committed

deriving instance Decidable for Settled

/-- The catalog is `counted`, changed by the transactions that are committed and not applied. -/
structure Tells (s : State n) (counted : Finset Oid) : Prop where
  valid : 0 ∉ counted
  created : ∀ p, (s.backends p).phase = .committed → Disjoint (s.backends p).created counted
  dropped : ∀ p, (s.backends p).phase = .committed → (s.backends p).dropped ⊆ counted
  catalog : ∀ relid, relid ∈ s.catalog ↔
    (relid ∈ counted ∧ ∀ p, (s.backends p).phase = .committed → relid ∉ (s.backends p).dropped) ∨
      ∃ p, (s.backends p).phase = .committed ∧ relid ∈ (s.backends p).created

/-- One transaction in itself. -/
structure Backend.Ok (b : Backend) : Prop where
  valid : 0 ∉ b.created
  disjoint : Disjoint b.created b.dropped
  net : b.net = b.created.card - b.dropped.card

structure Wf (s : State n) : Prop where
  valid : 0 ∉ s.catalog
  ok : ∀ p, (s.backends p).Ok
  apart : ∀ p q, p ≠ q → Disjoint (s.backends p).touched (s.backends q).touched
  created : ∀ p, (s.backends p).phase = .active → Disjoint (s.backends p).created s.catalog
  dropped : ∀ p, (s.backends p).phase = .active → (s.backends p).dropped ⊆ s.catalog

theorem Backend.Ok.empty : ({} : Backend).Ok := by
  refine ⟨notMem_empty _, disjoint_empty_left _, ?_⟩
  simp [Backend.net]

variable {b : Backend} {relid : Oid}

theorem Backend.Ok.create (h : b.Ok) (hv : relid ≠ 0) (hnew : relid ∉ b.touched) :
    (b.create relid).Ok := by
  simp only [touched, mem_union, not_or] at hnew
  refine ⟨?_, ?_, ?_⟩
  · simp [Backend.create, h.valid, hv.symm]
  · simp [Backend.create, h.disjoint, hnew.2]
  · have hnet := h.net
    simp only [Backend.net, Backend.create, List.foldr_cons, card_insert_of_notMem hnew.1] at hnet ⊢
    omega

theorem Backend.Ok.drop (h : b.Ok) (hold : relid ∉ b.dropped) : (b.drop relid).Ok := by
  have hnet := h.net
  unfold Backend.drop
  split
  · rename_i hmem
    refine ⟨?_, ?_, ?_⟩
    · simp [h.valid]
    · exact h.disjoint.mono_left (erase_subset _ _)
    · have hpos := card_pos.mpr ⟨relid, hmem⟩
      simp only [Backend.net, List.foldr_cons, card_erase_of_mem hmem] at hnet ⊢
      omega
  · rename_i hmem
    refine ⟨h.valid, ?_, ?_⟩
    · simp [h.disjoint, hmem]
    · simp only [Backend.net, List.foldr_cons, card_insert_of_notMem hold] at hnet ⊢
      omega

theorem Backend.touched_create (b : Backend) (relid : Oid) :
    (b.create relid).touched = insert relid b.touched := by
  simp [create, touched]

theorem Backend.touched_drop (b : Backend) (relid : Oid) :
    (b.drop relid).touched ⊆ insert relid b.touched := by
  unfold drop touched
  split
  · intro x hx
    simp at hx ⊢
    tauto
  · simp

/-! ## The steps -/

@[simp] theorem setBackend_self (s : State n) (pid : Fin n) (b : Backend) :
    (s.setBackend pid b).backends pid = b := update_self _ _ _

theorem setBackend_other (s : State n) {pid p : Fin n} (hp : p ≠ pid) (b : Backend) :
    (s.setBackend pid b).backends p = s.backends p := update_of_ne hp _ _

theorem forall_setBackend (P : Backend → Prop) (s : State n) (pid : Fin n) (b : Backend) :
    (∀ p, P ((s.setBackend pid b).backends p)) ↔ P b ∧ ∀ p, p ≠ pid → P (s.backends p) :=
  forall_update_iff s.backends fun _ b => P b

variable {s : State n} {pid : Fin n}

theorem apart_setBackend (h : Wf s) (extra : Finset Oid)
    (hsub : b.touched ⊆ extra ∪ (s.backends pid).touched)
    (hex : ∀ p, p ≠ pid → Disjoint extra (s.backends p).touched) :
    ∀ p q, p ≠ q → Disjoint ((s.setBackend pid b).backends p).touched
      ((s.setBackend pid b).backends q).touched := by
  have hone : ∀ q, q ≠ pid → Disjoint b.touched (s.backends q).touched := fun q hq =>
    Disjoint.mono_left hsub (disjoint_union_left.mpr ⟨hex q hq, h.apart _ _ hq.symm⟩)
  intro p q hpq
  by_cases hp : p = pid
  · subst hp
    rw [setBackend_self, setBackend_other s hpq.symm]
    exact hone q hpq.symm
  · by_cases hq : q = pid
    · subst hq
      rw [setBackend_self, setBackend_other s hp]
      exact (hone p hp).symm
    · rw [setBackend_other s hp, setBackend_other s hq]
      exact h.apart p q hpq

theorem wf_setBackend (h : Wf s) (extra : Finset Oid) (hok : b.Ok)
    (hsub : b.touched ⊆ extra ∪ (s.backends pid).touched)
    (hex : ∀ p, p ≠ pid → Disjoint extra (s.backends p).touched) (hc : Disjoint b.created s.catalog)
    (hd : b.dropped ⊆ s.catalog) : Wf (s.setBackend pid b) := by
  refine ⟨h.valid, ?_, apart_setBackend h extra hsub hex, ?_, ?_⟩
  · exact (forall_setBackend Ok s pid b).mpr ⟨hok, fun p _ => h.ok p⟩
  · exact (forall_setBackend (fun b => b.phase = .active → Disjoint b.created s.catalog) s pid b).mpr
      ⟨fun _ => hc, fun p _ => h.created p⟩
  · exact (forall_setBackend (fun b => b.phase = .active → b.dropped ⊆ s.catalog) s pid b).mpr
      ⟨fun _ => hd, fun p _ => h.dropped p⟩

variable {counted : Finset Oid}

theorem Tells.frame {s s' : State n} (h : Tells s counted) (hc : s'.catalog = s.catalog)
    (hs : ∀ p, (s.backends p).phase = .committed ∨ (s'.backends p).phase = .committed →
      s'.backends p = s.backends p) : Tells s' counted := by
  have hiff : ∀ p, (s'.backends p).phase = .committed ↔ (s.backends p).phase = .committed := by
    intro p
    constructor
    · intro hp
      rw [← hs p (.inr hp)]
      exact hp
    · intro hp
      rw [hs p (.inl hp)]
      exact hp
  refine ⟨h.valid, fun p hp => ?_, fun p hp => ?_, fun relid => ?_⟩
  · rw [hs p (.inr hp)]
    exact h.created p ((hiff p).mp hp)
  · rw [hs p (.inr hp)]
    exact h.dropped p ((hiff p).mp hp)
  · rw [hc, h.catalog relid]
    constructor
    · rintro (⟨hmem, hnot⟩ | ⟨p, hp, hmem⟩)
      · refine .inl ⟨hmem, fun p hp => ?_⟩
        rw [hs p (.inr hp)]
        exact hnot p ((hiff p).mp hp)
      · exact .inr ⟨p, (hiff p).mpr hp, by rw [hs p (.inl hp)]; exact hmem⟩
    · rintro (⟨hmem, hnot⟩ | ⟨p, hp, hmem⟩)
      · refine .inl ⟨hmem, fun p hp => ?_⟩
        rw [← hs p (.inl hp)]
        exact hnot p ((hiff p).mpr hp)
      · exact .inr ⟨p, (hiff p).mp hp, by rw [← hs p (.inr hp)]; exact hmem⟩

theorem Tells.of_same {s s' : State n} (h : Tells s counted) (hc : s'.catalog = s.catalog)
    (hba : s'.backends = s.backends) : Tells s' counted :=
  h.frame hc fun p _ => congrFun hba p

theorem Wf.of_same {s s' : State n} (h : Wf s) (hc : s'.catalog = s.catalog)
    (hba : s'.backends = s.backends) : Wf s' := by
  refine ⟨?_, ?_, ?_, ?_, ?_⟩
  · rw [hc]
    exact h.valid
  · rw [hba]
    exact h.ok
  · rw [hba]
    exact h.apart
  · rw [hba, hc]
    exact h.created
  · rw [hba, hc]
    exact h.dropped

theorem Tells.setBackend (h : Tells s counted) (hold : (s.backends pid).phase = .active)
    (hnew : b.phase = .active) : Tells (s.setBackend pid b) counted := by
  refine h.frame rfl fun p hp => ?_
  by_cases heq : p = pid
  · subst heq
    simp [hold, hnew] at hp
  · exact setBackend_other s heq b

theorem Tells.settled (h : Tells s counted) (hs : Settled s) : counted = s.catalog := by
  ext relid
  rw [h.catalog relid]
  constructor
  · exact fun hmem => .inl ⟨hmem, fun p hp => absurd hp (hs p)⟩
  · rintro (⟨hmem, -⟩ | ⟨p, hp, -⟩)
    · exact hmem
    · exact absurd hp (hs p)

theorem tells_catalog (h : Wf s) (hs : Settled s) : Tells s s.catalog :=
  ⟨h.valid, fun p hp => absurd hp (hs p), fun p hp => absurd hp (hs p), fun _ =>
    ⟨fun hmem => .inl ⟨hmem, fun p hp => absurd hp (hs p)⟩, fun hmem =>
      hmem.elim And.left fun ⟨p, hp, _⟩ => absurd hp (hs p)⟩⟩

theorem touched_apart (h : Wf s) {p q : Fin n} (hpq : p ≠ q)
    (hp : relid ∈ (s.backends p).touched) : relid ∉ (s.backends q).touched :=
  disjoint_left.mp (h.apart p q hpq) hp

theorem committed_other (s : State n) {pid p : Fin n} (hp : p ≠ pid) :
    (committed s pid).backends p = s.backends p := setBackend_other s hp _

theorem committed_self (s : State n) (pid : Fin n) :
    (committed s pid).backends pid = { s.backends pid with phase := .committed } :=
  setBackend_self s pid _

theorem wf_committed (h : Wf s) : Wf (committed s pid) := by
  have hok := h.ok pid
  refine ⟨?_, ?_, ?_, ?_, ?_⟩
  · simp [committed, State.setBackend, h.valid, hok.valid]
  · exact (forall_setBackend Ok s pid _).mpr ⟨⟨hok.valid, hok.disjoint, hok.net⟩, fun p _ => h.ok p⟩
  · refine apart_setBackend h ∅ ?_ fun p _ => disjoint_empty_left _
    rw [empty_union]
    exact Subset.refl _
  · intro p hp
    by_cases heq : p = pid
    · subst heq
      rw [committed_self] at hp
      cases hp
    · rw [committed_other s heq] at hp ⊢
      have hold := h.created p hp
      rw [disjoint_left] at hold ⊢
      intro relid hmem hnew
      have ha := touched_apart h heq (mem_union_left _ hmem)
      simp only [committed, State.setBackend, mem_sdiff, mem_union] at hnew
      obtain hcat | hc := hnew.1
      · exact hold hmem hcat
      · exact ha (mem_union_left _ hc)
  · intro p hp
    by_cases heq : p = pid
    · subst heq
      rw [committed_self] at hp
      cases hp
    · rw [committed_other s heq] at hp ⊢
      intro relid hmem
      have ha := touched_apart h heq (mem_union_right _ hmem)
      simp only [committed, State.setBackend, mem_sdiff, mem_union]
      exact ⟨.inl (h.dropped p hp hmem), fun hd => ha (mem_union_right _ hd)⟩

theorem mem_committed_catalog (s : State n) (pid : Fin n) (relid : Oid) :
    relid ∈ (committed s pid).catalog ↔
      (relid ∈ s.catalog ∨ relid ∈ (s.backends pid).created) ∧
        relid ∉ (s.backends pid).dropped := by
  simp [committed, State.setBackend]

theorem Tells.committed (h : Tells s counted) (hwf : Wf s)
    (ha : (s.backends pid).phase = .active) : Tells (committed s pid) counted := by
  have ho : ∀ p, (s.backends p).phase = .committed → p ≠ pid := by
    rintro p hp rfl
    rw [ha] at hp
    cases hp
  refine ⟨h.valid, fun p hp => ?_, fun p hp => ?_, fun relid => ?_⟩
  · by_cases heq : p = pid
    · subst heq
      rw [committed_self, disjoint_left]
      intro relid hmem hco
      -- an index that is counted and not in the catalog was dropped by another transaction
      have hnot := disjoint_left.mp (hwf.created p ha) hmem
      refine hnot ((h.catalog relid).mpr (.inl ⟨hco, fun q hq hd => ?_⟩))
      exact touched_apart hwf (ho q hq).symm (mem_union_left _ hmem) (mem_union_right _ hd)
    · rw [committed_other s heq] at hp ⊢
      exact h.created p hp
  · by_cases heq : p = pid
    · subst heq
      rw [committed_self]
      intro relid hmem
      obtain ⟨hco, -⟩ | ⟨q, hq, hc⟩ := (h.catalog relid).mp (hwf.dropped p ha hmem)
      · exact hco
      · exact absurd (mem_union_left _ hc)
          (touched_apart hwf (ho q hq).symm (mem_union_right _ hmem))
    · rw [committed_other s heq] at hp ⊢
      exact h.dropped p hp
  · have hcat := h.catalog relid
    have hn := forall_setBackend (fun b => b.phase = .committed → relid ∉ b.dropped) s pid
      { s.backends pid with phase := .committed }
    rw [mem_committed_catalog]
    constructor
    · rintro ⟨hmem | hmem, hd⟩
      · obtain ⟨hco, hnot⟩ | ⟨q, hq, hc⟩ := hcat.mp hmem
        · exact .inl ⟨hco, hn.mpr ⟨fun _ => hd, fun q _ => hnot q⟩⟩
        · refine .inr ⟨q, ?_⟩
          rw [committed_other s (ho q hq)]
          exact ⟨hq, hc⟩
      · refine .inr ⟨pid, ?_⟩
        rw [committed_self]
        exact ⟨rfl, hmem⟩
    · rintro (⟨hco, hnot⟩ | ⟨q, hq, hc⟩)
      · have hs := hn.mp hnot
        refine ⟨.inl (hcat.mpr (.inl ⟨hco, fun q hq => hs.2 q (ho q hq) hq⟩)), ?_⟩
        exact hs.1 rfl
      · by_cases heq : q = pid
        · subst heq
          rw [committed_self] at hc
          exact ⟨.inr hc, disjoint_left.mp (hwf.ok q).disjoint hc⟩
        · rw [committed_other s heq] at hq hc
          refine ⟨.inl (hcat.mpr (.inr ⟨q, hq, hc⟩)), fun hd => ?_⟩
          exact touched_apart hwf heq (mem_union_left _ hc) (mem_union_right _ hd)

/-- What is counted once a transaction is applied. -/
def counting (b : Backend) (counted : Finset Oid) : Finset Oid :=
  (counted ∪ b.created) \ b.dropped

theorem wf_finished (h : Wf s) (pid : Fin n) : Wf (s.setBackend pid {}) :=
  wf_setBackend h ∅ .empty (empty_subset _)
    (fun _ _ => disjoint_empty_left _) (disjoint_empty_left _)
    (empty_subset _)

theorem Tells.applied (h : Tells s counted) (hwf : Wf s)
    (hcom : (s.backends pid).phase = .committed) :
    Tells (s.setBackend pid {}) (counting (s.backends pid) counted) := by
  have hok := hwf.ok pid
  have ho : ∀ p, ((s.setBackend pid {}).backends p).phase = .committed →
      p ≠ pid ∧ (s.setBackend pid {}).backends p = s.backends p := by
    intro p hp
    have hne : p ≠ pid := by
      rintro rfl
      simp at hp
    exact ⟨hne, setBackend_other s hne _⟩
  refine ⟨?_, fun p hp => ?_, fun p hp => ?_, fun relid => ?_⟩
  · simp [counting, h.valid, hok.valid]
  · obtain ⟨hne, hs⟩ := ho p hp
    rw [hs] at hp ⊢
    rw [disjoint_left]
    intro relid hmem hcou
    simp only [counting, mem_sdiff, mem_union] at hcou
    obtain hco | hc := hcou.1
    · exact disjoint_left.mp (h.created p hp) hmem hco
    · exact touched_apart hwf hne (mem_union_left _ hmem) (mem_union_left _ hc)
  · obtain ⟨hne, hs⟩ := ho p hp
    rw [hs] at hp ⊢
    intro relid hmem
    simp only [counting, mem_sdiff, mem_union]
    exact ⟨.inl (h.dropped p hp hmem), fun hd =>
      touched_apart hwf hne (mem_union_right _ hmem) (mem_union_right _ hd)⟩
  · have hcat := h.catalog relid
    simp only [counting, mem_sdiff, mem_union]
    constructor
    · intro hmem
      obtain ⟨hco, hnot⟩ | ⟨q, hq, hc⟩ := hcat.mp hmem
      · refine .inl ⟨⟨.inl hco, hnot pid hcom⟩, fun p hp => ?_⟩
        obtain ⟨-, hs⟩ := ho p hp
        rw [hs] at hp ⊢
        exact hnot p hp
      · by_cases heq : q = pid
        · subst heq
          refine .inl ⟨⟨.inr hc, disjoint_left.mp hok.disjoint hc⟩, ?_⟩
          intro p hp hd
          obtain ⟨hne, hs⟩ := ho p hp
          rw [hs] at hd
          exact touched_apart hwf hne (mem_union_right _ hd) (mem_union_left _ hc)
        · refine .inr ⟨q, ?_⟩
          rw [setBackend_other s heq]
          exact ⟨hq, hc⟩
    · rintro (⟨⟨hco | hc, hd⟩, hnot⟩ | ⟨q, hq, hc⟩)
      · refine hcat.mpr (.inl ⟨hco, fun p hp => ?_⟩)
        by_cases heq : p = pid
        · rw [heq]
          exact hd
        · have hl := hnot p
          rw [setBackend_other s heq] at hl
          exact hl hp
      · exact hcat.mpr (.inr ⟨pid, hcom, hc⟩)
      · obtain ⟨-, hs⟩ := ho q hq
        rw [hs] at hq hc
        exact hcat.mpr (.inr ⟨q, hq, hc⟩)

/-! ## The counter -/

theorem card_counting (hc : Disjoint b.created counted) (hd : b.dropped ⊆ counted) :
    (counting b counted).card + b.dropped.card = counted.card + b.created.card := by
  have hsub : b.dropped ⊆ counted ∪ b.created := hd.trans subset_union_left
  rw [counting, card_sdiff_add_card_eq_card hsub, card_union_of_disjoint hc.symm]

theorem card_lt_of_valid (h : 0 ∉ counted) : counted.card < 4294967296 := by
  have hlt := card_lt_univ_of_notMem h
  rwa [Fintype.card_fin] at hlt

theorem applied_count (hok : b.Ok) (hv : 0 ∉ counted) (hc : Disjoint b.created counted)
    (hd : b.dropped ⊆ counted) {indexCount : UInt32} (hco : indexCount.toNat = counted.card) :
    (applyIndexCountDelta b.net indexCount).toNat = (counting b counted).card ∧
      wraps b.net indexCount = false := by
  have hca := card_counting hc hd
  have hle := card_le_card hd
  have hnet := hok.net
  have hnew : (counting b counted).card < 4294967296 :=
    card_lt_of_valid (by simp [counting, hv, hok.valid])
  have hold := card_lt_of_valid hv
  refine ⟨?_, by simp [wraps]; omega⟩
  unfold applyIndexCountDelta
  split
  · rw [UInt32.toNat_add, UInt32.toNat_ofNat']
    omega
  rw [UInt32.toNat_sub_of_le]
  · rw [UInt32.toNat_ofNat']
    omega
  · rw [UInt32.le_iff_toNat_le, UInt32.toNat_ofNat']
    omega

/-- A worker's count is right of what is counted, and so is the counter once it is seeded. -/
structure Inv (s : State n) : Prop where
  wf : Wf s
  counter : ∀ e, s.entry = some e → e.seeded = true →
    ∃ counted, Tells s counted ∧ e.indexCount.toNat = counted.card
  enumerated : ∀ count, s.enumerated = some count → ∃ counted, Tells s counted ∧ count = counted.card
  wrapped : s.wrapped = false

/-- The worker counts while no transaction is committed and not applied; deltas are applied only to
a seeded block, and not between a count and its store. -/
def Careful (s : State n) : Event n → Prop
  | .apply _ => s.enumerated = none ∧ ∀ e ∈ s.entry, e.seeded = true
  | .enumerate => Settled s
  | _ => True

instance Careful.decidable (s : State n) : (e : Event n) → Decidable (Careful s e) := by
  intro e
  cases e <;> unfold Careful <;> infer_instance

theorem Inv.of_tells {s s' : State n} (h : Inv s) (hwf : Wf s')
    (hte : ∀ counted, Tells s counted → Tells s' counted) (hent : s'.entry = s.entry)
    (hen : s'.enumerated = s.enumerated) (hw : s'.wrapped = s.wrapped) : Inv s' := by
  refine ⟨hwf, fun e he hs => ?_, fun count hco => ?_, hw.trans h.wrapped⟩
  · obtain ⟨counted, ht, hc⟩ := h.counter e (hent ▸ he) hs
    exact ⟨counted, hte counted ht, hc⟩
  · obtain ⟨counted, ht, hc⟩ := h.enumerated count (hen ▸ hco)
    exact ⟨counted, hte counted ht, hc⟩

theorem Inv.setBlock (h : Inv s) {entry : Option VamanaWorkerShmem} {enumerated : Option Nat}
    (hent : ∀ e, entry = some e → e.seeded = true →
      ∃ counted, Tells s counted ∧ e.indexCount.toNat = counted.card)
    (hen : ∀ count, enumerated = some count →
      ∃ counted, Tells s counted ∧ count = counted.card) : Inv { s with entry, enumerated } := by
  refine ⟨h.wf.of_same rfl rfl, fun e he hs => ?_, fun count hco => ?_, h.wrapped⟩
  · obtain ⟨counted, ht, hc⟩ := hent e he hs
    exact ⟨counted, ht.of_same rfl rfl, hc⟩
  · obtain ⟨counted, ht, hc⟩ := hen count hco
    exact ⟨counted, ht.of_same rfl rfl, hc⟩

theorem inv_setBackend (h : Inv s) (hold : (s.backends pid).phase = .active)
    (hnew : b.phase = .active) (hwf : Wf (s.setBackend pid b)) : Inv (s.setBackend pid b) :=
  h.of_tells hwf (fun _ ht => ht.setBackend hold hnew) rfl rfl rfl

theorem inv_create (h : Inv s) (hmay : MayCreate s pid relid) :
    Inv (s.setBackend pid ((s.backends pid).create relid)) := by
  obtain ⟨ha, hv, hc, hf⟩ := hmay
  refine inv_setBackend h ha ha (wf_setBackend h.wf {relid} ?_ ?_ ?_ ?_ ?_)
  · exact (h.wf.ok pid).create hv (hf pid)
  · rw [touched_create, insert_eq]
  · exact fun p _ => disjoint_singleton_left.mpr (hf p)
  · exact disjoint_insert_left.mpr ⟨hc, h.wf.created pid ha⟩
  · exact h.wf.dropped pid ha

theorem inv_drop (h : Inv s) (hmay : MayDrop s pid relid) :
    Inv (s.setBackend pid ((s.backends pid).drop relid)) := by
  obtain ⟨ha, hs, hf⟩ := hmay
  have hnot : relid ∉ (s.backends pid).dropped := by
    obtain hmem | ⟨-, hnot⟩ := hs
    · exact disjoint_left.mp (h.wf.ok pid).disjoint hmem
    · exact hnot
  have hph : ((s.backends pid).drop relid).phase = .active := by
    unfold drop
    split <;> exact ha
  refine inv_setBackend h ha hph (wf_setBackend h.wf {relid} ?_ ?_ ?_ ?_ ?_)
  · exact (h.wf.ok pid).drop hnot
  · rw [← insert_eq]
    exact touched_drop _ _
  · exact fun p hp => disjoint_singleton_left.mpr (hf p hp)
  · refine (h.wf.created pid ha).mono_left ?_
    unfold drop
    split
    · exact erase_subset _ _
    · exact Subset.refl _
  · unfold drop
    split
    · exact h.wf.dropped pid ha
    · rename_i hmem
      exact insert_subset (hs.resolve_left hmem).1 (h.wf.dropped pid ha)

theorem applyDeltas_eq (s : State n) (pid : Fin n) : ∃ entry wrapped,
    applyDeltas s pid = { s.setBackend pid {} with entry, wrapped } ∧
      (s.entry = none → entry = none ∧ wrapped = s.wrapped) ∧
      ∀ e, s.entry = some e →
        entry = some { e with indexCount := applyIndexCountDelta (s.backends pid).net e.indexCount } ∧
          wrapped = (s.wrapped || wraps (s.backends pid).net e.indexCount) := by
  unfold applyDeltas
  obtain ⟨catalog, backends, entry, enumerated, wrapped⟩ := s
  cases entry with
  | none => exact ⟨_, _, rfl, fun _ => ⟨rfl, rfl⟩, fun e he => absurd he (some_ne_none e).symm⟩
  | some e =>
    refine ⟨_, _, rfl, fun he => absurd he (some_ne_none e), fun e' he => ?_⟩
    cases he
    exact ⟨rfl, rfl⟩

theorem inv_applyDeltas (h : Inv s)
    (hc : (s.backends pid).phase = .committed) (hno : s.enumerated = none)
    (hs : ∀ e ∈ s.entry, e.seeded = true) : Inv (applyDeltas s pid) := by
  have hwf := wf_finished h.wf pid
  have hn : ∀ count, s.enumerated ≠ some count := by simp [hno]
  obtain ⟨entry, wrapped, heq, hf, hr⟩ := applyDeltas_eq s pid
  rw [heq]
  cases hen : s.entry with
  | none =>
    obtain ⟨rfl, rfl⟩ := hf hen
    refine ⟨hwf.of_same rfl rfl, ?_, ?_, h.wrapped⟩
    · exact fun e he => absurd he (some_ne_none e).symm
    · exact fun count hco => absurd hco (hn count)
  | some e =>
    obtain ⟨rfl, rfl⟩ := hr e hen
    obtain ⟨counted, ht, hco⟩ := h.counter e hen (hs e hen)
    obtain ⟨hnew, hw⟩ := applied_count (h.wf.ok pid) ht.valid (ht.created pid hc)
      (ht.dropped pid hc) hco
    have ht' := ht.applied h.wf hc
    refine ⟨hwf.of_same rfl rfl, ?_, ?_, ?_⟩
    · rintro e' he -
      cases he
      exact ⟨_, ht'.of_same rfl rfl, hnew⟩
    · exact fun count hco => absurd hco (hn count)
    · simp [h.wrapped, hw]

theorem inv_storeCount (h : Inv s) : Inv (storeCount s) := by
  unfold storeCount
  split
  · rename_i count hent hen
    obtain ⟨counted, ht, rfl⟩ := h.enumerated count hen
    refine h.setBlock ?_ (by simp)
    rintro e he -
    cases he
    refine ⟨counted, ht, ?_⟩
    exact Nat.mod_eq_of_lt (card_lt_of_valid ht.valid)
  · exact h

theorem inv_step (s : State n) (e : Event n) (h : Inv s) (hc : Careful s e) : Inv (step s e) := by
  cases e with
  | create pid relid =>
    unfold step
    dsimp only
    split
    · rename_i hmay
      exact inv_create h hmay
    · exact h
  | drop pid relid =>
    unfold step
    dsimp only
    split
    · rename_i hmay
      exact inv_drop h hmay
    · exact h
  | abort pid =>
    unfold step
    dsimp only
    split
    · rename_i ha
      exact inv_setBackend h ha rfl (wf_finished h.wf pid)
    · exact h
  | commit pid =>
    unfold step
    dsimp only
    split
    · rename_i ha
      exact h.of_tells (wf_committed h.wf) (fun _ ht => ht.committed h.wf ha) rfl rfl rfl
    · exact h
  | apply pid =>
    unfold step
    dsimp only
    split
    · rename_i hco
      exact inv_applyDeltas h hco hc.1 hc.2
    · exact h
  | enumerate =>
    unfold step
    dsimp only
    split
    · refine h.setBlock h.counter ?_
      intro count hcou
      cases hcou
      exact ⟨_, tells_catalog h.wf hc, rfl⟩
    · exact h
  | store => exact inv_storeCount h
  | workerStops => exact h.setBlock h.counter (by simp)
  | reserve =>
    unfold step
    dsimp only
    split
    · refine h.setBlock ?_ h.enumerated
      intro e he hs
      cases he
      cases hs
    · exact h
  | release => exact h.setBlock (by simp) (by simp)

/-! ## Every interleaving -/

/-- No decrement has wrapped; and once the counter is seeded and no committed transaction is left
to apply, it is the number of committed indexes. -/
def Right (s : State n) : Prop :=
  s.wrapped = false ∧
    (Settled s → ∀ e ∈ s.entry, e.seeded = true → e.indexCount.toNat = s.catalog.card)

deriving instance Decidable for Right

theorem Inv.right (h : Inv s) : Right s := by
  refine ⟨h.wrapped, fun hs e he hse => ?_⟩
  obtain ⟨counted, ht, hc⟩ := h.counter e he hse
  rw [hc, ht.settled hs]

theorem inv_start {catalog : Finset Oid} (hv : 0 ∉ catalog) : Inv { catalog : State n } := by
  refine ⟨⟨hv, fun p => .empty, fun p q _ => disjoint_empty_left _,
    fun p _ => disjoint_empty_left _, fun p _ => empty_subset _⟩, ?_, ?_, rfl⟩
  · exact fun e he => absurd he (some_ne_none e).symm
  · exact fun count hc => absurd hc (some_ne_none count).symm

def quietStart : List (Event 2) :=
  [.reserve, .enumerate, .create 0 7, .commit 0, .store, .apply 0, .drop 1 7, .commit 1, .apply 1]

end svs_vamana.index_counter
