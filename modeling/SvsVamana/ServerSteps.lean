-- What each step of the server can do, said once: the outcomes of a load, of a drain, of a write
-- slot and of a checkpoint.
import SvsVamana.Server

namespace svs_vamana.server

open index_cache saved_index replay delivery tid_fate database write_slot transition_runs
open IndexCache Option

variable {V : Type}

namespace Server

/-! ## A load -/

/-- A load without a copy leaves no directory, as long as one that is there is also on the
metapage. -/
theorem load_outcome (k : LoadCalls) (d : Disk V)
    (hs : d.dir.isSome → d.metap.hasSavedIndex = true) :
    (∃ g m, k.Pass d.metap ∧ diskCopy d = some (g, m) ∧
      loadIndexFromPages k d = (d, .loaded (entryOf d.metap g m))) ∨
    loadIndexFromPages k d = (d, .error) ∨
    ∃ d', d'.dir = none ∧ loadIndexFromPages k d = (d', .noCopy) := by
  rcases loadIndexFromPages_cases k d with hl | ⟨-, herr | ⟨d', ⟨-, hdir⟩, hlo⟩⟩
  · exact .inl hl
  · exact .inr (.inl herr)
  · refine .inr (.inr ⟨d', ?_, hlo⟩)
    rcases hdir with hn | ⟨rfl, hf⟩
    · exact hn
    · by_contra hd
      rw [hs (isSome_iff_ne_none.mpr hd)] at hf
      cases hf

theorem diskCopy_of_no_dir {d : Disk V} (h : d.dir = none) : diskCopy d = none := by
  unfold diskCopy
  rw [h]
  split <;> rfl

theorem rows_of_rebuild {rows : List (Tid × V)} (h : vamanaRebuildFromTable rows = none) :
    rows = [] := by
  unfold vamanaRebuildFromTable at h
  split at h
  · rename_i hlen
    exact List.length_eq_zero_iff.mp hlen
  · cases h

/-- What a load that finds nothing in the cache can leave, and its result. -/
inductive LoadOutcome (k retry : GetCalls) (s : Server V) : Server V → Option Bool → Prop
  | nothing {d : Disk V} {r : Option ReplicationSlot}
      (h : d = s.disk ∧ r = s.slot ∨ d.dir = none ∧ (r = s.slot ∨ r = none)) :
      LoadOutcome k retry s ⟨s.db, d, r, none⟩ none
  | copy {g : SvsIndex V} {m : List (Option Tid)} {b : Bool} {res : Option Bool}
      (hpass : k.load.Pass s.disk.metap) (h : diskCopy s.disk = some (g, m))
      (hres : res = some true ∨ k.lateError ≠ .none) :
      LoadOutcome k retry s
        ⟨s.db, s.disk, s.slot, some { entryOf s.disk.metap g m with replicationSlot := b }⟩ res
  | rebuilt {c c' : IndexCache V} {d : Disk V} {r : Option ReplicationSlot} {res : Option Bool}
      (h : vamanaRebuildFromTable (visibleRows s.db) = some c) (hc : Same c c')
      (hd : d.dir = none ∨ ∃ d₀, d = vamanaSaveIndexToDisk c d₀) (hr : r = s.slot ∨ r = none)
      (hres : res ≠ some true) : LoadOutcome k retry s ⟨s.db, d, r, some c'⟩ res
  | empty {c' : IndexCache V} {d : Disk V} {r : Option ReplicationSlot} {res : Option Bool}
      (hrows : k.heapLocked = true ∨ retry.heapLocked = true ∨ visibleRows s.db = [])
      (hc : Same emptyTableIndex c') (hd : d.dir = none) (hr : r = s.slot ∨ r = none)
      (hres : res ≠ some true) : LoadOutcome k retry s ⟨s.db, d, r, some c'⟩ res

variable {k : GetCalls} {s : Server V} {retry : GetCalls} {s' : Server V} {res : Option Bool}

theorem LoadOutcome.db_eq (h : LoadOutcome k retry s s' res) : s'.db = s.db := by
  cases h <;> rfl

theorem rebuildFromHeap_outcome (k retry : GetCalls) (hca : s.cache = none)
    (hdir : s.disk.dir = none) :
    LoadOutcome k retry s (rebuildFromHeap k s).1 (rebuildFromHeap k s).2 := by
  obtain ⟨db, disk, slot, cache⟩ := s
  obtain rfl : cache = none := hca
  have hn : LoadOutcome k retry ⟨db, disk, slot, none⟩ ⟨db, disk, slot, none⟩ none :=
    .nothing (.inl ⟨rfl, rfl⟩)
  unfold rebuildFromHeap
  split
  · exact hn
  split
  · rename_i hno
    split
    · exact hn
    refine .empty ?_ (.refl _) hdir (.inl rfl) (by simp)
    split at hno
    · rename_i hl
      exact .inl hl
    · exact .inr (.inr (rows_of_rebuild hno))
  · rename_i c hc
    have hr : vamanaRebuildFromTable (visibleRows db) = some c := by
      split at hc
      · cases hc
      · exact hc
    split
    · exact .rebuilt hr (.refl c) (.inl hdir) (.inl rfl) (by simp)
    dsimp only
    unfold trySaveAfterRebuild
    split
    · exact .rebuilt hr ⟨rfl, rfl, rfl, rfl⟩ (.inl rfl) (.inl rfl) (by simp)
    · exact .rebuilt hr (.refl c) (.inr ⟨disk, rfl⟩) (.inl rfl) (by simp)

theorem LoadOutcome.finalize {res' : Option Bool} (h : LoadOutcome k retry s s' res)
    (hs : s'.cache ≠ none) (hres : res' = res ∨ k.lateError ≠ .none ∧ res' = none) :
    LoadOutcome k retry s (finalizeIndexCacheEntry s') res' := by
  have ho : ∀ (c : IndexCache V) (b : Bool),
      Same c (if c.replicationSlot then c else { c with replicationSlot := b }) := by
    intro c b
    split
    · exact .refl c
    · exact ⟨rfl, rfl, rfl, rfl⟩
  have hre : res ≠ some true → res' ≠ some true := by
    rcases hres with rfl | ⟨-, rfl⟩
    · exact id
    · simp
  cases h with
  | nothing h => exact absurd rfl hs
  | copy hp h hla =>
    rename_i g m b
    have hb : ∀ b', (if ({ entryOf s.disk.metap g m with replicationSlot := b } :
          IndexCache V).replicationSlot then
        { entryOf s.disk.metap g m with replicationSlot := b }
        else { entryOf s.disk.metap g m with replicationSlot := b' }) =
        { entryOf s.disk.metap g m with replicationSlot := b || b' } := by
      intro b'
      cases b <;> rfl
    unfold finalizeIndexCacheEntry
    dsimp only [map_some]
    rw [hb]
    refine .copy hp h ?_
    rcases hres with rfl | ⟨hl, -⟩
    · exact hla
    · exact .inr hl
  | rebuilt h hc hd hr hne => exact .rebuilt h (hc.trans (ho _ _)) hd hr (hre hne)
  | empty hro hc hd hr hne => exact .empty hro (hc.trans (ho _ _)) hd hr (hre hne)

theorem LoadOutcome.of_no_dir {k₀ : GetCalls} {s₀ : Server V} (h : LoadOutcome k₀ retry s₀ s' res)
    (hdb : s₀.db = s.db) (hdir : s₀.disk.dir = none) (hs : s₀.slot = s.slot ∨ s₀.slot = none)
    (hl : k₀.heapLocked = true → k.heapLocked = true ∨ retry.heapLocked = true) :
    LoadOutcome k retry s s' res := by
  obtain ⟨db, disk, slot, cache⟩ := s₀
  obtain rfl : db = s.db := hdb
  have hr' : ∀ {r : Option ReplicationSlot}, r = slot ∨ r = none → r = s.slot ∨ r = none := by
    rintro r (rfl | rfl)
    · exact hs
    · exact .inr rfl
  cases h with
  | nothing h =>
    refine .nothing (.inr ?_)
    rcases h with ⟨rfl, rfl⟩ | ⟨hd, hr⟩
    · exact ⟨hdir, hr' (.inl rfl)⟩
    · exact ⟨hd, hr' hr⟩
  | copy _ hco =>
    rw [diskCopy_of_no_dir hdir] at hco
    cases hco
  | rebuilt h hc hd hr hres => exact .rebuilt h hc hd (hr' hr) hres
  | empty hro hc hd hr hres =>
    refine .empty ?_ hc hd (hr' hr) hres
    rcases hro with h | h | h
    · exact (hl h).elim .inl fun h => .inr (.inl h)
    · exact .inr (.inl h)
    · exact .inr (.inr h)

theorem loadIndexFromDiskOrRebuild_outcome (k retry : GetCalls) (hc : s.cache = none)
    (hs : s.disk.dir.isSome → s.disk.metap.hasSavedIndex = true) :
    LoadOutcome k retry s (loadIndexFromDiskOrRebuild k s).1
      (loadIndexFromDiskOrRebuild k s).2 := by
  obtain ⟨db, disk, slot, cache⟩ := s
  obtain rfl : cache = none := hc
  unfold loadIndexFromDiskOrRebuild
  rcases load_outcome k.load disk hs with
    ⟨g, m, hp, hco, heq⟩ | heq | ⟨d', hd', heq⟩
  · simp only [heq]
    refine .copy hp hco ?_
    split
    · rename_i hl
      exact .inr (by simp [hl])
    · exact .inl rfl
  · simp only [heq]
    exact .nothing (.inl ⟨rfl, rfl⟩)
  · simp only [heq]
    have h := rebuildFromHeap_outcome k retry (s := ⟨db, d', slot, none⟩) rfl hd'
    exact h.of_no_dir rfl hd' (.inl rfl) .inl

theorem getOrLoadIndexBody_outcome (k retry : GetCalls) (hca : s.cache = none)
    (hsa : s.disk.dir.isSome → s.disk.metap.hasSavedIndex = true) :
    LoadOutcome k retry s (getOrLoadIndexBody k s).1 (getOrLoadIndexBody k s).2 := by
  have h := loadIndexFromDiskOrRebuild_outcome k retry hca hsa
  unfold getOrLoadIndexBody
  generalize loadIndexFromDiskOrRebuild k s = r at h ⊢
  obtain ⟨s', _ | fromDisk⟩ := r
  · exact h
  dsimp only at h ⊢
  have hs : s'.cache ≠ none := by cases h <;> simp
  split
  · rename_i hl
    have hne : k.lateError ≠ .none := by simp [hl]
    cases h with
    | copy hp h _ => exact .copy hp h (.inr hne)
    | rebuilt h hc hd hr _ => exact .rebuilt h hc hd hr (by simp)
    | empty hro hc hd hr _ => exact .empty hro hc hd hr (by simp)
  · split
    · rename_i hl
      exact h.finalize hs (.inr ⟨by simp [hl], rfl⟩)
    · exact h.finalize hs (.inl rfl)

theorem getOrLoadIndex_outcome (k retry : GetCalls) (hc : s.cache = none)
    (hsa : s.disk.dir.isSome → s.disk.metap.hasSavedIndex = true) :
    LoadOutcome k retry s (vamanaWorkerGetOrLoadIndex k retry s).1
      (vamanaWorkerGetOrLoadIndex k retry s).2 := by
  have h := getOrLoadIndexBody_outcome k retry hc hsa
  unfold vamanaWorkerGetOrLoadIndex
  simp only [hc]
  split
  · obtain ⟨db, disk, slot, cache⟩ := s
    obtain rfl : cache = none := hc
    exact .nothing (.inl ⟨rfl, rfl⟩)
  · generalize getOrLoadIndexBody k s = r at h ⊢
    obtain ⟨s', _ | fromDisk⟩ := r
    · exact h
    dsimp only at h ⊢
    split
    · -- the slot is not consistent: everything goes, and the rebuild takes over
      have hdb := h.db_eq
      have hs : (vamanaForceHeapRebuild k.slotHeld s').slot = s.slot ∨
          (vamanaForceHeapRebuild k.slotHeld s').slot = none := by
        unfold vamanaForceHeapRebuild
        dsimp only
        split
        · cases h with
          | copy _ _ _ => exact .inl rfl
          | rebuilt _ _ _ hr _ => exact hr
          | empty _ _ _ hr _ => exact hr
        · exact .inr rfl
      split
      · have hre : LoadOutcome retry retry (vamanaForceHeapRebuild k.slotHeld s')
            (vamanaForceHeapRebuild k.slotHeld s') none := .nothing (.inl ⟨rfl, rfl⟩)
        exact hre.of_no_dir hdb rfl hs .inr
      · have hre := getOrLoadIndexBody_outcome retry retry
          (s := vamanaForceHeapRebuild k.slotHeld s') rfl (fun h => by cases h)
        exact hre.of_no_dir hdb rfl hs .inr
    · exact h

/-- A load takes the copy on disk: its checks pass, and the slot can be replayed from. -/
def TakesCopy (k : GetCalls) (s : Server V) : Prop :=
  k.load.Pass s.disk.metap ∧ (diskCopy s.disk).isSome ∧ s.vamanaReplicationSlotIsConsistent = true

theorem getOrLoadIndex_takesCopy (retry : GetCalls) (hca : s.cache = none)
    (ho : k.indexLocked = false) (hp : k.load.Pass s.disk.metap) (hc : (diskCopy s.disk).isSome)
    (hco : s.vamanaReplicationSlotIsConsistent = true ∨ k.lateError ≠ .none) :
    ∃ g m b, diskCopy s.disk = some (g, m) ∧ vamanaWorkerGetOrLoadIndex k retry s =
      (⟨s.db, s.disk, s.slot, some { entryOf s.disk.metap g m with replicationSlot := b }⟩,
        if k.lateError = .none then some true else none) := by
  obtain ⟨⟨g, m⟩, hc⟩ := isSome_iff_exists.mp hc
  have hloa : loadIndexFromPages k.load s.disk =
      (s.disk, .loaded (entryOf s.disk.metap g m)) := by
    have hlo := (load_eq_loaded_iff k.load s.disk _).mpr ⟨hp, g, m, hc, rfl⟩
    have hf : s.disk.metap.hasSavedIndex = true := by
      unfold diskCopy at hc
      by_contra hs
      rw [if_neg hs] at hc
      cases hc
    refine Prod.ext ?_ hlo
    rcases load_outcome k.load s.disk (fun _ => hf) with ⟨_, _, -, -, heq⟩ | heq |
      ⟨d', hd', heq⟩
    · rw [heq]
    · rw [heq]
    · rw [heq] at hlo
      cases hlo
  have hbo : ∃ b, getOrLoadIndexBody k s =
      (⟨s.db, s.disk, s.slot, some { entryOf s.disk.metap g m with replicationSlot := b }⟩,
        if k.lateError = .none then some true else none) := by
    unfold getOrLoadIndexBody loadIndexFromDiskOrRebuild
    rw [hloa]
    dsimp only
    rcases hl : k.lateError with _ | _ | _ | _
    · exact ⟨s.slot.isSome, rfl⟩
    · exact ⟨false, rfl⟩
    · exact ⟨false, rfl⟩
    · exact ⟨s.slot.isSome, rfl⟩
  obtain ⟨b, hbo⟩ := hbo
  refine ⟨g, m, b, hc, ?_⟩
  unfold vamanaWorkerGetOrLoadIndex
  simp only [hca, ho, Bool.false_eq_true, if_false, hbo]
  by_cases hl : k.lateError = .none
  · have hco' : Server.vamanaReplicationSlotIsConsistent (⟨s.db, s.disk, s.slot,
        some { entryOf s.disk.metap g m with replicationSlot := b }⟩ : Server V) = true :=
      hco.resolve_right fun hne => hne hl
    rw [if_pos hl]
    dsimp only
    rw [hco', Bool.not_true, Bool.and_false]
    rfl
  · rw [if_neg hl]

/-- The server with the copy on disk in its cache, as a load leaves it that takes the copy. -/
def withCopy (s : Server V) : Server V :=
  { s with
    cache := (diskCopy s.disk).map fun p =>
      { entryOf s.disk.metap p.1 p.2 with replicationSlot := s.slot.isSome } }

theorem rebuildFromHeap_ne_fromDisk (k : GetCalls) (s : Server V) :
    (rebuildFromHeap k s).2 ≠ some true := by
  unfold rebuildFromHeap
  split
  · simp
  · split
    · split <;> simp
    · split <;> simp

theorem getOrLoadIndexBody_fromDisk (hca : s.cache = none)
    (hs : s.disk.dir.isSome → s.disk.metap.hasSavedIndex = true)
    (h : (getOrLoadIndexBody k s).2 = some true) :
    k.lateError = .none ∧ k.load.Pass s.disk.metap ∧ (diskCopy s.disk).isSome ∧
      (getOrLoadIndexBody k s).1 = withCopy s := by
  obtain ⟨db, disk, slot, cache⟩ := s
  obtain rfl : cache = none := hca
  unfold getOrLoadIndexBody loadIndexFromDiskOrRebuild at h ⊢
  rcases load_outcome k.load disk hs with
    ⟨g, m, hp, hc, heq⟩ | heq | ⟨d', hd', heq⟩
  · simp only [heq] at h ⊢
    rcases hl : k.lateError with _ | _ | _ | _
    · refine ⟨rfl, hp, by rw [hc]; rfl, ?_⟩
      unfold withCopy
      simp only [hc]
      rfl
    · simp [hl] at h
    · simp [hl] at h
    · simp [hl] at h
  · simp [heq] at h
  · simp only [heq] at h
    have hne := rebuildFromHeap_ne_fromDisk k (⟨db, d', slot, none⟩ : Server V)
    generalize rebuildFromHeap k (⟨db, d', slot, none⟩ : Server V) = r at h hne
    obtain ⟨s', _ | fromDisk⟩ := r
    · cases h
    dsimp only at h hne
    split at h
    · cases h
    · split at h
      · cases h
      · exact absurd h hne

/-- A load says that it used the copy on disk only when it leaves it in the cache, and when
the slot can be replayed from. -/
theorem getOrLoadIndex_fromDisk (k retry : GetCalls) (hca : s.cache = none)
    (hs : s.disk.dir.isSome → s.disk.metap.hasSavedIndex = true)
    (h : (vamanaWorkerGetOrLoadIndex k retry s).2 = some true) :
    k.lateError = .none ∧ TakesCopy k s ∧
      (vamanaWorkerGetOrLoadIndex k retry s).1 = withCopy s := by
  unfold vamanaWorkerGetOrLoadIndex at h ⊢
  simp only [hca] at h ⊢
  rcases hl : k.indexLocked with _ | _
  · simp only [hl, Bool.false_eq_true, if_false] at h ⊢
    have hbo := getOrLoadIndexBody_fromDisk (k := k) hca hs
    generalize getOrLoadIndexBody k s = r at h hbo ⊢
    obtain ⟨s', _ | fromDisk⟩ := r
    · cases h
    dsimp only at h hbo ⊢
    split at h
    · split at h
      · cases h
      · obtain ⟨-, -, hc, -⟩ := getOrLoadIndexBody_fromDisk rfl (fun h => by cases h) h
        rw [diskCopy_of_no_dir rfl] at hc
        cases hc
    · rename_i hco
      rw [if_neg hco]
      obtain ⟨hla, hp, hc, rfl⟩ := hbo h
      obtain rfl := some.inj h
      refine ⟨hla, ⟨hp, hc, ?_⟩, rfl⟩
      rw [Bool.true_and, Bool.not_eq_true', Bool.not_eq_false] at hco
      exact hco
  · simp [hl] at h

theorem getOrLoadIndex_cached (k retry : GetCalls) (h : s.cache.isSome) :
    vamanaWorkerGetOrLoadIndex k retry s = (s, some false) := by
  obtain ⟨c, hc⟩ := isSome_iff_exists.mp h
  unfold vamanaWorkerGetOrLoadIndex
  rw [hc]

/-! ## A drain -/

theorem slot_of_confirmedFlush {X : Nat} (h : s.confirmedFlush = some X) :
    s.slot = some ⟨some X⟩ := by
  unfold confirmedFlush at h
  rcases hs : s.slot with _ | ⟨⟨confirmed⟩⟩
  · simp [hs] at h
  · rw [hs] at h
    obtain rfl : confirmed = some X := h
    rfl

/-- What a drain can leave. -/
inductive DrainOutcome (k : DrainFaults) (s : Server V) : Server V → Prop
  | idle : DrainOutcome k s s
  | finished {c : IndexCache V} {X : Nat} (hc : s.cache = some c) (hX : s.confirmedFlush = some X)
      (hopen : c.replicationSlot = true) (hruns : Runs (k.calls s.db) s.db.wal c)
      (hraise : k.raiseAt = none) :
      DrainOutcome k s
        { s with
          cache := some { (replayed (k.calls s.db).apply s.db.rel s.db.wal X c).1 with
            lastReplayWalEnd := some s.db.wal.length }
          slot := some ⟨some (if (replayed (k.calls s.db).apply s.db.rel s.db.wal X c).2 > 0
            then s.db.wal.length else X)⟩ }
  | cut {c : IndexCache V} {X n : Nat} (hc : s.cache = some c) (hX : s.confirmedFlush = some X)
      (hruns : Runs (k.calls s.db) s.db.wal c) :
      DrainOutcome k s
        { s with
          cache := some (replayed (k.calls s.db).apply s.db.rel (s.db.wal.take n) X c).1 }
  | dropped : DrainOutcome k s (vamanaForceHeapRebuild k.slotHeld s)

theorem drainSlot_outcome (k : DrainFaults) (s : Server V) :
    DrainOutcome k s (vamanaReplicationDrainSlot k s).1 := by
  unfold vamanaReplicationDrainSlot
  rcases hc : s.cache with _ | c
  · exact .idle
  rcases hX : s.confirmedFlush with _ | X
  · exact .idle
  dsimp only
  split
  · exact .idle
  rename_i ho
  by_cases hr : Runs (k.calls s.db) s.db.wal c
  · rcases replay_of_runs s.db.rel X hr with ⟨hra, heq⟩ | ⟨n, heq⟩
    · rw [heq]
      exact .finished hc hX (by simpa using ho) hr hra
    · rw [heq]
      dsimp only
      split
      · exact .cut hc hX hr
      · exact .dropped
  · rw [replay_of_not_runs s.db.rel X hr]
    have hs : { s with cache := some c, slot := some ⟨some X⟩ } = s := by
      obtain ⟨db, disk, slot, cache⟩ := s
      simp only [Server.mk.injEq, true_and]
      exact ⟨(slot_of_confirmedFlush hX).symm, hc.symm⟩
    dsimp only
    rw [hs]
    exact .idle

/-! ## The write slots on a resident entry -/

variable {c : IndexCache V} (k : WriteCalls)

theorem resolveForWrite_cached (hc : s.cache = some c) :
    resolveForWrite k s = (s, .handle c.svsIndex) := by
  unfold resolveForWrite
  rw [hc]
  dsimp only
  rcases hg : c.svsIndex with _ | g
  · dsimp only
    unfold vamanaWorkerEnsureIndexCurrent
    rw [getOrLoadIndex_cached _ _ (by rw [hc]; rfl)]
    simp [hc, hg]
  · rfl

/-- What an INSERT slot makes of a resident entry. -/
inductive InsertOutcome (t : Tid) (v : V) (c : IndexCache V) : IndexCache V → SlotEnd → Prop
  | refused : InsertOutcome t v c c .error
  | stray {g : SvsIndex V} (hg : c.svsIndex = some g) :
      InsertOutcome t v c
        { c with svsIndex := some ⟨Function.update g.point c.nextExternalId (some v)⟩ } .error
  | mapped {g : SvsIndex V} {c' : IndexCache V} {slotEnd : SlotEnd} (hg : c.svsIndex = some g)
      (hc' : Same (mapNewPoint c
        ⟨Function.update g.point c.nextExternalId (some v)⟩ t c.nextExternalId) c')
      (hend : slotEnd = .error ∨ slotEnd = .done c.nextExternalId) :
      InsertOutcome t v c c' slotEnd
  | first {c' : IndexCache V} {slotEnd : SlotEnd} (hg : c.svsIndex = none)
      (hc' : Same (buildFirstInsert t v c) c')
      (hend : slotEnd = .error ∨ slotEnd = .done 0) : InsertOutcome t v c c' slotEnd

/-- After an INSERT slot the save directory stays, the metapage has the counters of the entry or
stays, and a slot is only replaced by a new one. -/
theorem executeInsert_outcome (t : Tid) (v : V) (hc : s.cache = some c) :
    ∃ c' m r, (vamanaWorkerExecuteInsert k t v s).1 = ⟨s.db, ⟨s.disk.dir, m⟩, r, some c'⟩ ∧
      InsertOutcome t v c c' (vamanaWorkerExecuteInsert k t v s).2 ∧
      (m = s.disk.metap ∨ c'.svsIndex.isSome ∧ m = writeMetaPageDynamic c' s.disk.metap) ∧
      (r = s.slot ∨ r = none ∨ r = some ⟨none⟩) := by
  obtain ⟨db, ⟨dir, metap⟩, slot, cache⟩ := s
  obtain rfl : cache = some c := hc
  unfold vamanaWorkerExecuteInsert
  rw [resolveForWrite_cached k rfl]
  rcases hg : c.svsIndex with _ | g
  · dsimp only
    unfold vamanaWorkerBuildEmptyTableIndex
    dsimp only
    split
    · exact ⟨c, metap, slot, rfl, .refused, .inl rfl, .inl rfl⟩
    generalize hs : (if c.replicationSlot then (slot, true)
      else vamanaReplicationCreate k.slotHeld k.createFails slot) = made
    obtain ⟨r, ok⟩ := made
    have hr : r = slot ∨ r = none ∨ r = some ⟨none⟩ := by
      unfold vamanaReplicationCreate at hs
      split at hs
      · exact .inl (Prod.ext_iff.mp hs).1.symm
      split at hs
      · exact .inl (Prod.ext_iff.mp hs).1.symm
      · split at hs
        · exact .inr (.inl (Prod.ext_iff.mp hs).1.symm)
        · exact .inr (.inr (Prod.ext_iff.mp hs).1.symm)
    dsimp only
    split
    · exact ⟨_, metap, r, rfl, .first hg (.refl _) (.inl rfl), .inl rfl, hr⟩
    split
    · exact ⟨_, metap, r, rfl, .first hg ⟨rfl, rfl, rfl, rfl⟩ (.inl rfl), .inl rfl, hr⟩
    refine ⟨_, _, r, rfl, .first hg ⟨rfl, rfl, rfl, rfl⟩ (.inr rfl), ?_, hr⟩
    unfold persistMetaCounters
    split
    · exact .inr ⟨rfl, rfl⟩
    · exact .inl rfl
    · exact .inl rfl
  · rcases hadd : k.insert.added with _ | _
    · simp only [executeInsertSlot, svsAddPoints, hadd, Bool.false_eq_true, if_false]
      exact ⟨c, metap, slot, rfl, .refused, .inl rfl, .inl rfl⟩
    · simp only [executeInsertSlot, svsAddPoints, hadd, if_true]
      split
      · exact ⟨_, metap, slot, rfl, .stray hg, .inl rfl, .inl rfl⟩
      split
      · exact ⟨_, metap, slot, rfl, .mapped hg (.refl _) (.inl rfl), .inl rfl, .inl rfl⟩
      refine ⟨_, _, slot, rfl, .mapped hg ⟨rfl, rfl, rfl, rfl⟩ (.inr rfl), ?_, .inl rfl⟩
      unfold persistMetaCounters
      split
      · exact .inr ⟨rfl, rfl⟩
      · exact .inl rfl
      · exact .inl rfl

/-- The server after a DELETE slot on a resident entry: the ids are gone, or one of them was
not valid and nothing happened. -/
theorem executeDelete_outcome (ids : List Nat) (hc : s.cache = some c) :
    (vamanaWorkerExecuteDelete k ids s = (s, false) ∧
      (c.svsIndex = none ∨ ¬ ∀ e ∈ ids, (c.point e).isSome)) ∨
    ∃ c' m, vamanaWorkerExecuteDelete k ids s =
        (⟨s.db, ⟨s.disk.dir, m⟩, s.slot, some c'⟩, !decide (k.insert.persist = .failed)) ∧
      (∀ e ∈ ids, (c.point e).isSome) ∧ Deleted ids c c' ∧
      (m = s.disk.metap ∨ m = writeMetaPageDynamic c' s.disk.metap) := by
  obtain ⟨db, ⟨dir, metap⟩, slot, cache⟩ := s
  obtain rfl : cache = some c := hc
  unfold vamanaWorkerExecuteDelete
  rw [resolveForWrite_cached k rfl]
  rcases hg : c.svsIndex with _ | g
  · exact .inl ⟨rfl, .inl rfl⟩
  · by_cases hall : ∀ e ∈ ids, (c.point e).isSome
    · have hdel := deleted_executeDeleteSlot k.insert.persist metap hg hall
      obtain ⟨g', hg'⟩ : ∃ g', svsDeletePoints g ids = some g' := by
        refine ⟨_, if_pos ?_⟩
        rw [List.all_eq_true]
        intro e he
        simpa [point, hg] using hall e he
      refine .inr ⟨(executeDeleteSlot k.insert.persist ids g c metap).1,
        (executeDeleteSlot k.insert.persist ids g c metap).2.1, ?_, hall, hdel, ?_⟩
      · dsimp only
        unfold executeDeleteSlot
        rw [hg']
        dsimp only
        split
        · rename_i hp
          simp [hp]
        · rename_i hp
          simp [hp]
      · unfold executeDeleteSlot persistMetaCounters
        rw [hg']
        dsimp only
        split
        · exact .inl rfl
        dsimp only
        split
        · exact .inr rfl
        · exact .inl rfl
        · exact .inl rfl
    · dsimp only
      rw [executeDeleteSlot_refused k.insert.persist metap hg hall]
      exact .inl ⟨rfl, .inr hall⟩

/-! ## A checkpoint -/

/-- Nothing new without a graph, no directory when the save fails, and else the save of the entry,
with the slot at the end of the WAL if it was free. -/
inductive CheckpointOutcome (saveFails slotBusy : Bool) (s : Server V) : Server V → Prop
  | idle (h : ∀ c, s.cache = some c → c.svsIndex = none) :
      CheckpointOutcome saveFails slotBusy s s
  | failed (hfails : saveFails = true) :
      CheckpointOutcome saveFails slotBusy s { s with disk := vamanaDeleteSaveDir s.disk }
  | saved {c c' : IndexCache V} (hc : s.cache = some c) (hg : c.svsIndex.isSome)
      (hsaves : saveFails = false) (hc' : Same c c') :
      CheckpointOutcome saveFails slotBusy s
        ⟨s.db, vamanaSaveIndexToDisk { c with numDeleted := 0 } s.disk,
          if c.replicationSlot && !slotBusy && s.slot.isSome then some ⟨some s.db.wal.length⟩
          else s.slot, some c'⟩

theorem checkpoint_outcome (saveFails slotBusy : Bool) (s : Server V) :
    CheckpointOutcome saveFails slotBusy s (performCheckpoint saveFails slotBusy s) := by
  obtain ⟨db, disk, slot, _ | c⟩ := s
  · exact .idle (by simp)
  unfold performCheckpoint
  dsimp only
  split
  · rename_i hn
    refine .idle fun c' hc' => ?_
    obtain rfl := some.inj hc'
    exact isNone_iff_eq_none.mp hn
  · rename_i hso
    have hg : c.svsIndex.isSome := by simpa [isSome_iff_ne_none] using hso
    split
    · rename_i hf
      exact .failed hf
    rename_i hsa
    have hs : ∀ {r : Option ReplicationSlot} {c' : IndexCache V},
        r = (if c.replicationSlot && !slotBusy && slot.isSome then some ⟨some db.wal.length⟩
          else slot) → Same c c' →
        CheckpointOutcome saveFails slotBusy ⟨db, disk, slot, some c⟩
          ⟨db, vamanaSaveIndexToDisk { c with numDeleted := 0 } disk, r, some c'⟩ := by
      rintro r c' rfl hc'
      exact .saved rfl hg (by simpa using hsa) hc'
    split
    · rename_i hc
      exact hs (by simp_all) ⟨rfl, rfl, rfl, rfl⟩
    split
    · rename_i ho hbu
      refine hs ?_ ⟨rfl, rfl, rfl, rfl⟩
      rcases slotBusy with _ | _
      · simp_all
      · simp
    · rename_i ho hfr
      refine hs ?_ ⟨rfl, rfl, rfl, rfl⟩
      rcases slotBusy with _ | _
      · simp_all [isSome_iff_ne_none]
      · simp at hfr

theorem checkpoint_cache (saveFails slotBusy : Bool) {c' : IndexCache V}
    (h : (performCheckpoint saveFails slotBusy s).cache = some c') :
    ∃ c, s.cache = some c ∧ Same c c' := by
  have hout := checkpoint_outcome saveFails slotBusy s
  generalize performCheckpoint saveFails slotBusy s = s' at hout h
  cases hout with
  | idle _ => exact ⟨c', h, .refl c'⟩
  | failed _ => exact ⟨c', h, .refl c'⟩
  | saved hc _ _ hc' =>
    obtain rfl := some.inj h
    exact ⟨_, hc, hc'⟩

end Server

end svs_vamana.server
