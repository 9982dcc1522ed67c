-- The law of an entry without a graph: the worker caches an empty index for a table with no vectors
-- and also for a heap that DDL has locked.
import SvsVamana.CaughtUp

namespace svs_vamana.empty_index

open index_cache saved_index replay delivery tid_fate database write_slot server transition_runs
open replay_position List Server
open caught_up (db_step answer_is_cached)
open Database hiding step

variable {V : Type}

/-! ## The pure model -/

def CachedAsEmpty (s : Server V) : Prop := ∃ c, s.cache = some c ∧ c.svsIndex = none

/-- The rows of the scan of `VamanaRebuildFromTable`, if it comes to one and completes it. -/
def heapScan (k : GetCalls) (db : Database V) : Option (List (Tid × V)) :=
  if k.heapLocked then none else some (visibleRows db)

/-- The heap scan of one try to load: there is none with a copy on disk. -/
def scanOfBody (k : GetCalls) (s : Server V) : Option (List (Tid × V)) :=
  match (loadIndexFromPages k.load s.disk).2 with
  | .noCopy => heapScan k s.db
  | _ => none

/-- The heap scan that `VamanaWorkerGetOrLoadIndex` completes when nothing is cached. -/
def scanOfLoad (k retry : GetCalls) (s : Server V) : Option (List (Tid × V)) :=
  if k.indexLocked then none
  else
    match getOrLoadIndexBody k s with
    | (s', some true) =>
      if s'.vamanaReplicationSlotIsConsistent || retry.indexLocked then none
      else scanOfBody retry (vamanaForceHeapRebuild k.slotHeld s')
    | _ => scanOfBody k s

/-- The metapage is valid and there is no copy on disk to take. -/
def NoCopy (k : LoadCalls) (d : Disk V) : Prop :=
  vamanaValidateMetaCounts d.metap (some k.residencyBudget) = true ∧
    ¬ (k.svsLoads = true ∧ (diskCopy d).isSome)

/-- A try to load comes to the heap when DDL has it locked, and no interrupt stops it. -/
def MeetsLock (k : GetCalls) (d : Disk V) : Prop :=
  NoCopy k.load d ∧ k.heapLocked = true ∧ k.lateError ≠ .beforeSave

/-- A copy is taken and dropped again, because its slot cannot be replayed from. -/
def DropsCopy (k : GetCalls) (s : Server V) : Prop :=
  k.load.Pass s.disk.metap ∧ (diskCopy s.disk).isSome ∧ k.lateError = .none ∧
    s.vamanaReplicationSlotIsConsistent = false

/-- DDL has the heap locked when a load comes to scan it, in its first try or in its second. -/
def LockedAtScan (k retry : GetCalls) (s : Server V) : Prop :=
  k.indexLocked = false ∧
    (MeetsLock k s.disk ∨
      DropsCopy k s ∧ retry.indexLocked = false ∧ MeetsLock retry (vamanaDeleteSaveDir s.disk))

/-- A search batch is answered with no rows from an entry without a graph. -/
def AnswersZeroRows (k : EnsureCalls) (s : Server V) : Prop :=
  ∃ c, (vamanaWorkerProcessSearchBatch k s).2 = some c ∧ c.svsIndex = none

def FirstInsertStarts (k : WriteCalls) (s : Server V) : Prop :=
  ∃ s', resolveForWrite k s = (s', .handle none) ∧ s'.cache.isSome

/-- No transaction in progress has stored a row. -/
def NothingInFlight (db : Database V) : Prop := ∀ x ∈ db.heap, x.xmin ∉ db.active

/-- The step does not cache an empty index over rows: a load does not meet a locked heap, and
when it finds no row there is none in flight. -/
def KeepsEmpty (s : Server V) : Event V → Prop
  | .load k retry => s.cache = none →
      ¬ LockedAtScan k retry s ∧ (visibleRows s.db = [] → NothingInFlight s.db)
  | _ => True

/-- A load for a search does not meet a locked heap. -/
def SearchUndisturbed (k : EnsureCalls) (s : Server V) : Prop :=
  s.cache = none → ¬ LockedAtScan k.get k.retry s

/-- The loads for an INSERT do not meet a locked heap, and the second one does not fail once
its entry is in the cache. -/
def InsertUndisturbed (k : WriteCalls) (s : Server V) : Prop :=
  SearchUndisturbed k.first s ∧
    SearchUndisturbed k.second (vamanaWorkerEnsureIndexCurrent k.first s).1 ∧
    k.second.get.lateError = .none ∧ k.second.retry.lateError = .none

/-! ## One load -/

/-- The three ends of `LoadIndexFromPages`, each with what decides for it. -/
theorem load_ends (k : LoadCalls) (d : Disk V) :
    (∃ g m, k.Pass d.metap ∧ diskCopy d = some (g, m) ∧
      loadIndexFromPages k d = (d, .loaded (entryOf d.metap g m))) ∨
    (¬ NoCopy k d ∧ ¬ (k.Pass d.metap ∧ (diskCopy d).isSome) ∧
      loadIndexFromPages k d = (d, .error)) ∨
    NoCopy k d ∧ ∃ d', loadIndexFromPages k d = (d', .noCopy) := by
  unfold loadIndexFromPages NoCopy LoadCalls.Pass diskCopy entryOf
  rcases hv : vamanaValidateMetaCounts d.metap (some k.residencyBudget) with _ | _
  · simp
  rcases hs : d.metap.hasSavedIndex with _ | _
  · simp
  rcases hd : d.dir with _ | dir
  · simp
  rcases hk : k.svsLoads with _ | _
  · simp
  rcases hg : dir.graph with _ | g
  · simp [hg]
  by_cases hc : d.metap.tidMappingCapacity > 0
  · rcases vamanaLoadTidMap (some dir) d.metap.tidMappingCapacity with _ | m
    · simp [hg, hc]
    · rcases k.refused with _ | _ <;> simp [hg, hc]
  · rcases k.refused with _ | _ <;> simp [hg, hc]

theorem rebuild_eq_none_iff (rows : List (Tid × V)) :
    vamanaRebuildFromTable rows = none ↔ rows = [] := by
  refine ⟨rows_of_rebuild, ?_⟩
  rintro rfl
  rfl

variable {s : Server V}

theorem not_cachedAsEmpty {c : IndexCache V} (hc : s.cache = some c) (hg : c.svsIndex.isSome) :
    ¬ CachedAsEmpty s := by
  rintro ⟨c', hc', hn⟩
  cases hc.symm.trans hc'
  simp [hn] at hg

theorem cachedAsEmpty_rebuild (k : GetCalls) (hca : s.cache = none) :
    CachedAsEmpty (rebuildFromHeap k s).1 ↔
      k.lateError ≠ .beforeSave ∧
        (k.heapLocked = true ∨ k.buildFails = false ∧ visibleRows s.db = []) := by
  have hn : ¬ CachedAsEmpty s := by
    rintro ⟨c, hc, -⟩
    rw [hca] at hc
    cases hc
  have hem : CachedAsEmpty { s with cache := some emptyTableIndex } :=
    ⟨emptyTableIndex, rfl, rfl⟩
  unfold rebuildFromHeap
  rcases hlo : k.heapLocked with _ | _
  · rcases hf : k.buildFails with _ | _
    · simp only [Bool.not_false, Bool.and_false, Bool.false_eq_true, if_false]
      rcases hr : vamanaRebuildFromTable (visibleRows s.db) with _ | c
      · rw [rebuild_eq_none_iff] at hr
        by_cases hl : k.lateError = .beforeSave
        · simp [hl, hn]
        · simp [hl, hem, hr]
      · have hne : visibleRows s.db ≠ [] := by
          intro hnil
          rw [(rebuild_eq_none_iff _).mpr hnil] at hr
          cases hr
        have hg := rebuild_graph hr
        by_cases hl : k.lateError = .beforeSave
        · simp only [hl, if_true, ne_eq, not_true_eq_false, false_and, iff_false]
          exact not_cachedAsEmpty rfl hg
        have hs : ¬ CachedAsEmpty (trySaveAfterRebuild k.saveFails c s) := by
          unfold trySaveAfterRebuild
          split
          · exact not_cachedAsEmpty rfl hg
          · exact not_cachedAsEmpty rfl hg
        simp [hl, hs, hne]
    · simp [hn]
  · by_cases hl : k.lateError = .beforeSave
    · simp [hl, hn]
    · simp [hl, hem]

theorem cachedAsEmpty_finalize (s : Server V) :
    CachedAsEmpty (finalizeIndexCacheEntry s) ↔ CachedAsEmpty s := by
  unfold CachedAsEmpty finalizeIndexCacheEntry
  rcases s.cache with _ | c
  · simp
  · simp only [Option.map_some, Option.some.injEq, exists_eq_left']
    split <;> rfl

theorem cachedAsEmpty_body (k : GetCalls) (hca : s.cache = none) :
    CachedAsEmpty (getOrLoadIndexBody k s).1 ↔
      NoCopy k.load s.disk ∧ k.lateError ≠ .beforeSave ∧
        (k.heapLocked = true ∨ k.buildFails = false ∧ visibleRows s.db = []) := by
  have hbo : CachedAsEmpty (getOrLoadIndexBody k s).1 ↔
      CachedAsEmpty (loadIndexFromDiskOrRebuild k s).1 := by
    unfold getOrLoadIndexBody
    generalize loadIndexFromDiskOrRebuild k s = r
    obtain ⟨s', _ | fromDisk⟩ := r
    · rfl
    dsimp only
    split
    · rfl
    · split <;> exact cachedAsEmpty_finalize s'
  rw [hbo]
  unfold loadIndexFromDiskOrRebuild
  rcases load_ends k.load s.disk with ⟨g, m, hp, hco, heq⟩ | ⟨hno, -, heq⟩ | ⟨hno, d', heq⟩
  · have hnot : ¬ NoCopy k.load s.disk := fun h => h.2 ⟨hp.2.1, by simp [hco]⟩
    rw [heq]
    simp only [hnot, false_and, iff_false]
    exact not_cachedAsEmpty rfl rfl
  · rw [heq]
    simp only [hno, false_and, iff_false]
    rintro ⟨c, hc, -⟩
    rw [hca] at hc
    cases hc
  · rw [heq]
    rw [cachedAsEmpty_rebuild k (s := { s with disk := d' }) hca]
    simp only [hno, true_and]

theorem body_fromDisk (k : GetCalls) (s : Server V) :
    ((getOrLoadIndexBody k s).2 = some true ↔
      k.load.Pass s.disk.metap ∧ (diskCopy s.disk).isSome ∧ k.lateError = .none) ∧
    ((getOrLoadIndexBody k s).2 = some true →
      ∃ c, c.svsIndex.isSome ∧ (getOrLoadIndexBody k s).1 = { s with cache := some c }) := by
  unfold getOrLoadIndexBody loadIndexFromDiskOrRebuild
  rcases load_ends k.load s.disk with ⟨g, m, hp, hc, heq⟩ | ⟨-, hno, heq⟩ | ⟨hno, d', heq⟩
  · rw [heq]
    rcases hl : k.lateError with _ | _ | _ | _
    · simp only [hc, hp, reduceCtorEq, if_false]
      exact ⟨by simp, fun _ => ⟨_, rfl, rfl⟩⟩
    · simp
    · simp
    · simp
  · rw [heq]
    refine ⟨⟨fun h => ?_, fun h => absurd ⟨h.1, h.2.1⟩ hno⟩, fun h => ?_⟩
    · cases h
    · cases h
  · have hne := rebuildFromHeap_ne_fromDisk k { s with disk := d' }
    have hnot : ¬ (k.load.Pass s.disk.metap ∧ (diskCopy s.disk).isSome ∧ k.lateError = .none) :=
      fun h => hno.2 ⟨h.1.2.1, h.2.1⟩
    rw [heq]
    dsimp only
    generalize rebuildFromHeap k { s with disk := d' } = r at hne ⊢
    obtain ⟨s', _ | fromDisk⟩ := r
    · simp [hnot]
    have hf : fromDisk = false := by simpa using hne
    subst hf
    dsimp only
    split
    · simp [hnot]
    · split <;> simp [hnot]

variable {k : GetCalls}

theorem scanOfBody_of_noCopy (h : NoCopy k.load s.disk) : scanOfBody k s = heapScan k s.db := by
  unfold scanOfBody
  rcases load_ends k.load s.disk with ⟨g, m, hp, hc, -⟩ | ⟨hno, -, -⟩ | ⟨-, d', heq⟩
  · exact absurd ⟨hp.2.1, by simp [hc]⟩ h.2
  · exact absurd h hno
  · rw [heq]

/-- One try caches an empty index only after a scan without rows, unless it met the lock. -/
theorem body_caches_empty_iff (k : GetCalls) (hc : s.cache = none) :
    (CachedAsEmpty (getOrLoadIndexBody k s).1 → scanOfBody k s = some []) ↔
      ¬ MeetsLock k s.disk := by
  rw [cachedAsEmpty_body k hc]
  unfold MeetsLock
  by_cases hno : NoCopy k.load s.disk
  · rw [scanOfBody_of_noCopy hno]
    unfold heapScan
    rcases hl : k.heapLocked with _ | _
    · simp
    · simp [hno]
  · simp [hno]

/-- A load that finds nothing in the cache, by what becomes of the copy on disk. -/
theorem load_caches_empty_iff (k retry : GetCalls) (hca : s.cache = none) :
    (CachedAsEmpty (vamanaWorkerGetOrLoadIndex k retry s).1 →
      scanOfLoad k retry s = some []) ↔ ¬ LockedAtScan k retry s := by
  have hn : ∀ {s' : Server V}, s'.cache = none → ¬ CachedAsEmpty s' := by
    rintro s' hs' ⟨c, hc, -⟩
    rw [hs'] at hc
    cases hc
  unfold vamanaWorkerGetOrLoadIndex scanOfLoad LockedAtScan
  rcases ho : k.indexLocked with _ | _
  · have hbo := body_caches_empty_iff k hca
    obtain ⟨hdi, hen⟩ := body_fromDisk k s
    simp only [hca, Bool.false_eq_true, if_false, true_and]
    by_cases ht : (getOrLoadIndexBody k s).2 = some true
    · obtain ⟨c, hg, hs'⟩ := hen ht
      have hta := hdi.mp ht
      have hno : ¬ MeetsLock k s.disk := fun h => h.1.2 ⟨hta.1.2.1, hta.2.1⟩
      rw [show getOrLoadIndexBody k s = ({ s with cache := some c }, some true) from
        Prod.ext hs' ht]
      have hsa : vamanaReplicationSlotIsConsistent { s with cache := some c } =
        s.vamanaReplicationSlotIsConsistent := rfl
      dsimp only
      rw [hsa]
      rcases hco : s.vamanaReplicationSlotIsConsistent with _ | _
      · -- the copy goes, and the second try starts without a directory
        have hd : DropsCopy k s := ⟨hta.1, hta.2.1, hta.2.2, hco⟩
        rcases hr : retry.indexLocked with _ | _
        · have hs := body_caches_empty_iff retry
            (s := vamanaForceHeapRebuild k.slotHeld { s with cache := some c }) rfl
          simp only [Bool.not_false, Bool.and_self, if_true, Bool.false_eq_true, if_false,
            Bool.or_self]
          rw [hs]
          simp only [hno, hd, true_and, false_or]
          rfl
        · simp only [Bool.not_false, Bool.and_self, if_true, hno, false_or, reduceCtorEq,
            false_and, and_false, not_false_eq_true, iff_true]
          exact fun h => absurd h (hn rfl)
      · have hd : ¬ DropsCopy k s := by
          rintro ⟨-, -, -, h⟩
          rw [hco] at h
          cases h
        simp only [Bool.not_true, Bool.and_false, Bool.false_eq_true, if_false, hno, hd,
          false_and, or_self, not_false_eq_true, iff_true]
        exact fun h => absurd h (not_cachedAsEmpty rfl hg)
    · have hd : ¬ DropsCopy k s := fun h => ht (hdi.mpr ⟨h.1, h.2.1, h.2.2.1⟩)
      simp only [hd, false_and, or_false]
      rw [← hbo]
      generalize getOrLoadIndexBody k s = r at ht ⊢
      obtain ⟨s', _ | _ | _⟩ := r
      · rfl
      · rfl
      · exact absurd rfl ht
  · simp only [hca, if_true, reduceCtorEq, false_and, not_false_eq_true, iff_true]
    exact fun h => absurd h (hn hca)

/-! ## Rows that no one will see -/

variable {db : Database V} {xid : Nat}

theorem committed_step (op : Op V) (h : db.committed xid = true) :
    (db.step op).committed xid = true := by
  obtain ⟨l, hl⟩ := wal_step db op
  simp only [committed, decide_eq_true_eq, hl] at h ⊢
  exact mem_append_left l h

theorem nextXid_le_step (db : Database V) (op : Op V) : db.nextXid ≤ (db.step op).nextXid := by
  cases op with
  | begin => exact Nat.le_succ _
  | prune t => exact Nat.le_refl _
  | crash => exact Nat.le_refl _
  | insert xid t v | delete xid t | update xid t t' v | commit xid | abort xid
  | multiInsert xid blkno isinit rows =>
    simp only [Database.step]; split <;> exact Nat.le_refl _

theorem aborted_step (hxid : xid < db.nextXid) (op : Op V) (h : db.aborted xid = true) :
    (db.step op).aborted xid = true := by
  simp only [aborted, committed, Bool.and_eq_true, Bool.not_eq_true',
    decide_eq_false_iff_not] at h ⊢
  obtain ⟨hwal, ha⟩ := h
  cases op with
  | begin =>
    refine ⟨hwal, ?_⟩
    simp only [Database.step, mem_append, mem_singleton, not_or]
    exact ⟨ha, by omega⟩
  | insert y t v | delete y t | update y t t' v =>
    simp only [Database.step]
    split
    · exact ⟨by simpa using hwal, ha⟩
    · exact ⟨hwal, ha⟩
  | multiInsert y blkno isinit rows =>
    simp only [Database.step]
    split
    · exact ⟨by simpa [multiInsertBody] using hwal, ha⟩
    · exact ⟨hwal, ha⟩
  | commit y =>
    simp only [Database.step]
    split
    · rename_i hy
      have hne : xid ≠ y := by
        rintro rfl
        exact ha hy
      refine ⟨by simpa [hne] using hwal, fun h => ha (mem_of_mem_filter h)⟩
    · exact ⟨hwal, ha⟩
  | abort y =>
    simp only [Database.step]
    split
    · exact ⟨by simpa using hwal, fun h => ha (mem_of_mem_filter h)⟩
    · exact ⟨hwal, ha⟩
  | prune t => exact ⟨hwal, ha⟩
  | crash => exact ⟨hwal, by simp [Database.step]⟩

theorem dead_of_sameRow {x y : HeapTuple V} (hrow : SameRow db y x)
    (hy : y.xmin < db.nextXid) (op : Op V) (h : db.dead y = true) : (db.step op).dead x = true := by
  simp only [dead, Bool.or_eq_true] at h ⊢
  rcases h with ha | hg
  · left
    rw [← hrow.xmin]
    exact aborted_step hy op ha
  · right
    rcases hrow.xmax with heq | hnot
    · rw [← heq]
      rcases hx : y.xmax with _ | z
      · simp [hx] at hg
      · simp only [hx, Option.any_some] at hg ⊢
        exact committed_step op hg
    · rw [hnot] at hg
      cases hg

def AllDead (db : Database V) : Prop := ∀ x ∈ db.heap, db.dead x = true

/-- Every row was stored by a transaction that has begun. -/
def XidsGiven (db : Database V) : Prop := ∀ x ∈ db.heap, x.xmin < db.nextXid

theorem xidsGiven_step (hok : db.Ok) (h : XidsGiven db) (op : Op V) : XidsGiven (db.step op) := by
  intro x hx
  apply Nat.lt_of_lt_of_le _ (nextXid_le_step db op)
  rcases mem_heap_step hok hx with ⟨y, hy, hrow⟩ | hnew
  · rw [← hrow.xmin]
    exact h y hy
  · exact hok.xacts.activeBelow _ (xmin_newRows hnew)

theorem allDead_step (hok : db.Ok) (hxi : XidsGiven db) (h : AllDead db) {op : Op V}
    (hnew : db.newRows op = []) : AllDead (db.step op) := by
  intro x hx
  rcases mem_heap_step hok hx with ⟨y, hy, hrow⟩ | hmem
  · exact dead_of_sameRow hrow (hxi y hy) op (h y hy)
  · rw [hnew] at hmem
    cases hmem

/-- A row whose transaction is rolled back at once is as dead as the others. -/
theorem allDead_insert_abort (hok : db.Ok) (hxi : XidsGiven db) (h : AllDead db)
    {t : Tid} {v : V} (ha : xid ∈ db.active) :
    AllDead ((db.step (.insert xid t v)).step (.abort xid)) := by
  have hok' := ok_step hok (.insert xid t v)
  have hxi' := xidsGiven_step hok hxi (.insert xid t v)
  have ha' : xid ∈ (db.step (.insert xid t v)).active := by
    simp only [Database.step]
    split <;> exact ha
  intro x hx
  rcases mem_heap_step hok' hx with ⟨y, hy, hrow⟩ | hmem
  · rcases mem_heap_step hok hy with ⟨z, hz, hrow'⟩ | hnew
    · exact dead_of_sameRow hrow (hxi' y hy) _ (dead_of_sameRow hrow' (hxi z hz) _ (h z hz))
    · have hxm : x.xmin = xid := by
        rw [← hrow.xmin]
        simp only [newRows] at hnew
        split at hnew
        · rw [mem_singleton.mp hnew]
        · cases hnew
      have hu := hok'.xacts.uncommitted xid ha'
      generalize db.step (.insert xid t v) = db' at ha' hu
      simp only [dead, aborted, committed, hxm, Database.step, if_pos ha']
      simp [hu]
  · cases hmem

theorem visibleRows_of_allDead (h : AllDead db) : visibleRows db = [] := by
  unfold visibleRows
  rw [map_eq_nil_iff, filter_eq_nil_iff]
  intro x hx hl
  have hd := h x hx
  simp only [live, dead, aborted, Bool.and_eq_true, Bool.or_eq_true, Bool.not_eq_true'] at hl hd
  rcases hd with ha | hg
  · rw [hl.1] at ha
    cases ha.1
  · rw [hl.2] at hg
    cases hg

theorem allDead_of_visibleRows (hr : visibleRows db = []) (hf : NothingInFlight db) :
    AllDead db := by
  unfold visibleRows at hr
  rw [map_eq_nil_iff, filter_eq_nil_iff] at hr
  intro x hx
  have hnot := hr x hx
  have ha := hf x hx
  simp only [live, Bool.not_eq_true, Bool.and_eq_false_iff, Bool.not_eq_false'] at hnot
  simp only [dead, aborted, Bool.or_eq_true, Bool.and_eq_true,
    Bool.not_eq_true', decide_eq_false_iff_not]
  rcases hnot with hu | hg
  · exact .inl ⟨hu, ha⟩
  · exact .inr hg

/-! ## The entry over a run -/

/-- While the entry has no graph, there is no row it could be missing. -/
structure Inv (s : Server V) : Prop where
  ok : s.Ok
  xids : XidsGiven s.db
  empty : CachedAsEmpty s → AllDead s.db

theorem xidsGiven_run (hok : db.Ok) (h : XidsGiven db) (ops : List (Op V)) :
    XidsGiven (run Database.step db ops) :=
  (run_keeps (fun db => db.Ok ∧ XidsGiven db)
    (fun _ op h => ⟨Database.ok_step h.1 op, xidsGiven_step h.1 h.2 op⟩) ⟨hok, h⟩ ops).2

/-- An INSERT slot that leaves the entry without a graph has failed and done nothing. -/
theorem insertOutcome_without_graph {t : Tid} {v : V} {c c' : IndexCache V} {slotEnd : SlotEnd}
    (h : InsertOutcome t v c c' slotEnd) (hg : c'.svsIndex = none) : c' = c ∧ slotEnd = .error := by
  cases h with
  | refused => exact ⟨rfl, rfl⟩
  | stray _ => cases hg
  | mapped _ hc' _ | first _ hc' _ =>
    rw [hc'.svsIndex] at hg
    cases hg

theorem allDead_insertRow (h : Inv s) (k : WriteCalls) (xid : Nat) (t : Tid) (v : V)
    (hc : s.cache.isSome) (hem : CachedAsEmpty (insertRow k xid t v s)) :
    AllDead (insertRow k xid t v s).db := by
  obtain ⟨c, hc⟩ := Option.isSome_iff_exists.mp hc
  obtain ⟨c', m, r, heq, hout, -, -⟩ := executeInsert_outcome k t v
    (s := { s with db := s.db.step (.insert xid t v) }) hc
  unfold insertRow at hem ⊢
  split
  · rename_i hgu
    rw [if_pos hgu] at hem
    have hn : c'.svsIndex = none → c' = c ∧
        (vamanaWorkerExecuteInsert k t v
          { s with db := s.db.step (.insert xid t v) }).2 = .error :=
      insertOutcome_without_graph hout
    generalize vamanaWorkerExecuteInsert k t v _ = res at heq hn hem ⊢
    obtain ⟨s', slotEnd⟩ := res
    obtain rfl : s' = _ := heq
    have hg : c'.svsIndex = none := by
      cases slotEnd with
      | done e | error =>
        obtain ⟨c₁, hc₁, hg⟩ := hem
        cases hc₁
        exact hg
    obtain ⟨rfl, hend⟩ := hn hg
    obtain rfl : slotEnd = .error := hend
    exact allDead_insert_abort h.ok.db h.xids (h.empty ⟨c', hc, hg⟩) hgu.1
  · rename_i hgu
    rw [if_neg hgu] at hem
    exact h.empty hem

theorem cachedAsEmpty_drain (hok : s.Ok) (k : DrainFaults)
    (h : CachedAsEmpty (vamanaReplicationDrainSlot k s).1) : CachedAsEmpty s := by
  obtain ⟨c', hc', hn⟩ := h
  obtain ⟨c, hc, -, ⟨X, -, -, hs⟩ | ⟨rfl, -⟩⟩ := drain_cached hok hc'
  · refine ⟨c, hc, ?_⟩
    by_contra hg
    have hgr : c'.svsIndex.isSome := by
      rw [hs.svsIndex]
      exact (after_replayAll (k.calls s.db).apply (hok.cache c hc)
        (Option.isSome_iff_ne_none.mpr hg) 0 _).graph
    simp [hn] at hgr
  · exact ⟨c', hc, hn⟩

variable {retry : GetCalls}

theorem visibleRows_of_scan {rows : List (Tid × V)}
    (h : scanOfLoad k retry s = some rows) : visibleRows s.db = rows := by
  have hbo : ∀ {k : GetCalls} {s : Server V}, scanOfBody k s = some rows →
      visibleRows s.db = rows := by
    intro k s hs
    unfold scanOfBody heapScan at hs
    split at hs
    · split at hs
      · cases hs
      · exact Option.some.inj hs
    · cases hs
  unfold scanOfLoad at h
  split at h
  · cases h
  obtain ⟨-, hen⟩ := body_fromDisk k s
  generalize hr : getOrLoadIndexBody k s = r at h hen
  obtain ⟨s', _ | _ | _⟩ := r
  · exact hbo h
  · exact hbo h
  · obtain ⟨c, -, hs'⟩ := hen rfl
    obtain rfl : s' = _ := hs'
    dsimp only at h
    split at h
    · cases h
    · exact hbo (s := vamanaForceHeapRebuild k.slotHeld _) h

theorem allDead_load (h : Inv s) (k retry : GetCalls) (hk : KeepsEmpty s (.load k retry))
    (hem : CachedAsEmpty (vamanaWorkerGetOrLoadIndex k retry s).1) :
    AllDead (vamanaWorkerGetOrLoadIndex k retry s).1.db := by
  rcases hc : s.cache with _ | c
  · obtain ⟨hl, hf⟩ := hk hc
    have hs := (load_caches_empty_iff k retry hc).mpr hl hem
    have hr := visibleRows_of_scan hs
    rw [(getOrLoadIndex_outcome k retry hc h.ok.flagged).db_eq]
    exact allDead_of_visibleRows hr (hf hr)
  · rw [getOrLoadIndex_cached k retry (by rw [hc]; rfl)] at hem ⊢
    exact h.empty hem

theorem allDead_after_step (h : Inv s) (e : Event V) (hk : KeepsEmpty s e)
    (hem : CachedAsEmpty (s.step e)) : AllDead (s.step e).db := by
  have hg : ∀ {s' : Server V}, s'.cache = none → CachedAsEmpty s' → AllDead s'.db := by
    rintro s' hs' ⟨c, hc, -⟩
    rw [hs'] at hc
    cases hc
  cases e with
  | begin | delete xid t | commit xid | abort xid | prune t =>
    exact allDead_step h.ok.db h.xids (h.empty hem) rfl
  | insert k xid t v =>
    simp only [step] at hem ⊢
    split
    · rename_i hc
      rw [if_pos hc] at hem
      exact allDead_insertRow h k xid t v hc hem
    · rename_i hc
      rw [if_neg hc] at hem
      exact h.empty hem
  | deleteIds k ids =>
    simp only [step] at hem ⊢
    split
    · rename_i hc
      rw [if_pos hc] at hem
      obtain ⟨c, hc⟩ := Option.isSome_iff_exists.mp hc
      rcases executeDelete_outcome k ids hc with ⟨heq, -⟩ | ⟨c', m, heq, -, hdel, -⟩
      · rw [heq] at hem ⊢
        exact h.empty hem
      · rw [heq] at hem
        exact absurd hem (not_cachedAsEmpty rfl hdel.graph)
    · rename_i hc
      rw [if_neg hc] at hem
      exact h.empty hem
  | load k retry => exact allDead_load h k retry hk hem
  | loadSlot k =>
    simp only [step] at hem ⊢
    rcases loadSlot_outcome h.ok k with ⟨-, heq⟩ | ⟨g, m, b, r, -, -, -, heq⟩
    · rw [heq] at hem ⊢
      exact h.empty hem
    · rw [heq] at hem
      exact absurd hem (not_cachedAsEmpty rfl rfl)
  | drain k =>
    simp only [step] at hem ⊢
    rw [db_drain]
    exact h.empty (cachedAsEmpty_drain h.ok k hem)
  | checkpoint saveFails slotBusy =>
    obtain ⟨c', hc', hn⟩ := hem
    obtain ⟨c, hc, hs⟩ := checkpoint_cache saveFails slotBusy hc'
    have hd := h.empty ⟨c, hc, by rw [← hs.svsIndex, hn]⟩
    have hout := checkpoint_outcome saveFails slotBusy s
    simp only [step]
    generalize performCheckpoint saveFails slotBusy s = s' at hout ⊢
    cases hout <;> exact hd
  | evict | walBudget slotHeld | crash flushed => exact hg rfl hem

theorem inv_step (h : Inv s) (e : Event V) (hk : KeepsEmpty s e) :
    Inv (s.step e) where
  ok := ok_step h.ok e
  xids := by
    obtain ⟨ops, hops⟩ := db_step s h.ok e
    rw [hops]
    exact xidsGiven_run h.ok.db h.xids ops
  empty := allDead_after_step h e hk

theorem inv_created (rel : Relation) (history : List (Op V))
    (hq : NothingInFlight (created rel history).db) :
    Inv (created rel history) where
  ok := ok_created rel history
  xids := by
    have hrun := xidsGiven_run (ok_start rel) (fun x (hx : x ∈ ([] : List (HeapTuple V))) =>
      by cases hx) history
    unfold created
    dsimp only
    split <;> exact hrun
  empty hem := by
    unfold created at hem hq ⊢
    dsimp only at hem hq ⊢
    generalize run Database.step (start rel) history = db at hem hq ⊢
    rcases hr : vamanaRebuildFromTable (visibleRows db) with _ | c
    · rw [hr] at hq
      exact allDead_of_visibleRows (rows_of_rebuild hr) hq
    · rw [hr] at hem
      have hg := rebuild_graph hr
      exact absurd hem (not_cachedAsEmpty rfl hg)

/-! ## What the requests see -/

/-- A load with its drain caches an empty index only when the load alone does. -/
theorem cachedAsEmpty_ensure (k : EnsureCalls) (hok : s.Ok) (hc : s.cache = none)
    (h : CachedAsEmpty (vamanaWorkerEnsureIndexCurrent k s).1) :
    CachedAsEmpty (vamanaWorkerGetOrLoadIndex k.get k.retry s).1 := by
  have hl := hok.load (getOrLoadIndex_outcome k.get k.retry hc hok.flagged)
  unfold vamanaWorkerEnsureIndexCurrent at h
  generalize vamanaWorkerGetOrLoadIndex k.get k.retry s = r at h hl ⊢
  obtain ⟨s', _ | _ | _⟩ := r
  · exact h
  · exact h
  · dsimp only at h hl ⊢
    apply cachedAsEmpty_drain hl k.drain
    split at h <;> exact h

theorem visibleRows_of_ensure {k : EnsureCalls} (hok : s.Ok) (hc : s.cache = none)
    (hk : SearchUndisturbed k s) (h : CachedAsEmpty (vamanaWorkerEnsureIndexCurrent k s).1) :
    visibleRows s.db = [] :=
  visibleRows_of_scan ((load_caches_empty_iff k.get k.retry hc).mpr (hk hc)
    (cachedAsEmpty_ensure k hok hc h))

theorem visibleRows_of_search {k : EnsureCalls} (h : Inv s) (hk : SearchUndisturbed k s)
    (ha : AnswersZeroRows k s) : visibleRows s.db = [] := by
  obtain ⟨c, ha, hn⟩ := ha
  have hca := answer_is_cached ha
  rcases hc : s.cache with _ | c₀
  · rw [caught_up.search_loads k hc] at hca
    exact visibleRows_of_ensure h.ok hc hk ⟨c, hca, hn⟩
  · rw [caught_up.search_cached k hc] at hca
    exact visibleRows_of_allDead (h.empty ⟨c, hca, hn⟩)

theorem body_fails (hc : s.cache = none) (hl : k.lateError = .none)
    (h : (getOrLoadIndexBody k s).2 = none) : (getOrLoadIndexBody k s).1.cache = none := by
  unfold getOrLoadIndexBody loadIndexFromDiskOrRebuild at h ⊢
  rcases load_ends k.load s.disk with ⟨g, m, -, -, heq⟩ | ⟨-, -, heq⟩ | ⟨-, d', heq⟩
  · simp [heq, hl] at h
  · rw [heq]
    exact hc
  · rw [heq] at h ⊢
    unfold rebuildFromHeap at h ⊢
    dsimp only at h ⊢
    by_cases hf : (!k.heapLocked && k.buildFails) = true
    · rw [if_pos hf]
      exact hc
    rw [if_neg hf] at h
    generalize (if k.heapLocked then none
      else vamanaRebuildFromTable (visibleRows s.db)) = built at h
    rcases built with _ | c <;> simp [hl] at h

theorem load_fails (hc : s.cache = none) (hl : k.lateError = .none)
    (hl' : retry.lateError = .none) (h : (vamanaWorkerGetOrLoadIndex k retry s).2 = none) :
    (vamanaWorkerGetOrLoadIndex k retry s).1.cache = none := by
  have hbo := body_fails hc hl
  unfold vamanaWorkerGetOrLoadIndex at h ⊢
  simp only [hc] at h ⊢
  split at h
  · rename_i hlo
    rw [if_pos hlo]
    exact hc
  · rename_i hlo
    rw [if_neg hlo]
    generalize getOrLoadIndexBody k s = r at h hbo ⊢
    obtain ⟨s', _ | fromDisk⟩ := r
    · exact hbo rfl
    dsimp only at h ⊢
    split at h
    · rename_i hd
      rw [if_pos hd]
      split at h
      · rename_i hr
        rw [if_pos hr]
        rfl
      · rename_i hr
        rw [if_neg hr]
        exact body_fails rfl hl' h
    · cases h

/-- A NULL handle with an entry in the cache: the entry has no graph, if no error came after it
was made. -/
theorem cachedAsEmpty_of_null {k : EnsureCalls} (hca : s.cache = none)
    (hl : k.get.lateError = .none) (hl' : k.retry.lateError = .none)
    (h : (vamanaWorkerEnsureIndexCurrent k s).2 = .handle none)
    (hen : (vamanaWorkerEnsureIndexCurrent k s).1.cache.isSome) :
    CachedAsEmpty (vamanaWorkerEnsureIndexCurrent k s).1 := by
  have hf := load_fails hca hl hl'
  have hn : ∀ {s' : Server V}, Ensured.handle (s'.cache.bind (·.svsIndex)) = .handle none →
      s'.cache.isSome → CachedAsEmpty s' := by
    intro s' hbi hs
    obtain ⟨c, hc⟩ := Option.isSome_iff_exists.mp hs
    refine ⟨c, hc, ?_⟩
    simpa [hc] using hbi
  unfold vamanaWorkerEnsureIndexCurrent at h hen ⊢
  generalize vamanaWorkerGetOrLoadIndex k.get k.retry s = r at h hen hf ⊢
  obtain ⟨s', _ | _ | _⟩ := r
  · have hno : s'.cache = none := hf rfl
    rw [hno] at hen
    cases hen
  · exact hn h hen
  · dsimp only at h hen ⊢
    split at h
    · cases h
    · rename_i hr
      rw [if_neg hr] at hen ⊢
      exact hn h hen

theorem visibleRows_of_firstInsert {k : WriteCalls} (h : Inv s) (hk : InsertUndisturbed k s)
    (hst : FirstInsertStarts k s) : visibleRows s.db = [] := by
  obtain ⟨hf, hs, hl, hl'⟩ := hk
  obtain ⟨s', hres, hen⟩ := hst
  rcases hc : s.cache with _ | c
  · unfold resolveForWrite at hres
    simp only [hc] at hres
    have hok := h.ok.ensure k.first hc
    have hdb := db_ensure k.first h.ok hc
    have hem := visibleRows_of_ensure (k := k.first) h.ok hc hf
    generalize vamanaWorkerEnsureIndexCurrent k.first s = r at *
    obtain ⟨s₁, (_ | g) | _⟩ := r
    · dsimp only at hres hok hdb hem hs
      rcases hc₁ : s₁.cache with _ | c₁
      · rw [← hdb]
        apply visibleRows_of_ensure hok hc₁ hs
        have h₁ : (vamanaWorkerEnsureIndexCurrent k.second s₁).1 = s' := by rw [hres]
        have h₂ : (vamanaWorkerEnsureIndexCurrent k.second s₁).2 = .handle none := by
          rw [hres]
        exact cachedAsEmpty_of_null hc₁ hl hl' h₂ (by rw [h₁]; exact hen)
      · -- the second try finds the entry of the first
        apply hem
        unfold vamanaWorkerEnsureIndexCurrent at hres
        rw [getOrLoadIndex_cached _ _ (by rw [hc₁]; rfl)] at hres
        simp only [Prod.mk.injEq, Ensured.handle.injEq] at hres
        exact ⟨c₁, hc₁, by simpa [hc₁] using hres.2⟩
    · simp at hres
    · simp at hres
  · rw [resolveForWrite_cached k hc] at hres
    simp only [Prod.mk.injEq, Ensured.handle.injEq] at hres
    exact visibleRows_of_allDead (h.empty ⟨c, hc, hres.2⟩)

/-! ## The law -/

/-- A load caches an empty index only after a scan that found no row, exactly when DDL does not have
the heap locked; in a run of such loads, searches without rows and first-insert builds only meet
tables without committed rows. -/
theorem an_empty_index_is_cached_for_an_empty_table :
    (∀ (s : Server V) (k retry : GetCalls), s.cache = none →
      ((CachedAsEmpty (vamanaWorkerGetOrLoadIndex k retry s).1 →
        scanOfLoad k retry s = some []) ↔ ¬ LockedAtScan k retry s)) ∧
    ∀ (rel : Relation) (history : List (Op V)) (es : List (Event V)),
      NothingInFlight (created rel history).db →
      EachStep step KeepsEmpty (created rel history) es →
      (∀ k, SearchUndisturbed k (run step (created rel history) es) →
        AnswersZeroRows k (run step (created rel history) es) →
        visibleRows (run step (created rel history) es).db = []) ∧
      ∀ k, InsertUndisturbed k (run step (created rel history) es) →
        FirstInsertStarts k (run step (created rel history) es) →
        visibleRows (run step (created rel history) es).db = [] := by
  refine ⟨fun s k retry hc => load_caches_empty_iff k retry hc, ?_⟩
  intro rel history es hq hes
  have hinv : Inv (run step (created rel history) es) :=
    run_invariant Inv (fun _ e h hke => inv_step h e hke) (inv_created rel history hq) hes
  exact ⟨fun k hk h => visibleRows_of_search hinv hk h,
    fun k hk h => visibleRows_of_firstInsert hinv hk h⟩

def quietEnsure : EnsureCalls := ⟨quietGet, quietGet, quietDrain⟩

theorem not_lockedAtScan_quiet (s : Server V) : ¬ LockedAtScan quietGet quietGet s := by
  rintro ⟨-, ⟨-, h, -⟩ | ⟨-, -, -, h, -⟩⟩
  · cases h
  · cases h

/-- An index on an empty table is dropped from the cache and loaded again. -/
theorem an_empty_table_is_cached_as_empty_here :
    scanOfLoad quietGet quietGet (step (created ⟨1, 100⟩ ([] : List (Op Nat))) .evict) =
      some [] ∧
    AnswersZeroRows quietEnsure (run step (created ⟨1, 100⟩ ([] : List (Op Nat)))
      [.evict, .load quietGet quietGet]) ∧
    FirstInsertStarts quietWrite (run step (created ⟨1, 100⟩ ([] : List (Op Nat)))
      [.evict, .load quietGet quietGet]) ∧
    visibleRows (run step (created ⟨1, 100⟩ ([] : List (Op Nat)))
      [.evict, .load quietGet quietGet]).db = [] := by
  have hs : FirstInsertStarts quietWrite (run step
      (created ⟨1, 100⟩ ([] : List (Op Nat))) [.evict, .load quietGet quietGet]) :=
    ⟨_, rfl, rfl⟩
  refine ⟨?_, ⟨_, rfl, rfl⟩, hs, ?_⟩
  · apply ((an_empty_index_is_cached_for_an_empty_table (V := Nat)).1
      (step (created ⟨1, 100⟩ []) .evict) quietGet quietGet rfl).mpr
    · exact not_lockedAtScan_quiet _
    · exact ⟨_, rfl, rfl⟩
  · refine ((an_empty_index_is_cached_for_an_empty_table (V := Nat)).2 ⟨1, 100⟩ []
      [.evict, .load quietGet quietGet] ?_ ⟨trivial, ?_, trivial⟩).2 quietWrite
      ⟨?_, ?_, rfl, rfl⟩ hs
    · intro x hx
      cases hx
    · exact fun _ => ⟨not_lockedAtScan_quiet _, fun _ x hx => by cases hx⟩
    · exact fun _ => not_lockedAtScan_quiet _
    · exact fun _ => not_lockedAtScan_quiet _

/-- The heap is locked by DDL when a load comes to it. -/
def lockedGet : GetCalls := { quietGet with heapLocked := true }

/-- An index is loaded while DDL has the heap locked: a search is told that there are no rows, and
the next INSERT starts a graph of its own. -/
theorem a_locked_heap_is_cached_as_empty :
    CachedAsEmpty (run step (created ⟨1, 100⟩ oneRow)
      [.walBudget false, .load lockedGet lockedGet]) ∧
    scanOfLoad lockedGet lockedGet ((created ⟨1, 100⟩ oneRow).step (.walBudget false)) =
      none ∧
    visibleRows (run step (created ⟨1, 100⟩ oneRow)
      [.walBudget false, .load lockedGet lockedGet]).db = [(⟨0, 1⟩, 10)] ∧
    AnswersZeroRows quietEnsure (run step (created ⟨1, 100⟩ oneRow)
      [.walBudget false, .load lockedGet lockedGet]) ∧
    FirstInsertStarts quietWrite (run step (created ⟨1, 100⟩ oneRow)
      [.walBudget false, .load lockedGet lockedGet]) :=
  ⟨⟨_, rfl, rfl⟩, rfl, rfl, ⟨_, rfl, rfl⟩, ⟨_, rfl, rfl⟩⟩

end svs_vamana.empty_index
