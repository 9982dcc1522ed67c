-- The copy of an index on disk: the graph and the TID map in the save directory, and the counters
-- of the metapage, written one after the other.
import SvsVamana.IndexCache

namespace svs_vamana.saved_index

open index_cache

variable {V : Type}

/-! ## The files and the metapage -/

/-- The fields of `VamanaMetaPageData` that a load and a save use. -/
structure MetaPage where
  hasSavedIndex : Bool
  numVectors : Nat
  nextExternalId : Nat
  numDeleted : Nat
  tidMappingCapacity : Nat
deriving DecidableEq, Repr

/-- The save directory: the files `SVSSaveIndex` writes, `tidmap.bin` and the temp file
it is written through. A TID map of `capacity` slots is a list of that length. -/
structure SaveDir (V : Type) where
  graph : Option (SvsIndex V)
  tidmap : Option (List (Option Tid))
  tidmapTmp : Option (List (Option Tid))

/-- What is on disk for one index; `dir` is `none` when the directory does not exist. -/
structure Disk (V : Type) where
  dir : Option (SaveDir V)
  metap : MetaPage

/-- `VAMANA_MAX_TID_MAPPING_CAPACITY`, which is `INT_MAX`. -/
def maxTidMappingCapacity : Nat := 2147483647

/-- `sizeof(ItemPointerData)`. -/
def itemPointerSize : Nat := 6

/-- `VamanaValidateMetaCounts` returns without an error. The budget is checked when the
caller asks for it. -/
def vamanaValidateMetaCounts (m : MetaPage) (residencyBudget : Option Nat) : Bool :=
  !(decide (m.tidMappingCapacity > maxTidMappingCapacity) ||
    decide (m.numVectors > maxTidMappingCapacity) ||
    decide (m.numDeleted > maxTidMappingCapacity)) &&
  !(decide (m.numVectors > m.tidMappingCapacity) ||
    decide (m.numDeleted > m.tidMappingCapacity) ||
    (decide (m.tidMappingCapacity > 0) && decide (m.nextExternalId > m.tidMappingCapacity))) &&
  match residencyBudget with
  | none => true
  | some budget => !decide (m.tidMappingCapacity * itemPointerSize > budget)

/-- `VamanaLoadTidMap`: slots past the ones in the file are holes. -/
def vamanaLoadTidMap (dir : Option (SaveDir V)) (tidMappingCapacity : Nat) :
    Option (List (Option Tid)) :=
  match dir.bind (·.tidmap) with
  | none => none
  | some m =>
    if m.length > tidMappingCapacity then none
    else some (m ++ List.replicate (tidMappingCapacity - m.length) none)

/-! ## Saving -/

/-- One write of `VamanaSaveIndexToDisk`, in its order. -/
inductive SaveStep
  | ensureSaveDir
  | svsSaveIndex
  | unlinkTmp
  | createTmp
  | writeTmp
  | durableRename
  | markIndexSaved
deriving DecidableEq, Repr

/-- The metapage as `VamanaWriteMetaPageDynamic` leaves it. -/
def writeMetaPageDynamic (c : IndexCache V) (m : MetaPage) : MetaPage :=
  { m with
    nextExternalId := c.nextExternalId
    numVectors := c.numVectors
    numDeleted := c.numDeleted
    tidMappingCapacity := c.tidMapping.length }

/-- A write into the save directory; a directory that is not there takes none. -/
def inDir (d : Disk V) (f : SaveDir V → SaveDir V) : Disk V := { d with dir := d.dir.map f }

/-- What one write does. `SVSSaveIndex` writes over the files of the last save; only the
TID map goes through a temp file and a rename. -/
def saveStep (c : IndexCache V) (d : Disk V) : SaveStep → Disk V
  | .ensureSaveDir =>
    match d.dir with
    | some _ => d
    | none => { d with dir := some ⟨none, none, none⟩ }
  | .svsSaveIndex => inDir d fun dir => { dir with graph := c.svsIndex }
  | .unlinkTmp => inDir d fun dir => { dir with tidmapTmp := none }
  | .createTmp => inDir d fun dir => { dir with tidmapTmp := some [] }
  | .writeTmp => inDir d fun dir => { dir with tidmapTmp := some c.tidMapping }
  | .durableRename => inDir d fun dir => { dir with tidmap := dir.tidmapTmp, tidmapTmp := none }
  | .markIndexSaved =>
    { d with metap := { writeMetaPageDynamic c d.metap with hasSavedIndex := true } }

/-- `VamanaSaveTidMapAtomically`. -/
def saveTidMapSteps : List SaveStep := [.unlinkTmp, .createTmp, .writeTmp, .durableRename]

/-- The writes of `VamanaSaveIndexToDisk` for an index that is not temporary. -/
def saveSteps (c : IndexCache V) : List SaveStep :=
  [.ensureSaveDir, .svsSaveIndex] ++
    (if c.tidMapping.length > 0 then saveTidMapSteps else []) ++ [.markIndexSaved]

/-- `VamanaSaveIndexToDisk` when no write fails. -/
def vamanaSaveIndexToDisk (c : IndexCache V) (d : Disk V) : Disk V :=
  (saveSteps c).foldl (saveStep c) d

/-- `VamanaDeleteSaveDir`. -/
def vamanaDeleteSaveDir (d : Disk V) : Disk V := { d with dir := none }

/-! ## Loading -/

/-- The residency budget, whether `SVSLoadDynamicIndex` takes the files or raises, and whether
`SvsMemoryReconcileLoad` refuses the graph. -/
structure LoadCalls where
  residencyBudget : Nat
  svsLoads : Bool
  refused : Bool
deriving DecidableEq, Repr

/-- How `LoadIndexFromPages` ends: with a cache entry, with `NULL` so that the caller
rebuilds, or with an error. -/
inductive LoadResult (V : Type)
  | loaded (c : IndexCache V)
  | noCopy
  | error

/-- `LoadIndexFromPages` on a primary. -/
def loadIndexFromPages (k : LoadCalls) (d : Disk V) : Disk V × LoadResult V :=
  let install (g : SvsIndex V) (m : List (Option Tid)) : Disk V × LoadResult V :=
    if k.refused then (d, .error)
    else (d, .loaded (vamanaCacheIndex (some g) m d.metap.numVectors d.metap.nextExternalId
      d.metap.numDeleted))
  if !vamanaValidateMetaCounts d.metap (some k.residencyBudget) then (d, .error)
  else if !d.metap.hasSavedIndex then (d, .noCopy)
  else match d.dir with
  | none => ({ d with metap := { d.metap with hasSavedIndex := false } }, .noCopy)
  | some dir =>
    match k.svsLoads, dir.graph with
    | true, some g =>
      if d.metap.tidMappingCapacity > 0 then
        match vamanaLoadTidMap d.dir d.metap.tidMappingCapacity with
        | none => (vamanaDeleteSaveDir d, .noCopy)
        | some m => install g m
      else install g []
    | _, _ => (vamanaDeleteSaveDir d, .noCopy)

/-! ## What a load takes and what a save leaves -/

/-- The graph and the TID map that the metapage lets a load take. -/
def diskCopy (d : Disk V) : Option (SvsIndex V × List (Option Tid)) :=
  if d.metap.hasSavedIndex then
    d.dir.bind fun dir => dir.graph.bind fun g =>
      if d.metap.tidMappingCapacity > 0 then
        (vamanaLoadTidMap d.dir d.metap.tidMappingCapacity).map fun m => (g, m)
      else some (g, [])
  else none

/-- The checks a load makes besides reading the copy. -/
def LoadCalls.Pass (k : LoadCalls) (m : MetaPage) : Prop :=
  vamanaValidateMetaCounts m (some k.residencyBudget) = true ∧ k.svsLoads = true ∧ k.refused = false

def entryOf (metap : MetaPage) (g : SvsIndex V) (m : List (Option Tid)) : IndexCache V :=
  vamanaCacheIndex (some g) m metap.numVectors metap.nextExternalId metap.numDeleted

/-- The disk after a load that found no copy it can use: without a directory, unless the
metapage never named the one that is there. -/
def NoCopy (d d' : Disk V) : Prop :=
  (d'.metap = d.metap ∨ d'.metap = { d.metap with hasSavedIndex := false }) ∧
    (d'.dir = none ∨ d' = d ∧ d.metap.hasSavedIndex = false)

theorem loadIndexFromPages_cases (k : LoadCalls) (d : Disk V) :
    (∃ g m, k.Pass d.metap ∧ diskCopy d = some (g, m) ∧
      loadIndexFromPages k d = (d, .loaded (entryOf d.metap g m))) ∨
    ¬ (k.Pass d.metap ∧ (diskCopy d).isSome) ∧
      (loadIndexFromPages k d = (d, .error) ∨
        ∃ d', NoCopy d d' ∧ loadIndexFromPages k d = (d', .noCopy)) := by
  have hde : NoCopy d (vamanaDeleteSaveDir d) := ⟨.inl rfl, .inl rfl⟩
  unfold loadIndexFromPages LoadCalls.Pass diskCopy entryOf
  rcases hv : vamanaValidateMetaCounts d.metap (some k.residencyBudget) with _ | _
  · exact .inr ⟨by simp, .inl (by simp)⟩
  rcases hs : d.metap.hasSavedIndex with _ | _
  · exact .inr ⟨by simp, .inr ⟨d, ⟨.inl rfl, .inr ⟨rfl, hs⟩⟩, by simp⟩⟩
  rcases hd : d.dir with _ | dir
  · exact .inr ⟨by simp, .inr ⟨⟨none, { d.metap with hasSavedIndex := false }⟩,
      ⟨.inr rfl, .inl rfl⟩, by simp⟩⟩
  rcases hk : k.svsLoads with _ | _
  · exact .inr ⟨by simp, .inr ⟨_, hde, by simp⟩⟩
  rcases hg : dir.graph with _ | g
  · exact .inr ⟨by simp [hg], .inr ⟨_, hde, by simp [hg]⟩⟩
  by_cases hc : d.metap.tidMappingCapacity > 0
  · rcases vamanaLoadTidMap (some dir) d.metap.tidMappingCapacity with _ | m
    · exact .inr ⟨by simp [hg, hc], .inr ⟨_, hde, by simp [hg, hc]⟩⟩
    · rcases hr : k.refused with _ | _
      · exact .inl ⟨g, m, by simp, by simp [hg, hc], by simp [hg, hc]⟩
      · exact .inr ⟨by simp, .inl (by simp [hg, hc])⟩
  · rcases hr : k.refused with _ | _
    · exact .inl ⟨g, [], by simp, by simp [hg, hc], by simp [hg, hc]⟩
    · exact .inr ⟨by simp, .inl (by simp [hg, hc])⟩

theorem load_eq_loaded_iff (k : LoadCalls) (d : Disk V) (c : IndexCache V) :
    (loadIndexFromPages k d).2 = .loaded c ↔
      k.Pass d.metap ∧ ∃ g m, diskCopy d = some (g, m) ∧ c = entryOf d.metap g m := by
  rcases loadIndexFromPages_cases k d with ⟨g, m, hp, hc, hl⟩ | ⟨hno, hl⟩
  · simp [hl, hp, hc, eq_comm]
  · refine ⟨fun h => ?_, fun ⟨hp, g, m, hc, _⟩ => absurd ⟨hp, by simp [hc]⟩ hno⟩
    rcases hl with hl | ⟨d', -, hl⟩
    · simp [hl] at h
    · simp [hl] at h

/-- A load finds a copy when the metapage says there is one, the graph is in the directory
and the TID map fits the capacity on the metapage. -/
theorem diskCopy_isSome_iff (d : Disk V) :
    (diskCopy d).isSome ↔ d.metap.hasSavedIndex = true ∧ (d.dir.bind (·.graph)).isSome ∧
      (d.metap.tidMappingCapacity > 0 →
        ∃ m, d.dir.bind (·.tidmap) = some m ∧ m.length ≤ d.metap.tidMappingCapacity) := by
  unfold diskCopy vamanaLoadTidMap
  rcases d.metap.hasSavedIndex with _ | _
  · simp
  rcases d.dir with _ | dir
  · simp
  rcases hg : dir.graph with _ | g
  · simp [hg]
  by_cases hc : d.metap.tidMappingCapacity > 0
  · rcases hm : dir.tidmap with _ | m
    · simp [hg, hm, hc]
    · by_cases hlen : m.length > d.metap.tidMappingCapacity
      · simp [hg, hm, hc, hlen]
      · simp [hg, hm, hc, hlen, Nat.le_of_not_gt hlen]
  · simp [hg, hc]

@[simp] theorem save_metap (c : IndexCache V) (d : Disk V) :
    (vamanaSaveIndexToDisk c d).metap =
      { writeMetaPageDynamic c d.metap with hasSavedIndex := true } := by
  unfold vamanaSaveIndexToDisk saveSteps saveTidMapSteps
  split <;> rcases hd : d.dir with _ | dir <;> simp [saveStep, inDir, hd, writeMetaPageDynamic]

theorem diskCopy_save (c : IndexCache V) (d : Disk V) :
    diskCopy (vamanaSaveIndexToDisk c d) = c.svsIndex.map fun g => (g, c.tidMapping) := by
  unfold diskCopy
  rw [save_metap]
  unfold vamanaSaveIndexToDisk saveSteps saveTidMapSteps vamanaLoadTidMap
  by_cases hlen : c.tidMapping.length > 0
  · rcases hd : d.dir with _ | dir <;> rcases hg : c.svsIndex with _ | g <;>
      simp [saveStep, inDir, hd, hg, hlen, writeMetaPageDynamic]
  · have hnil : c.tidMapping = [] := List.length_eq_zero_iff.mp (by omega)
    rcases hd : d.dir with _ | dir <;> rcases hg : c.svsIndex with _ | g <;>
      simp [saveStep, inDir, hd, hg, hnil, writeMetaPageDynamic]

/-! ## The files of a copy -/

namespace SaveDir

def tidAt (dir : SaveDir V) (e : Nat) : Option Tid := dir.tidmap.bind fun m => (m[e]?).join

def pointAt (dir : SaveDir V) (e : Nat) : Option V := dir.graph.bind (·.point e)

def Holds (dir : SaveDir V) (t : Tid) (v : V) : Prop :=
  ∃ e, dir.tidAt e = some t ∧ dir.pointAt e = some v

end SaveDir

theorem save_dir (c : IndexCache V) (d : Disk V) (hlen : 0 < c.tidMapping.length) :
    (vamanaSaveIndexToDisk c d).dir = some ⟨c.svsIndex, some c.tidMapping, none⟩ := by
  unfold vamanaSaveIndexToDisk saveSteps saveTidMapSteps
  rcases hd : d.dir with _ | dir <;> simp [saveStep, inDir, hd, hlen]

theorem hasSavedIndex_of_diskCopy {d : Disk V} {x : SvsIndex V × List (Option Tid)}
    (h : diskCopy d = some x) : d.metap.hasSavedIndex = true := by
  unfold diskCopy at h
  split at h
  · assumption
  · cases h

theorem diskCopy_files {d : Disk V} {g : SvsIndex V} {m : List (Option Tid)}
    (h : diskCopy d = some (g, m)) (hr : 0 < d.metap.tidMappingCapacity) :
    ∃ dir, d.dir = some dir ∧ (∀ e, dir.pointAt e = g.point e) ∧
      (∀ e, dir.tidAt e = (m[e]?).join) ∧ m.length = d.metap.tidMappingCapacity := by
  unfold diskCopy vamanaLoadTidMap at h
  split at h
  · rcases hd : d.dir with _ | dir
    · simp [hd] at h
    · rcases hg : dir.graph with _ | g'
      · simp [hd, hg] at h
      · rcases hm : dir.tidmap with _ | file
        · simp [hd, hm] at h
        · simp only [hd, hg, hm, Option.bind_some] at h
          split at h
          · cases h
          rename_i hlen
          simp only [Option.map_some, Option.some.injEq, Prod.mk.injEq] at h
          obtain ⟨rfl, rfl⟩ := h
          refine ⟨dir, rfl, fun e => by simp [SaveDir.pointAt, hg], fun e => ?_, ?_⟩
          · rw [append_holes_get]
            simp [SaveDir.tidAt, hm]
          · rw [List.length_append, List.length_replicate]
            omega
  · cases h

/-! ## Checkpointed entries -/

/-- The entry a load makes of the files of a whole save. The metapage may have moved on since:
inserts raise `nextExternalId` and the capacity on it. -/
structure Checkpointed (V : Type) where
  entry : IndexCache V
  sound : entry.Sound
  graph : entry.svsIndex.isSome
  unreplayed : entry.lastReplayWalEnd = none

theorem sound_entryOf {c : IndexCache V} {g : SvsIndex V} (hc : c.Sound)
    (hg : c.svsIndex = some g) {metap : MetaPage}
    (hn : c.nextExternalId ≤ metap.nextExternalId) (ho : Nat) :
    (entryOf metap g (c.tidMapping ++ List.replicate ho none)).Sound := by
  have hp : ∀ e, c.point e = g.point e := fun e => by simp [IndexCache.point, hg]
  refine IndexCache.Sound.cacheIndex _ _ (fun e t he => ?_) (fun e he => ?_) ?_
  · rw [append_holes_get] at he
    rw [← hp]
    exact hc.mapped_valid e t he
  · rw [append_holes_get]
    exact hc.free e (Nat.le_trans hn he)
  · have := (hc.has_table (by simp [hg])).2
    rw [List.length_append]
    omega

/-- What a load makes of the save of a sound entry. -/
def Checkpointed.ofSave {c : IndexCache V} {g : SvsIndex V} (hc : c.Sound)
    (hg : c.svsIndex = some g) : Checkpointed V where
  entry := vamanaCacheIndex (some g) c.tidMapping c.numVectors c.nextExternalId c.numDeleted
  sound := by
    have h := sound_entryOf hc hg
      (Nat.le_refl (writeMetaPageDynamic c ⟨true, 0, 0, 0, 0⟩).nextExternalId) 0
    simpa [entryOf, writeMetaPageDynamic] using h
  graph := rfl
  unreplayed := rfl

/-- What a load makes of the save after a build over some rows. -/
def Checkpointed.ofRows (rows : List (Tid × V)) {c : IndexCache V} {g : SvsIndex V}
    (h : vamanaRebuildFromTable rows = some c) (hg : c.svsIndex = some g) : Checkpointed V :=
  Checkpointed.ofSave (IndexCache.Sound.rebuild h) hg

/-- A load after a save makes an entry exactly when its checks pass and a graph was saved, and then
the entry has the graph, the TID map and the counters that were saved. -/
theorem a_save_is_loaded_as_saved (c c' : IndexCache V) (k : LoadCalls) (d : Disk V) :
    (loadIndexFromPages k (vamanaSaveIndexToDisk c d)).2 = .loaded c' ↔
      k.Pass (vamanaSaveIndexToDisk c d).metap ∧ ∃ g, c.svsIndex = some g ∧ c' =
        vamanaCacheIndex (some g) c.tidMapping c.numVectors c.nextExternalId c.numDeleted := by
  rw [load_eq_loaded_iff, diskCopy_save]
  cases c.svsIndex with
  | none => simp
  | some g => simp [entryOf, writeMetaPageDynamic]

end svs_vamana.saved_index
