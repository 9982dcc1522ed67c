-- One index over its whole life: built, loaded, written to, replayed into, compacted, saved,
-- evicted and lost with the server, in any order.
import SvsVamana.TidMaps
import SvsVamana.CheckpointCrash

namespace svs_vamana.index_life

open transition_runs index_cache saved_index write_slot replay checkpoint_crash tid_maps

variable {V : Type}

/-! ## The state -/

/-- `held` are the ids that the cached graph has a place for: the valid points and the points
that were deleted and not compacted away. -/
structure Life (V : Type) where
  cache : Option (IndexCache V)
  held : Nat → Bool
  disk : Disk V

def validIds (c : IndexCache V) (e : Nat) : Bool := (c.point e).isSome

/-- The metapage that `CREATE INDEX` starts with. -/
def newMetaPage : MetaPage := ⟨false, 0, 0, 0, 0⟩

def newIndex : Life V := ⟨none, fun _ => false, ⟨none, newMetaPage⟩⟩

/-! ## Saving -/

/-- How the save of an entry ends: it goes through, it is cut short, or an error comes before
its first write. -/
inductive SaveEnd
  | done
  | cut (cut : Cut)
  | notReached
deriving DecidableEq, Repr

def saveDisk (save : SaveEnd) (c : IndexCache V) (d : Disk V) : Disk V :=
  match save with
  | .done => vamanaSaveIndexToDisk c d
  | .cut x => (cutShort c d x).disk
  | .notReached => d

def SaveEnd.crashed : SaveEnd → Bool
  | .cut (.crash _) => true
  | _ => false

/-- `SVSSaveIndex` returned. It compacts the graph before it writes anything. -/
def SaveEnd.compacted : SaveEnd → Bool
  | .done => true
  | .cut (.crash k) => decide (2 ≤ k)
  | .cut (.error k) => decide (2 ≤ k)
  | .notReached => false

def SaveEnd.failed : SaveEnd → Bool
  | .cut (.error _) => true
  | _ => false

/-- The entry and its ids, unless the server is gone. -/
def afterSave (save : SaveEnd) (c : IndexCache V) (held : Nat → Bool) (d : Disk V) : Life V :=
  ⟨if save.crashed then none else some c, if save.compacted then validIds c else held, d⟩

/-- `PerformCheckpoint`. `numDeleted` is 0 from before the save, and is put back when the
save fails before the graph was compacted. -/
def performCheckpoint (save : SaveEnd) (slotAdvanced : Bool) (s : Life V) : Life V :=
  match s.cache with
  | none => s
  | some c =>
    if c.svsIndex.isNone then s
    else
      let c' := { c with numDeleted := 0 }
      let d := saveDisk save c' s.disk
      if !save.compacted then afterSave save c s.held d
      else if save = .done && slotAdvanced then
        afterSave save { c' with opsSinceCheckpoint := 0 } s.held d
      else afterSave save c' s.held d

/-! ## Loading -/

/-- The rebuild of a load that found no copy. The scan returns the rows, and the save that
follows may fail or not be reached; a failure only marks the entry. -/
def rebuildFromHeap (rows : List (Tid × V)) (built : Bool) (save : SaveEnd) (s : Life V) :
    Life V :=
  if !built then s
  else
    match vamanaRebuildFromTable rows with
    | none => { s with cache := some (vamanaCacheIndex none [] 0 0 0), held := fun _ => false }
    | some c =>
      afterSave save { c with needsSave := save.failed } (validIds c) (saveDisk save c s.disk)

/-- `LoadIndexFromDiskOrRebuild` for an index that is not in the cache. -/
def loadIndex (k : LoadCalls) (rows : List (Tid × V)) (built : Bool) (save : SaveEnd)
    (s : Life V) : Life V :=
  match s.cache with
  | some _ => s
  | none =>
    match loadIndexFromPages k s.disk with
    | (d, .loaded c) => ⟨some c, validIds c, d⟩
    | (d, .error) => { s with disk := d }
    | (d, .noCopy) => rebuildFromHeap rows built save { s with disk := d }

/-- `CREATE INDEX` or `REINDEX`: a new metapage, and the save of what was built. -/
def buildIndex (rows : List (Tid × V)) : Life V :=
  match vamanaRebuildFromTable rows with
  | none => newIndex
  | some c => ⟨none, fun _ => false, vamanaSaveIndexToDisk c ⟨none, newMetaPage⟩⟩

/-! ## Writing -/

/-- An operation on the entry and its metapage; a deleted point keeps its place. -/
def onEntry (f : Resident V → Resident V) (s : Life V) : Life V :=
  match s.cache with
  | none => s
  | some c =>
    let r := f ⟨c, s.disk.metap⟩
    ⟨some r.cache, fun e => s.held e || validIds r.cache e, { s.disk with metap := r.metap }⟩

/-- `VamanaWorkerExecuteMaintenanceSlot`: both operations give the places of deleted points
back, and COMPACT also resets the count of them, in the entry only. -/
def maintain (compact : Bool) (s : Life V) : Life V :=
  match s.cache with
  | none => s
  | some c =>
    if c.svsIndex.isNone then s
    else
      ⟨some (if compact then { c with numDeleted := 0 } else c), validIds c, s.disk⟩

/-! ## The steps -/

inductive Event (V : Type)
  | build (rows : List (Tid × V))
  | load (k : LoadCalls) (rows : List (Tid × V)) (built : Bool) (save : SaveEnd)
  | insert (first : FirstBuild) (k : InsertCalls) (t : Tid) (v : V)
  | delete (p : MetaPersist) (ids : List Nat)
  | replayInsert (k : ApplyCalls V) (lsn : Nat) (t : Tid)
  | replayDelete (t : Tid)
  | maintenance (compact : Bool)
  | checkpoint (save : SaveEnd) (slotAdvanced : Bool)
  | evict
  | forceHeapRebuild
  | crash

def step (s : Life V) : Event V → Life V
  | .build rows => buildIndex rows
  | .load k rows built save => loadIndex k rows built save s
  | .insert first k t v => onEntry (insertPoint first k t v) s
  | .delete p ids => onEntry (deletePoints p ids) s
  | .replayInsert k lsn t => onEntry (replayInsert k lsn t) s
  | .replayDelete t => onEntry (replayDelete t) s
  | .maintenance compact => maintain compact s
  | .checkpoint save slotAdvanced => performCheckpoint save slotAdvanced s
  | .evict => { s with cache := none }
  | .forceHeapRebuild => { s with cache := none, disk := vamanaDeleteSaveDir s.disk }
  | .crash => { s with cache := none }

/-! ## What a save leaves on disk -/

def marked (c : IndexCache V) (m : MetaPage) : MetaPage :=
  { writeMetaPageDynamic c m with hasSavedIndex := true }

/-- The save got as far as the graph and not as far as the metapage. -/
def SaveEnd.Torn (save : SaveEnd) (c : IndexCache V) : Prop :=
  match save with
  | .cut x => AfterGraphBeforeMetaPage c x
  | _ => False

theorem writesUpTo_early (c : IndexCache V) (d : Disk V) {k : Nat} (hk : k < 2) :
    (writesUpTo c d k).disk.dir.bind (·.graph) = d.dir.bind (·.graph) ∧
      (writesUpTo c d k).disk.dir.bind (·.tidmap) = d.dir.bind (·.tidmap) := by
  unfold writesUpTo saveSteps
  rcases k with _ | _ | k
  · exact ⟨rfl, rfl⟩
  · rcases hd : d.dir with _ | dir <;> simp [tracedStep, saveStep, hd]
  · omega

/-- A file after a save: the old one, none, or the new one. -/
def FileAfter (torn : Prop) {α : Type} (old new now : Option α) : Prop :=
  now = old ∨ now = none ∨ torn ∧ now = new

theorem saveDisk_cases (save : SaveEnd) {c : IndexCache V} (d : Disk V)
    (hlen : 0 < c.tidMapping.length) :
    ((saveDisk save c d).metap = marked c d.metap ∧
        (saveDisk save c d).dir.bind (·.graph) = c.svsIndex ∧
        (saveDisk save c d).dir.bind (·.tidmap) = some c.tidMapping) ∨
      ((saveDisk save c d).metap = d.metap ∧
        FileAfter (save.Torn c) (d.dir.bind (·.graph)) c.svsIndex
          ((saveDisk save c d).dir.bind (·.graph)) ∧
        FileAfter (save.Torn c) (d.dir.bind (·.tidmap)) (some c.tidMapping)
          ((saveDisk save c d).dir.bind (·.tidmap))) := by
  have hst : (saveSteps c).length = 7 := by rw [length_saveSteps, if_pos hlen]
  -- the writes up to `k`, all of them or not
  have hw : ∀ k, 2 ≤ k → (writesUpTo c d k).disk.dir.bind (·.tidmap) =
      if 6 ≤ k then some c.tidMapping else d.dir.bind (·.tidmap) := by
    intro k hk
    rw [(writesUpTo_dir c d hk).2]
    unfold tidmapAfter
    simp [hlen]
  have hall : ∀ k, 7 ≤ k → (writesUpTo c d k).disk.metap = marked c d.metap ∧
      (writesUpTo c d k).disk.dir.bind (·.graph) = c.svsIndex ∧
      (writesUpTo c d k).disk.dir.bind (·.tidmap) = some c.tidMapping := by
    intro k hk
    refine ⟨?_, (writesUpTo_dir c d (by omega)).1, ?_⟩
    · rw [(writesUpTo_metap c d k).2, if_pos (by omega)]
      rfl
    · rw [hw k (by omega), if_pos (by omega)]
  have hs : ∀ (torn : Prop) k, k < 7 → (2 ≤ k → torn) →
      (writesUpTo c d k).disk.metap = d.metap ∧
      FileAfter torn (d.dir.bind (·.graph)) c.svsIndex
        ((writesUpTo c d k).disk.dir.bind (·.graph)) ∧
      FileAfter torn (d.dir.bind (·.tidmap)) (some c.tidMapping)
        ((writesUpTo c d k).disk.dir.bind (·.tidmap)) := by
    intro torn k hk ht
    refine ⟨by rw [(writesUpTo_metap c d k).2, if_neg (by omega)], ?_⟩
    by_cases h2 : 2 ≤ k
    · refine ⟨.inr (.inr ⟨ht h2, (writesUpTo_dir c d h2).1⟩), ?_⟩
      rw [hw k h2]
      split
      · exact .inr (.inr ⟨ht h2, rfl⟩)
      · exact .inl rfl
    · obtain ⟨hg, hm⟩ := writesUpTo_early c d (Nat.lt_of_not_le h2)
      exact ⟨.inl hg, .inl hm⟩
  cases save with
  | done =>
    refine .inl ⟨save_metap c d, ?_, ?_⟩
    · simp [saveDisk, save_dir c d hlen]
    · simp [saveDisk, save_dir c d hlen]
  | notReached => exact .inr ⟨rfl, .inl rfl, .inl rfl⟩
  | cut x =>
    cases x with
    | crash k =>
      by_cases hk : 7 ≤ k
      · exact .inl (hall k hk)
      · refine .inr (hs _ k (by omega) fun h2 => ?_)
        exact ⟨h2, by omega⟩
    | error k =>
      rcases Nat.lt_or_ge (k + 1) (saveSteps c).length with hlt | hge
      · -- the handler deletes the directory
        have hget : (saveSteps c)[k]? = some (saveSteps c)[k] :=
          List.getElem?_eq_getElem (by omega)
        have hne : (saveSteps c)[k] ≠ .markIndexSaved := by
          intro heq
          have := (saveSteps_last_iff c k).mp (by rw [hget, heq])
          omega
        have hcut : (cutShort c d (.error k)).disk =
            vamanaDeleteSaveDir (writesUpTo c d k).disk := by
          simp only [cutShort, hget]
        refine .inr ?_
        simp only [saveDisk, hcut]
        refine ⟨(hs True k (by omega) fun _ => trivial).1, .inr (.inl rfl), .inr (.inl rfl)⟩
      · simp only [saveDisk, cutShort_error c d hge]
        by_cases hk : 7 ≤ k
        · exact .inl (hall k hk)
        · refine .inr (hs _ k (by omega) fun _ => ?_)
          show k + 1 = (saveSteps c).length
          omega

end svs_vamana.index_life
