-- A checkpoint that is cut short: what a later load reads is one save's work unless the cut fell
-- between the graph and the metapage.
import SvsVamana.SavedIndex

namespace svs_vamana.checkpoint_crash

open index_cache saved_index

variable {V : Type}

/-! ## The pure model -/

/-- The save a file or the metapage was written by: the last one, or the one cut short. -/
inductive Save
  | last
  | this
deriving DecidableEq, Repr

/-- The disk together with the save each part of the triple on it comes from. -/
structure Traced (V : Type) where
  disk : Disk V
  graph : Save
  tidmap : Save
  metap : Save

def tracedStep (c : IndexCache V) (r : Traced V) (s : SaveStep) : Traced V where
  disk := saveStep c r.disk s
  graph := if s = .svsSaveIndex then .this else r.graph
  tidmap := if s = .durableRename then .this else r.tidmap
  metap := if s = .markIndexSaved then .this else r.metap

/-- The first `k` writes of the save, over a disk that the last save wrote. -/
def writesUpTo (c : IndexCache V) (d : Disk V) (k : Nat) : Traced V :=
  ((saveSteps c).take k).foldl (tracedStep c) ⟨d, .last, .last, .last⟩

/-- How a checkpoint ends early. -/
inductive Cut
  /-- The server stops after `k` writes. -/
  | crash (k : Nat)
  /-- The write after the first `k` raises an error; past the last write, it is the slot
  advance that does. -/
  | error (k : Nat)
deriving DecidableEq, Repr

/-- The disk a cut leaves. The handler of `VamanaSaveIndexToDisk` deletes the directory,
and `VamanaMarkIndexSaved` runs after the block it guards. -/
def cutShort (c : IndexCache V) (d : Disk V) : Cut → Traced V
  | .crash k => writesUpTo c d k
  | .error k =>
    let r := writesUpTo c d k
    match (saveSteps c)[k]? with
    | none => r
    | some .markIndexSaved => r
    | some _ => { r with disk := vamanaDeleteSaveDir r.disk }

/-- When a load takes what it finds, the graph, the metapage and (if the metapage has room
for it) the TID map come from one save. -/
def ReadsOneSave (k : LoadCalls) (r : Traced V) : Prop :=
  ∀ c, (loadIndexFromPages k r.disk).2 = .loaded c →
    r.metap = r.graph ∧ (r.disk.metap.tidMappingCapacity > 0 → r.tidmap = r.graph)

/-- The cut falls after the graph was written and before the metapage is. -/
def AfterGraphBeforeMetaPage (c : IndexCache V) : Cut → Prop
  | .crash k => 2 ≤ k ∧ k < (saveSteps c).length
  | .error k => k + 1 = (saveSteps c).length

def Cut.writes : Cut → Nat
  | .crash k => k
  | .error k => k

/-- The TID map in the directory once the graph was written: the new one after the rename. -/
def tidmapAfter (c : IndexCache V) (d : Disk V) (k : Nat) : Option (List (Option Tid)) :=
  if 6 ≤ k ∧ c.tidMapping.length > 0 then some c.tidMapping else d.dir.bind (·.tidmap)

def Readable (k : LoadCalls) (metap : MetaPage) (tidmap : Option (List (Option Tid))) : Prop :=
  k.Pass metap ∧ metap.hasSavedIndex = true ∧
  (metap.tidMappingCapacity > 0 → ∃ m, tidmap = some m ∧ m.length ≤ metap.tidMappingCapacity)

/-! ## What the writes leave -/

theorem length_saveSteps (c : IndexCache V) :
    (saveSteps c).length = if c.tidMapping.length > 0 then 7 else 3 := by
  unfold saveSteps saveTidMapSteps
  split <;> rfl

variable (c : IndexCache V) (d : Disk V)

theorem writesUpTo_graph (k : Nat) : (writesUpTo c d k).graph = if 2 ≤ k then .this else .last := by
  unfold writesUpTo saveSteps saveTidMapSteps
  split <;> rcases k with _ | _ | _ | _ | _ | _ | _ | k <;> simp [tracedStep]

theorem writesUpTo_tidmap (k : Nat) :
    (writesUpTo c d k).tidmap = if 6 ≤ k ∧ c.tidMapping.length > 0 then .this else .last := by
  unfold writesUpTo saveSteps saveTidMapSteps
  split
  · rename_i h
    rcases k with _ | _ | _ | _ | _ | _ | _ | k <;> simp [tracedStep, h]
  · rename_i h
    rcases k with _ | _ | _ | _ | _ | _ | _ | k <;> simp [tracedStep, h]

theorem writesUpTo_metap (k : Nat) :
    (writesUpTo c d k).metap = (if (saveSteps c).length ≤ k then .this else .last) ∧
    (writesUpTo c d k).disk.metap = if (saveSteps c).length ≤ k then
      { writeMetaPageDynamic c d.metap with hasSavedIndex := true } else d.metap := by
  unfold writesUpTo saveSteps saveTidMapSteps
  split
  · rcases hd : d.dir with _ | dir <;> rcases k with _ | _ | _ | _ | _ | _ | _ | k <;>
      simp [tracedStep, saveStep, inDir, hd, writeMetaPageDynamic]
  · rcases hd : d.dir with _ | dir <;> rcases k with _ | _ | _ | k <;>
      simp [tracedStep, saveStep, inDir, hd, writeMetaPageDynamic]

variable {k : Nat}

theorem writesUpTo_dir (hk : 2 ≤ k) :
    (writesUpTo c d k).disk.dir.bind (·.graph) = c.svsIndex ∧
    (writesUpTo c d k).disk.dir.bind (·.tidmap) = tidmapAfter c d k := by
  obtain ⟨k, rfl⟩ := Nat.exists_eq_add_of_le' hk
  unfold writesUpTo saveSteps saveTidMapSteps tidmapAfter
  split
  · rename_i h
    rcases hd : d.dir with _ | dir <;> rcases k with _ | _ | _ | _ | _ | k <;>
      simp [tracedStep, saveStep, inDir, hd, h]
  · rename_i h
    rcases hd : d.dir with _ | dir <;> rcases k with _ | k <;>
      simp [tracedStep, saveStep, inDir, hd, h]

theorem loaded_iff_pass_and_copy (k : LoadCalls) (d : Disk V) :
    (∃ c, (loadIndexFromPages k d).2 = .loaded c) ↔ k.Pass d.metap ∧ (diskCopy d).isSome := by
  constructor
  · rintro ⟨c, hc⟩
    obtain ⟨hp, g, m, hco, -⟩ := (load_eq_loaded_iff k d c).mp hc
    exact ⟨hp, by simp [hco]⟩
  · rintro ⟨hp, hs⟩
    obtain ⟨⟨g, m⟩, hco⟩ := Option.isSome_iff_exists.mp hs
    exact ⟨_, (load_eq_loaded_iff k d _).mpr ⟨hp, g, m, hco, rfl⟩⟩

variable {c : IndexCache V}

/-- Between the graph and the metapage, a load takes what it finds when the metapage of the
last save lets it. -/
theorem loaded_inside_iff (kc : LoadCalls) (d : Disk V)
    (hg : c.svsIndex.isSome) (hk : 2 ≤ k) (hlt : k < (saveSteps c).length) :
    (∃ e, (loadIndexFromPages kc (writesUpTo c d k).disk).2 = .loaded e) ↔
      Readable kc d.metap (tidmapAfter c d k) := by
  have hm : (writesUpTo c d k).disk.metap = d.metap := by
    rw [(writesUpTo_metap c d k).2, if_neg (by omega)]
  obtain ⟨hgr, htid⟩ := writesUpTo_dir c d hk
  rw [loaded_iff_pass_and_copy, diskCopy_isSome_iff, hm, hgr, htid]
  simp [Readable, hg]

theorem readsOneSave_writesUpTo (kc : LoadCalls) (d : Disk V) (k : Nat) (hg : c.svsIndex.isSome) :
    ReadsOneSave kc (writesUpTo c d k) ↔
      ¬ (2 ≤ k ∧ k < (saveSteps c).length ∧ Readable kc d.metap (tidmapAfter c d k)) := by
  unfold ReadsOneSave
  have hgr := writesUpTo_graph c d k
  have htid := writesUpTo_tidmap c d k
  obtain ⟨hby, hm⟩ := writesUpTo_metap c d k
  have hlen := length_saveSteps c
  by_cases hk : 2 ≤ k
  · by_cases hlt : k < (saveSteps c).length
    · -- the graph is new and the metapage old: only a load that takes nothing is right
      rw [hgr, hby, if_pos hk, if_neg (by omega)]
      have hl := loaded_inside_iff kc d hg hk hlt
      constructor
      · rintro h ⟨-, -, hr⟩
        obtain ⟨e, he⟩ := hl.mpr hr
        exact absurd (h e he).1 (by simp)
      · intro h e he
        exact absurd ⟨hk, hlt, hl.mp ⟨e, he⟩⟩ h
    · -- all three are new
      refine ⟨fun _ h => hlt h.2.1, fun _ e _ => ?_⟩
      rw [hgr, hby, htid, hm, if_pos hk, if_pos (by omega), if_pos (by omega)]
      refine ⟨rfl, fun hcap => ?_⟩
      have hcap : c.tidMapping.length > 0 := hcap
      rw [if_pos hcap] at hlen
      rw [if_pos ⟨by omega, hcap⟩]
  · -- nothing was written yet
    refine ⟨fun _ h => hk h.1, fun _ e _ => ?_⟩
    rw [hgr, hby, htid, if_neg hk, if_neg (by rw [hlen]; split <;> omega), if_neg (by omega)]
    exact ⟨rfl, fun _ => rfl⟩

theorem saveSteps_last_iff (c : IndexCache V) (k : Nat) :
    (saveSteps c)[k]? = some .markIndexSaved ↔ k + 1 = (saveSteps c).length := by
  unfold saveSteps saveTidMapSteps
  split
  · rcases k with _ | _ | _ | _ | _ | _ | _ | k <;> simp
  · rcases k with _ | _ | _ | k <;> simp

/-- An error in a write that the handler guards leaves no copy to load. -/
theorem guarded_error_leaves_no_copy (kc : LoadCalls) (c : IndexCache V) (d : Disk V)
    (h : k + 1 < (saveSteps c).length) : ReadsOneSave kc (cutShort c d (.error k)) := by
  have hget : (saveSteps c)[k]? = some (saveSteps c)[k] := List.getElem?_eq_getElem (by omega)
  have hne : (saveSteps c)[k] ≠ .markIndexSaved := by
    intro heq
    have := (saveSteps_last_iff c k).mp (by rw [hget, heq])
    omega
  have hcut : (cutShort c d (.error k)).disk.dir = none := by
    simp only [cutShort, hget]
    rfl
  intro e he
  obtain ⟨-, g, m, hc, -⟩ := (load_eq_loaded_iff kc _ e).mp he
  rw [diskCopy, hcut] at hc
  simp at hc

theorem cutShort_error (c : IndexCache V) (d : Disk V)
    (h : (saveSteps c).length ≤ k + 1) : cutShort c d (.error k) = writesUpTo c d k := by
  rcases Nat.lt_or_ge (k + 1) (saveSteps c).length.succ with hlt | hge
  · have hl : (saveSteps c)[k]? = some .markIndexSaved :=
      (saveSteps_last_iff c k).mpr (by omega)
    simp only [cutShort, hl]
  · have hn : (saveSteps c)[k]? = none := List.getElem?_eq_none (by omega)
    simp only [cutShort, hn]

/-! ## The laws -/

/-- An index that was saved with one row and has taken a second one since. Each insert
writes the counters of the metapage, so the metapage is ahead of the files. -/
def oneRowSaved : Disk Nat where
  dir := some ⟨some ⟨fun e => if e = 0 then some 10 else none⟩, some [some ⟨0, 1⟩], none⟩
  metap := ⟨true, 2, 2, 0, 2⟩

def twoRows : IndexCache Nat :=
  vamanaCacheIndex (some ⟨fun e => if e = 0 then some 10 else if e = 1 then some 20 else none⟩)
    [some ⟨0, 1⟩, some ⟨0, 2⟩] 2 2 0

end svs_vamana.checkpoint_crash
