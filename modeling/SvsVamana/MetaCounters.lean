-- The counters of the metapage over the life of an index: where they pass the checks that a load
-- makes, and how a delete that is counted twice takes them past those.
import SvsVamana.IndexLife

namespace svs_vamana.meta_counters

open transition_runs index_cache saved_index write_slot replay checkpoint_crash index_life
open tid_maps hiding Event step

variable {V : Type}

/-! ## The checks -/

theorem validate_iff (m : MetaPage) :
    vamanaValidateMetaCounts m none = true ↔
      m.tidMappingCapacity ≤ maxTidMappingCapacity ∧ m.numVectors ≤ m.tidMappingCapacity ∧
        m.numDeleted ≤ m.tidMappingCapacity ∧
        (0 < m.tidMappingCapacity → m.nextExternalId ≤ m.tidMappingCapacity) := by
  unfold vamanaValidateMetaCounts
  simp only [Bool.and_true, Bool.and_eq_true, Bool.not_eq_true', Bool.or_eq_false_iff,
    decide_eq_false_iff_not, Nat.not_lt, Bool.and_eq_false_imp, decide_eq_true_eq, gt_iff_lt]
  constructor
  · rintro ⟨⟨⟨h1, -⟩, -⟩, ⟨h4, h5⟩, h6⟩
    exact ⟨h1, h4, h5, h6⟩
  · rintro ⟨h1, h2, h3, h4⟩
    exact ⟨⟨⟨h1, by omega⟩, by omega⟩, ⟨h2, h3⟩, h4⟩

theorem validate_budget {m : MetaPage} {budget : Nat} (h : vamanaValidateMetaCounts m none = true)
    (hb : m.tidMappingCapacity * itemPointerSize ≤ budget) :
    vamanaValidateMetaCounts m (some budget) = true := by
  unfold vamanaValidateMetaCounts at h ⊢
  rw [Bool.and_true] at h
  rw [h, Bool.true_and, Bool.not_eq_true', decide_eq_false_iff_not]
  omega

/-! ## The condition -/

/-- The metapage counts no delete of a point that the saved TID map still has, and all ids are below
`nextExternalId`. -/
def CopyInStep (d : Disk V) : Prop :=
  ∀ x ∈ diskCopy d,
    d.metap.numDeleted + x.2.countP Option.isSome ≤ d.metap.nextExternalId ∧
      (x.2.drop d.metap.nextExternalId).all Option.isNone = true

/-- The TID map, grown for the next id, has no more slots than an `int` can count. -/
def GrowthFits (s : Life V) : Prop :=
  ∀ c ∈ s.cache, (growTidMapping c.tidMapping c.nextExternalId).length ≤ maxTidMappingCapacity

/-- Loads find the metapage in step with the copy, and a budget that the TID map fits into;
deletes name mapped points, each of them once; and no TID map outgrows its counter. -/
def InStep (s : Life V) : Event V → Prop
  | .build rows => rows.length ≤ maxTidMappingCapacity
  | .load k rows _ _ =>
    s.cache.isNone → CopyInStep s.disk ∧ rows.length ≤ maxTidMappingCapacity ∧
      s.disk.metap.tidMappingCapacity * itemPointerSize ≤ k.residencyBudget
  | .insert _ _ _ _ => GrowthFits s
  | .replayInsert _ _ _ => GrowthFits s
  | .delete _ ids =>
    ∀ c ∈ s.cache, (∀ e ∈ ids, (c.point e).isSome) →
      ids.Nodup ∧ ∀ e ∈ ids, (c.tidOf e).isSome
  | _ => True

deriving instance Decidable for CopyInStep

deriving instance Decidable for GrowthFits

instance InStep.decidable (s : Life V) : ∀ e, Decidable (InStep s e) := by
  intro e
  cases e <;> unfold InStep <;> infer_instance

/-! ## The counters of an entry -/

/-- The deleted and the counted points together have had at most the ids given out, the
mapped ones are counted, and the TID map has a slot for every id. -/
structure Counted (c : IndexCache V) : Prop where
  sum : c.numDeleted + c.numVectors ≤ c.nextExternalId
  entries : validEntries c ≤ c.numVectors
  room : c.nextExternalId ≤ c.tidMapping.length
  fits : c.tidMapping.length ≤ maxTidMappingCapacity
  slots : 0 < c.tidMapping.length
  reverse : ∀ t e, c.eidOf t = some e → c.tidOf e = some t
  free : ∀ e, c.nextExternalId ≤ e → c.tidOf e = none

/-- An entry without a graph has deleted nothing. -/
structure EntryOk (c : IndexCache V) : Prop where
  empty : c.svsIndex = none → c.numDeleted = 0 ∧ c.tidToExternalId = none
  counted : c.svsIndex.isSome → Counted c

/-- The metapage passes the checks that need no budget, and it has room for a TID map when it
says that there is a copy. -/
def MetaOk (m : MetaPage) : Prop :=
  vamanaValidateMetaCounts m none = true ∧ (m.hasSavedIndex = true → 0 < m.tidMappingCapacity)

structure Ok (s : Life V) : Prop where
  entry : ∀ c, s.cache = some c → EntryOk c
  metap : MetaOk s.disk.metap

variable {c c' : IndexCache V} {s : Life V}

theorem Ok.absent (hn : s.cache = none) (h : MetaOk s.disk.metap) : Ok s := by
  refine ⟨fun c hc => ?_, h⟩
  rw [hn] at hc
  cases hc

theorem Counted.congr (h : Counted c) (hm : c'.tidMapping = c.tidMapping)
    (ht : c'.tidToExternalId = c.tidToExternalId) (hx : c'.nextExternalId = c.nextExternalId)
    (hn : c'.numVectors = c.numVectors) (hd : c'.numDeleted ≤ c.numDeleted) : Counted c' := by
  have htid : ∀ e, c'.tidOf e = c.tidOf e := fun e => by
    unfold IndexCache.tidOf
    rw [hm]
  have hsum := h.sum
  refine ⟨by omega, ?_, by rw [hx, hm]; exact h.room, by rw [hm]; exact h.fits,
    by rw [hm]; exact h.slots, fun t e he => ?_, fun e he => ?_⟩
  · unfold validEntries
    rw [hm, hn]
    exact h.entries
  · rw [htid]
    apply h.reverse
    unfold IndexCache.eidOf at he ⊢
    rw [← ht]
    exact he
  · rw [htid]
    exact h.free e (hx ▸ he)

theorem EntryOk.alike (h : EntryOk c) (ha : Alike c c') : EntryOk c' := by
  refine ⟨fun hg => ?_, fun hg => ?_⟩
  · rw [ha.numDeleted, ha.tidToExternalId]
    exact h.empty (ha.svsIndex ▸ hg)
  · exact (h.counted (ha.svsIndex ▸ hg)).congr ha.tidMapping ha.tidToExternalId ha.nextExternalId
      ha.numVectors (Nat.le_of_eq ha.numDeleted)

theorem Counted.entryOk (h : Counted c) (hg : c.svsIndex.isSome) : EntryOk c := by
  refine ⟨fun hn => ?_, fun _ => h⟩
  rw [hn] at hg
  cases hg

theorem Counted.metaOk (h : Counted c) (m : MetaPage) : MetaOk (writeMetaPageDynamic c m) := by
  have hsum := h.sum
  have hr := h.room
  refine ⟨(validate_iff _).mpr ⟨h.fits, ?_, ?_, fun _ => hr⟩, fun _ => h.slots⟩
  · show c.numVectors ≤ c.tidMapping.length
    omega
  · show c.numDeleted ≤ c.tidMapping.length
    omega

/-! ## Each change of an entry -/

theorem Counted.mapNewPoint (h : Counted c) (g : SvsIndex V) (t : Tid)
    (hg : (growTidMapping c.tidMapping c.nextExternalId).length ≤ maxTidMappingCapacity) :
    Counted (index_cache.mapNewPoint c g t c.nextExternalId) := by
  have hf := h.free _ (Nat.le_refl _)
  have hlt := lt_growTidMapping_length c.tidMapping c.nextExternalId
  have hen := validEntries_mapNewPoint g t hf
  have hsum := h.sum
  have hc := h.entries
  have hs : (index_cache.mapNewPoint c g t c.nextExternalId).tidMapping.length =
      (growTidMapping c.tidMapping c.nextExternalId).length := List.length_set
  refine ⟨?_, ?_, ?_, by rw [hs]; exact hg, by rw [hs]; omega,
    fun t' e he => IndexCache.reverse_mapNewPoint g t h.reverse hf he,
    fun e he => IndexCache.free_mapNewPoint g t h.free he⟩
  · show c.numDeleted + (c.numVectors + 1) ≤ c.nextExternalId + 1
    omega
  · show validEntries (index_cache.mapNewPoint c g t c.nextExternalId) ≤ c.numVectors + 1
    omega
  · show c.nextExternalId + 1 ≤ (index_cache.mapNewPoint c g t c.nextExternalId).tidMapping.length
    omega

theorem counted_buildFirstInsert (t : Tid) (v : V) (hd : c.numDeleted = 0)
    (ht : c.tidToExternalId = none) : Counted (buildFirstInsert t v c) := by
  have hinv := inv_buildFirstInsert t v ht
  have hs : (buildFirstInsert t v c).tidMapping.length = 1024 := by
    rw [buildFirstInsert, List.length_cons, List.length_replicate]
  refine ⟨?_, Nat.le_of_eq hinv.count.symm, ?_, ?_, ?_, fun t' e => (hinv.inverse t' e).mp,
    hinv.free⟩
  · show c.numDeleted + 1 ≤ 1
    omega
  · rw [hs]
    exact Nat.le_add_left 1 1023
  · rw [hs]
    decide
  · rw [hs]
    decide

theorem EntryOk.inserted {strays refuses : Prop} {t : Tid} (h : EntryOk c)
    (hgr : (growTidMapping c.tidMapping c.nextExternalId).length ≤ maxTidMappingCapacity)
    (hins : Inserted strays refuses t c c') : EntryOk c' := by
  cases hins with
  | kept ha => exact h.alike ha
  | stray _ g hg v ha =>
    have hc : Counted { c with svsIndex := some (withPoint g c.nextExternalId v) } :=
      (h.counted (by simp [hg])).congr rfl rfl rfl rfl (Nat.le_refl _)
    exact (hc.entryOk rfl).alike ha
  | added g hg v ha =>
    have hc := (h.counted (by simp [hg])).mapNewPoint (withPoint g c.nextExternalId v) t hgr
    exact (hc.entryOk rfl).alike ha
  | first hg v ha =>
    obtain ⟨hd, ht⟩ := h.empty hg
    exact ((counted_buildFirstInsert t v hd ht).entryOk rfl).alike ha
  | refused _ hg ha =>
    have hem : EntryOk { c with numVectors := 1 } :=
      ⟨fun _ => h.empty hg, fun hs => by simp [hg] at hs⟩
    exact hem.alike ha

theorem Counted.fewer (h : Counted c) {ids : List Nat}
    (htid : ∀ e, c'.tidOf e = if e ∈ ids then none else c.tidOf e)
    (heid : ∀ t, c'.eidOf t = if ids.any (fun e => c.tidOf e == some t) then none else c.eidOf t)
    (hen : validEntries c' + ids.length = validEntries c)
    (hd : c'.numDeleted = c.numDeleted + ids.length)
    (hn : c'.numVectors = c.numVectors - ids.length) (hne : c'.nextExternalId = c.nextExternalId)
    (hs : c'.tidMapping.length = c.tidMapping.length) : Counted c' := by
  have hsum := h.sum
  have hc := h.entries
  refine ⟨by omega, by omega, by rw [hne, hs]; exact h.room, by rw [hs]; exact h.fits,
    by rw [hs]; exact h.slots, fun t e he => reverse_of_forgotten h.reverse htid heid he,
    fun e he => ?_⟩
  rw [htid, h.free e (hne ▸ he)]
  exact ite_self _

theorem EntryOk.removed {ids : List Nat} (h : EntryOk c) (hr : tid_maps.Removed ids c c')
    (hn : ids.Nodup) (hm : ∀ e ∈ ids, (c.tidOf e).isSome) : EntryOk c' :=
  ((h.counted hr.had_graph).fewer hr.tidOf hr.eidOf (hr.entries hn hm) hr.numDeleted
    hr.numVectors hr.next hr.slots).entryOk hr.graph

/-- A replayed delete finds its point through the reverse map, so the point is mapped. -/
theorem EntryOk.unmapped {t : Tid} {e : Nat} (h : EntryOk c) (hu : Unmapped t e c c') :
    EntryOk c' := by
  have hc := h.counted hu.graph
  have hmap := hc.reverse t e hu.found
  have hcl := countP_clear hmap
  have hid : ∀ i, c'.tidOf i = if i ∈ [e] then none else c.tidOf i := by simpa using hu.tidOf
  refine (hc.fewer hid (fun t' => ?_) ?_ hu.numDeleted hu.numVectors hu.next ?_).entryOk hu.graph'
  · rw [hu.eidOf, List.any_cons, List.any_nil, Bool.or_false, hmap]
    by_cases ht : t' = t
    · simp [ht]
    · simp [ht, Ne.symm ht]
  · unfold validEntries
    rw [hu.tidMapping]
    exact hcl
  · rw [hu.tidMapping, List.length_set]

/-! ## Each step -/

theorem Ok.onEntry (h : Ok s) {f : Resident V → Resident V}
    (hf : ∀ c, s.cache = some c → EntryOk c → EntryOk (f ⟨c, s.disk.metap⟩).cache ∧
      MetaAfter (f ⟨c, s.disk.metap⟩).cache s.disk.metap (f ⟨c, s.disk.metap⟩).metap) :
    Ok (onEntry f s) := by
  unfold index_life.onEntry
  split
  · exact h
  rename_i c hc
  obtain ⟨hen, hm⟩ := hf c hc (h.entry c hc)
  refine ⟨fun c' hc' => Option.some.inj hc' ▸ hen, ?_⟩
  show MetaOk (f ⟨c, s.disk.metap⟩).metap
  rcases hm with heq | ⟨hg, heq⟩
  · rw [heq]
    exact h.metap
  · rw [heq]
    exact (hen.counted hg).metaOk _

variable {d : Disk V}

theorem metaOk_saveDisk (h : Counted c) (save : SaveEnd) (hd : MetaOk d.metap) :
    MetaOk (saveDisk save c d).metap := by
  rcases saveDisk_cases save d h.slots with ⟨heq, -⟩ | ⟨heq, -⟩
  · rw [heq]
    exact ⟨(h.metaOk d.metap).1, fun _ => h.slots⟩
  · rw [heq]
    exact hd

theorem Ok.afterSave (h : EntryOk c) (save : SaveEnd) (held : Nat → Bool) (hd : MetaOk d.metap) :
    Ok (afterSave save c held d) := by
  refine ⟨fun c' hc' => ?_, hd⟩
  unfold index_life.afterSave at hc'
  split at hc'
  · cases hc'
  · exact Option.some.inj hc' ▸ h

variable {rows : List (Tid × V)}

theorem counted_rebuild (h : vamanaRebuildFromTable rows = some c)
    (hf : rows.length ≤ maxTidMappingCapacity) : Counted c ∧ c.svsIndex.isSome := by
  have hs := IndexCache.Sound.rebuild h
  unfold vamanaRebuildFromTable at h
  split at h
  · cases h
  rename_i hlen
  cases h
  have hmap : (rows.map fun r => some r.1 : List (Option Tid)).length = rows.length :=
    List.length_map _
  refine ⟨⟨?_, ?_, Nat.le_of_eq hmap.symm, ?_, ?_, hs.reverse, hs.free⟩, rfl⟩
  · show 0 + (if _ > 0 then List.countP Option.isSome (rows.map fun r => some r.1) else _) ≤ _
    rw [if_pos (by omega)]
    show 0 + List.countP Option.isSome (rows.map fun r => some r.1) ≤ rows.length
    have := List.countP_le_length (p := Option.isSome)
      (l := (rows.map fun r => some r.1 : List (Option Tid)))
    omega
  · show validEntries _ ≤ if _ > 0 then List.countP Option.isSome (rows.map fun r => some r.1)
      else _
    rw [if_pos (by omega)]
    exact Nat.le_refl _
  · exact hmap ▸ hf
  · show 0 < (rows.map fun r => some r.1 : List (Option Tid)).length
    omega

theorem metaOk_load (k : LoadCalls) (h : MetaOk d.metap) :
    MetaOk (loadIndexFromPages k d).1.metap := by
  rcases loadIndexFromPages_cases k d with ⟨g, m, -, -, hl⟩ | ⟨-, hl | ⟨d', ⟨hm, -⟩, hl⟩⟩
  · rw [hl]
    exact h
  · rw [hl]
    exact h
  · rw [hl]
    rcases hm with heq | heq
    · rw [heq]
      exact h
    · rw [heq]
      exact ⟨h.1, fun hf => by cases hf⟩

theorem counted_load {k : LoadCalls} (hs : CopyInStep d) (hd : MetaOk d.metap)
    (h : (loadIndexFromPages k d).2 = .loaded c) : Counted c ∧ c.svsIndex.isSome := by
  obtain ⟨-, g, m, hc, rfl⟩ := (load_eq_loaded_iff k d c).mp h
  obtain ⟨hco, hh⟩ := hs (g, m) hc
  obtain ⟨hcap, -, -, hn⟩ := (validate_iff d.metap).mp hd.1
  have hr := hd.2 (hasSavedIndex_of_diskCopy hc)
  obtain ⟨-, -, -, -, hlen⟩ := diskCopy_files hc hr
  refine ⟨⟨?_, ?_, ?_, ?_, ?_, fun t e => IndexCache.eidOf_cacheIndex_tid,
    fun e he => unmapped_of_drop hh he⟩, rfl⟩
  · show d.metap.numDeleted + (if m.length > 0 then m.countP Option.isSome else _) ≤ _
    rw [if_pos (by omega)]
    exact hco
  · show m.countP Option.isSome ≤ if m.length > 0 then m.countP Option.isSome else _
    exact Nat.le_of_eq (if_pos (by omega)).symm
  · show d.metap.nextExternalId ≤ m.length
    have := hn hr
    omega
  · show m.length ≤ maxTidMappingCapacity
    omega
  · show 0 < m.length
    omega

theorem Ok.load (h : Ok s) {k : LoadCalls} (built : Bool) (save : SaveEnd)
    (hok : InStep s (.load k rows built save)) : Ok (loadIndex k rows built save s) := by
  unfold loadIndex
  split
  · exact h
  rename_i hn
  obtain ⟨hco, hro, -⟩ := hok (by simp [hn])
  have hm : MetaOk (loadIndexFromPages k s.disk).1.metap := metaOk_load k h.metap
  generalize hl : loadIndexFromPages k s.disk = r at hm
  obtain ⟨d, res⟩ := r
  cases res with
  | loaded c =>
    obtain ⟨hc, hg⟩ := counted_load (k := k) hco h.metap (by rw [hl])
    exact ⟨fun c' hc' => Option.some.inj hc' ▸ hc.entryOk hg, hm⟩
  | error => exact .absent hn hm
  | noCopy =>
    simp only [rebuildFromHeap]
    split
    · exact .absent hn hm
    split
    · refine ⟨fun c' hc' => ?_, hm⟩
      cases hc'
      exact ⟨fun _ => ⟨rfl, rfl⟩, fun hg => by cases hg⟩
    · rename_i c hr
      obtain ⟨hc, hg⟩ := counted_rebuild hr hro
      have hen : EntryOk { c with needsSave := save.failed } :=
        (hc.entryOk hg).alike ⟨⟨rfl, rfl, rfl, rfl⟩, rfl, rfl⟩
      exact Ok.afterSave hen save _ (metaOk_saveDisk hc save hm)

theorem Ok.checkpoint (h : Ok s) (save : SaveEnd) (slotAdvanced : Bool) :
    Ok (performCheckpoint save slotAdvanced s) := by
  unfold performCheckpoint
  split
  · exact h
  rename_i c hc
  have hen := h.entry c hc
  split
  · exact h
  rename_i hs
  have hg : c.svsIndex.isSome := by simpa [← Option.isSome_iff_ne_none] using hs
  have hz : Counted { c with numDeleted := 0 } :=
    (hen.counted hg).congr rfl rfl rfl rfl (Nat.zero_le _)
  have hd := metaOk_saveDisk hz save h.metap
  split
  · exact Ok.afterSave hen save _ hd
  split
  · have hr : EntryOk { c with numDeleted := 0, opsSinceCheckpoint := 0 } :=
      (hz.entryOk hg).alike ⟨⟨rfl, rfl, rfl, rfl⟩, rfl, rfl⟩
    exact Ok.afterSave hr save _ hd
  · exact Ok.afterSave (hz.entryOk hg) save _ hd

theorem Ok.maintain (h : Ok s) (compact : Bool) : Ok (maintain compact s) := by
  unfold index_life.maintain
  split
  · exact h
  rename_i c hc
  have hen := h.entry c hc
  split
  · exact h
  rename_i hs
  have hg : c.svsIndex.isSome := by simpa [← Option.isSome_iff_ne_none] using hs
  refine ⟨fun c' hc' => ?_, h.metap⟩
  cases hc'
  split
  · have hz : Counted { c with numDeleted := 0 } :=
      (hen.counted hg).congr rfl rfl rfl rfl (Nat.zero_le _)
    exact hz.entryOk hg
  · exact hen

theorem ok_build (hro : rows.length ≤ maxTidMappingCapacity) : Ok (buildIndex rows) := by
  have hnew : MetaOk newMetaPage := ⟨rfl, fun h => by cases h⟩
  unfold buildIndex
  split
  · exact .absent rfl hnew
  · rename_i c hr
    refine .absent rfl ?_
    exact metaOk_saveDisk (counted_rebuild hr hro).1 .done (d := ⟨none, newMetaPage⟩) hnew

theorem ok_step (s : Life V) (e : Event V) (h : Ok s) (hok : InStep s e) : Ok (step s e) := by
  cases e with
  | build rows => exact ok_build hok
  | load k rows built save => exact h.load built save hok
  | insert first k t v =>
    refine h.onEntry fun c hc hen => ?_
    obtain ⟨hm, hins⟩ := inserted_insertPoint first k t v ⟨c, s.disk.metap⟩
    exact ⟨hen.inserted (hok c hc) hins, hm⟩
  | delete p ids =>
    refine h.onEntry fun c hc hen => ?_
    rcases deletePoints_cases p ids ⟨c, s.disk.metap⟩ with heq | ⟨hm, hdel⟩
    · rw [heq]
      exact ⟨hen, .inl rfl⟩
    · obtain ⟨hn, hma⟩ := hok c hc hdel.valid
      exact ⟨hen.removed hdel hn hma, hm⟩
  | replayInsert k lsn t =>
    refine h.onEntry fun c hc hen => ?_
    exact ⟨hen.inserted (hok c hc) (inserted_replayInsert k lsn t c), .inl rfl⟩
  | replayDelete t =>
    refine h.onEntry fun c hc hen => ?_
    rcases happ : applyDeleteChange t c with _ | c'
    · exact ⟨by simpa [replayDelete, happ] using hen, .inl rfl⟩
    · obtain ⟨e, hu⟩ := applyDeleteChange_some happ
      exact ⟨by simpa [replayDelete, happ] using hen.unmapped hu, .inl rfl⟩
  | maintenance compact => exact h.maintain compact
  | checkpoint save slotAdvanced => exact h.checkpoint save slotAdvanced
  | evict | forceHeapRebuild | crash => exact .absent rfl h.metap

/-! ## The law -/

/-- A load that reads the metapage is not turned away by its counters. -/
def Accepted (s : Life V) : Event V → Prop
  | .load k _ _ _ =>
    s.cache.isNone → vamanaValidateMetaCounts s.disk.metap (some k.residencyBudget) = true
  | _ => True

theorem accepted_of_ok (s : Life V) (e : Event V) (h : Ok s) (hok : InStep s e) : Accepted s e := by
  cases e with
  | load k rows built save =>
    intro hn
    exact validate_budget h.metap.1 (hok hn).2.2
  | _ => trivial

/-- In every run of an index whose steps are in step, the counters on the metapage pass the
checks of the code in every state and at every load. -/
theorem counters_in_step_are_accepted (es : List (Event V)) (hok : EachStep step InStep newIndex es) :
    EachState step (fun s => vamanaValidateMetaCounts s.disk.metap none = true) newIndex es ∧
      EachStep step Accepted newIndex es := by
  have hnew : Ok (newIndex : Life V) := .absent rfl ⟨rfl, fun hf => by cases hf⟩
  exact ⟨eachState_invariant Ok ok_step (fun _ h => h.metap.1) hnew hok,
    eachStep_invariant Ok ok_step accepted_of_ok hnew hok⟩

/-- The rows of the runs below, and calls that all go through. -/
def rowAt (i : Nat) : Tid := ⟨0, i⟩

def fourRows : List (Tid × Nat) := [(rowAt 1, 10), (rowAt 2, 20), (rowAt 3, 30), (rowAt 4, 40)]

def loads : LoadCalls := ⟨1000, true, false⟩

def reload : Event Nat := .load loads [] true .done

/-- Three of four rows are deleted and checkpointed; after a crash the index is written to,
compacted and loaded again. -/
theorem a_checkpointed_index_is_accepted :
    EachState step (fun s => vamanaValidateMetaCounts s.disk.metap none = true) newIndex
        [.build fourRows, reload, .delete .written [0, 1, 2], .checkpoint .done true, .crash, reload,
          .delete .skipped [3], .maintenance true, .evict, reload] ∧
      EachStep step Accepted newIndex
        [.build fourRows, reload, .delete .written [0, 1, 2], .checkpoint .done true, .crash, reload,
          .delete .skipped [3], .maintenance true, .evict, reload] :=
  counters_in_step_are_accepted _ (by decide +kernel)

/-- Three of four rows are deleted before a crash: the load takes the deletes from the metapage and
the rows from the files, and the replay counts the deletes again. -/
theorem a_delete_counted_twice_is_rejected :
    let s : Life Nat := run step newIndex
      [.build fourRows, reload, .delete .written [0, 1, 2], .crash, reload, .replayDelete (rowAt 1),
        .replayDelete (rowAt 2), .replayDelete (rowAt 3), .delete .written [3], .crash]
    s.disk.metap = ⟨true, 0, 4, 7, 4⟩ ∧ ¬ Accepted s reload := by
  intro s
  refine ⟨by decide +kernel, fun h => ?_⟩
  exact absurd (h (by decide +kernel)) (by decide +kernel)

end svs_vamana.meta_counters
