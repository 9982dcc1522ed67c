-- The external ids of an index over its life: where `nextExternalId` stays above every id in use,
-- and how a torn save gives an id out twice.
import SvsVamana.MetaCounters

namespace svs_vamana.external_ids

open transition_runs index_cache saved_index write_slot replay checkpoint_crash index_life
open meta_counters (rowAt fourRows reload)
open tid_maps hiding Event step

variable {V : Type} {s : Life V} {c c' : IndexCache V} {held : Nat → Bool} {d : Disk V}

/-! ## The claim on an entry and the condition -/

/-- Every id of the graph, valid or deleted, and of the TID map is below the next one. -/
def Fresh (s : Life V) : Prop :=
  ∀ c ∈ s.cache, ∀ e, s.held e = true ∨ (c.tidOf e).isSome → e < c.nextExternalId

/-- A save that leaves new files under an old metapage leaves them under a `nextExternalId`
that is as high as the entry's. -/
def TornSafely (save : SaveEnd) (c : IndexCache V) (m : MetaPage) : Prop :=
  save.Torn c → m.hasSavedIndex = true → c.nextExternalId ≤ m.nextExternalId

/-- No error comes between `SVSAddPoints` and the id that it takes, and saves are torn safely. -/
def Safe (s : Life V) : Event V → Prop
  | .insert _ k _ _ => k.added = true → k.reanchored = true
  | .load _ rows _ save =>
    ∀ c ∈ vamanaRebuildFromTable rows, TornSafely save c s.disk.metap
  | .checkpoint save _ => ∀ c ∈ s.cache, TornSafely save c s.disk.metap
  | _ => True

/-! ## What is kept -/

/-- The ids of an entry; without a graph there are none. -/
structure Ids (c : IndexCache V) (held : Nat → Bool) : Prop where
  fresh : ∀ e, held e = true ∨ (c.tidOf e).isSome → e < c.nextExternalId
  within : ∀ e, (c.point e).isSome → held e = true
  slots : c.svsIndex.isSome → 0 < c.tidMapping.length
  bare : c.svsIndex = none → c.nextExternalId = 0

/-- The ids in the files are below `n`. -/
structure Below (dir : Option (SaveDir V)) (n : Nat) : Prop where
  graph : ∀ g, dir.bind (·.graph) = some g → ∀ e, (g.point e).isSome → e < n
  tidmap : ∀ m, dir.bind (·.tidmap) = some m → ∀ e, ((m[e]?).join).isSome → e < n

/-- The metapage, when it names a copy, is above the files, and so is the entry. -/
structure Ok (s : Life V) : Prop where
  ids : ∀ c, s.cache = some c → Ids c s.held
  files : s.disk.metap.hasSavedIndex = true → Below s.disk.dir s.disk.metap.nextExternalId
  cached : ∀ c, s.cache = some c → s.disk.metap.hasSavedIndex = true →
    Below s.disk.dir c.nextExternalId
  room : s.disk.metap.hasSavedIndex = true → 0 < s.disk.metap.tidMappingCapacity

theorem Below.mono {n m : Nat} (h : Below d.dir n) (hnm : n ≤ m) : Below d.dir m :=
  ⟨fun g hg e he => Nat.lt_of_lt_of_le (h.graph g hg e he) hnm,
    fun x hx e he => Nat.lt_of_lt_of_le (h.tidmap x hx e he) hnm⟩

theorem below_none (n : Nat) : Below (none : Option (SaveDir V)) n :=
  ⟨fun g hg => by simp at hg, fun m hm => by simp at hm⟩

theorem Ids.files (h : Ids c held) {g : SvsIndex V} (hg : c.svsIndex = some g) {e : Nat}
    (he : (g.point e).isSome) : e < c.nextExternalId := by
  apply h.fresh e
  left
  apply h.within
  simpa [IndexCache.point, hg] using he

theorem Ids.compacted (h : Ids c held) : Ids c (validIds c) :=
  ⟨fun e he => h.fresh e (he.imp_left fun hp => h.within e hp), fun _ he => he, h.slots, h.bare⟩

/-- The places of a graph after a write. -/
def grown (held : Nat → Bool) (c : IndexCache V) (e : Nat) : Bool := held e || validIds c e

theorem grown_of_point {e : Nat} (he : (c.point e).isSome) : grown held c e = true :=
  Bool.or_eq_true_iff.mpr (.inr he)

theorem Ids.fewer (h : Ids c held) (hn : c'.nextExternalId = c.nextExternalId)
    (hp : ∀ e, (c'.point e).isSome → (c.point e).isSome)
    (htid : ∀ e, (c'.tidOf e).isSome → (c.tidOf e).isSome)
    (hg : c'.svsIndex.isSome = c.svsIndex.isSome)
    (hs : c'.tidMapping.length = c.tidMapping.length) :
    Ids c' (grown held c') ∧ c.nextExternalId ≤ c'.nextExternalId := by
  refine ⟨⟨fun e he => ?_, fun e => grown_of_point, fun hg' => ?_, fun hno => ?_⟩,
    Nat.le_of_eq hn.symm⟩
  · rw [hn]
    apply h.fresh e
    refine he.imp (fun he => ?_) (htid e)
    rcases Bool.or_eq_true_iff.mp he with he | he
    · exact he
    · exact h.within e (hp e he)
  · rw [hs]
    exact h.slots (hg ▸ hg')
  · rw [hn]
    apply h.bare
    rw [← Option.not_isSome_iff_eq_none, ← hg, hno]
    exact Bool.false_ne_true

theorem Ids.alike (h : Ids c held) (ha : Alike c c') :
    Ids c' (grown held c') ∧ c.nextExternalId ≤ c'.nextExternalId :=
  h.fewer ha.nextExternalId (fun e he => ha.point e ▸ he) (fun e he => ha.tidOf e ▸ he)
    (congrArg _ ha.svsIndex) (congrArg _ ha.tidMapping)

theorem isSome_of_ite {α : Type} {p : Prop} [Decidable p] {x : Option α}
    (h : (if p then none else x).isSome) : x.isSome := by
  split at h
  · cases h
  · exact h

theorem Ids.inserted {refuses : Prop} {t : Tid} (h : Ids c held)
    (hins : Inserted False refuses t c c') :
    Ids c' (grown held c') ∧ c.nextExternalId ≤ c'.nextExternalId := by
  cases hins with
  | kept ha => exact h.alike ha
  | stray hs => exact hs.elim
  | added g hg v ha =>
    have hnext : c'.nextExternalId = c.nextExternalId + 1 := ha.nextExternalId
    have hp : ∀ e, (c'.point e).isSome → e = c.nextExternalId ∨ held e = true := by
      intro e he
      rw [ha.point, IndexCache.point_mapNewPoint] at he
      by_cases hen : e = c.nextExternalId
      · exact .inl hen
      · refine .inr (h.within e ?_)
        simpa [withPoint, hen, IndexCache.point, hg] using he
    refine ⟨⟨fun e he => ?_, fun e => grown_of_point, fun _ => ?_, fun hn => ?_⟩, by omega⟩
    · rw [hnext]
      have hold : held e = true ∨ (c.tidOf e).isSome → e < c.nextExternalId + 1 := fun hh =>
        Nat.lt_succ_of_lt (h.fresh e hh)
      rcases he with he | he
      · rcases Bool.or_eq_true_iff.mp he with he | he
        · exact hold (.inl he)
        · rcases hp e he with rfl | he
          · exact Nat.lt_succ_self _
          · exact hold (.inl he)
      · rw [ha.tidOf, IndexCache.tidOf_mapNewPoint] at he
        split at he
        · omega
        · exact hold (.inr he)
    · have hlt := lt_growTidMapping_length c.tidMapping c.nextExternalId
      rw [ha.tidMapping, mapNewPoint, List.length_set]
      omega
    · rw [ha.svsIndex] at hn
      cases hn
  | first hg v ha =>
    have hnext : c'.nextExternalId = 1 := ha.nextExternalId
    have hba := h.bare hg
    have hp : ∀ e, (c'.point e).isSome → e = 0 := by
      intro e he
      have hf : (buildFirstInsert t v c).point e = if e = 0 then some v else none := rfl
      rw [ha.point, hf] at he
      by_contra hne
      simp [hne] at he
    refine ⟨⟨fun e he => ?_, fun e => grown_of_point, fun _ => ?_, fun hn => ?_⟩, by omega⟩
    · rw [hnext]
      rcases he with he | he
      · rcases Bool.or_eq_true_iff.mp he with he | he
        · have := h.fresh e (.inl he)
          omega
        · rw [hp e he]
          exact Nat.zero_lt_one
      · rw [ha.tidOf, tidOf_buildFirstInsert] at he
        split at he
        · omega
        · cases he
    · rw [ha.tidMapping]
      simp only [buildFirstInsert, List.length_cons, Nat.zero_lt_succ]
    · rw [ha.svsIndex] at hn
      cases hn
  | refused _ hg ha =>
    have hsa : Ids { c with numVectors := 1 } held := ⟨h.fresh, h.within, h.slots, h.bare⟩
    exact hsa.alike ha

/-! ## Each step -/

theorem Ok.absent (hn : s.cache = none)
    (hf : s.disk.metap.hasSavedIndex = true → Below s.disk.dir s.disk.metap.nextExternalId)
    (hr : s.disk.metap.hasSavedIndex = true → 0 < s.disk.metap.tidMappingCapacity) : Ok s := by
  refine ⟨fun c hc => ?_, hf, fun c hc => ?_, hr⟩
  · simp [hn] at hc
  · simp [hn] at hc

theorem Ok.onEntry (h : Ok s) {f : Resident V → Resident V}
    (hf : ∀ c, s.cache = some c → Ids c s.held →
      (Ids (f ⟨c, s.disk.metap⟩).cache (grown s.held (f ⟨c, s.disk.metap⟩).cache) ∧
        c.nextExternalId ≤ (f ⟨c, s.disk.metap⟩).cache.nextExternalId) ∧
      MetaAfter (f ⟨c, s.disk.metap⟩).cache s.disk.metap (f ⟨c, s.disk.metap⟩).metap) :
    Ok (onEntry f s) := by
  unfold index_life.onEntry
  split
  · exact h
  rename_i c hc
  obtain ⟨⟨hids, hn⟩, hm⟩ := hf c hc (h.ids c hc)
  generalize f ⟨c, s.disk.metap⟩ = r at *
  obtain ⟨c', m⟩ := r
  dsimp only at hids hn hm
  have hbe : s.disk.metap.hasSavedIndex = true → Below s.disk.dir c'.nextExternalId :=
    fun hfl => (h.cached c hc hfl).mono hn
  -- the flag stays, and a written counter is the entry's own
  rcases hm with rfl | ⟨hg, rfl⟩
  · exact ⟨fun _ hc' => Option.some.inj hc' ▸ hids, h.files,
      fun _ hc' hfl => Option.some.inj hc' ▸ hbe hfl, h.room⟩
  · exact ⟨fun _ hc' => Option.some.inj hc' ▸ hids, hbe,
      fun _ hc' hfl => Option.some.inj hc' ▸ hbe hfl, fun _ => hids.slots hg⟩

theorem Ok.saved {c₁ : IndexCache V} (hids : Ids c held) (hg : c.svsIndex.isSome) (save : SaveEnd)
    (hd : d.metap.hasSavedIndex = true → Below d.dir d.metap.nextExternalId ∧
      Below d.dir c.nextExternalId ∧ 0 < d.metap.tidMappingCapacity)
    (hsa : TornSafely save c d.metap) (hc₁ : Ids c₁ held)
    (hne : c₁.nextExternalId = c.nextExternalId) :
    Ok (afterSave save c₁ held (saveDisk save c d)) := by
  have hs := hids.slots hg
  have hgra : ∀ g, c.svsIndex = some g → ∀ e, (g.point e).isSome → e < c.nextExternalId :=
    fun g hg e he => hids.files hg he
  have hmap : ∀ e, ((c.tidMapping[e]?).join).isSome → e < c.nextExternalId :=
    fun e he => hids.fresh e (.inr he)
  -- what the files are below, by where they come from
  have hbe : (saveDisk save c d).metap.hasSavedIndex = true →
      Below (saveDisk save c d).dir (saveDisk save c d).metap.nextExternalId ∧
        Below (saveDisk save c d).dir c.nextExternalId ∧
        0 < (saveDisk save c d).metap.tidMappingCapacity := by
    intro hf
    rcases saveDisk_cases save d hs with ⟨hm, hgr, htm⟩ | ⟨hm, hgr, htm⟩
    · have hnew : Below (saveDisk save c d).dir c.nextExternalId := by
        refine ⟨fun g hg' => hgra g (hgr ▸ hg'), fun m hm' => ?_⟩
        rw [htm] at hm'
        exact Option.some.inj hm' ▸ hmap
      rw [hm]
      exact ⟨hnew, hnew, hs⟩
    · rw [hm] at hf ⊢
      obtain ⟨hold, hc, hr⟩ := hd hf
      have hfi : ∀ n, Below d.dir n → (save.Torn c → c.nextExternalId ≤ n) →
          Below (saveDisk save c d).dir n := by
        intro n hn hto
        refine ⟨fun g hg' e he => ?_, fun m hm' e he => ?_⟩
        · rcases hgr with heq | heq | ⟨ht, heq⟩
          · exact hn.graph g (heq ▸ hg') e he
          · simp [heq] at hg'
          · exact Nat.lt_of_lt_of_le (hgra g (heq ▸ hg') e he) (hto ht)
        · rcases htm with heq | heq | ⟨ht, heq⟩
          · exact hn.tidmap m (heq ▸ hm') e he
          · simp [heq] at hm'
          · rw [heq] at hm'
            exact Nat.lt_of_lt_of_le (hmap e (Option.some.inj hm' ▸ he)) (hto ht)
      exact ⟨hfi _ hold fun ht => hsa ht hf, hfi _ hc fun _ => Nat.le_refl _, hr⟩
  have hh : Ids c₁ (if save.compacted then validIds c₁ else held) := by
    split
    · exact hc₁.compacted
    · exact hc₁
  refine ⟨fun c' hc' => ?_, fun hf => (hbe hf).1, fun c' hc' hf => ?_, fun hf => (hbe hf).2.2⟩
  · simp only [afterSave] at hc'
    split at hc'
    · cases hc'
    · exact Option.some.inj hc' ▸ hh
  · simp only [afterSave] at hc'
    split at hc'
    · cases hc'
    · rw [← Option.some.inj hc', hne]
      exact (hbe hf).2.1

variable {rows : List (Tid × V)}

theorem ids_rebuild (h : vamanaRebuildFromTable rows = some c) :
    Ids c (validIds c) ∧ c.svsIndex.isSome := by
  have hs := IndexCache.Sound.rebuild h
  have hg : c.svsIndex.isSome ∧ ∀ e, (c.point e).isSome → e < c.nextExternalId := by
    unfold vamanaRebuildFromTable at h
    split at h
    · cases h
    cases h
    refine ⟨rfl, fun e he => ?_⟩
    by_contra hge
    have hn : rows[e]? = none := List.getElem?_eq_none (Nat.le_of_not_lt hge)
    simp [IndexCache.point, vamanaCacheIndex, hn] at he
  refine ⟨⟨fun e he => ?_, fun _ he => he, fun hg => (hs.has_table hg).2, fun hn => ?_⟩, hg.1⟩
  · rcases he with he | he
    · exact hg.2 e he
    · obtain ⟨t, ht⟩ := Option.isSome_iff_exists.mp he
      exact hs.lt_next ht
  · rw [hn] at hg
    cases hg.1

variable {k : LoadCalls}

theorem ids_load (h : Ok s) (hl : (loadIndexFromPages k s.disk).2 = .loaded c) :
    Ids c (validIds c) ∧ c.nextExternalId = s.disk.metap.nextExternalId := by
  obtain ⟨-, g, m, hc, rfl⟩ := (load_eq_loaded_iff k s.disk c).mp hl
  have hf := hasSavedIndex_of_diskCopy hc
  obtain ⟨dir, hdir, hp, htid, hlen⟩ := diskCopy_files hc (h.room hf)
  have hfi := h.files hf
  refine ⟨⟨fun e he => ?_, fun _ he => he, fun _ => hlen ▸ h.room hf, fun hn => by cases hn⟩, rfl⟩
  rcases he with he | he
  · have he : (dir.pointAt e).isSome := (hp e).symm ▸ he
    rcases hgr : dir.graph with _ | g'
    · simp [SaveDir.pointAt, hgr] at he
    · exact hfi.graph g' (by simp [hdir, hgr]) e (by simpa [SaveDir.pointAt, hgr] using he)
  · have he : (dir.tidAt e).isSome := (htid e).symm ▸ he
    rcases htm : dir.tidmap with _ | m'
    · simp [SaveDir.tidAt, htm] at he
    · exact hfi.tidmap m' (by simp [hdir, htm]) e (by simpa [SaveDir.tidAt, htm] using he)

variable {save : SaveEnd}

theorem Ok.load (h : Ok s) {built : Bool}
    (hok : Safe s (.load k rows built save)) : Ok (loadIndex k rows built save s) := by
  unfold loadIndex
  split
  · exact h
  rename_i hca
  rcases loadIndexFromPages_cases k s.disk with ⟨g, m, -, -, hl⟩ | ⟨-, hl | ⟨d, hd, hl⟩⟩
  · obtain ⟨hids, hne⟩ := ids_load (k := k) h (by rw [hl])
    rw [hl]
    refine ⟨fun c hc => Option.some.inj hc ▸ hids, h.files, fun c hc hf => ?_, h.room⟩
    rw [← Option.some.inj hc, hne]
    exact h.files hf
  · rw [hl]
    exact ⟨h.ids, h.files, h.cached, h.room⟩
  · rw [hl]
    -- files that are still there are not on the metapage
    have hn : d.metap.hasSavedIndex = true → d.dir = none ∧ d.metap = s.disk.metap := by
      intro hf
      obtain ⟨hm, hdir⟩ := hd
      refine ⟨hdir.resolve_right fun hno => ?_, hm.resolve_right fun hm => ?_⟩
      · rw [hno.1, hno.2] at hf
        cases hf
      · rw [hm] at hf
        cases hf
    have hbe : ∀ n, d.metap.hasSavedIndex = true → Below d.dir n := fun n hf =>
      (hn hf).1 ▸ below_none n
    have hro : d.metap.hasSavedIndex = true → 0 < d.metap.tidMappingCapacity := by
      intro hf
      have heq := (hn hf).2
      rw [heq] at hf ⊢
      exact h.room hf
    have ha : Ok { s with disk := d } := .absent hca (hbe _) hro
    simp only [rebuildFromHeap]
    split
    · exact ha
    split
    · refine ⟨fun c hc => ?_, hbe _, fun c _ => hbe _, hro⟩
      cases hc
      refine ⟨fun e he => ?_, fun e he => ?_, fun hg => ?_, fun _ => rfl⟩
      · rcases he with he | he <;> cases he
      · cases he
      · cases hg
    · rename_i c hr
      obtain ⟨hids, hg⟩ := ids_rebuild hr
      refine Ok.saved hids hg save (fun hf => ⟨hbe _ hf, hbe _ hf, hro hf⟩)
        (fun ht hf => ?_) ⟨hids.fresh, hids.within, hids.slots, hids.bare⟩ rfl
      have heq := (hn hf).2
      rw [heq] at hf ⊢
      exact hok c hr ht hf

theorem Ok.checkpoint (h : Ok s) {slotAdvanced : Bool}
    (hok : Safe s (.checkpoint save slotAdvanced)) :
    Ok (performCheckpoint save slotAdvanced s) := by
  unfold performCheckpoint
  split
  · exact h
  rename_i c hc
  have hids := h.ids c hc
  split
  · exact h
  rename_i hso
  have hg : c.svsIndex.isSome := by simpa [← Option.isSome_iff_ne_none] using hso
  have hsa : TornSafely save { c with numDeleted := 0 } s.disk.metap := hok c hc
  have hd : s.disk.metap.hasSavedIndex = true →
      Below s.disk.dir s.disk.metap.nextExternalId ∧ Below s.disk.dir c.nextExternalId ∧
        0 < s.disk.metap.tidMappingCapacity :=
    fun hf => ⟨h.files hf, h.cached c hc hf, h.room hf⟩
  have hz : Ids { c with numDeleted := 0 } s.held :=
    ⟨hids.fresh, hids.within, hids.slots, hids.bare⟩
  have hs : ∀ {c₁ : IndexCache V}, Ids c₁ s.held → c₁.nextExternalId = c.nextExternalId →
      Ok (afterSave save c₁ s.held (saveDisk save { c with numDeleted := 0 } s.disk)) :=
    fun hc₁ hn => Ok.saved hz hg save hd hsa hc₁ hn
  split
  · exact hs hids rfl
  · split
    · exact hs ⟨hids.fresh, hids.within, hids.slots, hids.bare⟩ rfl
    · exact hs hz rfl

theorem ok_step (s : Life V) (e : Event V) (h : Ok s) (hok : Safe s e) : Ok (step s e) := by
  have hem : ∀ dir, s.disk.dir = dir ∨ dir = none → Ok ⟨none, s.held, ⟨dir, s.disk.metap⟩⟩ := by
    rintro dir (rfl | rfl)
    · exact .absent rfl h.files h.room
    · exact .absent rfl (fun _ => below_none _) h.room
  cases e with
  | build rows =>
    simp only [step, buildIndex]
    split
    · exact .absent rfl (fun hf => by cases hf) fun hf => by cases hf
    rename_i c hr
    obtain ⟨hids, hg⟩ := ids_rebuild hr
    have hsa := Ok.saved hids hg .done (d := ⟨none, newMetaPage⟩)
      (fun hf => by cases hf) (fun ht => ht.elim) hids rfl
    exact .absent rfl hsa.files hsa.room
  | load k rows built save => exact h.load hok
  | insert first k t v =>
    refine h.onEntry fun c _ hids => ?_
    obtain ⟨hm, hins⟩ := inserted_insertPoint first k t v ⟨c, s.disk.metap⟩
    exact ⟨hids.inserted (hins.mono fun hs => by simp [hok hs.1] at hs), hm⟩
  | delete p ids =>
    refine h.onEntry fun c _ hids => ?_
    rcases deletePoints_cases p ids ⟨c, s.disk.metap⟩ with heq | ⟨hm, hdel⟩
    · rw [heq]
      exact ⟨hids.alike (.refl c), .inl rfl⟩
    · refine ⟨hids.fewer hdel.next (fun e he => ?_) (fun e he => ?_)
        (hdel.graph.trans hdel.had_graph.symm) hdel.slots, hm⟩
      · exact isSome_of_ite (hdel.point e ▸ he)
      · exact isSome_of_ite (hdel.tidOf e ▸ he)
  | replayInsert k lsn t =>
    refine h.onEntry fun c _ hids => ?_
    exact ⟨hids.inserted (inserted_replayInsert k lsn t c), .inl rfl⟩
  | replayDelete t =>
    refine h.onEntry fun c _ hids => ⟨?_, .inl rfl⟩
    simp only [replayDelete]
    rcases happ : applyDeleteChange t c with _ | c'
    · exact hids.alike (.refl c)
    · obtain ⟨i, hu⟩ := applyDeleteChange_some happ
      refine hids.fewer hu.next (fun e he => ?_) (fun e he => ?_) (hu.graph'.trans hu.graph.symm) ?_
      · exact isSome_of_ite (hu.point e ▸ he)
      · exact isSome_of_ite (hu.tidOf e ▸ he)
      · rw [Option.getD_some, hu.tidMapping, List.length_set]
  | maintenance compact =>
    simp only [step, maintain]
    split
    · exact h
    rename_i c hc
    have hids := h.ids c hc
    split
    · exact h
    have hfe := hids.compacted
    refine ⟨fun c' hc' => ?_, h.files, fun c' hc' hf => ?_, h.room⟩
    · cases hc'
      split
      · exact ⟨hfe.fresh, hfe.within, hfe.slots, hfe.bare⟩
      · exact hfe
    · cases hc'
      split <;> exact h.cached c hc hf
  | checkpoint save slotAdvanced => exact h.checkpoint hok
  | evict | crash => exact hem _ (.inl rfl)
  | forceHeapRebuild => exact hem _ (.inr rfl)

/-! ## The law -/

def insertWith (persist : MetaPersist) (i : Nat) : Event Nat :=
  .insert .built ⟨true, true, persist⟩ (rowAt i) i

theorem not_fresh {n : Nat} (hn : s.cache.map (·.nextExternalId) = some n)
    (hh : s.held n = true) : ¬ Fresh s := by
  intro h
  obtain ⟨c, hc, rfl⟩ := Option.map_eq_some_iff.mp hn
  exact Nat.lt_irrefl _ (h c hc _ (.inl hh))

end svs_vamana.external_ids
