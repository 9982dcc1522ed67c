-- The invariant of the server: the entry in the cache is sound, the saved files make a sound entry
-- again, and no id that they map is still to be given out.
import SvsVamana.ServerSteps

namespace svs_vamana.server

open index_cache saved_index replay delivery tid_fate database write_slot transition_runs
open IndexCache Database Option

variable {V : Type}

/-! ## The invariant -/

/-- The files of a save fit the metapage, also after it has moved on. -/
structure SavedOk (dir : SaveDir V) (metap : MetaPage) : Prop where
  flagged : metap.hasSavedIndex = true
  room : 0 < metap.tidMappingCapacity
  mapped : ∀ e t, dir.tidAt e = some t → (dir.pointAt e).isSome ∧ e < metap.nextExternalId

namespace Server

structure Ok (s : Server V) : Prop where
  db : s.db.Ok
  flushed : ∀ X, s.confirmedFlush = some X → X ≤ s.db.wal.length
  cache : ∀ c, s.cache = some c → c.Sound
  empty : ∀ c, s.cache = some c → c.svsIndex = none → c.tidToExternalId = none
  saved : ∀ dir, s.disk.dir = some dir → SavedOk dir s.disk.metap
  link : ∀ c dir, s.cache = some c → s.disk.dir = some dir →
    c.svsIndex.isSome ∧ ∀ e t, dir.tidAt e = some t → e < c.nextExternalId

variable {s : Server V}

theorem Ok.flagged (h : s.Ok) (hd : s.disk.dir.isSome) : s.disk.metap.hasSavedIndex = true := by
  obtain ⟨dir, hdir⟩ := isSome_iff_exists.mp hd
  exact (h.saved dir hdir).flagged

/-! ## The files and the entry they make -/

variable {m : List (Option Tid)} {g : SvsIndex V} {d : Disk V}

theorem SavedOk.entry
    (hc : diskCopy d = some (g, m)) (h : ∀ dir, d.dir = some dir → SavedOk dir d.metap) :
    ∃ dir, d.dir = some dir ∧ (entryOf d.metap g m).Sound ∧
      (∀ e, (entryOf d.metap g m).point e = dir.pointAt e) ∧
      ∀ e, (entryOf d.metap g m).tidOf e = dir.tidAt e := by
  have hdir : d.dir ≠ none := by
    intro hn
    rw [diskCopy_of_no_dir hn] at hc
    cases hc
  obtain ⟨dir, hdir⟩ := ne_none_iff_exists'.mp hdir
  have hs := h dir hdir
  obtain ⟨dir', hdir', hp, htid, hlen⟩ := diskCopy_files hc hs.room
  obtain rfl : dir' = dir := by
    rw [hdir] at hdir'
    exact (some.inj hdir').symm
  refine ⟨dir', hdir, ?_, fun e => (hp e).symm, fun e => (htid e).symm⟩
  apply Sound.cacheIndex
  · intro e t he
    rw [← htid] at he
    rw [← hp]
    exact (hs.mapped e t he).1
  · intro e he
    rw [← htid]
    by_contra hne
    obtain ⟨t, ht⟩ := ne_none_iff_exists'.mp hne
    have := (hs.mapped e t ht).2
    omega
  · rw [hlen]
    exact hs.room

variable {c : IndexCache V}

theorem save_files (hc : c.Sound) (hg : c.svsIndex.isSome) (d : Disk V) :
    ∃ dir, (vamanaSaveIndexToDisk c d).dir = some dir ∧
      SavedOk dir (vamanaSaveIndexToDisk c d).metap ∧
      (∀ e, dir.pointAt e = c.point e) ∧ ∀ e, dir.tidAt e = c.tidOf e := by
  have hlen := (hc.has_table hg).2
  refine ⟨_, save_dir c d hlen, ?_, fun e => rfl, fun e => rfl⟩
  rw [save_metap]
  refine ⟨rfl, hlen, fun e t he => ⟨hc.mapped_valid e t he, ?_⟩⟩
  exact hc.lt_next he

theorem sound_emptyTableIndex : (emptyTableIndex : IndexCache V).Sound := by
  refine ⟨fun e t h => ?_, fun t e h => ?_, fun e _ => ?_, fun h => ?_⟩
  · simp [emptyTableIndex, vamanaCacheIndex, tidOf] at h
  · simp [emptyTableIndex, vamanaCacheIndex, eidOf] at h
  · simp [emptyTableIndex, vamanaCacheIndex, tidOf]
  · simp [emptyTableIndex, vamanaCacheIndex] at h

theorem rebuild_graph {rows : List (Tid × V)} (h : vamanaRebuildFromTable rows = some c) :
    c.svsIndex.isSome := by
  unfold vamanaRebuildFromTable at h
  split at h
  · cases h
  · obtain rfl := some.inj h
    rfl

/-! ## What each step keeps -/

theorem Ok.db_step (h : s.Ok) (op : Op V) : ({ s with db := s.db.step op }).Ok where
  db := ok_step h.db op
  flushed X hX := Nat.le_trans (h.flushed X hX) (length_wal_le_step s.db op)
  cache := h.cache
  empty := h.empty
  saved := h.saved
  link := h.link

theorem Ok.evict (h : s.Ok) : ({ s with cache := none }).Ok where
  db := h.db
  flushed := h.flushed
  cache _ hc := by cases hc
  empty _ hc := by cases hc
  saved := h.saved
  link _ _ hc := by cases hc

theorem Ok.of_no_dir (hdb : s.db.Ok) (hf : ∀ X, s.confirmedFlush = some X → X ≤ s.db.wal.length)
    (hca : ∀ c, s.cache = some c → c.Sound ∧ (c.svsIndex = none → c.tidToExternalId = none))
    (hdir : s.disk.dir = none) : s.Ok where
  db := hdb
  flushed := hf
  cache c hc := (hca c hc).1
  empty c hc := (hca c hc).2
  saved dir hd := by
    rw [hdir] at hd
    cases hd
  link c dir _ hd := by
    rw [hdir] at hd
    cases hd

variable {r : Option ReplicationSlot}

theorem flushed_of_slot (h : s.Ok) (hr : r = s.slot ∨ r = none) {X : Nat}
    (hX : r.bind (·.confirmedFlush) = some X) : X ≤ s.db.wal.length := by
  rcases hr with rfl | rfl
  · exact h.flushed X hX
  · cases hX

theorem Ok.forceHeapRebuild (h : s.Ok) (slotHeld : Bool) :
    (vamanaForceHeapRebuild slotHeld s).Ok := by
  apply Ok.of_no_dir
  · exact h.db
  · intro X hX
    apply flushed_of_slot h _ hX
    unfold vamanaForceHeapRebuild
    dsimp only
    split
    · exact .inl rfl
    · exact .inr rfl
  · intro c hc
    cases hc
  · rfl

theorem Ok.copy (h : s.Ok) (hco : diskCopy s.disk = some (g, m)) (b : Bool) :
    Ok (⟨s.db, s.disk, s.slot, some { entryOf s.disk.metap g m with replicationSlot := b }⟩ :
      Server V) := by
  obtain ⟨dir, hdir, hs, hp, htid⟩ := SavedOk.entry hco h.saved
  refine ⟨h.db, h.flushed, ?_, ?_, h.saved, ?_⟩
  · intro c hc
    obtain rfl := some.inj hc
    refine Same.sound (c := entryOf s.disk.metap _ _) ?_ hs
    exact ⟨rfl, rfl, rfl, rfl⟩
  · intro c hc hn
    obtain rfl := some.inj hc
    cases hn
  · intro c dir' hc hdir'
    obtain rfl := some.inj hc
    exact ⟨rfl, fun e t he => ((h.saved dir' hdir').mapped e t he).2⟩

variable {c' : IndexCache V}

theorem Ok.rebuilt (h : s.Ok)
    (hro : vamanaRebuildFromTable (visibleRows s.db) = some c) (hc : Same c c')
    (hd : d.dir = none ∨ ∃ d₀, d = vamanaSaveIndexToDisk c d₀) (hr : r = s.slot ∨ r = none) :
    Ok (⟨s.db, d, r, some c'⟩ : Server V) := by
  have hg := rebuild_graph hro
  have hs := Sound.rebuild hro
  have hc' : c'.Sound ∧ (c'.svsIndex = none → c'.tidToExternalId = none) := by
    refine ⟨hc.sound hs, fun hn => ?_⟩
    rw [hc.svsIndex] at hn
    simp [hn] at hg
  rcases hd with hn | ⟨d₀, rfl⟩
  · refine .of_no_dir h.db (fun X hX => flushed_of_slot h hr hX) ?_ hn
    intro x hx
    obtain rfl := some.inj hx
    exact hc'
  · obtain ⟨dir, hdir, hsa, hp, htid⟩ := save_files hs hg d₀
    refine ⟨h.db, fun X hX => flushed_of_slot h hr hX, ?_, ?_, ?_, ?_⟩
    · intro x hx
      obtain rfl := some.inj hx
      exact hc'.1
    · intro x hx
      obtain rfl := some.inj hx
      exact hc'.2
    · intro dir' hdir'
      obtain rfl := some.inj (hdir.symm.trans hdir')
      exact hsa
    · intro x dir' hx hdir'
      obtain rfl := some.inj hx
      obtain rfl := some.inj (hdir.symm.trans hdir')
      refine ⟨by rw [hc.svsIndex]; exact hg, fun e t he => ?_⟩
      rw [htid] at he
      rw [hc.nextExternalId]
      exact hs.lt_next he

variable {s' : Server V}

theorem Ok.load {k retry : GetCalls} {res : Option Bool} (h : s.Ok)
    (hout : LoadOutcome k retry s s' res) : s'.Ok := by
  cases hout with
  | nothing hd =>
    rcases hd with ⟨rfl, rfl⟩ | ⟨hn, hr⟩
    · exact h.evict
    · exact .of_no_dir h.db (fun X hX => flushed_of_slot h hr hX) (by simp) hn
  | copy _ hco _ => exact h.copy hco _
  | rebuilt hro hc hd hr _ => exact h.rebuilt hro hc hd hr
  | empty _ hc hd hr _ =>
    refine .of_no_dir h.db (fun X hX => flushed_of_slot h hr hX) ?_ hd
    intro x hx
    obtain rfl := some.inj hx
    refine ⟨hc.sound sound_emptyTableIndex, fun _ => ?_⟩
    rw [hc.tidToExternalId]
    rfl

theorem replayed_of_no_graph (k : ApplyCalls V) (rel : Relation) (wal : List WalRecord) (X : Nat)
    (hg : c.svsIndex = none) (hem : c.tidToExternalId = none) : (replayed k rel wal X c).1 = c := by
  have hs : ∀ xs n, (replayAll k xs (c, n)).1 = c := by
    intro xs
    induction xs with
    | nil => exact fun n => rfl
    | cons x xs ih =>
      intro n
      have heid : c.eidOf x.tid = none := by simp [eidOf, hem]
      have hone : replayOne k (c, n) x = (c, n) := by
        simp [replayOne, applyChange, applyInsertChange, applyDeleteChange, heid, hg]
      rw [replayAll, List.foldl_cons, hone]
      exact ih n
  exact hs _ 0

theorem replayed_keeps (k : ApplyCalls V) (rel : Relation) (wal : List WalRecord) (X : Nat)
    (hc : c.Sound) (hem : c.svsIndex = none → c.tidToExternalId = none) :
    (replayed k rel wal X c).1.Sound ∧
      ((replayed k rel wal X c).1.svsIndex = none →
        (replayed k rel wal X c).1.tidToExternalId = none) ∧
      (c.svsIndex.isSome → (replayed k rel wal X c).1.svsIndex.isSome) ∧
      c.nextExternalId ≤ (replayed k rel wal X c).1.nextExternalId := by
  rcases hg : c.svsIndex with _ | g
  · rw [replayed_of_no_graph k rel wal X hg (hem hg)]
    exact ⟨hc, fun _ => hem hg, by simp, Nat.le_refl _⟩
  · have ha := after_replayAll k hc (by rw [hg]; rfl) 0 (delivered rel X wal)
    refine ⟨ha.sound, fun hn => ?_, fun _ => ha.graph, ha.next⟩
    have := ha.graph
    rw [replayed] at hn
    simp [hn] at this

theorem Ok.with_cache (h : s.Ok) (hc : s.cache = some c)
    (hf : ∀ X, r.bind (·.confirmedFlush) = some X → X ≤ s.db.wal.length) (hs : c'.Sound)
    (hem : c'.svsIndex = none → c'.tidToExternalId = none)
    (hgr : c.svsIndex.isSome → c'.svsIndex.isSome) (hn : c.nextExternalId ≤ c'.nextExternalId) :
    ({ s with cache := some c', slot := r }).Ok where
  db := h.db
  flushed := hf
  cache x hx := by
    obtain rfl := some.inj hx
    exact hs
  empty x hx := by
    obtain rfl := some.inj hx
    exact hem
  saved := h.saved
  link x dir hx hdir := by
    obtain rfl := some.inj hx
    obtain ⟨hg, hlt⟩ := h.link c dir hc hdir
    exact ⟨hgr hg, fun e t he => Nat.lt_of_lt_of_le (hlt e t he) hn⟩

variable {k : DrainFaults}

theorem Ok.drain (h : s.Ok) (hout : DrainOutcome k s s') : s'.Ok := by
  cases hout with
  | idle => exact h
  | finished hc hX ho hr hra =>
    rename_i c X
    obtain ⟨hs, hem, hg, hn⟩ := replayed_keeps (k.calls s.db).apply s.db.rel s.db.wal X
      (h.cache c hc) (h.empty c hc)
    have hsa : Same (replayed (k.calls s.db).apply s.db.rel s.db.wal X c).1
        { (replayed (k.calls s.db).apply s.db.rel s.db.wal X c).1 with
          lastReplayWalEnd := some s.db.wal.length } := ⟨rfl, rfl, rfl, rfl⟩
    refine h.with_cache hc (fun Y hY => ?_) (hsa.sound hs) hem hg hn
    obtain rfl := some.inj hY
    split
    · exact Nat.le_refl _
    · exact h.flushed X hX
  | cut hc hX hr =>
    rename_i c X n
    obtain ⟨hs, hem, hg, hn⟩ := replayed_keeps (k.calls s.db).apply s.db.rel
      (s.db.wal.take n) X (h.cache c hc) (h.empty c hc)
    exact h.with_cache hc h.flushed hs hem hg hn
  | dropped => exact h.forceHeapRebuild _

theorem sound_buildFirstInsert (t : Tid) (v : V) (hta : c.tidToExternalId = none) :
    (buildFirstInsert t v c).Sound := by
  have htid := tidOf_buildFirstInsert t v c
  have heid := eidOf_buildFirstInsert t v hta
  refine ⟨fun e t' he => ?_, fun t' e he => ?_, fun e he => ?_, fun _ => ⟨rfl, ?_⟩⟩
  · rw [htid] at he
    split at he
    · rename_i h0
      subst h0
      rfl
    · cases he
  · rw [heid] at he
    split at he
    · rename_i ht
      subst ht
      obtain rfl := some.inj he
      rw [htid, if_pos rfl]
    · cases he
  · rw [htid, if_neg]
    have : 1 ≤ e := he
    omega
  · exact List.length_pos_of_ne_nil (List.cons_ne_nil _ _)

theorem InsertOutcome.keeps {t : Tid} {v : V} {slotEnd : SlotEnd}
    (h : InsertOutcome t v c c' slotEnd) (hc : c.Sound)
    (hem : c.svsIndex = none → c.tidToExternalId = none) :
    c'.Sound ∧ (c'.svsIndex = none → c'.tidToExternalId = none) ∧
      (c.svsIndex.isSome → c'.svsIndex.isSome ∧ c.nextExternalId ≤ c'.nextExternalId) := by
  cases h with
  | refused => exact ⟨hc, hem, fun hg => ⟨hg, Nat.le_refl _⟩⟩
  | stray hg =>
    rename_i g
    have hp : ∀ e, c.point e = g.point e := fun e => by simp [point, hg]
    refine ⟨⟨fun e t' he => ?_, hc.reverse, hc.free, fun _ => ?_⟩, (fun hn => by cases hn),
      fun _ => ⟨rfl, Nat.le_refl _⟩⟩
    · have hlt : e < c.nextExternalId := hc.lt_next he
      have hv : (c.point e).isSome := hc.mapped_valid e t' he
      rw [hp] at hv
      have hne : e ≠ c.nextExternalId := by omega
      simpa [point, Function.update_of_ne hne] using hv
    · exact hc.has_table (by rw [hg]; rfl)
  | mapped hg hc' _ =>
    refine ⟨hc'.sound (hc.mapNewPoint hg t v), fun hn => ?_, fun _ => ⟨?_, ?_⟩⟩
    · rw [hc'.svsIndex] at hn
      cases hn
    · rw [hc'.svsIndex]
      rfl
    · rw [hc'.nextExternalId]
      exact Nat.le_succ _
  | first hg hc' _ =>
    refine ⟨hc'.sound (sound_buildFirstInsert t v (hem hg)), fun hn => ?_, fun hs => ?_⟩
    · rw [hc'.svsIndex] at hn
      cases hn
    · simp [hg] at hs

section

variable (h : s.Ok)
include h

theorem Ok.write (hc : s.cache = some c) {m : MetaPage}
    (hr : r = s.slot ∨ r = none ∨ r = some ⟨none⟩)
    (hm : m = s.disk.metap ∨ c'.svsIndex.isSome ∧ m = writeMetaPageDynamic c' s.disk.metap)
    (hs : c'.Sound) (hem : c'.svsIndex = none → c'.tidToExternalId = none)
    (hk : c.svsIndex.isSome → c'.svsIndex.isSome ∧ c.nextExternalId ≤ c'.nextExternalId) :
    (⟨s.db, ⟨s.disk.dir, m⟩, r, some c'⟩ : Server V).Ok where
  db := h.db
  flushed X hX := by
    rcases hr with rfl | rfl | rfl
    · exact h.flushed X hX
    · cases hX
    · cases hX
  cache x hx := by
    obtain rfl := some.inj hx
    exact hs
  empty x hx := by
    obtain rfl := some.inj hx
    exact hem
  saved dir hdir := by
    have hold := h.saved dir hdir
    rcases hm with rfl | ⟨hg, rfl⟩
    · exact hold
    · obtain ⟨hgc, hlt⟩ := h.link c dir hc hdir
      refine ⟨hold.flagged, (hs.has_table hg).2, fun e t he => ⟨(hold.mapped e t he).1, ?_⟩⟩
      exact Nat.lt_of_lt_of_le (hlt e t he) (hk hgc).2
  link x dir hx hdir := by
    obtain rfl := some.inj hx
    obtain ⟨hgc, hlt⟩ := h.link c dir hc hdir
    exact ⟨(hk hgc).1, fun e t he => Nat.lt_of_lt_of_le (hlt e t he) (hk hgc).2⟩

variable (k : WriteCalls)

theorem Ok.executeInsert (t : Tid) (v : V) (hc : s.cache = some c) :
    (vamanaWorkerExecuteInsert k t v s).1.Ok := by
  obtain ⟨c', m, r, heq, hout, hm, hr⟩ := executeInsert_outcome k t v hc
  obtain ⟨hs, hem, hk⟩ := hout.keeps (h.cache c hc) (h.empty c hc)
  rw [heq]
  exact h.write hc hr hm hs hem hk

theorem Ok.insertRow (xid : Nat) (t : Tid) (v : V) (hc : s.cache.isSome) :
    (insertRow k xid t v s).Ok := by
  obtain ⟨c, hc⟩ := isSome_iff_exists.mp hc
  unfold Server.insertRow
  split
  · have hins := (h.db_step (.insert xid t v)).executeInsert k t v (c := c) hc
    generalize vamanaWorkerExecuteInsert k t v { s with db := s.db.step (.insert xid t v) } = r
      at hins ⊢
    obtain ⟨s', e | _⟩ := r
    · exact hins
    · exact hins.db_step (.abort xid)
  · exact h

theorem Ok.executeDelete (ids : List Nat) (hc : s.cache.isSome) :
    (vamanaWorkerExecuteDelete k ids s).1.Ok := by
  obtain ⟨c, hc⟩ := isSome_iff_exists.mp hc
  rcases executeDelete_outcome k ids hc with ⟨heq, -⟩ | ⟨c', m, heq, -, hdel, hm⟩
  · rw [heq]
    exact h
  · rw [heq]
    refine h.write hc (.inl rfl) (hm.imp id fun hm => ⟨hdel.graph, hm⟩) (hdel.sound (h.cache c hc))
      (fun hn => ?_) fun _ => ⟨hdel.graph, ?_⟩
    · have := hdel.graph
      simp [hn] at this
    · exact Nat.le_of_eq hdel.next.symm

theorem checkpoint_files (hc : s.cache = some c) (hg : c.svsIndex.isSome) :
    ∃ dir, (vamanaSaveIndexToDisk { c with numDeleted := 0 } s.disk).dir = some dir ∧
      SavedOk dir (vamanaSaveIndexToDisk { c with numDeleted := 0 } s.disk).metap ∧
      (∀ e, dir.pointAt e = c.point e) ∧ ∀ e, dir.tidAt e = c.tidOf e := by
  have hs : Same c { c with numDeleted := 0 } := ⟨rfl, rfl, rfl, rfl⟩
  exact save_files (hs.sound (h.cache c hc)) hg s.disk

theorem Ok.checkpoint (saveFails slotBusy : Bool) :
    (performCheckpoint saveFails slotBusy s).Ok := by
  have hout := checkpoint_outcome saveFails slotBusy s
  generalize performCheckpoint saveFails slotBusy s = s' at hout ⊢
  cases hout with
  | idle _ => exact h
  | failed _ => exact .of_no_dir h.db h.flushed (fun c hc => ⟨h.cache c hc, h.empty c hc⟩) rfl
  | saved hc hg hsa hc' =>
    rename_i c c'
    obtain ⟨dir, hdir, hs, -, htid⟩ := checkpoint_files h hc hg
    refine ⟨h.db, fun X hX => ?_, ?_, ?_, ?_, ?_⟩
    · unfold confirmedFlush at hX
      dsimp only at hX
      split at hX
      · obtain rfl := some.inj hX
        exact Nat.le_refl _
      · exact h.flushed X hX
    · intro x hx
      obtain rfl := some.inj hx
      exact hc'.sound (h.cache c hc)
    · intro x hx hn
      obtain rfl := some.inj hx
      rw [hc'.svsIndex] at hn
      rw [hc'.tidToExternalId]
      exact h.empty c hc hn
    · intro dir' hdir'
      obtain rfl := some.inj (hdir.symm.trans hdir')
      exact hs
    · intro x dir' hx hdir'
      obtain rfl := some.inj hx
      obtain rfl := some.inj (hdir.symm.trans hdir')
      refine ⟨by rw [hc'.svsIndex]; exact hg, fun e t he => ?_⟩
      rw [htid] at he
      rw [hc'.nextExternalId]
      exact (h.cache c hc).lt_next he

theorem diskCopy_of_loadSlotEntry {k : LoadCalls} (hl : loadSlotEntry k s.disk = some c) :
    ∃ g m, diskCopy s.disk = some (g, m) ∧ c = entryOf s.disk.metap g m := by
  unfold loadSlotEntry at hl
  split at hl
  · cases hl
  split at hl
  · rename_i g m _ hg hmap
    split at hl
    · cases hl
    obtain rfl := some.inj hl
    rcases hd : s.disk.dir with _ | dir
    · simp [hd] at hg
    · have hs := h.saved dir hd
      refine ⟨g, m, ?_, rfl⟩
      rw [if_pos hs.room, hd] at hmap
      rw [hd, bind_some] at hg
      unfold diskCopy
      rw [if_pos hs.flagged, hd, bind_some, hg, bind_some, if_pos hs.room, hmap]
      rfl
  · cases hl

theorem loadSlot_outcome (k : LoadSlotCalls) :
    (loadSlotEntry k.load s.disk = none ∧ vamanaWorkerProcessLoadSlot k s = s) ∨
    ∃ g m b r, loadSlotEntry k.load s.disk = some (entryOf s.disk.metap g m) ∧
      diskCopy s.disk = some (g, m) ∧ (r = s.slot ∨ r = none ∨ r = some ⟨none⟩) ∧
      vamanaWorkerProcessLoadSlot k s =
        ⟨s.db, s.disk, r, some { entryOf s.disk.metap g m with replicationSlot := b }⟩ := by
  unfold vamanaWorkerProcessLoadSlot
  rcases hl : loadSlotEntry k.load s.disk with _ | c
  · exact .inl ⟨rfl, rfl⟩
  · obtain ⟨g, m, hc, rfl⟩ := diskCopy_of_loadSlotEntry h hl
    generalize hs : vamanaReplicationCreate k.slotHeld k.createFails s.slot = made
    obtain ⟨r, created⟩ := made
    refine .inr ⟨g, m, created, r, rfl, hc, ?_, rfl⟩
    unfold vamanaReplicationCreate at hs
    split at hs
    · exact .inl (Prod.ext_iff.mp hs).1.symm
    · split at hs
      · exact .inr (.inl (Prod.ext_iff.mp hs).1.symm)
      · exact .inr (.inr (Prod.ext_iff.mp hs).1.symm)

theorem Ok.loadSlot (k : LoadSlotCalls) : (vamanaWorkerProcessLoadSlot k s).Ok := by
  rcases loadSlot_outcome h k with ⟨-, heq⟩ | ⟨g, m, b, r, -, hc, hr, heq⟩
  · rw [heq]
    exact h
  · rw [heq]
    have hen := h.copy hc b
    exact hen.write rfl hr (.inl rfl) (hen.cache _ rfl) (fun hn => by cases hn)
      fun _ => ⟨rfl, Nat.le_refl _⟩

theorem Ok.crash (flushed : Nat) : (crash flushed s).Ok := by
  refine ⟨ok_step h.db .crash, ?_, by simp [Server.crash], by simp [Server.crash], h.saved,
    by simp [Server.crash]⟩
  intro X hX
  unfold Server.crash confirmedFlush at hX
  rcases hs : s.slot with _ | ⟨⟨_ | Y⟩⟩
  · simp [hs] at hX
  · simp [hs] at hX
  · have hY := h.flushed Y (by simp [confirmedFlush, hs])
    simp only [hs, map_some, bind_some, some.injEq] at hX
    exact Nat.le_trans (hX ▸ Nat.min_le_right flushed Y) hY

/-! ## Every run -/

theorem ok_step (e : Event V) : (s.step e).Ok := by
  cases e with
  | begin => exact h.db_step .begin
  | insert k xid t v =>
    simp only [step]
    split
    · rename_i hc
      exact h.insertRow k xid t v hc
    · exact h
  | delete xid t => exact h.db_step (.delete xid t)
  | commit xid => exact h.db_step (.commit xid)
  | abort xid => exact h.db_step (.abort xid)
  | prune t => exact h.db_step (.prune t)
  | deleteIds k ids =>
    simp only [step]
    split
    · rename_i hc
      exact h.executeDelete k ids hc
    · exact h
  | load k retry =>
    change (vamanaWorkerGetOrLoadIndex k retry s).1.Ok
    rcases hc : s.cache with _ | c
    · exact h.load (getOrLoadIndex_outcome k retry hc h.flagged)
    · rw [getOrLoadIndex_cached k retry (by rw [hc]; rfl)]
      exact h
  | loadSlot k => exact h.loadSlot k
  | drain k => exact h.drain (drainSlot_outcome k s)
  | checkpoint saveFails slotBusy => exact h.checkpoint saveFails slotBusy
  | evict => exact h.evict
  | walBudget slotHeld => exact h.forceHeapRebuild slotHeld
  | crash flushed => exact h.crash flushed

end

theorem ok_created (rel : Relation) (history : List (Op V)) : (created rel history).Ok := by
  have hdb := ok_run (ok_start (V := V) rel) history
  unfold created
  dsimp only
  generalize run Database.step (Database.start rel) history = db at hdb ⊢
  rcases hr : vamanaRebuildFromTable (visibleRows db) with _ | c
  · refine .of_no_dir hdb (fun X hX => by cases hX) ?_ rfl
    intro x hx
    obtain rfl := some.inj hx
    exact ⟨sound_emptyTableIndex, fun _ => rfl⟩
  · have hem : (⟨db, ⟨none, ⟨false, 0, 0, 0, 0⟩⟩, some ⟨some db.wal.length⟩, none⟩ :
        Server V).Ok := by
      refine .of_no_dir hdb (fun X hX => ?_) (fun x hx => by cases hx) rfl
      obtain rfl := some.inj hX
      exact Nat.le_refl _
    exact hem.rebuilt hr ⟨rfl, rfl, rfl, rfl⟩ (.inr ⟨_, rfl⟩) (.inl rfl)

theorem ok_run (h : s.Ok) (es : List (Event V)) : (run step s es).Ok :=
  run_keeps Ok (fun _ e h => ok_step h e) h es

/-- The drain applies changes to the entry and leaves it in the cache. -/
def Applies (k : DrainFaults) (s : Server V) (c : IndexCache V) : Prop :=
  c.replicationSlot = true ∧ Runs (k.calls s.db) s.db.wal c ∧
    (k.raiseAt = none ∨ k.shutdown = true)

theorem drain_cache (hok : s.Ok) {X : Nat} (hc : s.cache = some c) (hX : s.confirmedFlush = some X)
    (happ : Applies k s c) :
    ∃ c', (vamanaReplicationDrainSlot k s).1.cache = some c' ∧
      Same (replayed (k.calls s.db).apply s.db.rel (recordsRead s.db.wal k.raiseAt) X
        c).1 c' := by
  obtain ⟨ho, hru, hend⟩ := happ
  unfold vamanaReplicationDrainSlot
  simp only [hc, hX, ho, Bool.not_true, Bool.false_eq_true, if_false]
  rcases hr : k.raiseAt with _ | m
  · rw [replay_finished X hru hr hok.db.wal]
    exact ⟨_, rfl, ⟨rfl, rfl, rfl, rfl⟩⟩
  · have hs : k.shutdown = true := by simpa [hr] using hend
    rw [replay_raised X hru hr hok.db.wal]
    simp only [hs, if_true]
    exact ⟨_, rfl, .refl _⟩

/-- The drain fails while it decodes, and gives the entry up. -/
def GivesUp (k : DrainFaults) (s : Server V) (c : IndexCache V) : Prop :=
  s.confirmedFlush.isSome ∧ c.replicationSlot = true ∧ Runs (k.calls s.db) s.db.wal c ∧
    k.raiseAt.isSome ∧ k.shutdown = false

theorem drain_cache_of_givesUp (hok : s.Ok) (hc : s.cache = some c) (h : GivesUp k s c) :
    (vamanaReplicationDrainSlot k s).1.cache = none := by
  obtain ⟨hX, ho, hru, hr, hs⟩ := h
  obtain ⟨X, hX⟩ := isSome_iff_exists.mp hX
  obtain ⟨m, hr⟩ := isSome_iff_exists.mp hr
  unfold vamanaReplicationDrainSlot
  simp only [hc, hX, ho, Bool.not_true, Bool.false_eq_true, if_false,
    replay_raised X hru hr hok.db.wal, hs]
  rfl

theorem drain_cache_of_idle (hc : s.cache = some c)
    (hno : s.confirmedFlush = none ∨ ¬ Applies k s c) (hst : ¬ GivesUp k s c) :
    (vamanaReplicationDrainSlot k s).1.cache = some c := by
  unfold vamanaReplicationDrainSlot
  rcases hX : s.confirmedFlush with _ | X
  · simp [hc]
  · rw [hX] at hno
    have hno : ¬ Applies k s c := by simpa using hno
    rcases ho : c.replicationSlot with _ | _
    · simp [hc, ho]
    · by_cases hr : Runs (k.calls s.db) s.db.wal c
      · exfalso
        rcases hra : k.raiseAt with _ | m
        · exact hno ⟨ho, hr, .inl hra⟩
        · rcases hs : k.shutdown with _ | _
          · exact hst ⟨by rw [hX]; rfl, ho, hr, by rw [hra]; rfl, hs⟩
          · exact hno ⟨ho, hr, .inr hs⟩
      · simp [hc, ho, replay_of_not_runs s.db.rel X hr]

theorem drain_cached (hok : s.Ok) (hc' : (vamanaReplicationDrainSlot k s).1.cache = some c') :
    ∃ c, s.cache = some c ∧ ¬ GivesUp k s c ∧
      ((∃ X, s.confirmedFlush = some X ∧ Applies k s c ∧
        Same (replayed (k.calls s.db).apply s.db.rel (recordsRead s.db.wal k.raiseAt) X
          c).1 c') ∨
        c' = c ∧ (s.confirmedFlush = none ∨ ¬ Applies k s c)) := by
  rcases hc : s.cache with _ | c
  · unfold vamanaReplicationDrainSlot at hc'
    simp [hc] at hc'
  · have hs : ¬ GivesUp k s c := fun hg => by
      rw [drain_cache_of_givesUp hok hc hg] at hc'
      cases hc'
    refine ⟨c, rfl, hs, ?_⟩
    by_cases hno : s.confirmedFlush = none ∨ ¬ Applies k s c
    · rw [drain_cache_of_idle hc hno hs] at hc'
      exact .inr ⟨(some.inj hc').symm, hno⟩
    obtain ⟨hX, happ⟩ := not_or.mp hno
    obtain ⟨X, hX⟩ := ne_none_iff_exists'.mp hX
    have happ := not_not.mp happ
    obtain ⟨c₁, hc₁, hsa⟩ := drain_cache hok hc hX happ
    exact .inl ⟨X, hX, happ, some.inj (hc₁.symm.trans hc') ▸ hsa⟩

/-! ## A load with its drain -/

theorem db_drain (k : DrainFaults) (s : Server V) :
    (vamanaReplicationDrainSlot k s).1.db = s.db := by
  have hout := drainSlot_outcome k s
  generalize (vamanaReplicationDrainSlot k s).1 = s' at hout ⊢
  cases hout <;> rfl

theorem ensure_cases (k : EnsureCalls) (hok : s.Ok) (hc : s.cache = none) :
    (∃ res, LoadOutcome k.get k.retry s (vamanaWorkerEnsureIndexCurrent k s).1 res ∧
      res ≠ some true) ∨
    k.get.lateError = .none ∧ TakesCopy k.get s ∧
      (vamanaWorkerEnsureIndexCurrent k s).1 =
        (vamanaReplicationDrainSlot k.drain s.withCopy).1 := by
  have hout := getOrLoadIndex_outcome k.get k.retry hc hok.flagged
  have hd := getOrLoadIndex_fromDisk k.get k.retry hc hok.flagged
  unfold vamanaWorkerEnsureIndexCurrent
  generalize vamanaWorkerGetOrLoadIndex k.get k.retry s = r at hout hd ⊢
  obtain ⟨s', _ | _ | _⟩ := r
  · exact .inl ⟨none, hout, by simp⟩
  · exact .inl ⟨some false, hout, by simp⟩
  · obtain ⟨hl, ht, rfl⟩ := hd rfl
    refine .inr ⟨hl, ht, ?_⟩
    dsimp only
    split <;> rfl

theorem Ok.withCopy (hok : s.Ok) : s.withCopy.Ok := by
  unfold Server.withCopy
  rcases hc : diskCopy s.disk with _ | ⟨g, m⟩
  · exact hok.evict
  · exact hok.copy hc _

theorem Ok.ensure (hok : s.Ok) (k : EnsureCalls) (hc : s.cache = none) :
    (vamanaWorkerEnsureIndexCurrent k s).1.Ok := by
  rcases ensure_cases k hok hc with ⟨res, hout, -⟩ | ⟨-, -, heq⟩
  · exact hok.load hout
  · rw [heq]
    exact hok.withCopy.drain (drainSlot_outcome k.drain s.withCopy)

variable (k : EnsureCalls)

theorem db_ensure (hok : s.Ok) (hc : s.cache = none) :
    (vamanaWorkerEnsureIndexCurrent k s).1.db = s.db := by
  rcases ensure_cases k hok hc with ⟨res, hout, -⟩ | ⟨-, -, heq⟩
  · exact hout.db_eq
  · rw [heq, db_drain]
    rfl

theorem ensure_nothing (hok : s.Ok) (hc : s.cache = none)
    (h : (vamanaWorkerEnsureIndexCurrent k s).1.cache = none) :
    (vamanaWorkerEnsureIndexCurrent k s).1 = s ∨
      (vamanaWorkerEnsureIndexCurrent k s).1.disk.dir = none := by
  rcases ensure_cases k hok hc with ⟨res, hout, -⟩ | ⟨-, ⟨-, hco, -⟩, heq⟩
  · generalize (vamanaWorkerEnsureIndexCurrent k s).1 = s' at hout h ⊢
    cases hout with
    | nothing hd =>
      rcases hd with ⟨rfl, rfl⟩ | ⟨hd, -⟩
      · obtain ⟨db, disk, slot, cache⟩ := s
        obtain rfl : cache = none := hc
        exact .inl rfl
      · exact .inr hd
    | copy _ _ _ => cases h
    | rebuilt _ _ _ _ _ => cases h
    | empty _ _ _ _ _ => cases h
  · rw [heq] at h ⊢
    have hout := drainSlot_outcome k.drain s.withCopy
    generalize (vamanaReplicationDrainSlot k.drain s.withCopy).1 = s' at hout h ⊢
    cases hout with
    | idle =>
      unfold withCopy at h
      rw [map_eq_none_iff] at h
      rw [h] at hco
      cases hco
    | finished _ _ _ _ _ => cases h
    | cut _ _ _ => cases h
    | dropped => exact .inr rfl

theorem ensure_cached (hc : s.cache = some c) : (vamanaWorkerEnsureIndexCurrent k s).1 = s := by
  unfold vamanaWorkerEnsureIndexCurrent
  rw [getOrLoadIndex_cached _ _ (by rw [hc]; rfl)]

theorem resolve_cases (k : WriteCalls) (hc : s.cache = none) :
    (resolveForWrite k s).1 = (vamanaWorkerEnsureIndexCurrent k.first s).1 ∨
    (resolveForWrite k s).1 = (vamanaWorkerEnsureIndexCurrent k.second
      (vamanaWorkerEnsureIndexCurrent k.first s).1).1 := by
  unfold resolveForWrite
  simp only [hc]
  generalize vamanaWorkerEnsureIndexCurrent k.first s = r
  obtain ⟨s', (_ | g) | _⟩ := r
  · exact .inr rfl
  · exact .inl rfl
  · exact .inl rfl

theorem Ok.resolve (hok : s.Ok) (k : WriteCalls) : (resolveForWrite k s).1.Ok := by
  rcases hc : s.cache with _ | c
  · have hf := hok.ensure k.first hc
    rcases resolve_cases k hc with heq | heq
    · rw [heq]
      exact hf
    · rw [heq]
      rcases hc' : (vamanaWorkerEnsureIndexCurrent k.first s).1.cache with _ | c'
      · exact hf.ensure k.second hc'
      · rw [ensure_cached k.second hc']
        exact hf
  · rw [resolveForWrite_cached k hc]
    exact hok

end Server

end svs_vamana.server
