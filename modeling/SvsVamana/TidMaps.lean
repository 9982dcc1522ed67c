-- The two TID maps of one resident index: where the reverse map is the inverse of the forward map,
-- and where an insert leaves the two apart.
import SvsVamana.Lib.Runs
import SvsVamana.WriteSlot
import SvsVamana.Replay

namespace svs_vamana.tid_maps

open transition_runs index_cache saved_index write_slot replay
open IndexCache List

variable {V : Type}

/-! ## The operations on one entry -/

/-- How `VamanaWorkerBuildFirstInsert` ends: the library builds nothing, or the residency
budget refuses the graph it built, or the graph goes into the entry. -/
inductive FirstBuild
  | failed
  | refused
  | built
deriving DecidableEq, Repr

/-- A cached index and its metapage. -/
structure Resident (V : Type) where
  cache : IndexCache V
  metap : MetaPage

/-- `load` takes any copy of an index: its graph, its TID map and the counters of the
metapage. -/
inductive Event (V : Type)
  | load (svsIndex : Option (SvsIndex V)) (tidMapping : List (Option Tid))
      (numVectors nextExternalId numDeleted : Nat)
  | insert (first : FirstBuild) (k : InsertCalls) (t : Tid) (v : V)
  | delete (p : MetaPersist) (ids : List Nat)
  | replayInsert (k : ApplyCalls V) (lsn : Nat) (t : Tid)
  | replayDelete (t : Tid)

/-- `VamanaWorkerBuildEmptyTableIndex` on the entry. `numVectors` is 1 before the budget is
asked, and nobody takes it back when the answer is no. -/
def buildEmptyTableIndex (first : FirstBuild) (p : MetaPersist) (t : Tid) (v : V)
    (s : Resident V) : Resident V :=
  match first with
  | .failed => s
  | .refused => { s with cache := { s.cache with numVectors := 1 } }
  | .built =>
    let c' := buildFirstInsert t v s.cache
    if p = .failed then { s with cache := c' }
    else
      { cache := { c' with opsSinceCheckpoint := c'.opsSinceCheckpoint + 1 }
        metap := persistMetaCounters p c' s.metap }

/-- `VamanaWorkerExecuteWriteSlot` for an INSERT slot: an entry without a graph gets one from
the row. -/
def insertPoint (first : FirstBuild) (k : InsertCalls) (t : Tid) (v : V) (s : Resident V) :
    Resident V :=
  match s.cache.svsIndex with
  | none => buildEmptyTableIndex first k.persist t v s
  | some g =>
    let (c', m, _) := executeInsertSlot k t v g s.cache s.metap
    ⟨c', m⟩

/-- `VamanaWorkerExecuteWriteSlot` for a DELETE slot. -/
def deletePoints (p : MetaPersist) (ids : List Nat) (s : Resident V) : Resident V :=
  match s.cache.svsIndex with
  | none => s
  | some g =>
    let (c', m, _) := executeDeleteSlot p ids g s.cache s.metap
    ⟨c', m⟩

/-- `ApplyInsertChange` on the entry; the metapage is not written. -/
def replayInsert (k : ApplyCalls V) (lsn : Nat) (t : Tid) (s : Resident V) : Resident V :=
  { s with cache := (applyInsertChange k lsn t s.cache).getD s.cache }

/-- `ApplyDeleteChange` on the entry. -/
def replayDelete (t : Tid) (s : Resident V) : Resident V :=
  { s with cache := (applyDeleteChange t s.cache).getD s.cache }

def step (s : Resident V) : Event V → Resident V
  | .load g m n next d => { s with cache := vamanaCacheIndex g m n next d }
  | .insert first k t v => insertPoint first k t v s
  | .delete p ids => deletePoints p ids s
  | .replayInsert k lsn t => replayInsert k lsn t s
  | .replayDelete t => replayDelete t s

/-! ## What the maps should say -/

def validEntries (c : IndexCache V) : Nat := c.tidMapping.countP Option.isSome

/-- `e` is the most recent of the ids that are mapped to the TID. -/
def Latest (c : IndexCache V) (t : Tid) (e : Nat) : Prop :=
  c.tidOf e = some t ∧ ∀ i, c.tidOf i = some t → i ≤ e

/-- The maps are inverse to each other, and the counter counts the forward map. -/
structure MutuallyInverse (c : IndexCache V) : Prop where
  reverse : ∀ t e, c.eidOf t = some e ↔ Latest c t e
  count : c.numVectors = validEntries c

/-- The copy names no TID twice and no id that is still to be given out, and an index without
a TID map is an empty one. -/
def CopyOk (g : Option (SvsIndex V)) (m : List (Option Tid)) (n next : Nat) : Prop :=
  (m.filterMap id).Nodup ∧ (m.drop next).all Option.isNone = true ∧
    (m = [] ↔ g.isNone) ∧ (m = [] → n = 0)

/-- Loads of good copies, a budget that admits the first insert, inserts of unmapped TIDs, and
deletes of mapped points, each once. Replayed changes need nothing. -/
def Careful (s : Resident V) : Event V → Prop
  | .load g m n next _ => CopyOk g m n next
  | .insert first _ t _ =>
    (s.cache.svsIndex.isNone → first ≠ .refused) ∧
      (s.cache.svsIndex.isSome → s.cache.eidOf t = none)
  | .delete _ ids =>
    (∀ e ∈ ids, (s.cache.point e).isSome) → ids.Nodup ∧ ∀ e ∈ ids, (s.cache.tidOf e).isSome
  | .replayInsert _ _ _ => True
  | .replayDelete _ => True

instance (g : Option (SvsIndex V)) (m : List (Option Tid)) (n next : Nat) :
    Decidable (CopyOk g m n next) :=
  inferInstanceAs (Decidable (_ ∧ _ ∧ _ ∧ _))

instance Careful.decidable (s : Resident V) : ∀ e, Decidable (Careful s e) := by
  intro e
  cases e <;> unfold Careful <;> infer_instance

/-! ## What a replayed change does -/

def withPoint (g : SvsIndex V) (e : Nat) (v : V) : SvsIndex V :=
  ⟨Function.update g.point e (some v)⟩

variable {e : Nat}

theorem svsAddPoints_some {added : Bool} {g g' : SvsIndex V} {v : V}
    (h : svsAddPoints added g e v = some g') : added = true ∧ g' = withPoint g e v := by
  unfold svsAddPoints at h
  split at h
  · rename_i hadd
    exact ⟨hadd, (Option.some.inj h).symm⟩
  · cases h

variable {t : Tid} {c c' : IndexCache V}

theorem applyInsertChange_some {k : ApplyCalls V} {lsn : Nat}
    (h : applyInsertChange k lsn t c = some c') :
    c.eidOf t = none ∧ ∃ g v, c.svsIndex = some g ∧
      c' = { mapNewPoint c (withPoint g c.nextExternalId v) t c.nextExternalId with
        opsSinceCheckpoint := c.opsSinceCheckpoint + 1 } := by
  rcases ht : c.eidOf t with _ | e
  · rcases hg : c.svsIndex with _ | g
    · simp [applyInsertChange, ht, hg] at h
    · rcases hf : k.fetch t with _ | _ | v
      · simp [applyInsertChange, ht, hg, hf] at h
      · simp [applyInsertChange, ht, hg, hf] at h
      · simp only [applyInsertChange, ht, hg, hf] at h
        split at h
        · cases h
        · obtain ⟨g', hadd, hc'⟩ := Option.map_eq_some_iff.mp h
          obtain ⟨-, rfl⟩ := svsAddPoints_some hadd
          exact ⟨rfl, g, v, rfl, hc'.symm⟩
  · simp [applyInsertChange, ht] at h

/-- `c'` is `c` without the point that the TID led to. -/
structure Unmapped (t : Tid) (e : Nat) (c c' : IndexCache V) : Prop where
  found : c.eidOf t = some e
  graph : c.svsIndex.isSome
  graph' : c'.svsIndex.isSome
  tidMapping : c'.tidMapping = c.tidMapping.set e none
  eidOf : ∀ t', c'.eidOf t' = if t' = t then none else c.eidOf t'
  point : ∀ i, c'.point i = if i = e then none else c.point i
  table : c'.tidToExternalId.isSome = c.tidToExternalId.isSome
  next : c'.nextExternalId = c.nextExternalId
  numDeleted : c'.numDeleted = c.numDeleted + 1
  numVectors : c'.numVectors = c.numVectors - 1

theorem applyDeleteChange_some (h : applyDeleteChange t c = some c') : ∃ e, Unmapped t e c c' := by
  rcases ht : c.eidOf t with _ | e
  · simp [applyDeleteChange, ht] at h
  · rcases hg : c.svsIndex with _ | g
    · simp [applyDeleteChange, ht, hg] at h
    · simp only [applyDeleteChange, ht, hg] at h
      obtain ⟨g', hdel, rfl⟩ := Option.map_eq_some_iff.mp h
      have hp : ∀ i, g'.point i = if i = e then none else g.point i := by
        intro i
        unfold svsDeletePoints at hdel
        split at hdel
        · rw [← Option.some.inj hdel]
          simp
        · cases hdel
      refine ⟨e, ht, by simp [hg], rfl, rfl, fun t' => ?_, fun i => ?_, ?_, rfl, rfl, rfl⟩
      · unfold eidOf
        by_cases ht' : t' = t
        · subst ht'
          cases c.tidToExternalId <;> simp
        · cases c.tidToExternalId <;> simp [ht']
      · simpa [point, hg] using hp i
      · simp

theorem clear_get (m : List (Option Tid)) (e i : Nat) :
    ((m.set e none)[i]?).join = if i = e then none else (m[i]?).join := by
  by_cases hi : i = e
  · subst hi
    rw [if_pos rfl, getElem?_set_self']
    cases m[i]? <;> rfl
  · rw [if_neg hi, getElem?_set_ne (Ne.symm hi)]

theorem Unmapped.tidOf (h : Unmapped t e c c') (i : Nat) :
    c'.tidOf i = if i = e then none else c.tidOf i := by
  unfold IndexCache.tidOf
  rw [h.tidMapping]
  exact clear_get c.tidMapping e i

/-! ## Counting the forward map -/

theorem validEntries_mapNewPoint (g : SvsIndex V) (t : Tid) (hf : c.tidOf e = none) :
    validEntries (mapNewPoint c g t e) = validEntries c + 1 := by
  have hg : (growTidMapping c.tidMapping e).countP Option.isSome = validEntries c := by
    unfold growTidMapping validEntries
    split
    · simp [countP_append, countP_replicate]
    · rfl
  have hlt := lt_growTidMapping_length c.tidMapping e
  have hold : (growTidMapping c.tidMapping e)[e].isSome = false := by
    have hget := growTidMapping_get c.tidMapping e e
    rw [getElem?_eq_getElem hlt] at hget
    have hn : (growTidMapping c.tidMapping e)[e] = none := hget.trans hf
    rw [hn]
    rfl
  unfold validEntries mapNewPoint
  rw [countP_set hlt, hold, hg]
  simp [validEntries]

variable {m : List (Option Tid)}

theorem countP_clear (h : (m[e]?).join = some t) :
    (m.set e none).countP Option.isSome + 1 = m.countP Option.isSome := by
  have hget : m[e]? = some (some t) := by
    rcases hm : m[e]? with _ | x
    · simp [hm] at h
    · rw [hm] at h
      rw [show x = some t from h]
  obtain ⟨hlt, hval⟩ := List.getElem?_eq_some_iff.mp hget
  have hpos : 0 < m.countP Option.isSome :=
    countP_pos_iff.mpr ⟨some t, hval ▸ getElem_mem hlt, rfl⟩
  rw [countP_set hlt, hval]
  simp only [Option.isSome_some, Option.isSome_none, if_true, Bool.false_eq_true, if_false]
  omega

theorem validEntries_forget (h : (c.tidOf e).isSome) :
    validEntries (vamanaCacheForgetExternalId c e) + 1 = validEntries c := by
  obtain ⟨t, ht⟩ := Option.isSome_iff_exists.mp h
  have hc := countP_clear ht
  unfold vamanaCacheForgetExternalId
  split
  · exact hc
  rename_i hget
  exfalso
  unfold tidOf at ht
  rcases hm : c.tidMapping[e]? with _ | _ | t'
  · simp [hm] at ht
  · simp [hm] at ht
  · exact hget t' hm

variable {ids : List Nat}

theorem validEntries_foldl_forget (hn : ids.Nodup) (h : ∀ e ∈ ids, (c.tidOf e).isSome) :
    validEntries (ids.foldl vamanaCacheForgetExternalId c) + ids.length = validEntries c := by
  induction ids generalizing c with
  | nil => rfl
  | cons i ids ih =>
    obtain ⟨hi, hr⟩ := nodup_cons.mp hn
    have ho : ∀ e ∈ ids, ((vamanaCacheForgetExternalId c i).tidOf e).isSome := by
      intro e he
      have hne : e ≠ i := fun heq => hi (heq ▸ he)
      rw [tidOf_forget, if_neg hne]
      exact h e (mem_cons_of_mem i he)
    have hf := validEntries_forget (h i mem_cons_self)
    have := ih hr ho
    rw [foldl_cons, length_cons]
    omega

/-! ## What a write slot does -/

/-- Two entries that agree on the graph, the maps and the counters. -/
structure Alike (c c' : IndexCache V) : Prop extends Same c c' where
  numVectors : c'.numVectors = c.numVectors
  numDeleted : c'.numDeleted = c.numDeleted

theorem Alike.refl (c : IndexCache V) : Alike c c := ⟨Same.refl c, rfl, rfl⟩

theorem Alike.writeMetaPageDynamic (h : Alike c c') (m : MetaPage) :
    writeMetaPageDynamic c' m = writeMetaPageDynamic c m := by
  unfold saved_index.writeMetaPageDynamic
  rw [h.nextExternalId, h.numVectors, h.numDeleted, h.tidMapping]

/-- What an insert does to an entry. `stray` is an insert that fails once its point is in
the graph, and `refused` a first insert that the budget does not admit. -/
inductive Inserted (strays refuses : Prop) (t : Tid) (c c' : IndexCache V) : Prop
  | kept (h : Alike c c')
  | stray (hs : strays) (g : SvsIndex V) (hg : c.svsIndex = some g) (v : V)
      (h : Alike { c with svsIndex := some (withPoint g c.nextExternalId v) } c')
  | added (g : SvsIndex V) (hg : c.svsIndex = some g) (v : V)
      (h : Alike (mapNewPoint c (withPoint g c.nextExternalId v) t c.nextExternalId) c')
  | first (hg : c.svsIndex = none) (v : V) (h : Alike (buildFirstInsert t v c) c')
  | refused (hr : refuses) (hg : c.svsIndex = none) (h : Alike { c with numVectors := 1 } c')

theorem Inserted.mono {strays strays' refuses : Prop} {c c' : IndexCache V}
    (h : Inserted strays refuses t c c') (hs : strays → strays') :
    Inserted strays' refuses t c c' := by
  cases h with
  | kept h => exact .kept h
  | stray hst g hg v h => exact .stray (hs hst) g hg v h
  | added g hg v h => exact .added g hg v h
  | first hg v h => exact .first hg v h
  | refused hr hg h => exact .refused hr hg h

/-- The metapage is as it was, or has the counters of an entry with a graph. -/
def MetaAfter (c : IndexCache V) (m m' : MetaPage) : Prop :=
  m' = m ∨ c.svsIndex.isSome ∧ m' = writeMetaPageDynamic c m

theorem metaAfter_persist (p : MetaPersist) (h : Alike c c') (hg : c.svsIndex.isSome) (m : MetaPage) :
    MetaAfter c' m (persistMetaCounters p c m) := by
  cases p with
  | written => exact .inr ⟨by rw [h.svsIndex]; exact hg, (h.writeMetaPageDynamic m).symm⟩
  | skipped => exact .inl rfl
  | failed => exact .inl rfl

/-- An INSERT slot. A stray point needs an error between `SVSAddPoints` and the maps. -/
theorem inserted_insertPoint (first : FirstBuild) (k : InsertCalls) (t : Tid) (v : V)
    (r : Resident V) :
    MetaAfter (insertPoint first k t v r).cache r.metap (insertPoint first k t v r).metap ∧
      Inserted (k.added = true ∧ k.reanchored = false) (first = .refused) t r.cache
        (insertPoint first k t v r).cache := by
  unfold insertPoint
  split
  · rename_i hg
    cases first with
    | failed => exact ⟨.inl rfl, .kept (.refl _)⟩
    | refused => exact ⟨.inl rfl, .refused rfl hg (.refl _)⟩
    | built =>
      simp only [buildEmptyTableIndex]
      split
      · exact ⟨.inl rfl, .first hg v (.refl _)⟩
      have ha : Alike (buildFirstInsert t v r.cache)
          { buildFirstInsert t v r.cache with
            opsSinceCheckpoint := (buildFirstInsert t v r.cache).opsSinceCheckpoint + 1 } :=
        ⟨⟨rfl, rfl, rfl, rfl⟩, rfl, rfl⟩
      exact ⟨metaAfter_persist _ ha rfl _, .first hg v ha⟩
  · rename_i g hg
    simp only [executeInsertSlot]
    split
    · exact ⟨.inl rfl, .kept (.refl _)⟩
    rename_i g' hadd
    obtain ⟨ht, rfl⟩ := svsAddPoints_some hadd
    split
    · rename_i hre
      exact ⟨.inl rfl, .stray ⟨ht, by simpa using hre⟩ g hg v (.refl _)⟩
    split
    · exact ⟨.inl rfl, .added g hg v (.refl _)⟩
    · exact ⟨metaAfter_persist _ ⟨⟨rfl, rfl, rfl, rfl⟩, rfl, rfl⟩ rfl _,
        .added g hg v ⟨⟨rfl, rfl, rfl, rfl⟩, rfl, rfl⟩⟩

theorem inserted_replayInsert (k : ApplyCalls V) (lsn : Nat) (t : Tid) (c : IndexCache V) :
    Inserted False False t c ((applyInsertChange k lsn t c).getD c) := by
  rcases happ : applyInsertChange k lsn t c with _ | c'
  · exact .kept (.refl c)
  · obtain ⟨-, g, v, hg, rfl⟩ := applyInsertChange_some happ
    exact .added g hg v ⟨⟨rfl, rfl, rfl, rfl⟩, rfl, rfl⟩

/-- `c'` is `c` after a delete of the ids that the library took. -/
structure Removed (ids : List Nat) (c c' : IndexCache V) : Prop extends Deleted ids c c' where
  had_graph : c.svsIndex.isSome
  valid : ∀ e ∈ ids, (c.point e).isSome
  numDeleted : c'.numDeleted = c.numDeleted + ids.length
  numVectors : c'.numVectors = c.numVectors - ids.length
  slots : c'.tidMapping.length = c.tidMapping.length
  table : c'.tidToExternalId.isSome = c.tidToExternalId.isSome
  entries : ids.Nodup → (∀ e ∈ ids, (c.tidOf e).isSome) →
    validEntries c' + ids.length = validEntries c

theorem deletePoints_cases (p : MetaPersist) (ids : List Nat) (r : Resident V) :
    deletePoints p ids r = r ∨
      MetaAfter (deletePoints p ids r).cache r.metap (deletePoints p ids r).metap ∧
        Removed ids r.cache (deletePoints p ids r).cache := by
  unfold deletePoints
  split
  · exact .inl rfl
  rename_i g hg
  by_cases hall : ∀ e ∈ ids, (r.cache.point e).isSome
  · refine .inr ?_
    have hdel := deleted_executeDeleteSlot p r.metap hg hall
    have hids : ids.all (fun e => (g.point e).isSome) = true := by
      rw [all_eq_true]
      intro e he
      simpa [point, hg] using hall e he
    generalize hg' :
      ({ point := fun e => if e ∈ ids then none else g.point e } : SvsIndex V) = g' at *
    have hlib : svsDeletePoints g ids = some g' := by
      rw [svsDeletePoints, if_pos hids, hg']
    obtain ⟨m, table, heq, hlen, htab⟩ := foldl_forget_eq ids { r.cache with svsIndex := some g' }
    have hen : ids.Nodup → (∀ e ∈ ids, (r.cache.tidOf e).isSome) →
        validEntries (ids.foldl vamanaCacheForgetExternalId
          { r.cache with svsIndex := some g' }) + ids.length = validEntries r.cache :=
      fun hno hm =>
        validEntries_foldl_forget (c := { r.cache with svsIndex := some g' }) hno hm
    have hs : r.cache.svsIndex.isSome := by simp [hg]
    rw [heq] at hen
    simp only [executeDeleteSlot, hlib, heq] at hdel ⊢
    split at hdel
    · rename_i hp
      simp only [hp, if_true]
      exact ⟨.inl rfl, hdel, hs, hall, rfl, rfl, hlen, htab, hen⟩
    · rename_i hp
      simp only [hp, if_false]
      exact ⟨metaAfter_persist _ ⟨⟨rfl, rfl, rfl, rfl⟩, rfl, rfl⟩ rfl _, hdel,
        hs, hall, rfl, rfl, hlen, htab, hen⟩
  · rw [executeDeleteSlot_refused p r.metap hg hall]
    exact .inl rfl

/-! ## What careful operations keep -/

/-- The maps are inverse to each other, the counter is right, ids from `nextExternalId` on
are free, and there is a reverse map exactly when there is a graph. -/
structure Inv (c : IndexCache V) : Prop where
  inverse : ∀ t e, c.eidOf t = some e ↔ c.tidOf e = some t
  count : c.numVectors = validEntries c
  free : ∀ e, c.nextExternalId ≤ e → c.tidOf e = none
  table : c.tidToExternalId.isSome = c.svsIndex.isSome

theorem Inv.mutuallyInverse (h : Inv c) : MutuallyInverse c := by
  refine ⟨fun t e => ⟨fun he => ?_, fun he => (h.inverse t e).mpr he.1⟩, h.count⟩
  refine ⟨(h.inverse t e).mp he, fun i hi => ?_⟩
  have := (h.inverse t i).mpr hi
  rw [he] at this
  exact Nat.le_of_eq (Option.some.inj this).symm

theorem Inv.unmapped (h : Inv c) (ht : c.eidOf t = none) (e : Nat) : c.tidOf e ≠ some t := by
  intro he
  have := (h.inverse t e).mpr he
  rw [ht] at this
  cases this

theorem Inv.mapNewPoint (h : Inv c) (hg : c.svsIndex.isSome) (g : SvsIndex V)
    (ht : c.eidOf t = none) : Inv (mapNewPoint c g t c.nextExternalId) := by
  have hf := h.free _ (Nat.le_refl _)
  obtain ⟨tab, htab⟩ := Option.isSome_iff_exists.mp (h.table.trans hg)
  have hta : tab t = none := by simpa [eidOf, htab] using ht
  refine ⟨fun t' e => ?_, ?_, fun e he => ?_, ?_⟩
  · rw [eidOf_mapNewPoint, tidOf_mapNewPoint]
    by_cases hte : t' = t
    · subst hte
      simp only [if_true, htab, Option.map_some, hta, Option.getD_none, Option.some.injEq]
      by_cases he : e = c.nextExternalId
      · simp [he]
      · rw [if_neg he]
        exact ⟨fun heq => absurd heq.symm he, fun hmap => absurd hmap (h.unmapped ht e)⟩
    · rw [if_neg hte, h.inverse]
      by_cases he : e = c.nextExternalId
      · subst he
        simp [hf, Ne.symm hte]
      · rw [if_neg he]
  · rw [validEntries_mapNewPoint g t hf, ← h.count]
    rfl
  · have hlt : c.nextExternalId + 1 ≤ e := he
    rw [tidOf_mapNewPoint, if_neg (by omega)]
    exact h.free e (by omega)
  · simp [index_cache.mapNewPoint, htab]

theorem Inv.fewer (h : Inv c) (htid : ∀ e, c'.tidOf e = if e ∈ ids then none else c.tidOf e)
    (heid : ∀ t, c'.eidOf t = if ids.any (fun e => c.tidOf e == some t) then none else c.eidOf t)
    (hc : c'.numVectors = validEntries c') (hne : c'.nextExternalId = c.nextExternalId)
    (ht : c'.tidToExternalId.isSome = c'.svsIndex.isSome) : Inv c' := by
  refine ⟨fun t e => ?_, hc, fun e he => ?_, ht⟩
  · rw [htid, heid]
    by_cases hany : ids.any (fun e => c.tidOf e == some t) = true
    · rw [if_pos hany]
      obtain ⟨i, hi, hti⟩ := any_eq_true.mp hany
      have hti : c.tidOf i = some t := by simpa using hti
      -- the TID was mapped by one id only, and that one is gone
      have ho : c.tidOf e = some t → e ∈ ids := by
        intro hte
        have h1 := (h.inverse t e).mpr hte
        rw [(h.inverse t i).mpr hti] at h1
        exact Option.some.inj h1 ▸ hi
      by_cases he : e ∈ ids
      · simp [he]
      · simpa [he] using fun hte => he (ho hte)
    · rw [if_neg hany, h.inverse]
      by_cases he : e ∈ ids
      · rw [if_pos he]
        refine ⟨fun hte => absurd ?_ hany, fun hn => by cases hn⟩
        exact any_eq_true.mpr ⟨e, he, by simp [hte]⟩
      · rw [if_neg he]
  · rw [htid, h.free e (hne ▸ he)]
    exact ite_self _

/-! ## Each operation -/

theorem nodup_ids_of_tids (h : (m.filterMap id).Nodup) {i j : Nat} (hi : (m[i]?).join = some t)
    (hj : (m[j]?).join = some t) : i = j := by
  induction m generalizing i j with
  | nil => simp at hi
  | cons x m ih =>
    -- a TID in the head slot is in none of the others
    have hh : ∀ n : Nat, x = some t → (m[n]?).join = some t → False := by
      intro n hx hn
      rw [hx, filterMap_cons_some (f := id) rfl, nodup_cons] at h
      apply h.1
      rw [mem_filterMap]
      refine ⟨some t, ?_, rfl⟩
      rw [Option.join_eq_some_iff] at hn
      exact mem_of_getElem? hn
    have ht : (m.filterMap id).Nodup := by
      cases x with
      | none => simpa using h
      | some s =>
        rw [filterMap_cons_some (f := id) rfl] at h
        exact (nodup_cons.mp h).2
    rcases i with _ | i <;> rcases j with _ | j
    · rfl
    · exact (hh j hi (by simpa using hj)).elim
    · exact (hh i hj (by simpa using hi)).elim
    · exact congrArg Nat.succ (ih ht (by simpa using hi) (by simpa using hj))

theorem unmapped_of_drop {n : Nat} (h : (m.drop n).all Option.isNone = true) (he : n ≤ e) :
    (m[e]?).join = none := by
  rcases hm : m[e]? with _ | x
  · rfl
  · have hmem : x ∈ m.drop n := by
      refine mem_of_getElem? (i := e - n) ?_
      rw [getElem?_drop, Nat.add_sub_cancel' he, hm]
    simpa using all_eq_true.mp h x hmem

theorem inv_load {g : Option (SvsIndex V)} {n next : Nat} (d : Nat) (h : CopyOk g m n next) :
    Inv (vamanaCacheIndex g m n next d) := by
  obtain ⟨hn, hd, hem, hz⟩ := h
  refine ⟨fun t e => ⟨fun he => eidOf_cacheIndex_tid he, fun he => ?_⟩, ?_, fun e he => ?_, ?_⟩
  · have he : (m[e]?).join = some t := he
    rw [eidOf_cacheIndex]
    rcases hf : m.findIdx? (· == some t) with _ | i
    · rw [findIdx?_eq_none_iff] at hf
      have := hf (some t) (mem_of_getElem? (Option.join_eq_some_iff.mp he))
      simp at this
    · have hi := eidOf_cacheIndex_tid (g := g) (n := n) (d := d)
        ((eidOf_cacheIndex g m n next d t).trans hf)
      rw [nodup_ids_of_tids hn hi he]
  · unfold validEntries vamanaCacheIndex
    dsimp only
    split
    · rfl
    · rename_i hlen
      have hm : m = [] := length_eq_zero_iff.mp (by omega)
      simp [hz hm, hm]
  · exact unmapped_of_drop hd he
  · show (if m.length > 0 then _ else none : Option (Tid → Option Nat)).isSome = g.isSome
    split
    · rename_i hlen
      have hne : ¬ m = [] := fun hm => by simp [hm] at hlen
      rw [hem] at hne
      cases g with
      | none => exact absurd rfl hne
      | some g => rfl
    · rename_i hlen
      have hm := hem.mp (length_eq_zero_iff.mp (by omega))
      cases g with
      | none => rfl
      | some g => cases hm

theorem inv_buildFirstInsert (t : Tid) (v : V) (hta : c.tidToExternalId = none) :
    Inv (buildFirstInsert t v c) := by
  refine ⟨fun t' e => ?_, ?_, fun e he => ?_, rfl⟩
  · rw [tidOf_buildFirstInsert, eidOf_buildFirstInsert t v hta]
    by_cases ht : t' = t
    · by_cases he : e = 0
      · simp [ht, he]
      · simp [he, Ne.symm he]
    · simp [ht, Ne.symm ht]
  · show 1 = countP Option.isSome (some t :: replicate 1023 none)
    rw [countP_cons_of_pos rfl, countP_replicate]
    rfl
  · have he : 1 ≤ e := he
    rw [tidOf_buildFirstInsert, if_neg (by omega)]

theorem Inv.congr (h : Inv c) (hm : c'.tidMapping = c.tidMapping)
    (ht : c'.tidToExternalId = c.tidToExternalId) (hn : c'.numVectors = c.numVectors)
    (hx : c'.nextExternalId = c.nextExternalId) (hg : c'.svsIndex.isSome = c.svsIndex.isSome) :
    Inv c' := by
  have htid : ∀ e, c'.tidOf e = c.tidOf e := fun e => by
    unfold tidOf
    rw [hm]
  refine ⟨fun t e => ?_, ?_, fun e he => ?_, ?_⟩
  · rw [htid, ← h.inverse]
    unfold eidOf
    rw [ht]
  · rw [hn, h.count]
    unfold validEntries
    rw [hm]
  · rw [htid]
    exact h.free e (hx ▸ he)
  · rw [ht, hg, h.table]

theorem Alike.inv (h : Alike c c') (hc : Inv c) : Inv c' :=
  hc.congr h.tidMapping h.tidToExternalId h.numVectors h.nextExternalId
    (congrArg Option.isSome h.svsIndex)

/-- An insert that finds its TID unmapped, and that the budget does not refuse. -/
theorem Inserted.inv {strays refuses : Prop} (h : Inserted strays refuses t c c') (hc : Inv c)
    (hr : c.svsIndex.isNone → ¬ refuses) (ht : c.svsIndex.isSome → c.eidOf t = none) : Inv c' := by
  cases h with
  | kept h => exact h.inv hc
  | stray _ g hg v h => exact h.inv (hc.congr rfl rfl rfl rfl (by simp [hg]))
  | added g hg v h =>
    have hs : c.svsIndex.isSome := by simp [hg]
    exact h.inv (hc.mapNewPoint hs _ (ht hs))
  | first hg v h =>
    have hta : c.tidToExternalId = none := by
      have := hc.table
      rw [hg] at this
      exact Option.isNone_iff_eq_none.mp (by simpa using this)
    exact h.inv (inv_buildFirstInsert t v hta)
  | refused hre hg h => exact absurd hre (hr (by simp [hg]))

variable {s : Resident V}

theorem inv_insertPoint (h : Inv s.cache) {first : FirstBuild} {k : InsertCalls}
    {v : V} (hok : Careful s (.insert first k t v)) : Inv (insertPoint first k t v s).cache :=
  (inserted_insertPoint first k t v s).2.inv h hok.1 hok.2

theorem inv_deletePoints (h : Inv s.cache) {p : MetaPersist}
    (hok : Careful s (.delete p ids)) : Inv (deletePoints p ids s).cache := by
  rcases deletePoints_cases p ids s with heq | ⟨-, hdel⟩
  · rw [heq]
    exact h
  · obtain ⟨hn, hm⟩ := hok hdel.valid
    refine h.fewer hdel.tidOf hdel.eidOf ?_ hdel.next ?_
    · have hen := hdel.entries hn hm
      have hc := h.count
      rw [hdel.numVectors]
      omega
    · rw [hdel.table, h.table, hdel.had_graph, hdel.graph]

theorem inv_replayInsert (h : Inv c) (k : ApplyCalls V) (lsn : Nat) (t : Tid) :
    Inv ((applyInsertChange k lsn t c).getD c) := by
  rcases happ : applyInsertChange k lsn t c with _ | c'
  · exact h
  · obtain ⟨ht, g, v, hg, rfl⟩ := applyInsertChange_some happ
    exact (h.mapNewPoint (by simp [hg]) _ ht).congr rfl rfl rfl rfl rfl

theorem inv_replayDelete (h : Inv c) (t : Tid) : Inv ((applyDeleteChange t c).getD c) := by
  rcases happ : applyDeleteChange t c with _ | c'
  · exact h
  · obtain ⟨e, hc'⟩ := applyDeleteChange_some happ
    have hmap : c.tidOf e = some t := (h.inverse t e).mp hc'.found
    have hid : ∀ i, c'.tidOf i = if i ∈ [e] then none else c.tidOf i := by simpa using hc'.tidOf
    refine h.fewer hid (fun t' => ?_) ?_ hc'.next ?_
    · rw [Option.getD_some, hc'.eidOf, any_cons, any_nil, Bool.or_false, hmap]
      by_cases ht : t' = t
      · simp [ht]
      · simp [ht, Ne.symm ht]
    · have hcl := countP_clear hmap
      have hc := h.count
      rw [Option.getD_some, hc'.numVectors]
      unfold validEntries at hc ⊢
      rw [hc'.tidMapping]
      omega
    · rw [Option.getD_some, hc'.table, h.table, hc'.graph, hc'.graph']

theorem inv_step (s : Resident V) (e : Event V) (h : Inv s.cache) (hok : Careful s e) :
    Inv (step s e).cache := by
  cases e with
  | load g m n next d => exact inv_load d hok
  | insert first k t v => exact inv_insertPoint h hok
  | delete p ids => exact inv_deletePoints h hok
  | replayInsert k lsn t => exact inv_replayInsert h k lsn t
  | replayDelete t => exact inv_replayDelete h t

/-! ## The law -/

/-- Over any sequence of careful operations that starts with the load of a good copy, the
maps are inverse to each other after every operation. -/
theorem careful_operations_keep_the_maps_inverse (m₀ : MetaPage) (g : Option (SvsIndex V))
    (m : List (Option Tid)) (n next d : Nat) (es : List (Event V)) (hload : CopyOk g m n next)
    (hok : EachStep step Careful ⟨vamanaCacheIndex g m n next d, m₀⟩ es) :
    EachState step (fun s => MutuallyInverse s.cache) ⟨vamanaCacheIndex g m n next d, m₀⟩ es :=
  eachState_invariant (fun s => Inv s.cache) inv_step (fun _ h => h.mutuallyInverse)
    (inv_load d hload) hok

def rowA : Tid := ⟨0, 1⟩

def rowB : Tid := ⟨0, 2⟩

def insertOk : InsertCalls := ⟨true, true, .written⟩

def noMeta : MetaPage := ⟨false, 0, 0, 0, 0⟩

/-- An empty index, two rows, the first deleted and its TID used again. -/
theorem a_reused_tid_is_mapped_again :
    EachState step (fun s : Resident Nat => MutuallyInverse s.cache)
      ⟨vamanaCacheIndex none [] 0 0 0, noMeta⟩
      [.insert .built insertOk rowA 10, .insert .built insertOk rowB 20,
        .delete .written [0], .insert .built insertOk rowA 30, .replayDelete rowB] :=
  careful_operations_keep_the_maps_inverse noMeta none [] 0 0 0 _ (by decide +kernel)
    (by decide +kernel)

/-- A TID that is inserted while its old point is mapped stays with the old id, whose delete takes
it away. A first insert that is refused is counted all the same. -/
theorem a_reused_tid_loses_its_point :
    let empty : Resident Nat := ⟨vamanaCacheIndex none [] 0 0 0, noMeta⟩
    let s := run step empty [.insert .built insertOk rowA 10, .insert .built insertOk rowA 20]
    let s' := step s (.delete .written [0])
    ¬ MutuallyInverse s.cache ∧
      (s'.cache.eidOf rowA = none ∧ s'.cache.tidOf 1 = some rowA ∧ ¬ MutuallyInverse s'.cache) ∧
      ¬ MutuallyInverse (step empty (.insert .refused insertOk rowA 10)).cache := by
  intro empty s s'
  have hold : s.cache.eidOf rowA = some 0 := by decide +kernel
  have hnew : s.cache.tidOf 1 = some rowA := by decide +kernel
  have hn : s'.cache.eidOf rowA = none := by decide +kernel
  have hl : s'.cache.tidOf 1 = some rowA := by decide +kernel
  have hh : (s'.cache.tidMapping.drop 2).all Option.isNone = true := by decide +kernel
  have hone : ∀ e, s'.cache.tidOf e = some rowA → e ≤ 1 := by
    intro e he
    by_contra hgt
    have hf : s'.cache.tidOf e = none := unmapped_of_drop hh (by omega)
    rw [hf] at he
    cases he
  refine ⟨fun h => ?_, ⟨hn, hl, fun h => ?_⟩, fun h => ?_⟩
  · have := ((h.reverse rowA 0).mp hold).2 1 hnew
    omega
  · have := (h.reverse rowA 1).mpr ⟨hl, hone⟩
    rw [hn] at this
    cases this
  · exact absurd h.count (by decide +kernel)

end svs_vamana.tid_maps
