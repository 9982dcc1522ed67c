-- The worker's cache entry for one vamana index: the SVS graph, the two maps between external ids
-- and heap TIDs, and the counters.
import Mathlib.Data.List.Basic
import Mathlib.Logic.Function.Basic
import Mathlib.Data.Option.Basic

namespace svs_vamana.index_cache

open Function List Option

/-! ## The SVS library -/

/-- A heap TID that is valid. The invalid pointer, with offset number 0, marks an empty
slot of a TID map and is `none` there. -/
structure Tid where
  blkno : Nat
  offnum : Nat
deriving DecidableEq, Repr

/-- The library's graph: the vector of each point that is valid, by external id. -/
structure SvsIndex (V : Type) where
  point : Nat → Option V

variable {V : Type}

/-- `SVSAddPoints` with one vector. The library adds the point under the given id, or it
reports a failure and adds nothing. -/
def svsAddPoints (added : Bool) (g : SvsIndex V) (externalId : Nat) (v : V) :
    Option (SvsIndex V) :=
  if added then some ⟨update g.point externalId (some v)⟩ else none

/-- `SVSDeletePoints`: a batch that names an id which is not valid fails as a whole. -/
def svsDeletePoints (g : SvsIndex V) (ids : List Nat) : Option (SvsIndex V) :=
  if ids.all (fun e => (g.point e).isSome) then
    some ⟨fun e => if e ∈ ids then none else g.point e⟩
  else none

/-! ## The cache entry -/

/-- `VamanaIndexCache`. `tidMapping` has `tidMappingCapacity` slots, and
`tidToExternalId` is `none` until the table is created. -/
structure IndexCache (V : Type) where
  svsIndex : Option (SvsIndex V)
  tidMapping : List (Option Tid)
  tidToExternalId : Option (Tid → Option Nat)
  numVectors : Nat
  nextExternalId : Nat
  numDeleted : Nat
  opsSinceCheckpoint : Nat
  replicationSlot : Bool
  lastReplayWalEnd : Option Nat
  needsSave : Bool

/-- `HASH_ENTER` with the id written only when the key was not found. -/
def hashEnter (h : Tid → Option Nat) (t : Tid) (externalId : Nat) : Tid → Option Nat :=
  match h t with
  | some _ => h
  | none => update h t (some externalId)

/-- `HASH_REMOVE`. -/
def hashRemove (h : Tid → Option Nat) (t : Tid) : Tid → Option Nat :=
  update h t none

/-- The loop of `VamanaCacheIndex` over the slots from `i` on. -/
def fillReverse (i : Nat) : List (Option Tid) → (Tid → Option Nat) → (Tid → Option Nat)
  | [], h => h
  | none :: rest, h => fillReverse (i + 1) rest h
  | some t :: rest, h => fillReverse (i + 1) rest (hashEnter h t i)

/-- `VamanaCacheIndex`, once the residency budget has admitted the graph. With a TID map,
`numVectors` is counted from the map and not taken from the caller. -/
def vamanaCacheIndex (svsIndex : Option (SvsIndex V)) (tidMapping : List (Option Tid))
    (numVectors nextExternalId numDeleted : Nat) : IndexCache V where
  svsIndex := svsIndex
  tidMapping := tidMapping
  tidToExternalId :=
    if tidMapping.length > 0 then some (fillReverse 0 tidMapping fun _ => none) else none
  numVectors :=
    if tidMapping.length > 0 then tidMapping.countP isSome else numVectors
  nextExternalId := nextExternalId
  numDeleted := numDeleted
  opsSinceCheckpoint := 0
  replicationSlot := false
  lastReplayWalEnd := none
  needsSave := false

/-- `VamanaRebuildFromTable` on the rows its scan returns, in scan order: the ids are given
out from 0 again. `none` when there is no row. -/
def vamanaRebuildFromTable (rows : List (Tid × V)) : Option (IndexCache V) :=
  if rows.length = 0 then none
  else
    some (vamanaCacheIndex (some ⟨fun e => (rows[e]?).map Prod.snd⟩)
      (rows.map fun r => some r.1) rows.length rows.length 0)

/-- `VamanaCacheForgetExternalId`. -/
def vamanaCacheForgetExternalId (c : IndexCache V) (externalId : Nat) : IndexCache V :=
  match c.tidMapping[externalId]? with
  | some (some t) =>
    { c with
      tidToExternalId := c.tidToExternalId.map (hashRemove · t)
      tidMapping := c.tidMapping.set externalId none }
  | _ => c

/-- The TID map grown so that it has a slot for the id: doubled, or 1024 slots. -/
def growTidMapping (m : List (Option Tid)) (externalId : Nat) : List (Option Tid) :=
  if externalId ≥ m.length then
    let newCap := if m.length > 0 then m.length * 2 else 1024
    let newCap := if newCap ≤ externalId then externalId + 1 else newCap
    m ++ replicate (newCap - m.length) none
  else m

/-- What the live insert and the replayed insert both do once `SVSAddPoints` returned:
`g` is the graph with the new point. -/
def mapNewPoint (c : IndexCache V) (g : SvsIndex V) (t : Tid) (externalId : Nat) :
    IndexCache V :=
  { c with
    svsIndex := some g
    tidMapping := (growTidMapping c.tidMapping externalId).set externalId (some t)
    tidToExternalId := c.tidToExternalId.map (hashEnter · t externalId)
    nextExternalId := externalId + 1
    numVectors := c.numVectors + 1 }

/-! ## What a cache entry holds -/

namespace IndexCache

def point (c : IndexCache V) (externalId : Nat) : Option V :=
  c.svsIndex.bind (·.point externalId)

def tidOf (c : IndexCache V) (externalId : Nat) : Option Tid :=
  (c.tidMapping[externalId]?).join

def eidOf (c : IndexCache V) (t : Tid) : Option Nat := c.tidToExternalId.bind (· t)

/-- The point `e` is valid, is mapped to the TID and has the vector. -/
def HoldsAt (c : IndexCache V) (e : Nat) (t : Tid) (v : V) : Prop :=
  c.tidOf e = some t ∧ c.point e = some v

/-- Some valid point is mapped to the TID and has the vector. -/
def Holds (c : IndexCache V) (t : Tid) (v : V) : Prop := ∃ e, c.HoldsAt e t v

/-- A mapped point is valid, the reverse map resolves to a point of its TID, no id still to be given
out is mapped, and a graph never stands without a reverse map. -/
structure Sound (c : IndexCache V) : Prop where
  mapped_valid : ∀ e t, c.tidOf e = some t → (c.point e).isSome
  reverse : ∀ t e, c.eidOf t = some e → c.tidOf e = some t
  free : ∀ e, c.nextExternalId ≤ e → c.tidOf e = none
  has_table : c.svsIndex.isSome → c.tidToExternalId.isSome ∧ 0 < c.tidMapping.length

/-- Two entries with the same graph and the same maps. -/
structure Same (c c' : IndexCache V) : Prop where
  svsIndex : c'.svsIndex = c.svsIndex
  tidMapping : c'.tidMapping = c.tidMapping
  tidToExternalId : c'.tidToExternalId = c.tidToExternalId
  nextExternalId : c'.nextExternalId = c.nextExternalId

end IndexCache

/-! ## What each operation changes -/

@[simp] theorem hashEnter_apply (h : Tid → Option Nat) (t t' : Tid) (e : Nat) :
    hashEnter h t e t' = if t' = t then some ((h t).getD e) else h t' := by
  unfold hashEnter
  rcases ht : h t with _ | x
  · simp [update_apply]
  · by_cases heq : t' = t
    · subst heq
      simp [ht]
    · simp [heq]

@[simp] theorem hashRemove_apply (h : Tid → Option Nat) (t t' : Tid) :
    hashRemove h t t' = if t' = t then none else h t' := by
  simp [hashRemove, update_apply]

variable (m : List (Option Tid))

theorem fillReverse_apply (i : Nat) (h : Tid → Option Nat) (t : Tid) :
    fillReverse i m h t = (h t).or ((m.findIdx? (· == some t)).map (· + i)) := by
  induction m generalizing i h with
  | nil => simp [fillReverse]
  | cons x rest ih =>
    rw [findIdx?_cons]
    cases x with
    | none =>
      rw [fillReverse, ih]
      simp only [Option.map_map, reduceCtorEq, beq_iff_eq, comp_def, Nat.add_comm 1,
        Nat.add_assoc, if_false]
    | some s =>
      rw [fillReverse, ih, hashEnter_apply]
      by_cases hst : t = s
      · subst hst
        cases h t <;> simp
      · have hts : s ≠ t := fun hh => hst hh.symm
        simp only [hst, if_false, beq_iff_eq, Option.some.injEq, hts, Option.map_map,
          comp_def, Nat.add_assoc, Nat.add_comm 1]

theorem append_holes_get (n i : Nat) : ((m ++ replicate n none)[i]?).join = (m[i]?).join := by
  rw [getElem?_append]
  split
  · rfl
  rename_i hlt
  rw [getElem?_eq_none (by omega : m.length ≤ i), getElem?_replicate, apply_ite join]
  exact ite_self _

theorem growTidMapping_get (e i : Nat) : ((growTidMapping m e)[i]?).join = (m[i]?).join := by
  unfold growTidMapping
  split
  · exact append_holes_get m _ i
  · rfl

theorem lt_growTidMapping_length (e : Nat) : e < (growTidMapping m e).length := by
  unfold growTidMapping
  split
  · simp only [length_append, length_replicate]
    split <;> split <;> omega
  · omega

namespace IndexCache

theorem eidOf_cacheIndex (g : Option (SvsIndex V)) (m : List (Option Tid)) (n next d : Nat)
    (t : Tid) : (vamanaCacheIndex g m n next d).eidOf t = m.findIdx? (· == some t) := by
  simp only [eidOf, vamanaCacheIndex]
  split
  · simp [fillReverse_apply]
  · rename_i hlen
    have : m = [] := length_eq_zero_iff.mp (by omega)
    simp [this]

variable {t : Tid} {e : Nat} {m : List (Option Tid)}

theorem eidOf_cacheIndex_tid {g : Option (SvsIndex V)} {n next d : Nat}
    (h : (vamanaCacheIndex g m n next d).eidOf t = some e) : (m[e]?).join = some t := by
  rw [eidOf_cacheIndex, findIdx?_eq_some_iff_getElem] at h
  obtain ⟨hlt, heq, -⟩ := h
  rw [getElem?_eq_getElem hlt]
  simpa using heq

variable (c : IndexCache V) (g : SvsIndex V)

@[simp] theorem point_mapNewPoint (t : Tid) (e i : Nat) :
    (mapNewPoint c g t e).point i = g.point i := rfl

@[simp] theorem tidOf_mapNewPoint (t : Tid) (e i : Nat) :
    (mapNewPoint c g t e).tidOf i = if i = e then some t else c.tidOf i := by
  simp only [tidOf, mapNewPoint]
  by_cases h : i = e
  · subst h
    simp [getElem?_set_self (lt_growTidMapping_length _ _)]
  · rw [getElem?_set_ne (fun hh => h hh.symm), growTidMapping_get]
    simp [h]

theorem eidOf_mapNewPoint (t t' : Tid) (e : Nat) :
    (mapNewPoint c g t e).eidOf t' =
      if t' = t then c.tidToExternalId.map (fun h => (h t).getD e) else c.eidOf t' := by
  simp only [eidOf, mapNewPoint]
  rcases c.tidToExternalId with _ | h
  · simp
  · simp

@[simp] theorem tidOf_forget (e i : Nat) :
    (vamanaCacheForgetExternalId c e).tidOf i = if i = e then none else c.tidOf i := by
  unfold vamanaCacheForgetExternalId
  split
  · simp only [tidOf]
    by_cases h : i = e
    · subst h
      rename_i hget
      rw [List.getElem?_set_self (List.getElem?_eq_some_iff.mp hget).1]
      simp
    · rw [getElem?_set_ne (fun hh => h hh.symm)]
      simp [h]
  · rename_i hget
    by_cases h : i = e
    · subst h
      simp only [tidOf, if_true]
      rcases hi : c.tidMapping[i]? with _ | _ | t
      · rfl
      · rfl
      · exact absurd hi (hget t)
    · simp [h]

@[simp] theorem eidOf_forget (e : Nat) (t : Tid) :
    (vamanaCacheForgetExternalId c e).eidOf t =
      if c.tidOf e = some t then none else c.eidOf t := by
  unfold vamanaCacheForgetExternalId
  split
  · rename_i s hget
    have htid : c.tidOf e = some s := by simp [tidOf, hget]
    simp only [eidOf, htid, some.injEq]
    rcases c.tidToExternalId with _ | h
    · simp
    · simp [eq_comm]
  · rename_i hget
    have htid : c.tidOf e ≠ some t := by
      intro h
      rcases hi : c.tidMapping[e]? with _ | _ | s
      · simp [tidOf, hi] at h
      · simp [tidOf, hi] at h
      · exact hget s hi
    simp [htid]

/-! ## Sound entries -/

variable {c : IndexCache V}

theorem Sound.valid_of_eidOf (h : c.Sound) (he : c.eidOf t = some e) : (c.point e).isSome :=
  h.mapped_valid e t (h.reverse t e he)

theorem Sound.lt_next (h : c.Sound) (he : c.tidOf e = some t) : e < c.nextExternalId := by
  rcases Nat.lt_or_ge e c.nextExternalId with hlt | hge
  · exact hlt
  · have := h.free e hge
    rw [he] at this
    cases this

theorem Sound.svsIndex_of_point (h : (c.point e).isSome) : c.svsIndex.isSome := by
  unfold point at h
  rcases hg : c.svsIndex with _ | g
  · simp [hg] at h
  · rfl

/-- A reverse map that resolves to points of the TID goes on doing so when a point is added
under an id that is not mapped. -/
theorem reverse_mapNewPoint (g : SvsIndex V) (t : Tid)
    (hrev : ∀ t e, c.eidOf t = some e → c.tidOf e = some t) (hf : c.tidOf e = none) {t' : Tid}
    {i : Nat} (h : (mapNewPoint c g t e).eidOf t' = some i) :
    (mapNewPoint c g t e).tidOf i = some t' := by
  -- an id that is mapped already is not the new one
  have ho : ∀ {t' i}, c.tidOf i = some t' → (mapNewPoint c g t e).tidOf i = some t' := by
    intro t' i hmap
    have hne : i ≠ e := by
      rintro rfl
      rw [hf] at hmap
      cases hmap
    rw [tidOf_mapNewPoint, if_neg hne]
    exact hmap
  rw [eidOf_mapNewPoint] at h
  by_cases ht : t' = t
  · subst ht
    simp only [if_true, map_eq_some_iff] at h
    obtain ⟨tab, htab, hval⟩ := h
    have heid : c.eidOf t' = tab t' := by simp [eidOf, htab]
    rcases hold : tab t' with _ | e0
    · rw [hold] at hval
      simp [← hval]
    · rw [hold] at hval heid
      exact ho (hval ▸ hrev t' e0 heid)
  · rw [if_neg ht] at h
    exact ho (hrev t' i h)

theorem free_mapNewPoint (g : SvsIndex V) (t : Tid)
    (hf : ∀ e, c.nextExternalId ≤ e → c.tidOf e = none) (he : c.nextExternalId + 1 ≤ e) :
    (mapNewPoint c g t c.nextExternalId).tidOf e = none := by
  rw [tidOf_mapNewPoint, if_neg (by omega)]
  exact hf e (by omega)

variable {g : SvsIndex V}

theorem Sound.mapNewPoint (h : c.Sound) (hg : c.svsIndex = some g) (t : Tid) (v : V) :
    (mapNewPoint c ⟨update g.point c.nextExternalId (some v)⟩ t
      c.nextExternalId).Sound := by
  have hp : ∀ e, c.point e = g.point e := fun e => by simp [point, hg]
  refine ⟨fun e t' he => ?_,
    fun t' e he => reverse_mapNewPoint _ t h.reverse (h.free _ (Nat.le_refl _)) he,
    fun e he => free_mapNewPoint _ t h.free he, fun _ => ?_⟩
  · rw [point_mapNewPoint]
    rw [tidOf_mapNewPoint] at he
    by_cases heq : e = c.nextExternalId
    · simp [heq]
    · rw [if_neg heq] at he
      simpa [heq, hp] using h.mapped_valid e t' he
  · have ht := (h.has_table (by simp [hg])).1
    have hlen := lt_growTidMapping_length c.tidMapping c.nextExternalId
    refine ⟨by simpa [index_cache.mapNewPoint] using ht, ?_⟩
    simp only [index_cache.mapNewPoint, length_set]
    omega

variable {c' : IndexCache V}

theorem Sound.remove (h : c.Sound) (hmap : c.tidOf e = some t)
    (hp : ∀ i, c'.point i = if i = e then none else c.point i)
    (htid : ∀ i, c'.tidOf i = if i = e then none else c.tidOf i)
    (heid : ∀ t', c'.eidOf t' = if t' = t then none else c.eidOf t')
    (hn : c'.nextExternalId = c.nextExternalId)
    (hta : c'.svsIndex.isSome → c'.tidToExternalId.isSome ∧ 0 < c'.tidMapping.length) :
    c'.Sound := by
  refine ⟨fun i t' hi => ?_, fun t' i hi => ?_, fun i hi => ?_, hta⟩
  · rw [htid] at hi
    rw [hp]
    by_cases hie : i = e
    · simp [hie] at hi
    · rw [if_neg hie] at hi ⊢
      exact h.mapped_valid i t' hi
  · rw [heid] at hi
    by_cases ht : t' = t
    · simp [ht] at hi
    rw [if_neg ht] at hi
    have hrev := h.reverse t' i hi
    have hie : i ≠ e := by
      rintro rfl
      rw [hmap] at hrev
      exact ht (some.inj hrev).symm
    rw [htid, if_neg hie]
    exact hrev
  · rw [htid, h.free i (hn ▸ hi)]
    exact ite_self _

theorem Sound.cacheIndex (n : Nat) {next : Nat} (d : Nat)
    (hv : ∀ e t, (m[e]?).join = some t → (g.point e).isSome)
    (hf : ∀ e, next ≤ e → (m[e]?).join = none) (hlen : 0 < m.length) :
    (vamanaCacheIndex (some g) m n next d).Sound where
  mapped_valid := hv
  reverse _ _ h := eidOf_cacheIndex_tid h
  free := hf
  has_table _ := by
    refine ⟨?_, hlen⟩
    simp [vamanaCacheIndex, hlen]

variable {rows : List (Tid × V)}

theorem Sound.rebuild (h : vamanaRebuildFromTable rows = some c) : c.Sound := by
  unfold vamanaRebuildFromTable at h
  split at h
  · cases h
  rename_i hlen
  cases h
  refine Sound.cacheIndex _ _ (fun e t he => ?_) (fun e he => ?_) (by rw [length_map]; omega)
  · rw [getElem?_map] at he
    rcases hr : rows[e]? with _ | r
    · simp [hr] at he
    · simp [hr]
  · have hn : rows[e]? = none := getElem?_eq_none he
    simp [hn]

theorem holds_rebuild (h : vamanaRebuildFromTable rows = some c) {v : V}
    (hmem : (t, v) ∈ rows) : c.Holds t v := by
  obtain ⟨e, he⟩ := getElem?_of_mem hmem
  unfold vamanaRebuildFromTable at h
  split at h
  · cases h
  obtain rfl := some.inj h
  refine ⟨e, ?_, ?_⟩
  · simp [IndexCache.tidOf, vamanaCacheIndex, he]
  · simp [IndexCache.point, vamanaCacheIndex, he]

theorem Same.refl (c : IndexCache V) : Same c c := ⟨rfl, rfl, rfl, rfl⟩

theorem Same.trans {a b : IndexCache V} (h : Same a b) (h' : Same b c) : Same a c :=
  ⟨h'.svsIndex.trans h.svsIndex, h'.tidMapping.trans h.tidMapping,
    h'.tidToExternalId.trans h.tidToExternalId, h'.nextExternalId.trans h.nextExternalId⟩

section

variable (h : Same c c')
include h

theorem Same.point (e : Nat) : c'.point e = c.point e := by
  unfold IndexCache.point
  rw [h.svsIndex]

theorem Same.tidOf (e : Nat) : c'.tidOf e = c.tidOf e := by
  unfold IndexCache.tidOf
  rw [h.tidMapping]

theorem Same.eidOf (t : Tid) : c'.eidOf t = c.eidOf t := by
  unfold IndexCache.eidOf
  rw [h.tidToExternalId]

theorem Same.holds {v : V} (hc : c.Holds t v) : c'.Holds t v := by
  obtain ⟨e, ht, hp⟩ := hc
  exact ⟨e, by rw [h.tidOf, ht], by rw [h.point, hp]⟩

theorem Same.sound (hc : c.Sound) : c'.Sound := by
  refine ⟨fun e t he => ?_, fun t e he => ?_, fun e he => ?_, fun hg => ?_⟩
  · rw [h.tidOf] at he
    rw [h.point]
    exact hc.mapped_valid e t he
  · rw [h.eidOf] at he
    rw [h.tidOf]
    exact hc.reverse t e he
  · rw [h.tidOf]
    apply hc.free
    rw [← h.nextExternalId]
    exact he
  · rw [h.tidToExternalId, h.tidMapping]
    apply hc.has_table
    rw [← h.svsIndex]
    exact hg

end

end IndexCache

end svs_vamana.index_cache
