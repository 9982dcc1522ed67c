-- The write slots of the worker: an INSERT adds a point under the next external id, a DELETE
-- removes points by external id.
import SvsVamana.SavedIndex

namespace svs_vamana.write_slot

open index_cache saved_index
open IndexCache List

variable {V : Type}

/-! ## The pure model -/

/-- What `VamanaWorkerPersistMetaCounters` comes to: it skips an index that DDL has locked. -/
inductive MetaPersist
  | written
  | skipped
  | failed
deriving DecidableEq, Repr

/-- The metapage after `VamanaWorkerPersistMetaCounters`. -/
def persistMetaCounters (p : MetaPersist) (c : IndexCache V) (m : MetaPage) : MetaPage :=
  match p with
  | .written => writeMetaPageDynamic c m
  | .skipped => m
  | .failed => m

/-- How the slot ends: `done` with `writeExternalId`, or `error`. -/
inductive SlotEnd
  | done (externalId : Nat)
  | error
deriving DecidableEq, Repr

/-- What the calls of an INSERT slot decide: `SVSAddPoints`, `SvsMemoryReanchorInsert` (which
raises an error when it finds no reservation) and the metapage write. -/
structure InsertCalls where
  added : Bool
  reanchored : Bool
  persist : MetaPersist
deriving DecidableEq, Repr

/-- The INSERT case of `VamanaWorkerExecuteWriteSlot` on a graph. An error that comes after
`SVSAddPoints` leaves the point in the graph. -/
def executeInsertSlot (k : InsertCalls) (t : Tid) (v : V) (g : SvsIndex V) (c : IndexCache V)
    (m : MetaPage) : IndexCache V × MetaPage × SlotEnd :=
  match svsAddPoints k.added g c.nextExternalId v with
  | none => (c, m, .error)
  | some g' =>
    if !k.reanchored then ({ c with svsIndex := some g' }, m, .error)
    else
      let c' := mapNewPoint c g' t c.nextExternalId
      if k.persist = .failed then (c', m, .error)
      else
        ({ c' with opsSinceCheckpoint := c'.opsSinceCheckpoint + 1 },
          persistMetaCounters k.persist c' m, .done c.nextExternalId)

/-- `VamanaWorkerBuildFirstInsert`, once the build and its reservation went through: the
graph of one point, under id 0. -/
def buildFirstInsert (t : Tid) (v : V) (c : IndexCache V) : IndexCache V :=
  { c with
    svsIndex := some ⟨fun e => if e = 0 then some v else none⟩
    numVectors := 1
    nextExternalId := 1
    tidMapping := some t :: replicate 1023 none
    tidToExternalId := some (hashEnter (c.tidToExternalId.getD fun _ => none) t 0) }

/-- `VAMANA_MAX_DELETE_IDS`, the most ids in one DELETE slot. -/
def maxDeleteIds : Nat := 1000

/-- `VamanaWorkerExecuteDeleteSlot`; the flag says whether the slot is DONE. -/
def executeDeleteSlot (p : MetaPersist) (ids : List Nat) (g : SvsIndex V) (c : IndexCache V)
    (m : MetaPage) : IndexCache V × MetaPage × Bool :=
  match svsDeletePoints g ids with
  | none => (c, m, false)
  | some g' =>
    let c' := ids.foldl vamanaCacheForgetExternalId { c with svsIndex := some g' }
    let c' := { c' with
      numDeleted := c'.numDeleted + ids.length
      numVectors := c'.numVectors - ids.length }
    if p = .failed then (c', m, false)
    else
      ({ c' with opsSinceCheckpoint := c'.opsSinceCheckpoint + 1 },
        persistMetaCounters p c' m, true)

/-! ## The graph of a first insert -/

theorem tidOf_buildFirstInsert (t : Tid) (v : V) (c : IndexCache V) (e : Nat) :
    (buildFirstInsert t v c).tidOf e = if e = 0 then some t else none := by
  unfold buildFirstInsert tidOf
  rcases e with _ | e
  · rfl
  · simp only [getElem?_cons_succ, getElem?_replicate, Nat.add_one_ne_zero, if_false]
    split <;> rfl

variable {c : IndexCache V}

theorem eidOf_buildFirstInsert (t : Tid) (v : V) (ht : c.tidToExternalId = none) (t' : Tid) :
    (buildFirstInsert t v c).eidOf t' = if t' = t then some 0 else none := by
  unfold buildFirstInsert eidOf
  rw [ht]
  simp only [Option.bind_some, Option.getD_none, hashEnter_apply]

/-! ## What a delete slot changes -/

theorem tidOf_foldl_forget (ids : List Nat) (c : IndexCache V) (e : Nat) :
    (ids.foldl vamanaCacheForgetExternalId c).tidOf e = if e ∈ ids then none else c.tidOf e := by
  induction ids generalizing c with
  | nil => simp
  | cons i ids ih =>
    rw [foldl_cons, ih, tidOf_forget]
    by_cases hi : e = i
    · simp [hi]
    · by_cases hm : e ∈ ids <;> simp [hi, hm]

theorem eidOf_foldl_forget (ids : List Nat) (c : IndexCache V) (t : Tid) :
    (ids.foldl vamanaCacheForgetExternalId c).eidOf t =
      if ids.any (fun e => c.tidOf e == some t) then none else c.eidOf t := by
  induction ids generalizing c with
  | nil => simp
  | cons i ids ih =>
    rw [foldl_cons, ih, eidOf_forget, any_cons]
    by_cases hi : c.tidOf i = some t
    · simp [hi]
    have hany : ids.any (fun e => (vamanaCacheForgetExternalId c i).tidOf e == some t) =
        ids.any (fun e => c.tidOf e == some t) := by
      rw [Bool.eq_iff_iff, any_eq_true, any_eq_true]
      constructor
      · rintro ⟨e, he, h⟩
        rw [tidOf_forget] at h
        by_cases hei : e = i
        · simp [hei] at h
        · exact ⟨e, he, by simpa [hei] using h⟩
      · rintro ⟨e, he, h⟩
        refine ⟨e, he, ?_⟩
        have hei : e ≠ i := by
          rintro rfl
          exact hi (by simpa using h)
        rw [tidOf_forget, if_neg hei]
        exact h
    rw [hany]
    simp [hi]

variable {ids : List Nat}

/-- A reverse map that resolves to points of the TID goes on doing so when some ids and the
TIDs they were mapped to are forgotten. -/
theorem reverse_of_forgotten {c' : IndexCache V}
    (hrev : ∀ t e, c.eidOf t = some e → c.tidOf e = some t)
    (htid : ∀ e, c'.tidOf e = if e ∈ ids then none else c.tidOf e)
    (heid : ∀ t, c'.eidOf t = if ids.any (fun e => c.tidOf e == some t) then none else c.eidOf t)
    {t : Tid} {e : Nat} (h : c'.eidOf t = some e) : c'.tidOf e = some t := by
  rw [heid] at h
  by_cases hany : ids.any (fun e => c.tidOf e == some t) = true
  · rw [if_pos hany] at h
    cases h
  rw [if_neg hany] at h
  have hmap := hrev t e h
  have hm : e ∉ ids := fun hm => hany (any_eq_true.mpr ⟨e, hm, by simp [hmap]⟩)
  rw [htid, if_neg hm]
  exact hmap

/-- `c'` is `c` after a delete of the ids. -/
structure Deleted (ids : List Nat) (c c' : IndexCache V) : Prop where
  next : c'.nextExternalId = c.nextExternalId
  point : ∀ e, c'.point e = if e ∈ ids then none else c.point e
  tidOf : ∀ e, c'.tidOf e = if e ∈ ids then none else c.tidOf e
  eidOf : ∀ t, c'.eidOf t = if ids.any (fun e => c.tidOf e == some t) then none else c.eidOf t
  sound : c.Sound → c'.Sound
  graph : c'.svsIndex.isSome
  slot : c'.replicationSlot = c.replicationSlot
  walEnd : c'.lastReplayWalEnd = c.lastReplayWalEnd

theorem foldl_forget_eq (ids : List Nat) (c : IndexCache V) :
    ∃ m table, ids.foldl vamanaCacheForgetExternalId c =
        { c with tidMapping := m, tidToExternalId := table } ∧
      m.length = c.tidMapping.length ∧ table.isSome = c.tidToExternalId.isSome := by
  induction ids generalizing c with
  | nil => exact ⟨_, _, rfl, rfl, rfl⟩
  | cons i ids ih =>
    obtain ⟨m, table, heq, hm, ht⟩ := ih (vamanaCacheForgetExternalId c i)
    refine ⟨m, table, ?_, hm.trans ?_, ht.trans ?_⟩
    · rw [foldl_cons, heq]
      unfold vamanaCacheForgetExternalId
      split <;> rfl
    all_goals
      unfold vamanaCacheForgetExternalId
      split <;> simp

variable {g : SvsIndex V}

theorem deleted_of_forget {g' : SvsIndex V} {c' : IndexCache V} (hg : c.svsIndex = some g)
    (hpo : ∀ e, g'.point e = if e ∈ ids then none else c.point e) (hsvs : c'.svsIndex = some g')
    (hmap : c'.tidMapping =
      (ids.foldl vamanaCacheForgetExternalId { c with svsIndex := some g' }).tidMapping)
    (htab : c'.tidToExternalId =
      (ids.foldl vamanaCacheForgetExternalId { c with svsIndex := some g' }).tidToExternalId)
    (hn : c'.nextExternalId = c.nextExternalId) (hsl : c'.replicationSlot = c.replicationSlot)
    (hwal : c'.lastReplayWalEnd = c.lastReplayWalEnd) : Deleted ids c c' := by
  obtain ⟨m, table, heq, hlen, hta⟩ := foldl_forget_eq ids { c with svsIndex := some g' }
  have hp : ∀ e, c'.point e = if e ∈ ids then none else c.point e := by
    intro e
    rw [← hpo, point, hsvs]
    rfl
  have ht : ∀ e, c'.tidOf e = if e ∈ ids then none else c.tidOf e := by
    intro e
    have := tidOf_foldl_forget ids { c with svsIndex := some g' } e
    rw [tidOf, ← hmap] at this
    exact this
  have he : ∀ t, c'.eidOf t =
      if ids.any (fun e => c.tidOf e == some t) then none else c.eidOf t := by
    intro t
    have := eidOf_foldl_forget ids { c with svsIndex := some g' } t
    rw [eidOf, ← htab] at this
    exact this
  refine ⟨hn, hp, ht, he, fun hs => ⟨?_, ?_, ?_, fun _ => ?_⟩, by simp [hsvs], hsl, hwal⟩
  · intro e t het
    rw [ht] at het
    rw [hp]
    by_cases hm : e ∈ ids
    · simp [hm] at het
    · rw [if_neg hm] at het ⊢
      exact hs.mapped_valid e t het
  · intro t e het
    exact reverse_of_forgotten hs.reverse ht he het
  · intro e hge
    rw [ht, hs.free e (hn ▸ hge)]
    exact ite_self _
  · have := hs.has_table (by simp [hg])
    rw [hmap, htab, heq, hta, hlen]
    exact this

theorem deleted_executeDeleteSlot (p : MetaPersist) (m : MetaPage) (hg : c.svsIndex = some g)
    (hall : ∀ e ∈ ids, (c.point e).isSome) : Deleted ids c (executeDeleteSlot p ids g c m).1 := by
  have hp : ∀ e, c.point e = g.point e := fun e => by simp [point, hg]
  have hids : ids.all (fun e => (g.point e).isSome) = true := by
    rw [all_eq_true]
    intro e he
    rw [← hp]
    exact hall e he
  generalize hg' : ({ point := fun e => if e ∈ ids then none else g.point e } : SvsIndex V) = g'
  have hgo : ∀ e, g'.point e = if e ∈ ids then none else c.point e := by
    intro e
    rw [← hg', hp]
  have hdel : svsDeletePoints g ids = some g' := by
    rw [svsDeletePoints, if_pos hids, hg']
  obtain ⟨maps, table, heq, -, -⟩ := foldl_forget_eq ids { c with svsIndex := some g' }
  simp only [executeDeleteSlot, hdel, heq]
  split <;> exact deleted_of_forget hg hgo rfl (by rw [heq]) (by rw [heq]) rfl rfl rfl

theorem executeDeleteSlot_refused (p : MetaPersist) (m : MetaPage) (hg : c.svsIndex = some g)
    (h : ¬ ∀ e ∈ ids, (c.point e).isSome) : executeDeleteSlot p ids g c m = (c, m, false) := by
  have hp : ∀ e, c.point e = g.point e := fun e => by simp [point, hg]
  have hids : ¬ ids.all (fun e => (g.point e).isSome) = true := by
    rw [all_eq_true]
    intro hall
    exact h fun e he => by rw [hp]; exact hall e he
  simp [executeDeleteSlot, svsDeletePoints, hids]

end svs_vamana.write_slot
