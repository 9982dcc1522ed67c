-- The law of VACUUM: `vamanabulkdelete` finds dead TIDs in the TID map on disk, and the worker
-- deletes their ids from its entry, batch by batch.
import SvsVamana.ReplayPosition

namespace svs_vamana.vacuum

open index_cache saved_index replay delivery database write_slot server transition_runs
open replay_position Server List Option

variable {V : Type}

/-! ## The pure model -/

/-- The first loop of `vamanabulkdelete`: the slots whose TID is dead. -/
def deadIds (dead : Tid → Bool) (tidMapping : List (Option Tid)) : List Nat :=
  (range tidMapping.length).filter fun i => ((tidMapping[i]?).join).any dead

/-- One DELETE slot for each batch, until one is not DONE. `k i` are the calls of batch `i`; the
number of ids is fuel enough. -/
def submitDeletes (k : Nat → WriteCalls) : Nat → Nat → List Nat → Server V → Server V
  | 0, _, _, s => s
  | fuel + 1, i, ids, s =>
    if ids = [] then s
    else
      let (s', done) := vamanaWorkerExecuteDelete (k i) (ids.take maxDeleteIds) s
      if done then submitDeletes k fuel (i + 1) (ids.drop maxDeleteIds) s' else s'

/-- `vamanabulkdelete`; `none` is the error of `VamanaValidateMetaCounts`. -/
def vamanabulkdelete (workerAvailable : Bool) (k : Nat → WriteCalls) (dead : Tid → Bool)
    (s : Server V) : Option (Server V) :=
  if !workerAvailable then some s
  else if !vamanaValidateMetaCounts s.disk.metap none then none
  else if s.disk.metap.tidMappingCapacity = 0 then some s
  else
    match vamanaLoadTidMap s.disk.dir s.disk.metap.tidMappingCapacity with
    | none => some s
    | some tidMapping =>
      some (submitDeletes k (deadIds dead tidMapping).length 0 (deadIds dead tidMapping) s)

/-- When VACUUM returns, no valid point of the worker's graph is mapped to a dead TID. -/
def NoDeadPoint (dead : Tid → Bool) (r : Option (Server V)) : Prop :=
  ∀ s', r = some s' → ∀ c, s'.cache = some c → ∀ e t, (c.point e).isSome → c.tidOf e = some t →
    dead t = false

/-- The ids that the TID map on disk gives for the dead TIDs; none if there is no such map. -/
def deadOnDisk (dead : Tid → Bool) (d : Disk V) : List Nat :=
  if d.metap.tidMappingCapacity = 0 then []
  else ((vamanaLoadTidMap d.dir d.metap.tidMappingCapacity).map (deadIds dead)).getD []

/-- The entry that the first batch finds: the resident one, or the one that the worker loads
for it. Without a batch nothing is loaded. -/
def entryFound (k : Nat → WriteCalls) (ids : List Nat) (s : Server V) :
    Option (IndexCache V) :=
  if ids = [] then s.cache else (resolveForWrite (k 0) s).1.cache

/-- The worker comes to hand a graph to the write slot. -/
def Ready (k : WriteCalls) (s : Server V) : Prop :=
  ∃ g, (resolveForWrite k s).2 = .handle (some g)

/-- The id is in a batch that gets through: all ids up to the end of its batch are valid in the
entry, and no batch before it fails in the write of the metapage. -/
def GetsThrough (k : Nat → WriteCalls) (ids : List Nat) (c : IndexCache V) (e : Nat) :
    Prop :=
  ∃ j, ids[j]? = some e ∧
    (∀ i x, i / maxDeleteIds ≤ j / maxDeleteIds → ids[i]? = some x → (c.point x).isSome) ∧
    ∀ b, b < j / maxDeleteIds → (k b).insert.persist ≠ .failed

/-- Every valid point with a dead TID is on disk with it, and its batch gets through. -/
def DeadAreReached (k : Nat → WriteCalls) (dead : Tid → Bool) (s : Server V) : Prop :=
  ∀ c, entryFound k (deadOnDisk dead s.disk) s = some c →
    ∀ e t, (c.point e).isSome → c.tidOf e = some t → dead t = true →
      Ready (k 0) s ∧ GetsThrough k (deadOnDisk dead s.disk) c e

/-! ## The batches -/

theorem nodup_deadIds (dead : Tid → Bool) (m : List (Option Tid)) : (deadIds dead m).Nodup :=
  nodup_range.filter _

variable {k : Nat → WriteCalls} {ids : List Nat} {c : IndexCache V} {e : Nat}

theorem getsThrough_first (hall : ∀ e ∈ ids.take maxDeleteIds, (c.point e).isSome)
    (he : e ∈ ids.take maxDeleteIds) : GetsThrough k ids c e := by
  obtain ⟨j, hj⟩ := getElem?_of_mem he
  rw [getElem?_take] at hj
  split at hj
  · rename_i hlt
    have hz : j / maxDeleteIds = 0 := Nat.div_eq_of_lt hlt
    refine ⟨j, hj, fun i x hi hx => ?_, fun b hb => ?_⟩
    · rw [hz] at hi
      have hilt : i < maxDeleteIds := by
        by_contra hge
        have : 0 < i / maxDeleteIds := Nat.div_pos (by omega) (by decide)
        omega
      refine hall x (mem_of_getElem? (i := i) ?_)
      rw [getElem?_take, if_pos hilt, hx]
    · omega
  · cases hj

theorem not_getsThrough (h : ¬ ∀ e ∈ ids.take maxDeleteIds, (c.point e).isSome) (e : Nat) :
    ¬ GetsThrough k ids c e := by
  rintro ⟨j, -, hv, -⟩
  refine h fun x hx => ?_
  obtain ⟨i, hi⟩ := getElem?_of_mem hx
  rw [getElem?_take] at hi
  split at hi
  · rename_i hlt
    refine hv i x ?_ hi
    rw [Nat.div_eq_of_lt hlt]
    exact Nat.zero_le _
  · cases hi

variable {c' : IndexCache V}

theorem getsThrough_rest_iff (hn : ids.Nodup)
    (hall : ∀ e ∈ ids.take maxDeleteIds, (c.point e).isSome)
    (hpe : (k 0).insert.persist ≠ .failed) (hdel : Deleted (ids.take maxDeleteIds) c c')
    (he : e ∉ ids.take maxDeleteIds) :
    GetsThrough k ids c e ↔
      GetsThrough (fun b => k (b + 1)) (ids.drop maxDeleteIds) c' e := by
  have hpos : 0 < maxDeleteIds := by decide
  have hs : ∀ i, (i + maxDeleteIds) / maxDeleteIds = i / maxDeleteIds + 1 :=
    fun i => Nat.add_div_right i hpos
  have hp : ∀ x, x ∈ ids.drop maxDeleteIds → c'.point x = c.point x := by
    intro x hx
    have hnot : x ∉ ids.take maxDeleteIds := by
      intro hmem
      rw [← take_append_drop maxDeleteIds ids] at hn
      exact (nodup_append.mp hn).2.2 x hmem x hx rfl
    rw [hdel.point, if_neg hnot]
  constructor
  · rintro ⟨j, hj, hv, hok⟩
    have hge : maxDeleteIds ≤ j := by
      by_contra hlt
      refine he (mem_of_getElem? (i := j) ?_)
      rw [getElem?_take, if_pos (by omega), hj]
    obtain ⟨j, rfl⟩ : ∃ j', j = j' + maxDeleteIds := ⟨j - maxDeleteIds, by omega⟩
    rw [hs] at hv hok
    refine ⟨j, ?_, fun i x hi hx => ?_, fun b hb => hok (b + 1) (by omega)⟩
    · rw [getElem?_drop, Nat.add_comm]
      exact hj
    · rw [hp x (mem_of_getElem? hx)]
      refine hv (i + maxDeleteIds) x ?_ ?_
      · rw [hs]
        omega
      · rw [getElem?_drop, Nat.add_comm] at hx
        exact hx
  · rintro ⟨j, hj, hv, hok⟩
    rw [getElem?_drop, Nat.add_comm] at hj
    refine ⟨j + maxDeleteIds, hj, fun i x hi hx => ?_, fun b hb => ?_⟩
    · by_cases hlt : i < maxDeleteIds
      · refine hall x (mem_of_getElem? (i := i) ?_)
        rw [getElem?_take, if_pos hlt, hx]
      obtain ⟨i, rfl⟩ : ∃ i', i = i' + maxDeleteIds := ⟨i - maxDeleteIds, by omega⟩
      rw [hs, hs] at hi
      have hd : (ids.drop maxDeleteIds)[i]? = some x := by
        rw [getElem?_drop, Nat.add_comm]
        exact hx
      rw [← hp x (mem_of_getElem? hd)]
      exact hv i x (by omega) hd
    · rw [hs] at hb
      rcases b with _ | b
      · exact hpe
      · exact hok b (by omega)

theorem not_getsThrough_nil (k : Nat → WriteCalls) (c : IndexCache V) (e : Nat) :
    ¬ GetsThrough k [] c e := by
  rintro ⟨j, hj, -⟩
  simp at hj

theorem mem_first_of_getsThrough (hp : (k 0).insert.persist = .failed)
    (h : GetsThrough k ids c e) : e ∈ ids.take maxDeleteIds := by
  obtain ⟨j, hj, -, hok⟩ := h
  have hz : j / maxDeleteIds = 0 := by
    by_contra hne
    exact hok 0 (Nat.pos_of_ne_zero hne) hp
  have hlt : j < maxDeleteIds := by
    by_contra hge
    have : 0 < j / maxDeleteIds := Nat.div_pos (by omega) (by decide)
    omega
  refine mem_of_getElem? (i := j) ?_
  rw [getElem?_take, if_pos hlt, hj]

/-- `c'` is `c` without the points that `P` names. -/
def TakesOut (P : Nat → Prop) (c c' : IndexCache V) : Prop :=
  ∀ e, (P e → c'.point e = none) ∧ (¬ P e → c'.point e = c.point e ∧ c'.tidOf e = c.tidOf e)

theorem takesOut_nothing {P : Nat → Prop} (h : ∀ e, ¬ P e) (c : IndexCache V) : TakesOut P c c :=
  fun e => ⟨fun hp => absurd hp (h e), fun _ => ⟨rfl, rfl⟩⟩

theorem takesOut_deleted (h : Deleted ids c c') : TakesOut (· ∈ ids) c c' := by
  refine fun e => ⟨fun he => ?_, fun he => ?_⟩
  · rw [h.point, if_pos he]
  · rw [h.point, h.tidOf, if_neg he, if_neg he]
    exact ⟨rfl, rfl⟩

theorem TakesOut.trans {P Q R : Nat → Prop} {c'' : IndexCache V} (h : TakesOut P c c')
    (h' : TakesOut Q c' c'') (hf : ∀ e, P e → R e) (hre : ∀ e, ¬ P e → (R e ↔ Q e)) :
    TakesOut R c c'' := by
  intro e
  by_cases hp : P e
  · refine ⟨fun _ => ?_, fun hr => absurd (hf e hp) hr⟩
    by_cases hq : Q e
    · exact (h' e).1 hq
    · rw [((h' e).2 hq).1]
      exact (h e).1 hp
  · rw [hre e hp]
    refine ⟨(h' e).1, fun hq => ?_⟩
    rw [((h' e).2 hq).1, ((h' e).2 hq).2]
    exact (h e).2 hp

/-- The run lemma of the loop: the ids that get through are gone from the entry, and nothing
else is. -/
theorem submitDeletes_spec (fuel : Nat) : ∀ (k : Nat → WriteCalls) (i : Nat)
    (ids : List Nat) (s : Server V) (c : IndexCache V), ids.Nodup → ids.length ≤ fuel →
    s.cache = some c → c.svsIndex.isSome →
    ∃ c', (submitDeletes k fuel i ids s).cache = some c' ∧
      TakesOut (GetsThrough (fun b => k (i + b)) ids c) c c' := by
  induction fuel with
  | zero =>
    intro k i ids s c _ hlen hc _
    obtain rfl : ids = [] := length_eq_zero_iff.mp (by omega)
    exact ⟨c, hc, takesOut_nothing (not_getsThrough_nil _ c) c⟩
  | succ fuel ih =>
    intro k i ids s c hn hlen hc hg
    rw [submitDeletes]
    by_cases hnil : ids = []
    · subst hnil
      exact ⟨c, hc, takesOut_nothing (not_getsThrough_nil _ c) c⟩
    rw [if_neg hnil]
    rcases executeDelete_outcome (k i) (ids.take maxDeleteIds) hc with
      ⟨heq, hno | hbad⟩ | ⟨c', m, heq, hall, hdel, -⟩
    · simp [hno] at hg
    · -- the batch names an id that is not valid
      simp only [heq, Bool.false_eq_true, if_false]
      exact ⟨c, hc, takesOut_nothing (not_getsThrough hbad) c⟩
    · simp only [heq]
      have hf : ∀ e, e ∈ ids.take maxDeleteIds →
          GetsThrough (fun b => k (i + b)) ids c e := fun _ he => getsThrough_first hall he
      by_cases hp : (k i).insert.persist = .failed
      · -- the batch is applied, but its slot ends in an error
        simp only [hp, decide_true, Bool.not_true, Bool.false_eq_true, if_false]
        refine ⟨c', rfl, (takesOut_deleted hdel).trans
          (takesOut_nothing (fun _ => not_false) c') hf fun e he => ?_⟩
        exact iff_of_false (fun h => he (mem_first_of_getsThrough hp h)) not_false
      · simp only [hp, decide_false, Bool.not_false, if_true]
        have hd : (ids.drop maxDeleteIds).length ≤ fuel := by
          have : 0 < ids.length := length_pos_of_ne_nil hnil
          rw [length_drop]
          simp only [maxDeleteIds]
          omega
        obtain ⟨c'', hc'', hs⟩ := ih k (i + 1) (ids.drop maxDeleteIds)
          ⟨s.db, ⟨s.disk.dir, m⟩, s.slot, some c'⟩ c'
          (hn.sublist (drop_sublist _ _)) hd rfl hdel.graph
        refine ⟨c'', hc'', (takesOut_deleted hdel).trans hs hf fun e he => ?_⟩
        have hca : (fun b => k (i + 1 + b)) = fun b => (fun b => k (i + b)) (b + 1) := by
          funext b
          rw [Nat.add_assoc, Nat.add_comm 1 b]
        rw [hca]
        exact getsThrough_rest_iff hn hall (k := fun b => k (i + b)) hp hdel he

/-! ## The first batch may have to load the index -/

variable {s : Server V} {g : SvsIndex V}

theorem cache_of_ensured {k : EnsureCalls}
    (h : (vamanaWorkerEnsureIndexCurrent k s).2 = .handle (some g)) :
    ∃ c, (vamanaWorkerEnsureIndexCurrent k s).1.cache = some c ∧ c.svsIndex = some g := by
  unfold vamanaWorkerEnsureIndexCurrent at h ⊢
  generalize vamanaWorkerGetOrLoadIndex k.get k.retry s = r at h ⊢
  obtain ⟨s', _ | _ | _⟩ := r
  · cases h
  · exact bind_eq_some_iff.mp (Ensured.handle.inj h)
  · dsimp only at h ⊢
    split at h
    · cases h
    · rename_i hr
      rw [if_neg hr]
      exact bind_eq_some_iff.mp (Ensured.handle.inj h)

variable {k : WriteCalls}

theorem cache_of_resolved (h : (resolveForWrite k s).2 = .handle (some g)) :
    ∃ c, (resolveForWrite k s).1.cache = some c ∧ c.svsIndex = some g := by
  rcases hc : s.cache with _ | c
  · unfold resolveForWrite at h ⊢
    simp only [hc] at h ⊢
    generalize hr : vamanaWorkerEnsureIndexCurrent k.first s = r at h ⊢
    obtain ⟨s', (_ | g') | _⟩ := r
    · exact cache_of_ensured h
    · have hca := cache_of_ensured (k := k.first) (s := s) (g := g) (by rw [hr]; exact h)
      rw [hr] at hca
      exact hca
    · cases h
  · rw [resolveForWrite_cached k hc] at h ⊢
    exact ⟨c, hc, Ensured.handle.inj h⟩

theorem executeDelete_resolved (h : Ready k s) (ids : List Nat) :
    vamanaWorkerExecuteDelete k ids s =
      vamanaWorkerExecuteDelete k ids (resolveForWrite k s).1 := by
  obtain ⟨g, hg⟩ := h
  obtain ⟨c, hc, hcg⟩ := cache_of_resolved hg
  have hres : resolveForWrite k s = ((resolveForWrite k s).1, .handle (some g)) :=
    Prod.ext rfl hg
  unfold vamanaWorkerExecuteDelete
  rw [resolveForWrite_cached k hc, hcg]
  rw [hres]

theorem executeDelete_not_ready (h : ¬ Ready k s) (ids : List Nat) :
    vamanaWorkerExecuteDelete k ids s = ((resolveForWrite k s).1, false) := by
  unfold vamanaWorkerExecuteDelete
  unfold Ready at h
  generalize resolveForWrite k s = r at h ⊢
  obtain ⟨s', (_ | g) | _⟩ := r
  · rfl
  · exact absurd ⟨g, rfl⟩ h
  · rfl

/-- The entry after the batches: gone is what got through, and nothing else. -/
def Purged (k : Nat → WriteCalls) (ids : List Nat) (s : Server V) (c c' : IndexCache V) :
    Prop :=
  ∀ e, (Ready (k 0) s ∧ GetsThrough k ids c e → c'.point e = none) ∧
    (¬ (Ready (k 0) s ∧ GetsThrough k ids c e) →
      c'.point e = c.point e ∧ c'.tidOf e = c.tidOf e)

theorem submitDeletes_found (k : Nat → WriteCalls) (s : Server V) (hn : ids.Nodup) :
    (∃ c c', entryFound k ids s = some c ∧
      (submitDeletes k ids.length 0 ids s).cache = some c' ∧ Purged k ids s c c') ∨
    entryFound k ids s = none ∧ (submitDeletes k ids.length 0 ids s).cache = none := by
  unfold entryFound
  by_cases hnil : ids = []
  · subst hnil
    rw [if_pos rfl]
    rcases hc : s.cache with _ | c
    · exact .inr ⟨rfl, hc⟩
    · refine .inl ⟨c, c, rfl, hc, fun e => ⟨?_, fun _ => ⟨rfl, rfl⟩⟩⟩
      rintro ⟨-, j, hj, -⟩
      simp at hj
  rw [if_neg hnil]
  obtain ⟨fuel, hf⟩ : ∃ fuel, ids.length = fuel + 1 :=
    ⟨ids.length - 1, by have := length_pos_of_ne_nil hnil; omega⟩
  by_cases hr : Ready (k 0) s
  · have hsa : submitDeletes k ids.length 0 ids s =
        submitDeletes k ids.length 0 ids (resolveForWrite (k 0) s).1 := by
      rw [hf, submitDeletes, submitDeletes, executeDelete_resolved hr]
      rw [if_neg hnil, if_neg hnil]
    obtain ⟨g, hg⟩ := hr
    obtain ⟨c, hc, hcg⟩ := cache_of_resolved hg
    obtain ⟨c', hc', hs⟩ := submitDeletes_spec ids.length k 0 ids
      (resolveForWrite (k 0) s).1 c hn (Nat.le_refl _) hc (by rw [hcg]; rfl)
    simp only [Nat.zero_add] at hs
    refine .inl ⟨c, c', hc, by rw [hsa, hc'], fun e => ⟨fun h => (hs e).1 h.2, fun h => ?_⟩⟩
    exact (hs e).2 fun hth => h ⟨⟨g, hg⟩, hth⟩
  · have hst : submitDeletes k ids.length 0 ids s = (resolveForWrite (k 0) s).1 := by
      rw [hf, submitDeletes, if_neg hnil, executeDelete_not_ready hr]
      rfl
    rw [hst]
    rcases hc : (resolveForWrite (k 0) s).1.cache with _ | c
    · exact .inr ⟨rfl, rfl⟩
    · exact .inl ⟨c, c, rfl, rfl, fun e => ⟨fun h => absurd h.1 hr, fun _ => ⟨rfl, rfl⟩⟩⟩

/-! ## The law -/

theorem vamanabulkdelete_eq (k : Nat → WriteCalls) (dead : Tid → Bool) (s : Server V) :
    vamanabulkdelete true k dead s =
      if vamanaValidateMetaCounts s.disk.metap none then
        some (submitDeletes k (deadOnDisk dead s.disk).length 0 (deadOnDisk dead s.disk) s)
      else none := by
  unfold vamanabulkdelete deadOnDisk
  rcases vamanaValidateMetaCounts s.disk.metap none with _ | _
  · rfl
  · simp only [Bool.not_true, Bool.false_eq_true, if_false, if_true]
    by_cases hcap : s.disk.metap.tidMappingCapacity = 0
    · rw [if_pos hcap, if_pos hcap]
      rfl
    rw [if_neg hcap, if_neg hcap]
    rcases vamanaLoadTidMap s.disk.dir s.disk.metap.tidMappingCapacity with _ | m
    · rfl
    · rfl

theorem nodup_deadOnDisk (dead : Tid → Bool) (d : Disk V) : (deadOnDisk dead d).Nodup := by
  unfold deadOnDisk
  split
  · exact nodup_nil
  · rcases vamanaLoadTidMap d.dir d.metap.tidMappingCapacity with _ | m
    · exact nodup_nil
    · exact nodup_deadIds dead m

/-- VACUUM leaves no valid point with a dead TID exactly when every such point of the entry is
on disk with its TID and in a batch that gets through. -/
theorem vacuum_leaves_no_dead_point_iff (k : Nat → WriteCalls) (dead : Tid → Bool) (s : Server V) :
    NoDeadPoint dead (vamanabulkdelete true k dead s) ↔
      (vamanaValidateMetaCounts s.disk.metap none = true → DeadAreReached k dead s) := by
  rw [vamanabulkdelete_eq]
  rcases vamanaValidateMetaCounts s.disk.metap none with _ | _
  · refine ⟨fun _ h => ?_, fun _ s' h => ?_⟩
    · cases h
    · cases h
  rw [if_pos rfl]
  unfold DeadAreReached
  rcases submitDeletes_found k s (nodup_deadOnDisk dead s.disk) with
    ⟨c, c', hf, hca, hpu⟩ | ⟨hf, hca⟩
  · constructor
    · intro h _ c₀ hc₀ e t hpo htid hd
      obtain rfl := some.inj (hf.symm.trans hc₀)
      by_contra hnot
      obtain ⟨hp, ht⟩ := (hpu e).2 hnot
      have hl := h _ rfl c' hca e t (by rw [hp]; exact hpo) (by rw [ht]; exact htid)
      rw [hd] at hl
      cases hl
    · intro h s' hs' c₀ hc₀ e t hpo htid
      obtain rfl := some.inj hs'
      obtain rfl := some.inj (hca.symm.trans hc₀)
      by_cases hg : Ready (k 0) s ∧ GetsThrough k (deadOnDisk dead s.disk) c e
      · rw [(hpu e).1 hg] at hpo
        cases hpo
      obtain ⟨hp, ht⟩ := (hpu e).2 hg
      by_contra hd
      rw [hp] at hpo
      rw [ht] at htid
      exact hg (h rfl c hf e t hpo htid (by simpa using hd))
  · refine ⟨fun _ _ c hc => ?_, fun _ s' hs' c hc => ?_⟩
    · rw [hf] at hc
      cases hc
    · obtain rfl := some.inj hs'
      rw [hca] at hc
      cases hc

/-! ## A row that the TID map on disk does not have -/

/-- The callback of a VACUUM that starts in this state of the heap. -/
def tupleIsDead (db : Database V) (t : Tid) : Bool := (db.tupleAt t).any db.dead

/-- A second row is inserted, committed and deleted again; no checkpoint comes between. -/
def insertAndDelete : Server Nat :=
  run step (created ⟨1, 100⟩ oneRow)
    [.begin, .insert quietWrite 2 ⟨0, 2⟩ 20, .commit 2, .begin, .delete 3 ⟨0, 2⟩, .commit 3]

/-- Its tuple is dead, VACUUM returns, and its point is still there with its TID. -/
theorem vacuum_misses_a_row_inserted_since_the_save :
    ¬ NoDeadPoint (tupleIsDead insertAndDelete.db)
      (vamanabulkdelete true (fun _ => quietWrite) (tupleIsDead insertAndDelete.db)
        insertAndDelete) := by
  intro h
  have hl := h _ rfl _ rfl 1 ⟨0, 2⟩ rfl rfl
  revert hl
  decide

/-! ## The cleanup -/

inductive Maintenance
  | consolidate
  | compact
deriving DecidableEq, Repr

/-- The requests that `vamanavacuumcleanup` submits. The counters of the metapage are 32-bit words,
and so are their products. -/
def vamanavacuumcleanup (workerAvailable : Bool) (numDeleted numVectors : UInt32)
    (compactThresholdPct : Nat) : List Maintenance :=
  if workerAvailable ∧ numDeleted > 0 then
    .consolidate ::
      if numVectors > 0 ∧ compactThresholdPct < 100 ∧
          numDeleted * 100 > numVectors * UInt32.ofNat compactThresholdPct then [.compact]
      else []
  else []

/-- One of two products has wrapped more often than the other, and the words stand the other way
round. -/
def Misordered (x y : Nat) : Prop :=
  x / UInt32.size < y / UInt32.size ∧ y % UInt32.size < x % UInt32.size ∨
    y / UInt32.size < x / UInt32.size ∧ x % UInt32.size ≤ y % UInt32.size

theorem compact_mem_iff {numDeleted numVectors : UInt32} {pct : Nat} (hd : 0 < numDeleted)
    (hv : 0 < numVectors) (hp : pct < 100) :
    .compact ∈ vamanavacuumcleanup true numDeleted numVectors pct ↔
      pct * numVectors.toNat % UInt32.size < 100 * numDeleted.toNat % UInt32.size := by
  have hw : pct % UInt32.size = pct := Nat.mod_eq_of_lt (by simp [UInt32.size]; omega)
  simp [vamanavacuumcleanup, hd, hv, hp, UInt32.lt_iff_toNat_lt, UInt32.size, Nat.mul_comm] at hw ⊢

/-- A compaction is requested exactly when the deleted share is above the threshold, unless the
products have wrapped into the other order. -/
theorem compaction_is_exact_iff (numDeleted numVectors : UInt32) (pct : Nat)
    (hd : 0 < numDeleted) (hv : 0 < numVectors) (hp : pct < 100) :
    (.compact ∈ vamanavacuumcleanup true numDeleted numVectors pct ↔
      pct * numVectors.toNat < 100 * numDeleted.toNat) ↔
    ¬ Misordered (100 * numDeleted.toNat) (pct * numVectors.toNat) := by
  rw [compact_mem_iff hd hv hp]
  generalize 100 * numDeleted.toNat = deleted, pct * numVectors.toNat = allowed
  simp only [Misordered, UInt32.size]
  omega

/-- Half of the rows are deleted, and a fifth is allowed. -/
theorem half_deleted_index_is_compacted : .compact ∈ vamanavacuumcleanup true 1 2 20 :=
  ((compaction_is_exact_iff 1 2 20 (by decide) (by decide) (by decide)).mpr
    (by unfold Misordered; decide)).mpr (by decide)

/-- A hundred times the deleted rows is 4 as a word, and so is twenty times the vectors of another
index. -/
theorem wrapped_products_decide_wrongly :
    ¬ (.compact ∈ vamanavacuumcleanup true 42949673 50000000 20 ↔ 20 * 50000000 < 100 * 42949673) ∧
    ¬ (.compact ∈ vamanavacuumcleanup true 1 214748365 20 ↔ 20 * 214748365 < 100 * 1) := by
  decide

end svs_vamana.vacuum
