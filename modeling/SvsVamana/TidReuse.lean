-- The law of a reused TID after a crash: a copy that was saved between the delete of a row and its
-- VACUUM keeps the old vector for the next row at that TID.
import SvsVamana.CaughtUp
import SvsVamana.Vacuum

namespace svs_vamana.tid_reuse

open index_cache saved_index replay delivery tid_fate database write_slot server transition_runs
open replay_position vacuum caught_up Server Option

variable {V : Type}

/-! ## The pure model -/

/-- VACUUM of the table: the dead tuples are found, the index is told, and their TIDs are
freed. -/
def vacuumTable (k : Nat → WriteCalls) (s : Server V) : Server V :=
  let freed := (s.db.heap.filter s.db.dead).map fun x => Op.prune x.tid
  let s' := (vamanabulkdelete true k (tupleIsDead s.db) s).getD s
  { s' with db := run Database.step s'.db freed }

/-- A step of a history. -/
inductive HistoryStep (V : Type)
  | event (e : Event V)
  | vacuum (k : Nat → WriteCalls)

def historyStep (s : Server V) : HistoryStep V → Server V
  | .event e => s.step e
  | .vacuum k => vacuumTable k s

/-- The crash at the end, the load of the copy on disk, and the replay of what it decodes. -/
def recover (flushed : Nat) (k : EnsureCalls) (s : Server V) : Server V :=
  (vamanaWorkerEnsureIndexCurrent k (s.crash flushed)).1

/-- After the crash the copy on disk is taken, and the drain gets the slot and comes to its
end. -/
structure Replays (flushed : Nat) (k : EnsureCalls) (s : Server V) : Prop where
  unlocked : k.get.indexLocked = false
  noError : k.get.lateError = .none
  takes : TakesCopy k.get (s.crash flushed)
  slotFree : k.drain.slotFree = true
  ends : k.drain.raiseAt = none

/-- The TID is bound to the vector: the reverse map resolves it to a point with the vector, and
no point with the TID has another. -/
def Bound (c : IndexCache V) (t : Tid) (v : V) : Prop :=
  boundTo c t = some v ∧ ∀ e v', c.HoldsAt e t v' → v' = v

/-- Every committed live TID is bound to the vector of its row. -/
def BindsLiveRows (s : Server V) : Prop :=
  ∀ c, s.cache = some c → ∀ x ∈ s.db.heap, s.db.live x = true → Bound c x.tid x.vec

/-- The copy binds the TID to the row's vector and no DELETE of it is decoded; or an INSERT is
decoded with no DELETE after it, and with one before it when the copy already binds the TID. A point
that the reverse map does not resolve to has the same vector. -/
def Rebound (k : ApplyCalls V) (decoded : List TidChange) (copy : IndexCache V) (x : HeapTuple V) :
    Prop :=
  ((boundTo copy x.tid = some x.vec ∧ ∀ y ∈ decoded, ¬ Removes x.tid y) ∨
    AddedAnew k x.tid (copy.eidOf x.tid ≠ none) decoded) ∧
  ∀ e v, copy.HoldsAt e x.tid v → copy.eidOf x.tid ≠ some e → v = x.vec

/-! ## What a replay binds -/

variable {c₀ c : IndexCache V} {xs : List TidChange} {k : ApplyCalls V} {t : Tid}

theorem boundTo_replayed_iff (hc₀ : c₀.Sound) (h : After k c₀ xs c)
    {v : V} (hf : k.fetch t = some (some v)) :
    boundTo c t = some v ↔ (boundTo c₀ t = some v ∧ ∀ y ∈ xs, ¬ Removes t y) ∨
      AddedAnew k t (c₀.eidOf t ≠ none) xs := by
  obtain ⟨hn, hs, ha⟩ := h.boundTo_eq hc₀ t
  rw [← bindingAfter_eq_added_iff k c₀ t xs]
  rcases hb : bindingAfter k t (bindingOf c₀ t) xs with _ | _ | _
  · -- nothing is bound in the end, so a binding of the copy was removed
    rw [hn hb]
    simp only [reduceCtorEq, or_false, false_iff, not_and]
    intro hbo hno
    have hso : c₀.eidOf t ≠ none := by
      intro he
      simp [boundTo, he] at hbo
    have hof : bindingOf c₀ t = .atStart := if_neg hso
    rw [hof] at hb
    obtain ⟨y, hy, hr⟩ := removes_of_left_start k t xs (by rw [hb]; simp)
    exact hno y hy hr
  · rw [hs hb]
    simp only [reduceCtorEq, or_false]
    exact ⟨fun hbo => ⟨hbo, (bindingAfter_atStart hb).2⟩, fun hbo => hbo.1⟩
  · rw [ha hb, hf]
    simp

theorem not_hit_of_stray (hc₀ : c₀.Sound) {e : Nat} (htid : c₀.tidOf e = some t)
    (hs : c₀.eidOf t ≠ some e) : ¬ Hit c₀ xs e := by
  rintro ⟨t', he, -⟩
  have ht' := hc₀.reverse t' e he
  rw [htid] at ht'
  cases ht'
  exact hs he

theorem bound_replayed_iff (hc₀ : c₀.Sound) (h : After k c₀ xs c)
    {x : HeapTuple V} (hf : k.fetch x.tid = some (some x.vec)) :
    Bound c x.tid x.vec ↔ Rebound k xs c₀ x := by
  unfold Bound Rebound
  rw [boundTo_replayed_iff hc₀ h hf]
  refine and_congr_right fun hbo => ⟨fun hall e v hhe hs => ?_, fun hall e v hhe => ?_⟩
  · -- a stray point of the copy is still there
    obtain ⟨htid, hpo⟩ := hhe
    obtain ⟨ht, hp⟩ := h.old e (hc₀.lt_next htid) (not_hit_of_stray hc₀ htid hs)
    exact hall e v ⟨ht.trans htid, hp.trans hpo⟩
  · obtain ⟨htid, hpo⟩ := hhe
    rcases Nat.lt_or_ge e c₀.nextExternalId with hlt | hge
    · have hm : ¬ Hit c₀ xs e := fun hh => by
        rw [h.gone e hlt hh] at htid
        cases htid
      obtain ⟨ht, hp⟩ := h.old e hlt hm
      rw [ht] at htid
      rw [hp] at hpo
      by_cases hs : c₀.eidOf x.tid = some e
      · have hno : ∀ y ∈ xs, ¬ Removes x.tid y := fun y hy hr => hm ⟨x.tid, hs, y, hy, hr⟩
        rcases hbo with ⟨hb, -⟩ | ⟨ys, y, zs, rfl, -, -, hre⟩
        · simp only [boundTo, hs, bind_some, hpo, some.injEq] at hb
          exact hb
        · obtain ⟨w, hw, hr⟩ := hre (by simp [hs])
          exact absurd hr (hno w (by simp [hw]))
      · exact hall e v ⟨htid, hpo⟩ hs
    · obtain ⟨-, hnew⟩ := h.new e hge x.tid htid
      rw [hf, hpo] at hnew
      exact (some.inj (some.inj hnew)).symm

/-! ## The states of a history -/

variable {s : Server V}

theorem ok_executeDelete (hok : s.Ok) (k : WriteCalls) (ids : List Nat) :
    (vamanaWorkerExecuteDelete k ids s).1.Ok := by
  by_cases hr : Ready k s
  · rw [executeDelete_resolved hr]
    obtain ⟨g, hg⟩ := hr
    obtain ⟨c, hc, -⟩ := cache_of_resolved hg
    exact (hok.resolve k).executeDelete k ids (by rw [hc]; rfl)
  · rw [executeDelete_not_ready hr]
    exact hok.resolve k

theorem ok_submitDeletes (k : Nat → WriteCalls) (fuel : Nat) : ∀ (i : Nat)
    (ids : List Nat) {s : Server V}, s.Ok → (submitDeletes k fuel i ids s).Ok := by
  induction fuel with
  | zero => exact fun _ _ _ hok => hok
  | succ fuel ih =>
    intro i ids s hok
    have hn := ok_executeDelete hok (k i) (ids.take maxDeleteIds)
    rw [submitDeletes]
    split
    · exact hok
    generalize vamanaWorkerExecuteDelete (k i) (ids.take maxDeleteIds) s = r at hn ⊢
    obtain ⟨s', done⟩ := r
    dsimp only
    split
    · exact ih (i + 1) _ hn
    · exact hn

theorem ok_db_run (hok : s.Ok) (ops : List (Op V)) :
    ({ s with db := run Database.step s.db ops } : Server V).Ok := by
  induction ops generalizing s with
  | nil => exact hok
  | cons op ops ih => exact ih (hok.db_step op)

theorem ok_vacuumTable (hok : s.Ok) (k : Nat → WriteCalls) : (vacuumTable k s).Ok := by
  have hi : ((vamanabulkdelete true k (tupleIsDead s.db) s).getD s).Ok := by
    rw [vamanabulkdelete_eq]
    split
    · exact ok_submitDeletes k _ 0 _ hok
    · exact hok
  exact ok_db_run hi _

theorem ok_history (rel : Relation) (history : List (Op V)) (hs : List (HistoryStep V)) :
    (run historyStep (created rel history) hs).Ok := by
  refine run_keeps Ok (fun s h hok => ?_) (ok_created rel history) hs
  cases h with
  | event e => exact ok_step hok e
  | vacuum k => exact ok_vacuumTable hok k

/-! ## The law -/

theorem bound_of_same {c' : IndexCache V} (h : IndexCache.Same c c') (t : Tid) (v : V) :
    Bound c' t v ↔ Bound c t v := by
  unfold Bound boundTo IndexCache.HoldsAt
  have hp : c'.point = c.point := funext h.point
  simp only [h.eidOf, h.tidOf, hp]

variable {k : EnsureCalls} {flushed : Nat}

theorem recover_eq (hok : s.Ok) (h : Replays flushed k s) :
    recover flushed k s = (vamanaReplicationDrainSlot k.drain (s.crash flushed).withCopy).1 := by
  have hcr := hok.crash flushed
  obtain ⟨g, m, b, -, heq⟩ := getOrLoadIndex_takesCopy k.retry rfl h.unlocked
    h.takes.1 h.takes.2.1 (.inl h.takes.2.2)
  rw [if_pos h.noError] at heq
  obtain ⟨-, -, hc⟩ := getOrLoadIndex_fromDisk k.get k.retry rfl hcr.flagged (congrArg Prod.snd heq)
  rw [heq] at hc
  unfold recover vamanaWorkerEnsureIndexCurrent
  rw [heq]
  dsimp only
  rw [← hc]
  split <;> rfl

theorem applies_of_replays (h : Replays flushed k s)
    {X : Nat} (hc₀ : (s.crash flushed).withCopy.cache = some c₀)
    (hX : (s.crash flushed).confirmedFlush = some X) :
    Applies k.drain (s.crash flushed).withCopy c₀ := by
  obtain ⟨⟨g, m⟩, -, rfl⟩ := map_eq_some_iff.mp hc₀
  refine ⟨?_, ⟨rfl, h.slotFree⟩, .inl h.ends⟩
  rw [slot_of_confirmedFlush hX]
  rfl

/-- After any history and a crash, the replay into the copy on disk binds every committed live TID
to the vector of its row exactly when each of them is `Rebound`. -/
theorem recovery_binds_live_rows_iff (rel : Relation) (history : List (Op V))
    (hs : List (HistoryStep V)) (flushed : Nat) (k : EnsureCalls)
    (h : Replays flushed k (run historyStep (created rel history) hs)) :
    let s := run historyStep (created rel history) hs
    BindsLiveRows (recover flushed k s) ↔
      ∀ c₀ X, (s.crash flushed).withCopy.cache = some c₀ →
        (s.crash flushed).confirmedFlush = some X →
        ∀ x ∈ s.db.heap, s.db.live x = true →
          Rebound (k.drain.calls s.db).apply (delivered s.db.rel X s.db.wal) c₀ x := by
  have hok := ok_history rel history hs
  dsimp only
  generalize run historyStep (created rel history) hs = s at h hok ⊢
  have hco := (hok.crash flushed).withCopy
  obtain ⟨X, hX⟩ := isSome_iff_exists.mp h.takes.2.2
  obtain ⟨⟨g, m⟩, hd⟩ := isSome_iff_exists.mp h.takes.2.1
  obtain ⟨c₀, hc₀⟩ : ∃ c₀, (s.crash flushed).withCopy.cache = some c₀ := by
    unfold withCopy
    rw [hd]
    exact ⟨_, rfl⟩
  have hg : c₀.svsIndex.isSome := by
    obtain ⟨⟨g', m'⟩, -, rfl⟩ := map_eq_some_iff.mp hc₀
    rfl
  obtain ⟨c, hc, hsa⟩ := drain_cache hco hc₀ hX (applies_of_replays h hc₀ hX)
  rw [h.ends] at hsa
  have hso := hco.cache c₀ hc₀
  have ha := after_replayAll (k.drain.calls s.db).apply hso hg 0 (delivered s.db.rel X s.db.wal)
  have hrow : ∀ x ∈ s.db.heap, (Bound c x.tid x.vec ↔
      Rebound (k.drain.calls s.db).apply (delivered s.db.rel X s.db.wal) c₀ x) := by
    intro x hx
    rw [bound_of_same hsa]
    exact bound_replayed_iff hso ha (hok.db.fetch hx)
  rw [recover_eq hok h]
  unfold BindsLiveRows
  rw [hc, db_drain]
  constructor
  · intro hall c₁ X₁ hc₁ hX₁ x hx hl
    cases hc₀.symm.trans hc₁
    cases hX.symm.trans hX₁
    exact (hrow x hx).mp (hall c rfl x hx hl)
  · intro hall c₁ hc₁ x hx hl
    cases hc₁
    exact (hrow x hx).mpr (hall c₀ X hc₀ hX x hx hl)

def twoRows : List (Op Nat) := [.begin, .insert 1 ⟨0, 1⟩ 10, .insert 1 ⟨0, 2⟩ 11, .commit 1]

/-- The first row is deleted, and a third one comes to its TID after a VACUUM. The checkpoint
is before all that. -/
def reusedAfterCheckpoint : Server Nat :=
  run historyStep (created ⟨1, 100⟩ twoRows)
    [.event (.checkpoint false false), .event .begin, .event (.delete 2 ⟨0, 1⟩),
      .event (.commit 2), .vacuum fun _ => quietWrite, .event .begin,
      .event (.insert quietWrite 3 ⟨0, 1⟩ 30), .event (.commit 3)]

theorem recovery_binds_live_rows_here :
    (recover 100 quietEnsure reusedAfterCheckpoint).cache.isSome ∧
      BindsLiveRows (recover 100 quietEnsure reusedAfterCheckpoint) := by
  refine ⟨rfl, (recovery_binds_live_rows_iff ⟨1, 100⟩ twoRows _ 100 quietEnsure
    ⟨rfl, rfl, ⟨⟨rfl, rfl, rfl⟩, rfl, rfl⟩, rfl, rfl⟩).mpr ?_⟩
  intro c₀ X hc₀ hX x hx _
  cases hc₀
  cases hX
  have hd : delivered reusedAfterCheckpoint.db.rel 3 reusedAfterCheckpoint.db.wal =
      [⟨3, .delete, ⟨0, 1⟩⟩, ⟨5, .insert, ⟨0, 1⟩⟩] := rfl
  have hro : x = ⟨⟨0, 2⟩, 11, 1, none⟩ ∨ x = ⟨⟨0, 1⟩, 30, 3, none⟩ := by
    simpa using (show x ∈ [⟨⟨0, 2⟩, 11, 1, none⟩, ⟨⟨0, 1⟩, 30, 3, none⟩] from hx)
  rcases hro with rfl | rfl
  · refine ⟨.inl ⟨rfl, fun y hy hr => ?_⟩, fun e v hh hs => ?_⟩
    · have hy : y ∈ delivered reusedAfterCheckpoint.db.rel 3 reusedAfterCheckpoint.db.wal := hy
      rw [hd] at hy
      simp only [List.mem_cons, List.not_mem_nil, or_false] at hy
      rcases hy with rfl | rfl
      · cases hr.2
      · cases hr.2
    · rcases e with _ | _ | _ | _ | e
      · cases hh.1
      · exact absurd rfl hs
      · cases hh.1
      · cases hh.1
      · cases hh.1
  · refine ⟨.inr ⟨[⟨3, .delete, ⟨0, 1⟩⟩], ⟨5, .insert, ⟨0, 1⟩⟩, [], hd, ⟨rfl, rfl, rfl⟩,
      by simp, fun _ => ⟨_, List.mem_singleton_self _, by simp [Removes]⟩⟩,
      fun e v hh hs => ?_⟩
    rcases e with _ | _ | _ | _ | e
    · exact absurd rfl hs
    · cases hh.1
    · cases hh.1
    · cases hh.1
    · cases hh.1

/-- The same with the checkpoint between the delete and the VACUUM. -/
def reusedAcrossCheckpoint : Server Nat :=
  run historyStep (created ⟨1, 100⟩ twoRows)
    [.event .begin, .event (.delete 2 ⟨0, 1⟩), .event (.commit 2),
      .event (.checkpoint false false), .vacuum fun _ => quietWrite, .event .begin,
      .event (.insert quietWrite 3 ⟨0, 1⟩ 30), .event (.commit 3)]

/-- The TID of the third row is left with the vector of the first. -/
theorem a_reused_tid_keeps_the_old_vector :
    Replays 100 quietEnsure reusedAcrossCheckpoint ∧
      ¬ BindsLiveRows (recover 100 quietEnsure reusedAcrossCheckpoint) := by
  refine ⟨⟨rfl, rfl, ⟨⟨rfl, rfl, rfl⟩, rfl, rfl⟩, rfl, rfl⟩, fun h => ?_⟩
  have hrow : (⟨⟨0, 1⟩, 30, 3, none⟩ : HeapTuple Nat) ∈
      [⟨⟨0, 2⟩, 11, 1, none⟩, ⟨⟨0, 1⟩, 30, 3, none⟩] := by simp
  obtain ⟨hbo, -⟩ := h _ rfl _ hrow rfl
  cases hbo

end svs_vamana.tid_reuse
