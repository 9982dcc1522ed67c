-- The law of an insert in flight: the worker adds the point before the transaction ends, but a load
-- brings back only what was saved or has committed.
import SvsVamana.ReplayPosition

namespace svs_vamana.in_flight_insert

open index_cache saved_index replay delivery tid_fate database write_slot server transition_runs
open replay_position Server IndexCache Option

variable {V : Type}

/-! ## The pure model -/

def Resident (t : Tid) (v : V) (s : Server V) : Prop := ∀ c, s.cache = some c → c.Holds t v

/-- The files of the saved copy have a point for the row. -/
def CopyHolds (t : Tid) (v : V) (s : Server V) : Prop :=
  ∀ dir, s.disk.dir = some dir → dir.Holds t v

/-- The step does not lose the row. A load takes a saved copy that has it, a drain decodes no
DELETE of its TID, and a DELETE slot names no point of its TID. -/
def KeepsRow (t : Tid) (v : V) (s : Server V) : Event V → Prop
  | .load k _ => s.cache = none → k.indexLocked = false → TakesCopy k s ∧ CopyHolds t v s
  | .loadSlot _ => CopyHolds t v s
  | .drain k => ∀ c X, s.cache = some c → s.confirmedFlush = some X → Applies k s c →
      ∀ y ∈ delivered s.db.rel X (recordsRead s.db.wal k.raiseAt), ¬ Removes t y
  | .deleteIds _ ids => ∀ c, s.cache = some c → ∀ e ∈ ids, c.tidOf e ≠ some t
  | _ => True

/-- The transaction stores the row, and the worker ends its INSERT slot with DONE. -/
def InsertDone (k : WriteCalls) (xid : Nat) (t : Tid) (v : V) (s : Server V) : Prop :=
  s.cache.isSome ∧ xid ∈ s.db.active ∧ (s.db.tupleAt t).isNone = true ∧
    ∃ e, (vamanaWorkerExecuteInsert k t v
      { s with db := s.db.step (.insert xid t v) }).2 = .done e

/-! ## The steps that keep the row -/

variable {t : Tid} {v : V}

theorem holds_insertOutcome {t' : Tid} {v' : V} {c c' : IndexCache V} {slotEnd : SlotEnd}
    (hc : c.Sound) (hout : InsertOutcome t' v' c c' slotEnd) (h : c.Holds t v) : c'.Holds t v := by
  obtain ⟨e, htid, hp⟩ := h
  have hne : e ≠ c.nextExternalId := by
    have := hc.lt_next htid
    omega
  cases hout with
  | refused => exact ⟨e, htid, hp⟩
  | stray hg =>
    refine ⟨e, htid, ?_⟩
    simpa [point, hg, Function.update_of_ne hne] using hp
  | mapped hg hc' _ =>
    refine hc'.holds ⟨e, ?_, ?_⟩
    · rw [tidOf_mapNewPoint, if_neg hne]
      exact htid
    · rw [point_mapNewPoint]
      simpa [point, hg, Function.update_of_ne hne] using hp
  | first hg hc' _ => simp [point, hg] at hp

theorem holds_of_done {c c' : IndexCache V} {e : Nat}
    (hout : InsertOutcome t v c c' (.done e)) : c'.Holds t v := by
  cases hout with
  | mapped hg hc' _ => exact hc'.holds ⟨c.nextExternalId, by simp, by simp⟩
  | first hg hc' _ => exact hc'.holds ⟨0, rfl, rfl⟩

variable {s : Server V}

theorem resident_of_insertDone {k : WriteCalls} {xid : Nat} (h : InsertDone k xid t v s) :
    Resident t v (s.step (.insert k xid t v)) := by
  obtain ⟨hc, ha, hf, e, hd⟩ := h
  obtain ⟨c, hc'⟩ := isSome_iff_exists.mp hc
  obtain ⟨c', m, r, heq, hout, -, -⟩ := executeInsert_outcome k t v
    (s := { s with db := s.db.step (.insert xid t v) }) hc'
  rw [hd] at hout
  have hs : s.step (.insert k xid t v) = (vamanaWorkerExecuteInsert k t v
      { s with db := s.db.step (.insert xid t v) }).1 := by
    simp only [step, hc, if_true, insertRow, ha, hf, and_self]
    generalize vamanaWorkerExecuteInsert k t v _ = res at hd ⊢
    obtain ⟨s', slotEnd⟩ := res
    obtain rfl : slotEnd = .done e := hd
    rfl
  intro c₁ hc₁
  rw [hs, heq] at hc₁
  cases hc₁
  exact holds_of_done hout

theorem holds_entryOf (hok : s.Ok) {g : SvsIndex V} {m : List (Option Tid)}
    (hc : diskCopy s.disk = some (g, m)) (h : CopyHolds t v s) :
    (entryOf s.disk.metap g m).Holds t v := by
  obtain ⟨dir, hdir, -, hpo, htid⟩ := SavedOk.entry hc hok.saved
  obtain ⟨e, ht, hp⟩ := h dir hdir
  exact ⟨e, by rw [htid, ht], by rw [hpo, hp]⟩

theorem resident_insertRow (hok : s.Ok) (h : Resident t v s) (k : WriteCalls) (xid : Nat)
    (t' : Tid) (v' : V) (hc : s.cache.isSome) : Resident t v (insertRow k xid t' v' s) := by
  obtain ⟨c, hc⟩ := isSome_iff_exists.mp hc
  obtain ⟨c', m, r, heq, hout, -, -⟩ := executeInsert_outcome k t' v'
    (s := { s with db := s.db.step (.insert xid t' v') }) hc
  have hh := holds_insertOutcome (hok.cache c hc) hout (h c hc)
  unfold insertRow
  split
  · generalize vamanaWorkerExecuteInsert k t' v' _ = res at heq ⊢
    obtain ⟨s', e | _⟩ := res
    · intro c₁ hc₁
      obtain rfl : s' = _ := heq
      cases hc₁
      exact hh
    · intro c₁ hc₁
      obtain rfl : s' = _ := heq
      cases hc₁
      exact hh
  · exact h

theorem resident_drain (hok : s.Ok) (h : Resident t v s) (k : DrainFaults)
    (hk : KeepsRow t v s (.drain k)) : Resident t v (vamanaReplicationDrainSlot k s).1 := by
  intro c' hc'
  obtain ⟨c, hc, -, ⟨X, hX, happ, hsa⟩ | ⟨rfl, -⟩⟩ := drain_cached hok hc'
  · have hs := hok.cache c hc
    obtain ⟨e, htid, hp⟩ := h c hc
    have hg : c.svsIndex.isSome :=
      Sound.svsIndex_of_point (isSome_iff_exists.mpr ⟨_, hp⟩)
    have ha := after_replayAll (k.calls s.db).apply hs hg 0
      (delivered s.db.rel X (recordsRead s.db.wal k.raiseAt))
    apply hsa.holds
    rw [replayed, ha.holds_iff hs]
    exact .inl ⟨e, ⟨htid, hp⟩, fun _ => hk c X hc hX happ⟩
  · exact h c' hc

theorem resident_deleteIds (h : Resident t v s) (k : WriteCalls) (ids : List Nat)
    (hc : s.cache.isSome) (hk : KeepsRow t v s (.deleteIds k ids)) :
    Resident t v (vamanaWorkerExecuteDelete k ids s).1 := by
  obtain ⟨c, hc⟩ := isSome_iff_exists.mp hc
  rcases executeDelete_outcome k ids hc with ⟨heq, -⟩ | ⟨c', m, heq, -, hdel, -⟩
  · rw [heq]
    exact h
  · rw [heq]
    intro c₁ hc₁
    cases hc₁
    obtain ⟨e, htid, hp⟩ := h c hc
    have hnot : e ∉ ids := fun he => hk c hc e he htid
    exact ⟨e, by rw [hdel.tidOf, if_neg hnot, htid], by rw [hdel.point, if_neg hnot, hp]⟩

section

variable (hok : s.Ok) (h : Resident t v s)
include hok h

theorem resident_loadSlot (k : LoadSlotCalls)
    (hk : CopyHolds t v s) : Resident t v (vamanaWorkerProcessLoadSlot k s) := by
  rcases loadSlot_outcome hok k with ⟨-, heq⟩ | ⟨g, m, b, r, -, hco, -, heq⟩
  · rw [heq]
    exact h
  · rw [heq]
    intro c hc
    cases hc
    exact holds_entryOf hok hco hk

theorem resident_load (k retry : GetCalls) (hk : KeepsRow t v s (.load k retry)) :
    Resident t v (vamanaWorkerGetOrLoadIndex k retry s).1 := by
  rcases hc : s.cache with _ | c
  · rcases hl : k.indexLocked with _ | _
    · obtain ⟨ht, hco⟩ := hk hc hl
      obtain ⟨g, m, b, hd, heq⟩ := getOrLoadIndex_takesCopy retry hc hl ht.1 ht.2.1 (.inl ht.2.2)
      rw [heq]
      intro c hc
      cases hc
      exact holds_entryOf hok hd hco
    · unfold vamanaWorkerGetOrLoadIndex
      simp only [hc, hl, if_true]
      exact h
  · rw [getOrLoadIndex_cached k retry (by rw [hc]; rfl)]
    exact h

theorem resident_step (e : Event V)
    (hk : KeepsRow t v s e) : Resident t v (s.step e) := by
  have hg : ∀ {s' : Server V}, s'.cache = none → Resident t v s' := by
    intro s' hnone c hc
    rw [hnone] at hc
    cases hc
  cases e with
  | begin => exact h
  | insert k xid t' v' =>
    simp only [step]
    split
    · rename_i hc
      exact resident_insertRow hok h k xid t' v' hc
    · exact h
  | delete xid t' => exact h
  | commit xid => exact h
  | abort xid => exact h
  | prune t' => exact h
  | deleteIds k ids =>
    simp only [step]
    split
    · rename_i hc
      exact resident_deleteIds h k ids hc hk
    · exact h
  | load k retry => exact resident_load hok h k retry hk
  | loadSlot k => exact resident_loadSlot hok h k hk
  | drain k => exact resident_drain hok h k hk
  | checkpoint saveFails slotBusy =>
    intro c' hc'
    obtain ⟨c, hc, hs⟩ := checkpoint_cache saveFails slotBusy hc'
    exact hs.holds (h c hc)
  | evict => exact hg rfl
  | walBudget slotHeld => exact hg rfl
  | crash flushed => exact hg rfl

end

theorem resident_run (hok : s.Ok) (h : Resident t v s) {es : List (Event V)}
    (hes : EachStep step (KeepsRow t v) s es) : Resident t v (run step s es) :=
  (run_invariant (fun s => s.Ok ∧ Resident t v s)
    (fun _ e hs hk => ⟨ok_step hs.1 e, resident_step hs.1 hs.2 e hk⟩)
    ⟨hok, h⟩ hes).2

/-! ## The laws -/

/-- The worker has applied an insert. An entry that is resident when the transaction commits has its
row, as long as no step on the way loses it. -/
theorem a_row_in_flight_is_resident_at_commit (rel : Relation) (history : List (Op V))
    (before after : List (Event V)) (k : WriteCalls) (xid : Nat) (t : Tid) (v : V)
    (hdone : InsertDone k xid t v (run step (created rel history) before))
    (hafter : EachStep step (KeepsRow t v)
      ((run step (created rel history) before).step (.insert k xid t v)) after) :
    Resident t v ((run step
      ((run step (created rel history) before).step (.insert k xid t v))
      after).step (.commit xid)) := by
  have hok := ok_run (ok_created rel history) before
  exact resident_run (ok_step hok _) (resident_of_insertDone hdone) hafter

/-- The insert in flight is in a checkpoint, and that is loaded again. -/
def checkpointedInFlight : List (Event Nat) :=
  [.checkpoint false false, .evict, .load quietGet quietGet, .drain quietDrain]

theorem a_row_in_flight_is_resident_at_commit_here :
    ((run step ((run step (created ⟨1, 100⟩ oneRow) [.begin]).step
      (.insert quietWrite 2 ⟨0, 2⟩ 20)) checkpointedInFlight).step (.commit 2)).cache.isSome ∧
    Resident ⟨0, 2⟩ 20 ((run step
      ((run step (created ⟨1, 100⟩ oneRow) [.begin]).step
        (.insert quietWrite 2 ⟨0, 2⟩ 20)) checkpointedInFlight).step (.commit 2)) := by
  refine ⟨rfl, a_row_in_flight_is_resident_at_commit ⟨1, 100⟩ oneRow [.begin] checkpointedInFlight
    quietWrite 2 ⟨0, 2⟩ 20 ⟨rfl, by decide, rfl, 1, rfl⟩ ⟨trivial, trivial, ?_, ?_, trivial⟩⟩
  · intro _ _
    refine ⟨⟨⟨rfl, rfl, rfl⟩, rfl, rfl⟩, fun dir hdir => ?_⟩
    cases hdir
    exact ⟨1, rfl, rfl⟩
  · intro c X _ hX _ y hy
    cases hX
    cases hy

/-- The index is loaded again while the insert is in flight: once from the copy on disk, which
the drain then has nothing for, and once by a rebuild. -/
theorem a_reload_loses_a_row_in_flight :
    InsertDone quietWrite 2 ⟨0, 2⟩ 20 (run step (created ⟨1, 100⟩ oneRow) [.begin]) ∧
    (∀ reload ∈ [[.evict, .load quietGet quietGet, .drain quietDrain],
        [.walBudget false, .load quietGet quietGet]],
      ¬ Resident ⟨0, 2⟩ 20 ((run step
        ((run step (created ⟨1, 100⟩ oneRow) [.begin]).step
          (.insert quietWrite 2 ⟨0, 2⟩ 20)) reload).step (.commit 2))) := by
  refine ⟨⟨rfl, by decide, rfl, 1, rfl⟩, fun reload hmem h => ?_⟩
  simp only [List.mem_cons, List.not_mem_nil, or_false] at hmem
  rcases hmem with rfl | rfl
  · obtain ⟨e, htid, -⟩ := h _ rfl
    rcases e with _ | _ | e
    · cases htid
    · cases htid
    · cases htid
  · obtain ⟨e, htid, -⟩ := h _ rfl
    rcases e with _ | e
    · cases htid
    · cases htid

end svs_vamana.in_flight_insert
