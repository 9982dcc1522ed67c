-- Which row versions a replay of the WAL after a checkpoint brings into the graph. The record of an
-- UPDATE is neither pre-scanned nor applied.
import SvsVamana.TidFate
import SvsVamana.Database
import SvsVamana.SavedIndex

namespace svs_vamana.replay_rows

open index_cache saved_index replay delivery tid_fate database transition_runs
open Database

variable {V : Type}

/-! ## The pure model -/

/-- The replay of everything after the checkpoint into the saved copy, with the slot free and
no call failing. -/
def replaySaved (db : Database V) (checkpointLsn : Nat) (saved : IndexCache V) : Replayed V :=
  vamanaReplayPendingChanges ⟨db.applyCalls, true, none⟩ db.rel db.wal checkpointLsn saved

/-- The replay returns, and every live row version is a valid point of the graph with its TID
and its vector. -/
def HoldsEveryLiveRow (db : Database V) (r : Replayed V) : Prop :=
  ∃ c confirmedFlush, r = .returned c confirmedFlush ∧
    ∀ x ∈ db.heap, db.live x = true → c.Holds x.tid x.vec

/-- Either the saved copy has the version and no DELETE of its TID is decoded (one that finds
another point of the TID does not count), or an INSERT of its TID is decoded with no DELETE after
it, and with one before it when the copy already resolves the TID. -/
def Recovered (db : Database V) (checkpointLsn : Nat) (saved : IndexCache V)
    (x : HeapTuple V) : Prop :=
  (∃ e, saved.HoldsAt e x.tid x.vec ∧ (saved.eidOf x.tid = some e →
    ∀ y ∈ delivered db.rel checkpointLsn db.wal, ¬ Removes x.tid y)) ∨
  AddedAnew db.applyCalls x.tid (saved.eidOf x.tid ≠ none)
    (delivered db.rel checkpointLsn db.wal)

/-- What the worker does for the `aminsert` of one row version. -/
def addRow (c : IndexCache V) (x : HeapTuple V) : IndexCache V :=
  match c.svsIndex with
  | none => c
  | some g =>
    mapNewPoint c ⟨Function.update g.point c.nextExternalId (some x.vec)⟩ x.tid c.nextExternalId

/-- The live path: `aminsert` runs for each new row version, whatever statement made it. -/
def liveStep (s : Database V × IndexCache V) (op : Op V) : Database V × IndexCache V :=
  (s.1.step op, (s.1.newRows op).foldl addRow s.2)

/-! ## The live path -/

variable {c : IndexCache V}

theorem sound_addRow (hc : c.Sound) (x : HeapTuple V) : (addRow c x).Sound := by
  unfold addRow
  rcases hg : c.svsIndex with _ | g
  · exact hc
  · exact hc.mapNewPoint hg x.tid x.vec

theorem graph_addRow (hg : c.svsIndex.isSome) (x : HeapTuple V) : (addRow c x).svsIndex.isSome := by
  obtain ⟨g, hg⟩ := Option.isSome_iff_exists.mp hg
  simp [addRow, hg, mapNewPoint]

theorem holds_addRow (hc : c.Sound) {t : Tid} {v : V} (h : c.Holds t v) (x : HeapTuple V) :
    (addRow c x).Holds t v := by
  unfold addRow
  rcases hg : c.svsIndex with _ | g
  · exact h
  · obtain ⟨e, htid, hp⟩ := h
    have hne : e ≠ c.nextExternalId := by
      have := hc.lt_next htid
      omega
    refine ⟨e, ?_, ?_⟩
    · rw [IndexCache.tidOf_mapNewPoint, if_neg hne]
      exact htid
    · rw [IndexCache.point_mapNewPoint]
      simpa [Function.update_of_ne hne, IndexCache.point, hg] using hp

theorem holds_addRow_self (hg : c.svsIndex.isSome) (x : HeapTuple V) :
    (addRow c x).Holds x.tid x.vec := by
  obtain ⟨g, hg⟩ := Option.isSome_iff_exists.mp hg
  unfold addRow
  rw [hg]
  exact ⟨c.nextExternalId, by simp, by simp⟩

theorem foldl_addRow (hc : c.Sound) (hg : c.svsIndex.isSome) (rows : List (HeapTuple V)) :
    (rows.foldl addRow c).Sound ∧ (rows.foldl addRow c).svsIndex.isSome ∧
      (∀ t v, c.Holds t v → (rows.foldl addRow c).Holds t v) ∧
      ∀ x ∈ rows, (rows.foldl addRow c).Holds x.tid x.vec := by
  induction rows generalizing c with
  | nil => exact ⟨hc, hg, fun _ _ h => h, by simp⟩
  | cons x rows ih =>
    obtain ⟨hs, hgr, hk, hnew⟩ := ih (sound_addRow hc x) (graph_addRow hg x)
    refine ⟨hs, hgr, fun t v h => hk t v (holds_addRow hc h x), fun y hy => ?_⟩
    rcases List.mem_cons.mp hy with rfl | hy
    · exact hk _ _ (holds_addRow_self hg y)
    · exact hnew y hy

/-! ## The laws -/

/-- Every row version that is stored has a point. -/
def HoldsHeap (s : Database V × IndexCache V) : Prop := ∀ x ∈ s.1.heap, s.2.Holds x.tid x.vec

variable {db : Database V}

theorem replaySaved_eq (h : db.Ok) (X : Nat) (saved : Checkpointed V) :
    replaySaved db X saved.entry = finished db.applyCalls db.rel db.wal X saved.entry :=
  replay_finished X ⟨by simp [noNewWal, saved.unreplayed], rfl⟩ rfl h.wal

theorem holds_replayed_iff (h : db.Ok) (X : Nat) (saved : Checkpointed V) {x : HeapTuple V}
    (hx : x ∈ db.heap) :
    (replayed db.applyCalls db.rel db.wal X saved.entry).1.Holds x.tid x.vec ↔
      Recovered db X saved.entry x := by
  have ha := after_replayAll db.applyCalls saved.sound saved.graph 0 (delivered db.rel X db.wal)
  have hf : db.applyCalls.fetch x.tid = some (some x.vec) := h.fetch hx
  rw [replayed, ha.holds_iff saved.sound x.tid x.vec]
  simp only [Recovered, hf, and_true]

theorem holdsEveryLiveRow_iff (h : db.Ok) (X : Nat) (saved : Checkpointed V) :
    HoldsEveryLiveRow db (replaySaved db X saved.entry) ↔
      ∀ x ∈ db.heap, db.live x = true → Recovered db X saved.entry x := by
  rw [replaySaved_eq h X saved]
  constructor
  · rintro ⟨c, Y, heq, hall⟩ x hx hl
    have hc := (Replayed.returned.inj heq).1
    have := hall x hx hl
    rw [← hc] at this
    exact (holds_replayed_iff h X saved hx).mp this
  · intro hall
    refine ⟨_, _, rfl, fun x hx hl => ?_⟩
    exact (holds_replayed_iff h X saved hx).mpr (hall x hx hl)

/-- A replay brings in every live row version exactly when the records decoded after the
checkpoint recover each of them. -/
theorem a_replay_holds_every_live_row_iff (rel : Relation) (before after : List (Op V))
    (saved : Checkpointed V) :
    let checkpointLsn := (run step (start rel) before).wal.length
    let db := run step (start rel) (before ++ after)
    HoldsEveryLiveRow db (replaySaved db checkpointLsn saved.entry) ↔
      ∀ x ∈ db.heap, db.live x = true → Recovered db checkpointLsn saved.entry x :=
  holdsEveryLiveRow_iff (ok_run (ok_start rel) _) _ saved

def oneRow : List (Op Nat) := [.begin, .insert 1 ⟨0, 1⟩ 10, .commit 1]

/-- An update that gives the row a new version elsewhere. -/
def movedByUpdate : List (Op Nat) := [.begin, .update 2 ⟨0, 1⟩ ⟨0, 2⟩ 20, .commit 2]

def oneRowSaved : Checkpointed Nat := Checkpointed.ofRows [(⟨0, 1⟩, 10)] rfl rfl

/-- After an UPDATE the new row version is live and the replay has no point for it. -/
theorem a_replayed_update_has_no_point :
    let db := run step (start ⟨1, 100⟩) (oneRow ++ movedByUpdate)
    ¬ HoldsEveryLiveRow db (replaySaved db
      (run step (start ⟨1, 100⟩) oneRow).wal.length oneRowSaved.entry) := by
  intro db h
  have hok : db.Ok := ok_run (ok_start _) _
  have hh : db.heap = [⟨⟨0, 1⟩, 10, 1, some 2⟩, ⟨⟨0, 2⟩, 20, 2, none⟩] := rfl
  have hrec := (holdsEveryLiveRow_iff hok _ oneRowSaved).mp h ⟨⟨0, 2⟩, 20, 2, none⟩
    (by simp [hh]) rfl
  rcases hrec with ⟨e, ⟨htid, -⟩, -⟩ | ⟨ys, x, zs, heq, -⟩
  · -- the checkpoint maps its one point to the old place
    rcases e with _ | e
    · cases htid
    · cases htid
  · -- nothing is decoded after it
    have hn : delivered db.rel (run step (start ⟨1, 100⟩) oneRow).wal.length db.wal = [] := rfl
    rw [hn] at heq
    simp at heq

end svs_vamana.replay_rows
