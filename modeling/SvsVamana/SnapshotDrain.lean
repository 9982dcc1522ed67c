-- The law of a drain under open snapshots: VACUUM waits until no snapshot can see a deleted row, a
-- drain removes its point at once.
import SvsVamana.ReplayPosition

namespace svs_vamana.snapshot_drain

open index_cache saved_index replay delivery tid_fate database write_slot server transition_runs
open replay_position Server IndexCache

variable {V : Type}

/-! ## The pure model -/

/-- A snapshot taken at a position of the WAL sees what had committed by then. -/
def visibleTo (db : Database V) (snapshot : Nat) (x : HeapTuple V) : Bool :=
  db.committedBy snapshot x.xmin && !(x.xmax.any (db.committedBy snapshot))

/-- Rows the snapshot sees and that are in the graph before the drain are in the graph after
it. A drain that gave the entry up leaves no graph to ask about. -/
def RowsStay (snapshot : Nat) (k : DrainFaults) (s : Server V) : Prop :=
  ∀ c, s.cache = some c → ∀ x ∈ s.db.heap, visibleTo s.db snapshot x = true →
    c.Holds x.tid x.vec →
      ∀ c', (vamanaReplicationDrainSlot k s).1.cache = some c' → c'.Holds x.tid x.vec

/-- The changes decoded spare the row: no DELETE of its TID is among them (one that finds
another point of the TID does not count), or an INSERT of its TID comes after it. -/
def Spared (k : DrainFaults) (s : Server V) (X : Nat) (c : IndexCache V)
    (x : HeapTuple V) : Prop :=
  let decoded := delivered s.db.rel X (recordsRead s.db.wal k.raiseAt)
  (∃ e, c.HoldsAt e x.tid x.vec ∧ (c.eidOf x.tid = some e → ∀ y ∈ decoded, ¬ Removes x.tid y)) ∨
    AddedAnew (k.calls s.db).apply x.tid (c.eidOf x.tid ≠ none) decoded

/-! ## The entry after a drain -/

theorem holds_drained_iff {s : Server V} (hok : s.Ok) {k : DrainFaults}
    {c c' : IndexCache V} {X : Nat} (hc : s.cache = some c)
    (hsa : Same (replayed (k.calls s.db).apply s.db.rel
      (recordsRead s.db.wal k.raiseAt) X c).1 c')
    {x : HeapTuple V} (hx : x ∈ s.db.heap) (hh : c.Holds x.tid x.vec) :
    c'.Holds x.tid x.vec ↔ Spared k s X c x := by
  have hs := hok.cache c hc
  have hg : c.svsIndex.isSome := by
    obtain ⟨e, -, hp⟩ := hh
    exact Sound.svsIndex_of_point (Option.isSome_iff_exists.mpr ⟨_, hp⟩)
  have ha := after_replayAll (k.calls s.db).apply hs hg 0
    (delivered s.db.rel X (recordsRead s.db.wal k.raiseAt))
  have hf : (k.calls s.db).apply.fetch x.tid = some (some x.vec) := hok.db.fetch hx
  have hiff : c'.Holds x.tid x.vec ↔ (replayed (k.calls s.db).apply s.db.rel
      (recordsRead s.db.wal k.raiseAt) X c).1.Holds x.tid x.vec := by
    unfold Holds HoldsAt
    simp only [hsa.point, hsa.tidOf]
  rw [hiff, replayed, ha.holds_iff hs x.tid x.vec]
  simp only [Spared, hf, and_true]

/-! ## The laws -/

theorem rowsStay_iff {s : Server V} (hok : s.Ok) (snapshot : Nat) (k : DrainFaults) :
    RowsStay snapshot k s ↔
      ∀ c X, s.cache = some c → s.confirmedFlush = some X → Applies k s c →
        ∀ x ∈ s.db.heap, visibleTo s.db snapshot x = true → c.Holds x.tid x.vec →
          Spared k s X c x := by
  constructor
  · intro h c X hc hX happ x hx hvis hh
    obtain ⟨c', hc', hs⟩ := drain_cache hok hc hX happ
    exact (holds_drained_iff hok hc hs hx hh).mp (h c hc x hx hvis hh c' hc')
  · intro h c hc x hx hvis hh c' hc'
    obtain ⟨c₀, hc₀, -, hca⟩ := drain_cached hok hc'
    obtain rfl := Option.some.inj (hc₀.symm.trans hc)
    rcases hca with ⟨X, hX, happ, hs⟩ | ⟨rfl, -⟩
    · exact (holds_drained_iff hok hc hs hx hh).mpr (h c₀ X hc hX happ x hx hvis hh)
    · exact hh

/-- A drain keeps the rows an open snapshot sees exactly when the changes it decodes spare
each of them, in every state a run comes to. -/
theorem a_drain_keeps_the_rows_of_a_snapshot_iff (rel : Relation) (history : List (Op V))
    (es : List (Event V)) (snapshot : Nat) (k : DrainFaults) :
    let s := run step (created rel history) es
    RowsStay snapshot k s ↔
      ∀ c X, s.cache = some c → s.confirmedFlush = some X → Applies k s c →
        ∀ x ∈ s.db.heap, visibleTo s.db snapshot x = true → c.Holds x.tid x.vec →
          Spared k s X c x :=
  rowsStay_iff (ok_run (ok_created rel history) es) snapshot k

/-- The row is deleted while a snapshot of before is open, and the index is loaded again. -/
def deleteAndReload : List (Event Nat) :=
  [.begin, .delete 2 ⟨0, 1⟩, .commit 2, .evict, .load quietGet quietGet]

/-- A snapshot taken before the delete still sees the row, and the drain takes its point. -/
theorem a_drain_removes_a_row_that_a_snapshot_sees :
    ¬ RowsStay 2 quietDrain (run step (created ⟨1, 100⟩ oneRow) deleteAndReload) := by
  intro h
  have hh : (run step (created ⟨1, 100⟩ oneRow) deleteAndReload).db.heap =
      [⟨⟨0, 1⟩, 10, 1, some 2⟩] := rfl
  obtain ⟨e, htid, -⟩ := h _ rfl ⟨⟨0, 1⟩, 10, 1, some 2⟩ (by simp [hh]) rfl ⟨0, rfl, rfl⟩ _ rfl
  rcases e with _ | e
  · cases htid
  · cases htid

end svs_vamana.snapshot_drain
