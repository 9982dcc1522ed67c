-- The law of the replay position: what `confirmed_flush` promises about the saved copy. A drain
-- confirms the end of the WAL without a save.
import SvsVamana.ServerOk

namespace svs_vamana.replay_position

open index_cache saved_index replay delivery tid_fate database write_slot server transition_runs
open Server IndexCache Option

variable {V : Type}

/-! ## The pure model -/

/-- The files of the saved copy hold every live row committed at or before the position.
Where there is no directory, a load rebuilds from the heap. -/
def SavedUpTo (s : Server V) (n : Nat) : Prop :=
  ∀ dir, s.disk.dir = some dir → ∀ x ∈ s.db.heap, s.db.live x = true →
    s.db.committedBy n x.xmin = true → dir.Holds x.tid x.vec

def Durable (s : Server V) : Prop := ∀ X, s.confirmedFlush = some X → SavedUpTo s X

/-- The drain gets the slot, comes to its end, and one of the changes delivered to it does
something to the entry. -/
def Confirms (k : DrainFaults) (s : Server V) : Prop :=
  ∃ c X, s.cache = some c ∧ s.confirmedFlush = some X ∧ c.replicationSlot = true ∧
    Runs (k.calls s.db) s.db.wal c ∧ k.raiseAt = none ∧
    ∃ x ∈ delivered s.db.rel X s.db.wal, applyChange (k.calls s.db).apply x c ≠ none

/-- Where the slot stands after a checkpoint of the entry. -/
def positionAfter (slotBusy : Bool) (c : IndexCache V) (s : Server V) : Option Nat :=
  if c.replicationSlot && !slotBusy && s.slot.isSome then some s.db.wal.length
  else s.confirmedFlush

/-- A drain that confirms needs all committed rows to be on disk already, and a checkpoint needs the
entry to hold the rows up to where the slot will stand. -/
def Covered (s : Server V) : Event V → Prop
  | .drain k => Confirms k s → SavedUpTo s s.db.wal.length
  | .checkpoint saveFails slotBusy =>
    saveFails = false → ∀ c X, s.cache = some c → c.svsIndex.isSome →
      positionAfter slotBusy c s = some X → ∀ x ∈ s.db.heap, s.db.live x = true →
        s.db.committedBy X x.xmin = true → c.Holds x.tid x.vec
  | _ => True

/-! ## The steps that keep it -/

variable {db : Database V}

theorem committedBy_mono {m n : Nat} (h : m ≤ n) {xid : Nat}
    (hc : db.committedBy m xid = true) : db.committedBy n xid = true := by
  simp only [Database.committedBy, decide_eq_true_eq] at hc ⊢
  exact (List.take_subset_take_left db.wal h) hc

variable {s : Server V}

theorem SavedUpTo.mono {m n : Nat} (h : m ≤ n) (hs : SavedUpTo s n) : SavedUpTo s m :=
  fun dir hdir x hx hl hc => hs dir hdir x hx hl (committedBy_mono h hc)

variable {s' : Server V}

theorem Durable.frame (h : Durable s) (hdb : s'.db = s.db)
    (hdir : s'.disk.dir = s.disk.dir ∨ s'.disk.dir = none)
    (hsl : ∀ X, s'.confirmedFlush = some X → s.confirmedFlush = some X) : Durable s' := by
  intro X hX dir hd x hx hl hc
  rcases hdir with hs | hn
  · rw [hdb] at hx hl hc
    exact h X (hsl X hX) dir (hs ▸ hd) x hx hl hc
  · rw [hn] at hd
    cases hd

theorem Durable.db_step (hok : s.Ok) (h : Durable s) (op : Op V) :
    Durable { s with db := s.db.step op } := by
  intro X hX dir hd x hx hl hc
  obtain ⟨y, hy, hrow, hyl, hyc⟩ :=
    Database.committed_row_step hok.db (hok.flushed X hX) hx hl hc
  rw [← hrow.tid, ← hrow.vec]
  exact h X hX dir hd y hy hyl hyc

theorem Durable.crash (hok : s.Ok) (h : Durable s) (flushed : Nat) : Durable (crash flushed s) := by
  intro X hX
  have hdb := h.db_step hok .crash
  unfold Server.crash Server.confirmedFlush at hX
  rcases hs : s.slot with _ | ⟨⟨_ | Y⟩⟩
  · simp [hs] at hX
  · simp [hs] at hX
  · simp only [hs, map_some, bind_some, some.injEq] at hX
    exact (hdb Y (by simp [confirmedFlush, hs])).mono (hX ▸ Nat.min_le_right flushed Y)

theorem mem_visibleRows {x : HeapTuple V} (hx : x ∈ db.heap)
    (hl : db.live x = true) : (x.tid, x.vec) ∈ visibleRows db := by
  unfold visibleRows
  exact List.mem_map.mpr ⟨x, List.mem_filter.mpr ⟨hx, hl⟩, rfl⟩

variable {c : IndexCache V}

theorem saved_holds_iff (hc : c.Sound) (hg : c.svsIndex.isSome) (d : Disk V)
    {dir : SaveDir V} (hdir : (vamanaSaveIndexToDisk c d).dir = some dir) (t : Tid) (v : V) :
    dir.Holds t v ↔ c.Holds t v := by
  obtain ⟨dir', hdir', -, hp, htid⟩ := save_files hc hg d
  obtain rfl := some.inj (hdir.symm.trans hdir')
  unfold SaveDir.Holds Holds HoldsAt
  simp only [hp, htid]

theorem Durable.load {k retry : GetCalls} {res : Option Bool} (h : Durable s)
    (hout : LoadOutcome k retry s s' res) : Durable s' := by
  have hs : ∀ {r : Option ReplicationSlot}, r = s.slot ∨ r = none → ∀ X,
      r.bind (·.confirmedFlush) = some X → s.confirmedFlush = some X := by
    rintro r (rfl | rfl) X hX
    · exact hX
    · cases hX
  cases hout with
  | nothing hd =>
    rcases hd with ⟨rfl, rfl⟩ | ⟨hd, hr⟩
    · exact h.frame rfl (.inl rfl) fun _ hX => hX
    · exact h.frame rfl (.inr hd) (hs hr)
  | copy _ _ _ => exact h.frame rfl (.inl rfl) fun _ hX => hX
  | rebuilt hro hc hd hr _ =>
    rcases hd with hn | ⟨d₀, rfl⟩
    · exact h.frame rfl (.inr hn) (hs hr)
    · -- the rebuild has every live row, whatever the slot says
      intro X _ dir hdir x hx hl _
      rw [saved_holds_iff (.rebuild hro) (rebuild_graph hro) d₀ hdir]
      exact holds_rebuild hro (mem_visibleRows hx hl)
  | empty _ hc hd hr _ => exact h.frame rfl (.inr hd) (hs hr)

theorem Durable.forceHeapRebuild (h : Durable s) (slotHeld : Bool) :
    Durable (vamanaForceHeapRebuild slotHeld s) := by
  refine h.frame rfl (.inr rfl) fun X hX => ?_
  cases slotHeld with
  | false => cases hX
  | true => exact hX

theorem confirmed_of_slot {r : Option ReplicationSlot}
    (hr : r = s.slot ∨ r = none ∨ r = some ⟨none⟩) {X : Nat}
    (hX : r.bind (·.confirmedFlush) = some X) : s.confirmedFlush = some X := by
  rcases hr with rfl | rfl | rfl
  · exact hX
  · cases hX
  · cases hX

theorem Durable.executeInsert (h : Durable s) (k : WriteCalls) (t : Tid) (v : V)
    (hc : s.cache = some c) : Durable (vamanaWorkerExecuteInsert k t v s).1 := by
  obtain ⟨c', m, r, heq, -, -, hr⟩ := executeInsert_outcome k t v hc
  rw [heq]
  exact h.frame rfl (.inl rfl) fun _ hX => confirmed_of_slot hr hX

section

variable (hok : s.Ok)
include hok

theorem Durable.insertRow (h : Durable s) (k : WriteCalls) (xid : Nat) (t : Tid)
    (v : V) (hc : s.cache.isSome) : Durable (insertRow k xid t v s) := by
  obtain ⟨c, hc⟩ := isSome_iff_exists.mp hc
  have hok' := (hok.db_step (.insert xid t v)).executeInsert k t v (c := c) hc
  have hd := (h.db_step hok (.insert xid t v)).executeInsert k t v (c := c) hc
  unfold Server.insertRow
  split
  · generalize vamanaWorkerExecuteInsert k t v
      { s with db := s.db.step (.insert xid t v) } = r at hok' hd ⊢
    obtain ⟨s', e | _⟩ := r
    · exact hd
    · exact hd.db_step hok' (.abort xid)
  · exact h

theorem Durable.loadSlot (h : Durable s) (k : LoadSlotCalls) :
    Durable (vamanaWorkerProcessLoadSlot k s) := by
  rcases loadSlot_outcome hok k with ⟨-, heq⟩ | ⟨g, m, b, r, -, -, hr, heq⟩
  · rw [heq]
    exact h
  · rw [heq]
    exact h.frame rfl (.inl rfl) fun _ hX => confirmed_of_slot hr hX

/-! ## The two steps that move the position -/

/-- A drain moves the position to the end of the WAL when it confirms, and otherwise leaves
it, or gives the slot or the directory up. -/
theorem drain_moves (k : DrainFaults) :
    (Confirms k s → (vamanaReplicationDrainSlot k s).1.db = s.db ∧
      (vamanaReplicationDrainSlot k s).1.disk = s.disk ∧
      (vamanaReplicationDrainSlot k s).1.confirmedFlush = some s.db.wal.length) ∧
    (¬ Confirms k s → Durable s → Durable (vamanaReplicationDrainSlot k s).1) := by
  constructor
  · rintro ⟨c, X, hc, hX, ho, hr, hra, x, hx, happ⟩
    have hco : (replayed (k.calls s.db).apply s.db.rel s.db.wal X c).2 > 0 := by
      refine Nat.pos_of_ne_zero fun h0 => ?_
      exact happ ((replayAll_count_eq_iff _ _ c 0).mp h0 x hx)
    unfold vamanaReplicationDrainSlot
    simp only [hc, hX, ho, Bool.not_true, Bool.false_eq_true, if_false,
      replay_finished X hr hra hok.db.wal, finished, if_pos hco, true_and]
    rfl
  · intro hno h
    have hout := drainSlot_outcome k s
    generalize (vamanaReplicationDrainSlot k s).1 = s' at hout ⊢
    cases hout with
    | idle => exact h
    | finished hc hX ho hr hra =>
      rename_i c X
      refine h.frame rfl (.inl rfl) fun Y hY => ?_
      have hn : (replayed (k.calls s.db).apply s.db.rel s.db.wal X c).2 = 0 := by
        refine (replayAll_count_eq_iff _ _ c 0).mpr fun x hx => ?_
        by_contra happ
        exact hno ⟨c, X, hc, hX, ho, hr, hra, x, hx, happ⟩
      rw [hn] at hY
      exact hX.trans hY
    | cut hc hX hr => exact h.frame rfl (.inl rfl) fun _ hX => hX
    | dropped => exact h.forceHeapRebuild _

theorem durable_drain_iff (h : Durable s) (k : DrainFaults) :
    Durable (vamanaReplicationDrainSlot k s).1 ↔ Covered s (.drain k) := by
  obtain ⟨hm, hs⟩ := drain_moves hok k
  by_cases hco : Confirms k s
  · obtain ⟨hdb, hdi, hpos⟩ := hm hco
    unfold Durable Covered SavedUpTo
    rw [hpos, hdb, hdi]
    constructor
    · intro hd _
      exact hd _ rfl
    · rintro hd X hX
      obtain rfl := some.inj hX
      exact hd hco
  · exact ⟨fun _ hc => absurd hc hco, fun _ => hs hco h⟩

theorem durable_checkpoint_iff (h : Durable s) (saveFails slotBusy : Bool) :
    Durable (performCheckpoint saveFails slotBusy s) ↔
      Covered s (.checkpoint saveFails slotBusy) := by
  have hout := checkpoint_outcome saveFails slotBusy s
  generalize performCheckpoint saveFails slotBusy s = s' at hout ⊢
  unfold Covered
  cases hout with
  | idle hn =>
    refine ⟨fun _ _ c X hc hg => ?_, fun _ => h⟩
    rw [hn c hc] at hg
    cases hg
  | failed hfa =>
    refine ⟨fun _ hf => ?_, fun _ => h.frame rfl (.inr rfl) fun _ hX => hX⟩
    rw [hf] at hfa
    cases hfa
  | saved hc hg hs hc' =>
    rename_i c c'
    -- the files hold what the entry holds, wherever the slot stands
    obtain ⟨dir, hdir, -, hp, htid⟩ := checkpoint_files hok hc hg
    have hh : ∀ t v, dir.Holds t v ↔ c.Holds t v := by
      intro t v
      unfold SaveDir.Holds Holds HoldsAt
      simp only [hp, htid]
    have hpos : ∀ X, confirmedFlush (⟨s.db,
        vamanaSaveIndexToDisk { c with numDeleted := 0 } s.disk,
        if c.replicationSlot && !slotBusy && s.slot.isSome then some ⟨some s.db.wal.length⟩
        else s.slot, some c'⟩ : Server V) = some X ↔ positionAfter slotBusy c s = some X := by
      intro X
      unfold positionAfter confirmedFlush
      dsimp only
      split <;> rfl
    constructor
    · intro hd _ c₁ X hc₁ _ hX x hx hl hcom
      obtain rfl := some.inj (hc.symm.trans hc₁)
      exact (hh x.tid x.vec).mp (hd X ((hpos X).mpr hX) dir hdir x hx hl hcom)
    · intro hall X hX dir' hdir' x hx hl hcom
      obtain rfl := some.inj (hdir.symm.trans hdir')
      exact (hh x.tid x.vec).mpr (hall hs c X hc hg ((hpos X).mp hX) x hx hl hcom)

theorem durable_step_iff (h : Durable s) (e : Event V) : Durable (s.step e) ↔ Covered s e := by
  have hk : Durable (s.step e) → Covered s e = True → (Durable (s.step e) ↔ Covered s e) :=
    fun hd ht => ⟨fun _ => ht ▸ trivial, fun _ => hd⟩
  cases e with
  | begin => exact hk (h.db_step hok .begin) rfl
  | insert k xid t v =>
    refine hk ?_ rfl
    simp only [step]
    split
    · rename_i hc
      exact h.insertRow hok k xid t v hc
    · exact h
  | delete xid t => exact hk (h.db_step hok (.delete xid t)) rfl
  | commit xid => exact hk (h.db_step hok (.commit xid)) rfl
  | abort xid => exact hk (h.db_step hok (.abort xid)) rfl
  | prune t => exact hk (h.db_step hok (.prune t)) rfl
  | deleteIds k ids =>
    refine hk ?_ rfl
    simp only [step]
    split
    · rename_i hc
      obtain ⟨c, hc⟩ := isSome_iff_exists.mp hc
      rcases executeDelete_outcome k ids hc with ⟨heq, -⟩ | ⟨c', m, heq, -⟩
      · rw [heq]
        exact h
      · rw [heq]
        exact h.frame rfl (.inl rfl) fun _ hX => hX
    · exact h
  | load k retry =>
    refine hk ?_ rfl
    change Durable (vamanaWorkerGetOrLoadIndex k retry s).1
    rcases hc : s.cache with _ | c
    · exact h.load (getOrLoadIndex_outcome k retry hc hok.flagged)
    · rw [getOrLoadIndex_cached k retry (by rw [hc]; rfl)]
      exact h
  | loadSlot k => exact hk (h.loadSlot hok k) rfl
  | drain k => exact durable_drain_iff hok h k
  | checkpoint saveFails slotBusy => exact durable_checkpoint_iff hok h saveFails slotBusy
  | evict => exact hk (h.frame rfl (.inl rfl) fun _ hX => hX) rfl
  | walBudget slotHeld =>
    exact hk (h.forceHeapRebuild slotHeld) rfl
  | crash flushed => exact hk (h.crash hok flushed) rfl

end

theorem durable_created (rel : Relation) (history : List (Op V)) :
    Durable (created rel history) := by
  unfold created
  dsimp only
  generalize run Database.step (Database.start rel) history = db
  rcases hr : vamanaRebuildFromTable (visibleRows db) with _ | c
  · intro X hX
    cases hX
  · intro X _ dir hdir x hx hl _
    rw [saved_holds_iff (.rebuild hr) (rebuild_graph hr) _ hdir]
    exact holds_rebuild hr (mem_visibleRows hx hl)

/-! ## The laws -/

def quietDrain : DrainFaults :=
  ⟨true, none, false, fun _ _ => false, fun _ _ => true, false⟩

def quietGet : GetCalls := ⟨false, ⟨1000000, true, false⟩, false, false, false, .none, false⟩

def quietWrite : WriteCalls :=
  ⟨⟨quietGet, quietGet, quietDrain⟩, ⟨quietGet, quietGet, quietDrain⟩, ⟨true, true, .written⟩,
    true, false, false⟩

def oneRow : List (Op Nat) := [.begin, .insert 1 ⟨0, 1⟩ 10, .commit 1]

/-- A second row is inserted and committed, the server crashes, and the copy that is loaded
again is drained. -/
def insertCrashDrain : List (Event Nat) :=
  [.begin, .insert quietWrite 2 ⟨0, 2⟩ 20, .commit 2, .crash 100, .load quietGet quietGet,
    .drain quietDrain]

end svs_vamana.replay_position
