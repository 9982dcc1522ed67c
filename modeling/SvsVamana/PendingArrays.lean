-- The pending arrays of a backend (vamana_subxid_pending_array.c) and three of their clients:
-- index-count deltas, slot drops and build retirements.
import SvsVamana.Lib.NestedTransactions
import SvsVamana.Lib.Runs

namespace svs_vamana.pending_arrays

open transition_runs nested_transactions List

/-! ## The arrays -/

/-- An element is live while its `subxid` (the tag) is not `InvalidSubTransactionId`. -/
abbrev VamanaSubxidPendingArray (α : Type) := List (Entry α)

namespace VamanaSubxidPendingArray

variable {α : Type}

/-- `GetCurrentSubTransactionId` tags the new element. -/
def append (nest : Nest) (elem : α) (array : VamanaSubxidPendingArray α) :
    VamanaSubxidPendingArray α := enqueue nest elem array

def hasLiveEntries (array : VamanaSubxidPendingArray α) : Bool := array.any fun e => e.tag != 0

def replaceMatchingSubxid (mySubid replacement : Nat) (array : VamanaSubxidPendingArray α) :
    VamanaSubxidPendingArray α := retag mySubid replacement array

def pruneAbortedSubxact (mySubid : Nat) (array : VamanaSubxidPendingArray α) :
    VamanaSubxidPendingArray α := replaceMatchingSubxid mySubid 0 array

def reparentSubxact (mySubid parentSubid : Nat) (array : VamanaSubxidPendingArray α) :
    VamanaSubxidPendingArray α := replaceMatchingSubxid mySubid parentSubid array

end VamanaSubxidPendingArray

open VamanaSubxidPendingArray

structure PendingIndexCountDelta where
  dbOid : Nat
  delta : Int
deriving DecidableEq, Repr

structure PendingSlotDrop where
  dbOid : Nat
  indexRelid : Nat
deriving DecidableEq, Repr

structure PendingBuildRetire where
  dbOid : Nat
  indexRelid : Nat
deriving DecidableEq, Repr

/-! ## Index-count deltas -/

def netDelta (dbOid : Nat) : VamanaSubxidPendingArray PendingIndexCountDelta → Int
  | [] => 0
  | e :: es => (if e.value.dbOid = dbOid ∧ e.tag ≠ 0 then e.value.delta else 0) + netDelta dbOid es

/-- An element that was folded has no database any more. -/
def markFolded (dbOid : Nat) (e : Entry PendingIndexCountDelta) : Entry PendingIndexCountDelta :=
  if e.value.dbOid = dbOid ∧ e.tag ≠ 0 then { e with value := { e.value with dbOid := 0 } } else e

/-- The outer loop of `ApplyPendingIndexCountDeltas`: which counters move, and by how much. The
first argument counts the elements left. -/
def applyFrom : Nat → VamanaSubxidPendingArray PendingIndexCountDelta → List (Nat × Int)
  | 0, _ => []
  | _, [] => []
  | left + 1, e :: es =>
    if e.value.dbOid = 0 ∨ e.tag = 0 then applyFrom left es
    else
      let net := netDelta e.value.dbOid (e :: es)
      (if net = 0 then [] else [(e.value.dbOid, net)]) ++
        applyFrom left (es.map (markFolded e.value.dbOid))

def applyPendingIndexCountDeltas (array : VamanaSubxidPendingArray PendingIndexCountDelta) :
    List (Nat × Int) := applyFrom array.length array

def moved (dbOid : Nat) : List (Nat × Int) → Int
  | [] => 0
  | c :: cs => (if c.1 = dbOid then c.2 else 0) + moved dbOid cs

/-- The sum of some deltas of a database. -/
def deltaSum (dbOid : Nat) : List PendingIndexCountDelta → Int
  | [] => 0
  | d :: ds => (if d.dbOid = dbOid then d.delta else 0) + deltaSum dbOid ds

theorem netDelta_eq (dbOid : Nat) (array : VamanaSubxidPendingArray PendingIndexCountDelta) :
    netDelta dbOid array = deltaSum dbOid (live array) := by
  unfold live
  induction array with
  | nil => rfl
  | cons e es ih =>
    unfold netDelta
    by_cases hl : e.tag = 0
    · rw [filter_cons_of_neg (by simp [hl]), if_neg (by simp [hl]), Int.zero_add, ih]
    · rw [filter_cons_of_pos (by simp [hl]), map_cons, deltaSum, ih]
      simp [hl]

variable {dbOid : Nat}

theorem netDelta_markFolded_self (hdb : dbOid ≠ 0)
    (es : VamanaSubxidPendingArray PendingIndexCountDelta) :
    netDelta dbOid (es.map (markFolded dbOid)) = 0 := by
  induction es with
  | nil => rfl
  | cons e es ih =>
    rw [map_cons, netDelta, ih]
    unfold markFolded
    split
    · simp [hdb.symm]
    · rfl

theorem netDelta_markFolded_other {dbOid' : Nat} (hdb' : dbOid' ≠ 0) (hne : dbOid' ≠ dbOid)
    (es : VamanaSubxidPendingArray PendingIndexCountDelta) :
    netDelta dbOid' (es.map (markFolded dbOid)) = netDelta dbOid' es := by
  induction es with
  | nil => rfl
  | cons e es ih =>
    rw [map_cons, netDelta, netDelta, ih]
    unfold markFolded
    split
    · rename_i hf
      simp [hf.1, hdb'.symm, hne.symm]
    · rfl

theorem moved_append (dbOid : Nat) (cs cs' : List (Nat × Int)) :
    moved dbOid (cs ++ cs') = moved dbOid cs + moved dbOid cs' := by
  induction cs with
  | nil => simp [moved]
  | cons c cs ih =>
    rw [cons_append, moved, moved, ih]
    omega

variable {es : VamanaSubxidPendingArray PendingIndexCountDelta}

theorem moved_applyFrom (hdb : dbOid ≠ 0) {left : Nat} (h : es.length ≤ left) :
    moved dbOid (applyFrom left es) = netDelta dbOid es := by
  induction left generalizing es with
  | zero =>
    obtain rfl := eq_nil_of_length_eq_zero (Nat.le_zero.mp h)
    rfl
  | succ left ih =>
    cases es with
    | nil => rfl
    | cons e es =>
      have hlen : es.length ≤ left := Nat.le_of_succ_le_succ h
      unfold applyFrom
      split
      · rename_i hsk
        have hnot : ¬ (e.value.dbOid = dbOid ∧ e.tag ≠ 0) := by
          rintro ⟨rfl, hl⟩
          exact hsk.elim hdb hl
        rw [ih hlen, netDelta, if_neg hnot, Int.zero_add]
      · rename_i hf
        rw [moved_append, ih (by simpa using hlen)]
        by_cases hs : e.value.dbOid = dbOid
        · subst hs
          rw [netDelta_markFolded_self hdb, Int.add_zero]
          split
          · rename_i hz
            exact hz.symm
          · simp [moved]
        · have hh : netDelta dbOid (e :: es) = netDelta dbOid es := by
            rw [netDelta, if_neg fun hbo => hs hbo.1, Int.zero_add]
          rw [netDelta_markFolded_other hdb (Ne.symm hs), hh]
          split
          · simp [moved]
          · simp [moved, hs]

theorem mem_applyFrom {left : Nat} {c : Nat × Int} (h : c ∈ applyFrom left es) :
    c.1 ≠ 0 ∧ ∃ e ∈ es, e.value.dbOid = c.1 ∧ e.tag ≠ 0 := by
  induction left generalizing es with
  | zero => exact absurd h not_mem_nil
  | succ left ih =>
    cases es with
    | nil => exact absurd h not_mem_nil
    | cons e es =>
      unfold applyFrom at h
      split at h
      · obtain ⟨hpos, e', he', hm⟩ := ih h
        exact ⟨hpos, e', mem_cons_of_mem e he', hm⟩
      rename_i hf
      rw [not_or] at hf
      obtain hh | hr := mem_append.mp h
      · split at hh
        · exact absurd hh not_mem_nil
        · rw [mem_singleton.mp hh]
          exact ⟨hf.1, e, mem_cons_self, rfl, hf.2⟩
      · obtain ⟨hpos, e', he', hdb, hl⟩ := ih hr
        obtain ⟨e₀, he₀, rfl⟩ := mem_map.mp he'
        refine ⟨hpos, e₀, mem_cons_of_mem e he₀, ?_⟩
        unfold markFolded at hdb hl
        split at hdb
        · exact absurd hdb.symm hpos
        · rename_i hnot
          rw [if_neg hnot] at hl
          exact ⟨hdb, hl⟩

theorem nodup_applyFrom (left : Nat) (es : VamanaSubxidPendingArray PendingIndexCountDelta) :
    ((applyFrom left es).map Prod.fst).Nodup := by
  induction left generalizing es with
  | zero => exact nodup_nil
  | succ left ih =>
    cases es with
    | nil => exact nodup_nil
    | cons e es =>
      unfold applyFrom
      split
      · exact ih es
      rename_i hf
      dsimp only
      split
      · exact ih _
      refine nodup_cons.mpr ⟨?_, ih _⟩
      intro hmem
      obtain ⟨c, hc, hcdb⟩ := mem_map.mp hmem
      obtain ⟨hpos, e', he', hdb, hl⟩ := mem_applyFrom hc
      obtain ⟨e₀, -, rfl⟩ := mem_map.mp he'
      unfold markFolded at hdb hl
      split at hdb
      · exact hpos hdb.symm
      · rename_i hnot
        rw [if_neg hnot] at hl
        exact hnot ⟨hdb.trans hcdb, hl⟩

/-! ## A transaction -/

/-- The transaction of a backend: its subtransactions, its arrays, and the builds that the
retire-on-abort client has retired. -/
structure Session where
  nest : Nest := {}
  indexCountDeltas : VamanaSubxidPendingArray PendingIndexCountDelta := []
  slotDrops : VamanaSubxidPendingArray PendingSlotDrop := []
  buildRetires : VamanaSubxidPendingArray PendingBuildRetire := []
  retired : List PendingBuildRetire := []
deriving DecidableEq, Repr

inductive Event
  | savepoint
  | release
  | rollback
  | queueIndexCountDelta (d : PendingIndexCountDelta)
  | queueDropAtCommit (d : PendingSlotDrop)
  | queueRetireOnAbort (r : PendingBuildRetire)
deriving DecidableEq, Repr

/-- A savepoint that is released or rolled back takes those inside it along, innermost first, so
one event closes the innermost subtransaction. -/
def step (s : Session) : Event → Session
  | .savepoint => { s with nest := s.nest.start }
  | .release =>
    match s.nest.inner with
    | [] => s
    | mySubid :: outer =>
      let parentSubid := outer.headD top
      { s with
        nest := s.nest.commit
        indexCountDeltas := reparentSubxact mySubid parentSubid s.indexCountDeltas
        slotDrops := reparentSubxact mySubid parentSubid s.slotDrops
        buildRetires := reparentSubxact mySubid parentSubid s.buildRetires }
  | .rollback =>
    match s.nest.inner with
    | [] => s
    | mySubid :: _ =>
      { nest := s.nest.abort
        indexCountDeltas := pruneAbortedSubxact mySubid s.indexCountDeltas
        slotDrops := pruneAbortedSubxact mySubid s.slotDrops
        buildRetires := pruneAbortedSubxact mySubid s.buildRetires
        retired := s.retired ++
          (s.buildRetires.filter fun e => e.tag = mySubid).map Entry.value }
  | .queueIndexCountDelta d => { s with indexCountDeltas := append s.nest d s.indexCountDeltas }
  | .queueDropAtCommit d => { s with slotDrops := append s.nest d s.slotDrops }
  | .queueRetireOnAbort r => { s with buildRetires := append s.nest r s.buildRetires }

/-- What a transaction has done when it is over. -/
structure Outcome where
  nest : Nest
  counters : List (Nat × Int) := []
  dropped : List PendingSlotDrop := []
  retired : List PendingBuildRetire
deriving DecidableEq, Repr

/-- `XACT_EVENT_COMMIT` in the three callbacks. -/
def commitTop (s : Session) : Outcome :=
  { nest := s.nest
    counters := applyPendingIndexCountDeltas s.indexCountDeltas
    dropped := live s.slotDrops
    retired := s.retired }

/-- `XACT_EVENT_ABORT`. -/
def abortTop (s : Session) : Outcome :=
  { nest := s.nest.abortTop, retired := s.retired ++ live s.buildRetires }

inductive End
  | commit
  | abort
  | prepare
deriving DecidableEq, Repr

/-- The end closes the subtransactions that are still open. A PREPARE is refused, and aborts, while
an array has a live element. -/
def finish (s : Session) : End → Outcome
  | .commit => commitTop (run step s (replicate s.nest.inner.length .release))
  | .abort => abortTop (run step s (replicate s.nest.inner.length .rollback))
  | .prepare =>
    let s := run step s (replicate s.nest.inner.length .release)
    if hasLiveEntries s.indexCountDeltas || hasLiveEntries s.slotDrops ||
        hasLiveEntries s.buildRetires then abortTop s
    else { nest := s.nest, retired := s.retired }

/-! ## The laws -/

theorem step_release (s : Session) :
    step s .release = { s with
      nest := s.nest.commit
      indexCountDeltas := onCommit s.nest s.indexCountDeltas
      slotDrops := onCommit s.nest s.slotDrops
      buildRetires := onCommit s.nest s.buildRetires } := by
  obtain ⟨⟨inner, next, aborted⟩, deltas, drops, retires, retired⟩ := s
  cases inner <;> rfl

theorem step_rollback (s : Session) :
    step s .rollback =
      { nest := s.nest.abort
        indexCountDeltas := onAbort s.nest s.indexCountDeltas
        slotDrops := onAbort s.nest s.slotDrops
        buildRetires := onAbort s.nest s.buildRetires
        retired := s.retired ++ answering s.nest s.buildRetires } := by
  obtain ⟨⟨inner, next, aborted⟩, deltas, drops, retires, retired⟩ := s
  cases inner with
  | nil => simp [step, onAbort, answering, Nest.abort]
  | cons i inner => rfl

/-- The tags tell the fate of the elements, and what is dead was retired. -/
structure Ok (s : Session) : Prop where
  nest : s.nest.Ok
  deltas : Fits s.nest s.indexCountDeltas
  drops : Fits s.nest s.slotDrops
  retires : Fits s.nest s.buildRetires
  retired : s.retired.Perm (dead s.buildRetires)

theorem ok_step (s : Session) (e : Event) (h : Ok s) : Ok (step s e) := by
  have hn := h.nest
  cases e with
  | savepoint =>
    exact ⟨hn.start, fits_start h.deltas, fits_start h.drops, fits_start h.retires, h.retired⟩
  | release =>
    rw [step_release]
    refine ⟨hn.commit, fits_onCommit hn h.deltas, fits_onCommit hn h.drops,
      fits_onCommit hn h.retires, ?_⟩
    rw [dead_onCommit hn]
    exact h.retired
  | rollback =>
    rw [step_rollback]
    refine ⟨hn.abort, fits_onAbort hn h.deltas, fits_onAbort hn h.drops,
      fits_onAbort hn h.retires, ?_⟩
    exact (h.retired.append_right _).trans (dead_onAbort_perm hn s.buildRetires).symm
  | queueIndexCountDelta d =>
    exact ⟨hn, fits_enqueue hn h.deltas d, h.drops, h.retires, h.retired⟩
  | queueDropAtCommit d =>
    exact ⟨hn, h.deltas, fits_enqueue hn h.drops d, h.retires, h.retired⟩
  | queueRetireOnAbort r =>
    refine ⟨hn, h.deltas, h.drops, fits_enqueue hn h.retires r, ?_⟩
    exact (dead_enqueue hn r s.buildRetires).symm ▸ h.retired

theorem ok_initial : Ok {} :=
  ⟨Nest.ok_initial, fun _ he => absurd he not_mem_nil, fun _ he => absurd he not_mem_nil,
    fun _ he => absurd he not_mem_nil, Perm.refl _⟩

/-- Closing a subtransaction changes nothing in the arrays but the tags. -/
structure SameArrays (s s' : Session) : Prop where
  deltas : SameEntries s.indexCountDeltas s'.indexCountDeltas
  drops : SameEntries s.slotDrops s'.slotDrops
  retires : SameEntries s.buildRetires s'.buildRetires

variable {s : Session}

theorem SameArrays.trans {s' s'' : Session} (h : SameArrays s s') (h' : SameArrays s' s'') :
    SameArrays s s'' :=
  ⟨h'.deltas.trans h.deltas, h'.drops.trans h.drops, h'.retires.trans h.retires⟩

theorem sameArrays_replicate {e : Event} (he : ∀ s, SameArrays s (step s e)) (n : Nat)
    (s : Session) : SameArrays s (run step s (replicate n e)) := by
  induction n generalizing s with
  | zero => exact ⟨rfl, rfl, rfl⟩
  | succ n ih => exact (he s).trans (ih (step s e))

theorem sameArrays_release (s : Session) : SameArrays s (step s .release) := by
  rw [step_release]
  exact ⟨sameEntries_onCommit _ _, sameEntries_onCommit _ _, sameEntries_onCommit _ _⟩

theorem sameArrays_rollback (s : Session) : SameArrays s (step s .rollback) := by
  rw [step_rollback]
  exact ⟨sameEntries_onAbort _ _, sameEntries_onAbort _ _, sameEntries_onAbort _ _⟩

/-- The elements whose subtransactions were all committed, and the others. -/
def survivors {α : Type} (nest : Nest) (array : VamanaSubxidPendingArray α) : List α :=
  (array.filter fun e => ¬ Doomed nest e).map Entry.value

def undone {α : Type} (nest : Nest) (array : VamanaSubxidPendingArray α) : List α :=
  (array.filter fun e => Doomed nest e).map Entry.value

/-- What an outcome makes of the arrays of a session. -/
structure Exact (s : Session) (r : Outcome) : Prop where
  dropped : r.dropped = survivors r.nest s.slotDrops
  counters : ∀ dbOid, dbOid ≠ 0 →
    moved dbOid r.counters = deltaSum dbOid (survivors r.nest s.indexCountDeltas)
  once : (r.counters.map Prod.fst).Nodup
  retired : r.retired.Perm (undone r.nest s.buildRetires)

theorem Exact.of_sameArrays {s' : Session} {r : Outcome} (h : SameArrays s s') (h' : Exact s' r) :
    Exact s r := by
  have hdr := h.drops.filter fun ids => decide ¬ ∃ i ∈ ids, i ∈ r.nest.aborted
  have hd := h.deltas.filter fun ids => decide ¬ ∃ i ∈ ids, i ∈ r.nest.aborted
  have hr := h.retires.filter fun ids => decide (∃ i ∈ ids, i ∈ r.nest.aborted)
  refine ⟨h'.dropped.trans hdr, ?_, h'.once, ?_⟩
  · intro dbOid hdb
    exact (h'.counters dbOid hdb).trans (congrArg (deltaSum dbOid) hd)
  · exact h'.retired.trans (Perm.of_eq hr)

theorem exact_commitTop (h : Ok s) : Exact s (commitTop s) := by
  have hn := h.nest
  refine ⟨live_eq hn h.drops, ?_, nodup_applyFrom _ _, ?_⟩
  · intro dbOid hdb
    have hm := moved_applyFrom hdb (Nat.le_refl s.indexCountDeltas.length)
    exact (hm.trans (netDelta_eq dbOid _)).trans (congrArg (deltaSum dbOid) (live_eq hn h.deltas))
  · exact h.retired.trans (Perm.of_eq (dead_eq hn h.retires))

theorem survivors_abortTop {α : Type} {nest : Nest} {array : VamanaSubxidPendingArray α}
    (h : Fits nest array) : survivors nest.abortTop array = [] := by
  unfold survivors
  have hn : (array.filter fun e => ¬ Doomed nest.abortTop e) = [] := by
    refine filter_eq_nil_iff.mpr fun e he hs => ?_
    exact absurd ⟨top, (h e he).1, mem_cons_self⟩ (of_decide_eq_true hs)
  rw [hn]
  rfl

theorem exact_abortTop (h : Ok s) : Exact s (abortTop s) := by
  refine ⟨(survivors_abortTop h.drops).symm, ?_, nodup_nil, ?_⟩
  · intro dbOid _
    exact (congrArg (deltaSum dbOid) (survivors_abortTop h.deltas)).symm
  · have hall : undone s.nest.abortTop s.buildRetires = s.buildRetires.map Entry.value :=
      congrArg _ (filter_doomed_abortTop h.retires)
    refine Perm.trans ?_ (Perm.of_eq hall.symm)
    exact (h.retired.append_right _).trans (perm_append_comm.trans (live_dead_perm s.buildRetires))

theorem live_of_not_hasLiveEntries {α : Type} {array : VamanaSubxidPendingArray α}
    (h : hasLiveEntries array = false) : live array = [] := by
  unfold live
  have hn : (array.filter fun e => e.tag ≠ 0) = [] := by
    refine filter_eq_nil_iff.mpr fun e he => ?_
    simpa using any_eq_false.mp h e he
  rw [hn]
  rfl

theorem exact_prepared (h : Ok s) (hd : hasLiveEntries s.indexCountDeltas = false)
    (hdr : hasLiveEntries s.slotDrops = false) :
    Exact s { nest := s.nest, retired := s.retired } := by
  have hn := h.nest
  refine ⟨?_, ?_, nodup_nil, h.retired.trans (Perm.of_eq (dead_eq hn h.retires))⟩
  · exact (live_of_not_hasLiveEntries hdr).symm.trans (live_eq hn h.drops)
  · intro dbOid _
    have hno := (live_of_not_hasLiveEntries hd).symm.trans (live_eq hn h.deltas)
    exact congrArg (deltaSum dbOid) hno

/-- A build inside a released savepoint is retired when the savepoint around it is rolled back; a
drop of the outer transaction is applied. -/
example :
    let r := finish (run step {}
      [.queueDropAtCommit ⟨5, 7⟩, .savepoint, .savepoint, .queueRetireOnAbort ⟨5, 8⟩,
        .queueIndexCountDelta ⟨5, 1⟩, .release, .rollback, .queueIndexCountDelta ⟨5, -1⟩]) .commit
    r.dropped = [⟨5, 7⟩] ∧ r.counters = [(5, -1)] ∧ r.retired = [⟨5, 8⟩] := by
  decide

end svs_vamana.pending_arrays
