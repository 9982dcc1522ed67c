-- PostgreSQL as the extension sees it: one heap, the transactions in progress and the WAL they
-- write.
import SvsVamana.Delivery
import SvsVamana.Lib.Runs

namespace svs_vamana.database

open index_cache replay delivery transition_runs
open List

variable {V : Type}

/-! ## The pure model -/

/-- A tuple version with its inserting and its deleting transaction. -/
structure HeapTuple (V : Type) where
  tid : Tid
  vec : V
  xmin : Nat
  xmax : Option Nat

structure Database (V : Type) where
  rel : Relation
  heap : List (HeapTuple V)
  wal : List WalRecord
  active : List Nat
  nextXid : Nat

/-- What a session or VACUUM does to the heap. -/
inductive Op (V : Type)
  | begin
  | insert (xid : Nat) (t : Tid) (v : V)
  | multiInsert (xid blkno : Nat) (isinit : Bool) (rows : List (Nat × V))
  | delete (xid : Nat) (t : Tid)
  | update (xid : Nat) (t t' : Tid) (v : V)
  | commit (xid : Nat)
  | abort (xid : Nat)
  | prune (t : Tid)
  | crash

namespace Database

def committed (db : Database V) (xid : Nat) : Bool := decide (⟨xid, .commit⟩ ∈ db.wal)

def committedBy (db : Database V) (n : Nat) (xid : Nat) : Bool :=
  decide (⟨xid, .commit⟩ ∈ db.wal.take n)

def aborted (db : Database V) (xid : Nat) : Bool :=
  !db.committed xid && !decide (xid ∈ db.active)

def tupleAt (db : Database V) (t : Tid) : Option (HeapTuple V) :=
  db.heap.find? fun x => x.tid = t

/-- A fetch with `SnapshotAny`; every row here has a vector. -/
def fetch (db : Database V) (t : Tid) : Option (Option V) :=
  (db.tupleAt t).map fun x => some x.vec

def live (db : Database V) (x : HeapTuple V) : Bool :=
  db.committed x.xmin && !(x.xmax.any db.committed)

/-- A tuple no transaction can come to see: its insert was rolled back, or its delete
committed. -/
def dead (db : Database V) (x : HeapTuple V) : Bool :=
  db.aborted x.xmin || x.xmax.any db.committed

/-- The transaction may delete the tuple: it sees it, and no one else is deleting it. -/
def deletable (db : Database V) (xid : Nat) (x : HeapTuple V) : Bool :=
  (db.committed x.xmin || decide (x.xmin = xid)) &&
    (match x.xmax with
    | none => true
    | some y => db.aborted y)

/-- The heap with the deleting transaction of a tuple set. -/
def markDeleted (heap : List (HeapTuple V)) (t : Tid) (xid : Nat) : List (HeapTuple V) :=
  heap.map fun x => if x.tid = t then { x with xmax := some xid } else x

def rowTids (blkno : Nat) (rows : List (Nat × V)) : List Tid := rows.map fun r => ⟨blkno, r.1⟩

/-- What `heap_multi_insert` can write: rows that fit a page, at free places of it, numbered
from 1 when the page is new. -/
def canMultiInsert (db : Database V) (blkno : Nat) (isinit : Bool) (rows : List (Nat × V)) :
    Bool :=
  decide (0 < rows.length ∧ rows.length ≤ maxHeapTuplesPerPage) &&
  rows.all (fun r => decide (1 ≤ r.1 ∧ r.1 ≤ maxHeapTuplesPerPage)) &&
  decide (rows.map Prod.fst).Nodup &&
  (rowTids blkno rows).all (fun t => (db.tupleAt t).isNone) &&
  (!isinit || decide (rows.map Prod.fst = (range rows.length).map (1 + ·)))

def multiInsertBody (rel : Relation) (blkno : Nat) (isinit : Bool) (rows : List (Nat × V)) :
    WalBody :=
  .heap2MultiInsert rel true isinit blkno rows.length (if isinit then [] else rows.map Prod.fst)
    (sizeOfHeapMultiInsert + if isinit then 0 else rows.length * sizeOfOffsetNumber)

/-- One step. What PostgreSQL does not allow changes nothing: a TID in use is not given out
again, and only a transaction in progress writes. -/
def step (db : Database V) : Op V → Database V
  | .begin => { db with active := db.active ++ [db.nextXid], nextXid := db.nextXid + 1 }
  | .insert xid t v =>
    if xid ∈ db.active ∧ (db.tupleAt t).isNone then
      { db with
        heap := db.heap ++ [⟨t, v, xid, none⟩]
        wal := db.wal ++ [⟨xid, .heapInsert db.rel true t⟩] }
    else db
  | .multiInsert xid blkno isinit rows =>
    if xid ∈ db.active ∧ db.canMultiInsert blkno isinit rows then
      { db with
        heap := db.heap ++ rows.map fun r => ⟨⟨blkno, r.1⟩, r.2, xid, none⟩
        wal := db.wal ++ [⟨xid, multiInsertBody db.rel blkno isinit rows⟩] }
    else db
  | .delete xid t =>
    if xid ∈ db.active ∧ (db.tupleAt t).any (db.deletable xid) then
      { db with
        heap := markDeleted db.heap t xid
        wal := db.wal ++ [⟨xid, .heapDelete db.rel t⟩] }
    else db
  | .update xid t t' v =>
    if xid ∈ db.active ∧ (db.tupleAt t).any (db.deletable xid) ∧ (db.tupleAt t').isNone then
      { db with
        heap := markDeleted db.heap t xid ++ [⟨t', v, xid, none⟩]
        wal := db.wal ++ [⟨xid, .heapUpdate db.rel t t'⟩] }
    else db
  | .commit xid =>
    if xid ∈ db.active then
      { db with wal := db.wal ++ [⟨xid, .commit⟩], active := db.active.filter (· ≠ xid) }
    else db
  | .abort xid =>
    if xid ∈ db.active then
      { db with wal := db.wal ++ [⟨xid, .abort⟩], active := db.active.filter (· ≠ xid) }
    else db
  | .prune t => { db with heap := db.heap.filter fun x => !(decide (x.tid = t) && db.dead x) }
  | .crash => { db with active := [] }

def newRows (db : Database V) : Op V → List (HeapTuple V)
  | .insert xid t v =>
    if xid ∈ db.active ∧ (db.tupleAt t).isNone then [⟨t, v, xid, none⟩] else []
  | .multiInsert xid blkno isinit rows =>
    if xid ∈ db.active ∧ db.canMultiInsert blkno isinit rows then
      rows.map fun r => ⟨⟨blkno, r.1⟩, r.2, xid, none⟩
    else []
  | .update xid t t' v =>
    if xid ∈ db.active ∧ (db.tupleAt t).any (db.deletable xid) ∧ (db.tupleAt t').isNone then
      [⟨t', v, xid, none⟩]
    else []
  | _ => []

def start (rel : Relation) : Database V := ⟨rel, [], [], [], 1⟩

/-- The calls of a replay that reads the heap of this database and that nothing fails. -/
def applyCalls (db : Database V) : ApplyCalls V := ⟨db.fetch, fun _ _ => false, fun _ _ => true⟩

/-! ## What every step keeps -/

/-- Transaction ids are given out once: one in progress has no commit record. -/
structure Xacts (db : Database V) : Prop where
  uncommitted : ∀ xid ∈ db.active, ⟨xid, .commit⟩ ∉ db.wal
  activeBelow : ∀ xid ∈ db.active, xid < db.nextXid
  walBelow : ∀ r ∈ db.wal, r.xid < db.nextXid

/-- A TID stores one tuple, and the pre-scan takes every record of the WAL. -/
structure Ok (db : Database V) : Prop where
  nodup : (db.heap.map (·.tid)).Nodup
  wal : ∀ r ∈ db.wal, preScanTakes db.rel.relNumber r.body = true
  xacts : db.Xacts

variable {db : Database V} {t : Tid}

theorem tupleAt_isNone : (db.tupleAt t).isNone = true ↔ t ∉ db.heap.map (·.tid) := by
  simp [tupleAt, find?_eq_none]

variable {x : HeapTuple V}

theorem Ok.tupleAt (h : db.Ok) (hx : x ∈ db.heap) : db.tupleAt x.tid = some x := by
  have hs : (db.tupleAt x.tid).isSome := by
    rw [Database.tupleAt, find?_isSome]
    exact ⟨x, hx, by simp⟩
  obtain ⟨y, hy⟩ := Option.isSome_iff_exists.mp hs
  have hyt : y.tid = x.tid := by simpa using find?_some hy
  have := inj_on_of_nodup_map h.nodup (mem_of_find?_eq_some hy) hx hyt
  rw [hy, this]

theorem Ok.fetch (h : db.Ok) (hx : x ∈ db.heap) : db.fetch x.tid = some (some x.vec) := by
  simp [Database.fetch, h.tupleAt hx]

theorem map_tid_markDeleted (heap : List (HeapTuple V)) (t : Tid) (xid : Nat) :
    (markDeleted heap t xid).map (·.tid) = heap.map (·.tid) := by
  simp only [markDeleted, map_map]
  apply map_congr_left
  intro x _
  simp only [Function.comp]
  split <;> rfl

theorem nodup_snoc {l : List Tid} (h : l.Nodup) (ht : t ∉ l) : (l ++ [t]).Nodup := by
  rw [nodup_append]
  refine ⟨h, nodup_singleton t, ?_⟩
  intro a ha b hb hab
  rw [mem_singleton.mp hb] at hab
  exact ht (hab ▸ ha)

variable {rows : List (Nat × V)} {isinit : Bool} {blkno : Nat}

theorem nodup_append_rowTids
    (h : (db.heap.map (·.tid)).Nodup) (hcan : db.canMultiInsert blkno isinit rows = true) :
    (db.heap.map (·.tid) ++ rowTids blkno rows).Nodup := by
  simp only [canMultiInsert, Bool.and_eq_true, decide_eq_true_eq, all_eq_true] at hcan
  obtain ⟨⟨⟨-, hn⟩, hf⟩, -⟩ := hcan
  have ho : rowTids blkno rows = (rows.map Prod.fst).map fun o => ⟨blkno, o⟩ := by
    rw [map_map]
    rfl
  refine nodup_append.mpr ⟨h, ?_, ?_⟩
  · rw [ho]
    exact hn.map fun a b hab => (Tid.mk.inj hab).2
  · rintro a ha b hb rfl
    exact tupleAt_isNone.mp (hf a hb) ha

theorem multiInsertBody_taken (h : db.canMultiInsert blkno isinit rows = true) (n : Nat) :
    preScanTakes n (multiInsertBody db.rel blkno isinit rows) = true := by
  simp only [canMultiInsert, Bool.and_eq_true, decide_eq_true_eq, all_eq_true] at h
  obtain ⟨⟨⟨⟨⟨hpos, hmax⟩, hoff⟩, -⟩, -⟩, -⟩ := h
  have hc : vamanaMultiInsertCountsValid rows.length isinit
      (sizeOfHeapMultiInsert + if isinit then 0 else rows.length * sizeOfOffsetNumber) = true := by
    unfold vamanaMultiInsertCountsValid
    rw [if_neg (by omega)]
    cases isinit <;> simp
  have hra : (!isinit && ((if isinit then [] else rows.map Prod.fst).take rows.length).any
      (fun o => decide (o < 1) || decide (o > maxHeapTuplesPerPage))) = false := by
    cases isinit with
    | true => rfl
    | false =>
      simp only [Bool.not_false, Bool.true_and, Bool.false_eq_true, if_false]
      rw [any_eq_false]
      intro o ho
      obtain ⟨r, hr, rfl⟩ := mem_map.mp (mem_of_mem_take ho)
      have := hoff r hr
      simp only [Bool.or_eq_true, decide_eq_true_eq]
      omega
  simp only [multiInsertBody, preScanTakes, hc, hra, Bool.not_false, Bool.and_self, Bool.or_true]

theorem ok_start (rel : Relation) : (start rel : Database V).Ok :=
  ⟨by simp [start], by simp [start], by simp [start], by simp [start], by simp [start]⟩

variable {xid : Nat}

theorem Xacts.append (h : db.Xacts) (hx : xid ∈ db.active) {b : WalBody} (hb : b ≠ .commit)
    (heap : List (HeapTuple V)) :
    ({ db with heap := heap, wal := db.wal ++ [⟨xid, b⟩] } : Database V).Xacts := by
  refine ⟨fun y hy hmem => ?_, h.activeBelow, fun r hr => ?_⟩
  · rcases mem_append.mp hmem with hmem | hmem
    · exact h.uncommitted y hy hmem
    · exact hb (WalRecord.mk.inj (mem_singleton.mp hmem)).2.symm
  · rcases mem_append.mp hr with hr | hr
    · exact h.walBelow r hr
    · rw [mem_singleton.mp hr]
      exact h.activeBelow xid hx

theorem Xacts.close (h : db.Xacts) (hx : xid ∈ db.active) (b : WalBody) :
    ({ db with wal := db.wal ++ [⟨xid, b⟩], active := db.active.filter (· ≠ xid) } :
      Database V).Xacts := by
  refine ⟨fun y hy hmem => ?_, fun y hy => h.activeBelow y (mem_of_mem_filter hy), fun r hr => ?_⟩
  · obtain ⟨hy, hne⟩ := mem_filter.mp hy
    rcases mem_append.mp hmem with hmem | hmem
    · exact h.uncommitted y hy hmem
    · have := (WalRecord.mk.inj (mem_singleton.mp hmem)).1
      simp [this] at hne
  · rcases mem_append.mp hr with hr | hr
    · exact h.walBelow r hr
    · rw [mem_singleton.mp hr]
      exact h.activeBelow xid hx

theorem xacts_step (h : db.Xacts) (op : Op V) : (db.step op).Xacts := by
  cases op with
  | begin =>
    refine ⟨fun y hy hmem => ?_, fun y hy => ?_, fun r hr => Nat.lt_succ_of_lt (h.walBelow r hr)⟩
    · rcases mem_append.mp hy with hy | hy
      · exact h.uncommitted y hy hmem
      · have := h.walBelow _ hmem
        rw [mem_singleton.mp hy] at this
        exact Nat.lt_irrefl _ this
    · rcases mem_append.mp hy with hy | hy
      · exact Nat.lt_succ_of_lt (h.activeBelow y hy)
      · rw [mem_singleton.mp hy]
        exact Nat.lt_succ_self _
  | insert xid t v | delete xid t | update xid t t' v =>
    simp only [step]
    split
    · rename_i hg
      exact h.append hg.1 (by simp) _
    · exact h
  | multiInsert xid blkno isinit rows =>
    simp only [step]
    split
    · rename_i hg
      exact h.append hg.1 (by simp [multiInsertBody]) _
    · exact h
  | commit xid =>
    simp only [step]
    split
    · rename_i hx
      exact h.close hx .commit
    · exact h
  | abort xid =>
    simp only [step]
    split
    · rename_i hx
      exact h.close hx .abort
    · exact h
  | prune t => exact ⟨h.uncommitted, h.activeBelow, h.walBelow⟩
  | crash => exact ⟨by simp [step], by simp [step], h.walBelow⟩

theorem ok_step (h : db.Ok) (op : Op V) : (db.step op).Ok := by
  have hx := xacts_step h.xacts op
  have hs : ∀ (b : WalBody) (xid : Nat), preScanTakes db.rel.relNumber b = true →
      ∀ r ∈ db.wal ++ [⟨xid, b⟩], preScanTakes db.rel.relNumber r.body = true := by
    intro b xid hb r hr
    rcases mem_append.mp hr with hr | hr
    · exact h.wal r hr
    · rw [mem_singleton.mp hr]
      exact hb
  cases op with
  | begin => exact ⟨h.nodup, h.wal, hx⟩
  | insert xid t v =>
    simp only [step] at hx ⊢
    split
    · rename_i hg
      rw [if_pos hg] at hx
      refine ⟨?_, hs _ _ rfl, hx⟩
      rw [map_append]
      exact nodup_snoc h.nodup (tupleAt_isNone.mp hg.2)
    · exact h
  | multiInsert xid blkno isinit rows =>
    simp only [step] at hx ⊢
    split
    · rename_i hg
      rw [if_pos hg] at hx
      refine ⟨?_, hs _ _ (multiInsertBody_taken hg.2 _), hx⟩
      rw [map_append, map_map]
      exact nodup_append_rowTids h.nodup hg.2
    · exact h
  | delete xid t =>
    simp only [step] at hx ⊢
    split
    · rename_i hg
      rw [if_pos hg] at hx
      refine ⟨?_, hs _ _ rfl, hx⟩
      rw [map_tid_markDeleted]
      exact h.nodup
    · exact h
  | update xid t t' v =>
    simp only [step] at hx ⊢
    split
    · rename_i hg
      rw [if_pos hg] at hx
      refine ⟨?_, hs _ _ rfl, hx⟩
      rw [map_append, map_tid_markDeleted]
      exact nodup_snoc h.nodup (tupleAt_isNone.mp hg.2.2)
    · exact h
  | commit xid | abort xid =>
    simp only [step] at hx ⊢
    split
    · rename_i hg
      rw [if_pos hg] at hx
      exact ⟨h.nodup, hs _ _ rfl, hx⟩
    · exact h
  | prune t =>
    refine ⟨?_, h.wal, hx⟩
    exact h.nodup.sublist (filter_sublist.map _)
  | crash => exact ⟨h.nodup, h.wal, hx⟩

theorem wal_step (db : Database V) (op : Op V) : ∃ l, (db.step op).wal = db.wal ++ l := by
  have hs : ∃ l, db.wal = db.wal ++ l := ⟨[], by simp⟩
  cases op with
  | begin => exact hs
  | prune t => exact hs
  | crash => exact hs
  | insert xid t v | multiInsert xid blkno isinit rows | delete xid t | update xid t t' v
  | commit xid | abort xid =>
    simp only [step]
    split
    · exact ⟨_, rfl⟩
    · exact hs

theorem length_wal_le_step (db : Database V) (op : Op V) :
    db.wal.length ≤ (db.step op).wal.length := by
  obtain ⟨l, hl⟩ := wal_step db op
  rw [hl, length_append]
  omega

/-- `x` is the tuple `y` of before, with at most a new deleting transaction in the place of one
that did not commit. -/
structure SameRow (db : Database V) (y x : HeapTuple V) : Prop where
  tid : y.tid = x.tid
  vec : y.vec = x.vec
  xmin : y.xmin = x.xmin
  xmax : y.xmax = x.xmax ∨ y.xmax.any db.committed = false

theorem SameRow.refl (db : Database V) (x : HeapTuple V) : SameRow db x x :=
  ⟨rfl, rfl, rfl, .inl rfl⟩

theorem not_committed_xmax {y : HeapTuple V} (h : db.deletable xid y = true) :
    y.xmax.any db.committed = false := by
  unfold deletable at h
  rcases hx : y.xmax with _ | z
  · rfl
  · simp only [hx, aborted, Bool.and_eq_true, Bool.not_eq_true'] at h
    simpa using h.2.1

theorem mem_markDeleted (hok : db.Ok)
    (hdel : (db.tupleAt t).any (db.deletable xid) = true) (h : x ∈ markDeleted db.heap t xid) :
    ∃ y ∈ db.heap, SameRow db y x := by
  obtain ⟨y, hy, rfl⟩ := mem_map.mp h
  refine ⟨y, hy, ?_⟩
  split
  · rename_i ht
    have hat : db.tupleAt t = some y := ht ▸ hok.tupleAt hy
    rw [hat, Option.any_some] at hdel
    exact ⟨rfl, rfl, rfl, .inr (not_committed_xmax hdel)⟩
  · exact .refl db y

variable {op : Op V}

theorem mem_heap_step (hok : db.Ok) (h : x ∈ (db.step op).heap) :
    (∃ y ∈ db.heap, SameRow db y x) ∨ x ∈ db.newRows op := by
  have hold : x ∈ db.heap → ∃ y ∈ db.heap, SameRow db y x := fun hx => ⟨x, hx, .refl db x⟩
  cases op with
  | begin => exact .inl (hold h)
  | insert xid t v | multiInsert xid blkno isinit rows =>
    simp only [step, newRows] at h ⊢
    split at h
    · rename_i hg
      rw [if_pos hg]
      exact (mem_append.mp h).imp hold id
    · exact .inl (hold h)
  | delete xid t =>
    simp only [step] at h
    split at h
    · rename_i hg
      exact .inl (mem_markDeleted hok hg.2 h)
    · exact .inl (hold h)
  | update xid t t' v =>
    simp only [step, newRows] at h ⊢
    split at h
    · rename_i hg
      rw [if_pos hg]
      exact (mem_append.mp h).imp (mem_markDeleted hok hg.2.1) id
    · exact .inl (hold h)
  | commit xid | abort xid =>
    simp only [step] at h
    split at h <;> exact .inl (hold h)
  | prune t => exact .inl (hold (mem_of_mem_filter h))
  | crash => exact .inl (hold h)

theorem xmin_newRows (h : x ∈ db.newRows op) : x.xmin ∈ db.active := by
  cases op with
  | insert xid t v | update xid t t' v =>
    simp only [newRows] at h
    split at h
    · rename_i hg
      rw [mem_singleton.mp h]
      exact hg.1
    · cases h
  | multiInsert xid blkno isinit rows =>
    simp only [newRows] at h
    split at h
    · rename_i hg
      obtain ⟨r, -, rfl⟩ := mem_map.mp h
      exact hg.1
    · cases h
  | begin | delete xid t | commit xid | abort xid | prune t | crash => cases h

/-- A row committed within the first `n` records was there before the step, and was live if it
is. -/
theorem committed_row_step (hok : db.Ok) {n : Nat} (hn : n ≤ db.wal.length)
    (hx : x ∈ (db.step op).heap) (hli : (db.step op).live x = true)
    (hc : (db.step op).committedBy n x.xmin = true) :
    ∃ y ∈ db.heap, SameRow db y x ∧ db.live y = true ∧ db.committedBy n y.xmin = true := by
  obtain ⟨l, hl⟩ := wal_step db op
  have hf : (db.step op).committedBy n x.xmin = db.committedBy n x.xmin := by
    simp only [committedBy, hl, take_append_of_le_length hn]
  rw [hf] at hc
  have hmem : (⟨x.xmin, .commit⟩ : WalRecord) ∈ db.wal :=
    mem_of_mem_take (by simpa [committedBy] using hc)
  rcases mem_heap_step hok hx with ⟨y, hy, hrow⟩ | hnew
  · refine ⟨y, hy, hrow, ?_, hrow.xmin ▸ hc⟩
    have hany : y.xmax.any db.committed = false := by
      rcases hrow.xmax with hs | hany
      · rw [hs]
        simp only [live, Bool.and_eq_true, Bool.not_eq_true'] at hli
        rcases hm : x.xmax with _ | z
        · rfl
        · have hz := hli.2
          simp only [hm, Option.any_some, committed, hl, decide_eq_false_iff_not,
            mem_append, not_or] at hz ⊢
          exact hz.1
      · exact hany
    simp only [live, committed, hrow.xmin, hmem, decide_true, hany, Bool.not_false, Bool.and_self]
  · exact absurd hmem (hok.xacts.uncommitted _ (xmin_newRows hnew))

theorem ok_run (h : db.Ok) (ops : List (Op V)) : (run step db ops).Ok :=
  run_keeps Ok (fun _ op h => ok_step h op) h ops

end Database

end svs_vamana.database
