-- What replay comes down to: the committed changes after `confirmed_flush`, each with its TID,
-- applied one after the other to the cache entry.
import SvsVamana.Replay
import Mathlib.Data.List.Induction
import Mathlib.Data.List.Nodup

namespace svs_vamana.delivery

open index_cache replay
open Function List Option

variable {V : Type}

/-! ## The pure model -/

/-- A decoded change with the TID it is about. -/
structure TidChange where
  lsn : Nat
  action : Action
  tid : Tid
deriving DecidableEq, Repr

/-- The changes of a record that reach the cache entry. -/
def tidChangesOf (heap : Relation) (lsn : Nat) : WalBody → List TidChange
  | .heapInsert rel containsNewTuple tid =>
    if rel = heap ∧ containsNewTuple then [⟨lsn, .insert, tid⟩] else []
  | .heapDelete rel tid => if rel = heap then [⟨lsn, .delete, tid⟩] else []
  | .heap2MultiInsert rel containsNewTuple isinit blkno ntuples offsets _ =>
    if rel = heap ∧ containsNewTuple then
      (multiInsertTids isinit blkno ntuples offsets).map fun t => ⟨lsn, .insert, t⟩
    else []
  | _ => []

/-- One change applied to the cache entry; `none` when it has no effect. -/
def applyChange (k : ApplyCalls V) (x : TidChange) (c : IndexCache V) : Option (IndexCache V) :=
  if x.action = .insert then applyInsertChange k x.lsn x.tid c else applyDeleteChange x.tid c

def replayOne (k : ApplyCalls V) (p : IndexCache V × Nat) (x : TidChange) : IndexCache V × Nat :=
  match applyChange k x p.1 with
  | none => p
  | some c => (c, p.2 + 1)

def replayAll (k : ApplyCalls V) (xs : List TidChange) (p : IndexCache V × Nat) :
    IndexCache V × Nat := xs.foldl (replayOne k) p

/-- How far the WAL was read: the transactions in flight and the changes delivered. -/
structure Delivery where
  endRecPtr : Nat
  inFlight : List (Nat × WalRecord)
  changes : List TidChange

def deliver (heap : Relation) (confirmedFlush : Nat) (d : Delivery) (r : WalRecord) : Delivery :=
  match r.body with
  | .commit =>
    { endRecPtr := d.endRecPtr + 1
      inFlight := d.inFlight.filter fun x => x.2.xid ≠ r.xid
      changes := d.changes ++
        if confirmedFlush ≤ d.endRecPtr then
          (d.inFlight.filter fun x => x.2.xid = r.xid).flatMap fun x =>
            tidChangesOf heap x.1 x.2.body
        else [] }
  | .abort =>
    { d with
      endRecPtr := d.endRecPtr + 1
      inFlight := d.inFlight.filter fun x => x.2.xid ≠ r.xid }
  | _ =>
    { d with
      endRecPtr := d.endRecPtr + 1
      inFlight := d.inFlight ++ [(d.endRecPtr, r)] }

def deliveryOf (heap : Relation) (confirmedFlush : Nat) (wal : List WalRecord) : Delivery :=
  wal.foldl (deliver heap confirmedFlush) ⟨0, [], []⟩

/-- The committed changes after `confirmed_flush`, in commit order. -/
def delivered (heap : Relation) (confirmedFlush : Nat) (wal : List WalRecord) : List TidChange :=
  (deliveryOf heap confirmedFlush wal).changes

/-! ## The cursors -/

def freshEntry (heap : Relation) : WalBody → Option LsnTidEntry
  | .heapInsert rel containsNewTuple tid =>
    if containsNewTuple ∧ rel.relNumber = heap.relNumber then some ⟨[tid], 0⟩ else none
  | .heapDelete rel tid => if rel.relNumber = heap.relNumber then some ⟨[tid], 0⟩ else none
  | .heap2MultiInsert rel containsNewTuple isinit blkno ntuples offsets _ =>
    if containsNewTuple ∧ rel.relNumber = heap.relNumber then
      some ⟨multiInsertTids isinit blkno ntuples offsets, 0⟩
    else none
  | _ => none

variable {heap : Relation} {h h' : Nat → Option LsnTidEntry}

/-- The pre-scan takes the record: only a multi-insert on the heap can be refused. -/
def preScanTakes (heapRelfilenode : Nat) : WalBody → Bool
  | .heap2MultiInsert rel containsNewTuple isinit _ ntuples offsets dataLen =>
    !containsNewTuple || rel.relNumber ≠ heapRelfilenode ||
      (vamanaMultiInsertCountsValid ntuples isinit dataLen &&
        !(!isinit && (offsets.take ntuples).any
          (fun o => decide (o < 1) || decide (o > maxHeapTuplesPerPage))))
  | _ => true

theorem preScan_eq {lsn : Nat} (hno : h lsn = none) (b : WalBody) :
    vamanaPreScanWalRecord heap.relNumber lsn h b =
      if preScanTakes heap.relNumber b then some (update h lsn (freshEntry heap b))
      else none := by
  have hsa : update h lsn none = h := by rw [← hno, update_eq_self]
  cases b with
  | heapInsert rel new tid =>
    cases new <;> by_cases hr : rel.relNumber = heap.relNumber <;>
      simp [vamanaPreScanWalRecord, preScanTakes, freshEntry, enterTids, hno, hr, hsa]
  | heapDelete rel tid =>
    by_cases hr : rel.relNumber = heap.relNumber <;>
      simp [vamanaPreScanWalRecord, preScanTakes, freshEntry, enterTids, hno, hr, hsa]
  | heap2MultiInsert rel new isinit blkno ntuples offsets dataLen =>
    cases hv : vamanaMultiInsertCountsValid ntuples isinit dataLen <;>
      cases ho : (!isinit && (offsets.take ntuples).any
        (fun o => decide (o < 1) || decide (o > maxHeapTuplesPerPage))) <;>
      simp only [vamanaPreScanWalRecord, preScanTakes, freshEntry, enterTids, hno, hv, ho] <;>
      cases new <;> by_cases hr : rel.relNumber = heap.relNumber <;> simp [hr, hsa]
  | heapUpdate rel o n | commit | abort | other =>
    simp [vamanaPreScanWalRecord, preScanTakes, freshEntry, hsa]

/-- `p'` is `p` after the changes `xs` of the record at `lsn`: other cursors did not move. -/
structure AfterRecord (k : ApplyCalls V) (lsn : Nat) (xs : List TidChange)
    (p p' : ReplayContext V) : Prop where
  applied : (p'.cache, p'.opsDecoded) = replayAll k xs (p.cache, p.opsDecoded)
  others : ∀ q, q ≠ lsn → p'.lsnToTidList q = p.lsnToTidList q

variable (k : ApplyCalls V)

theorem AfterRecord.refl (lsn : Nat) (p : ReplayContext V) :
    AfterRecord k lsn [] p p := ⟨rfl, fun _ _ => rfl⟩

theorem replayChangeGuarded_eq (x : TidChange) (p : ReplayContext V) :
    ((replayChangeGuarded k x.action x.lsn x.tid p).cache,
      (replayChangeGuarded k x.action x.lsn x.tid p).opsDecoded) =
        replayOne k (p.cache, p.opsDecoded) x ∧
    (replayChangeGuarded k x.action x.lsn x.tid p).lsnToTidList = p.lsnToTidList := by
  unfold replayChangeGuarded replayOne applyChange
  generalize (if x.action = .insert then applyInsertChange k x.lsn x.tid p.cache
    else applyDeleteChange x.tid p.cache) = r
  rcases r with _ | c <;> exact ⟨rfl, rfl⟩

/-- A change of the indexed heap takes the TID under the cursor of its record. -/
theorem pluginChange_next (heapRelid : Nat) (p : ReplayContext V)
    (x : TidChange) {entry : LsnTidEntry} (ha : x.action ≠ .update)
    (hen : p.lsnToTidList x.lsn = some entry) (hget : entry.tids[entry.nextIdx]? = some x.tid) :
    ((pluginChange k heapRelid p ⟨x.lsn, x.action, heapRelid⟩).cache,
      (pluginChange k heapRelid p ⟨x.lsn, x.action, heapRelid⟩).opsDecoded) =
        replayOne k (p.cache, p.opsDecoded) x ∧
    (pluginChange k heapRelid p ⟨x.lsn, x.action, heapRelid⟩).lsnToTidList =
      update p.lsnToTidList x.lsn (some { entry with nextIdx := entry.nextIdx + 1 }) := by
  have hact : ¬ (x.action ≠ .insert ∧ x.action ≠ .delete) := by
    cases hx : x.action <;> simp_all
  unfold pluginChange
  simp only [ne_eq, not_true, if_false, hact, hen, hget]
  exact replayChangeGuarded_eq k x _

variable {heapRelid : Nat}

theorem pluginChange_other_relation (p : ReplayContext V) {ch : Change}
    (h : ch.relid ≠ heapRelid) : pluginChange k heapRelid p ch = p := by
  simp [pluginChange, h]

theorem pluginChange_no_entry {p : ReplayContext V} {ch : Change}
    (h : p.lsnToTidList ch.lsn = none) : pluginChange k heapRelid p ch = p := by
  simp [pluginChange, h]

theorem foldl_pluginChange_skipped (p : ReplayContext V) {chs : List Change}
    (h : ∀ ch ∈ chs, pluginChange k heapRelid p ch = p) :
    chs.foldl (pluginChange k heapRelid) p = p := by
  induction chs with
  | nil => rfl
  | cons ch rest ih =>
    rw [foldl_cons, h ch (by simp)]
    exact ih fun x hx => h x (by simp [hx])

theorem plugin_tids (heapRelid lsn : Nat) {act : Action} (ha : act ≠ .update)
    (tids : List Tid) (m i : Nat) (hm : i + m = tids.length) (p : ReplayContext V)
    (hen : p.lsnToTidList lsn = some ⟨tids, i⟩) :
    AfterRecord k lsn ((tids.drop i).map fun t => ⟨lsn, act, t⟩) p
      ((replicate m ⟨lsn, act, heapRelid⟩).foldl (pluginChange k heapRelid) p) := by
  induction m generalizing i p with
  | zero =>
    rw [drop_eq_nil_of_le (by omega)]
    exact AfterRecord.refl k lsn p
  | succ m ih =>
    have hlt : i < tids.length := by omega
    have hn := pluginChange_next k heapRelid p ⟨lsn, act, tids[i]⟩ ha hen (getElem?_eq_getElem hlt)
    rw [replicate_succ, foldl_cons]
    generalize hp : pluginChange k heapRelid p ⟨lsn, act, heapRelid⟩ = p1 at hn ⊢
    obtain ⟨hval, hcur⟩ := hn
    have hr := ih (i + 1) (by omega) p1 (by rw [hcur]; simp)
    rw [drop_eq_getElem_cons hlt, map_cons]
    refine ⟨?_, fun q hq => ?_⟩
    · rw [hr.applied, hval]
      rfl
    · rw [hr.others q hq, hcur]
      simp [hq]

/-- The changes of a record on `rel`, one for each TID the pre-scan stored for it. -/
theorem plugin_changes (heap rel : Relation) (lsn : Nat) (act : Action)
    (ha : act ≠ .update) (tids : List Tid) (p : ReplayContext V)
    (hen : p.lsnToTidList lsn = if rel.relNumber = heap.relNumber then some ⟨tids, 0⟩ else none) :
    AfterRecord k lsn (if rel = heap then tids.map fun t => ⟨lsn, act, t⟩ else []) p
      ((replicate tids.length ⟨lsn, act, rel.relid⟩).foldl
        (pluginChange k heap.relid) p) := by
  by_cases hrel : rel = heap
  · subst hrel
    rw [if_pos rfl] at hen ⊢
    exact plugin_tids k rel.relid lsn ha tids tids.length 0 (Nat.zero_add _) p hen
  · rw [if_neg hrel, foldl_pluginChange_skipped k p]
    · exact AfterRecord.refl k lsn p
    intro ch hch
    obtain rfl := eq_of_mem_replicate hch
    by_cases hn : rel.relNumber = heap.relNumber
    · refine pluginChange_other_relation k p fun hid => hrel ?_
      cases rel
      cases heap
      simp_all
    · exact pluginChange_no_entry k (by rw [hen, if_neg hn])

theorem length_multiInsertTids (isinit : Bool) (blkno n : Nat) (offsets : List Nat) :
    (multiInsertTids isinit blkno n offsets).length = n := by
  simp [multiInsertTids]

theorem plugin_record (k : ApplyCalls V) (heap : Relation) (lsn : Nat) (b : WalBody)
    (p : ReplayContext V) (hen : p.lsnToTidList lsn = freshEntry heap b) :
    AfterRecord k lsn (tidChangesOf heap lsn b) p
      ((changesOf lsn b).foldl (pluginChange k heap.relid) p) := by
  cases b with
  | heapInsert rel new tid =>
    cases new with
    | false => simpa [tidChangesOf, changesOf] using AfterRecord.refl k lsn p
    | true =>
      simp only [tidChangesOf, and_true]
      exact plugin_changes k heap rel lsn _ (by simp) [tid] p (by simpa [freshEntry] using hen)
  | heapDelete rel tid => exact plugin_changes k heap rel lsn _ (by simp) [tid] p hen
  | heap2MultiInsert rel new isinit blkno ntuples offsets dataLen =>
    cases new with
    | false => simpa [tidChangesOf, changesOf] using AfterRecord.refl k lsn p
    | true =>
      have h := plugin_changes k heap rel lsn .insert (by simp)
        (multiInsertTids isinit blkno ntuples offsets) p (by simpa [freshEntry] using hen)
      rw [length_multiInsertTids] at h
      simpa [tidChangesOf, changesOf] using h
  | heapUpdate rel o n =>
    have hsa : pluginChange k heap.relid p ⟨lsn, .update, rel.relid⟩ = p := by
      simp [pluginChange]
    simp only [changesOf, foldl_cons, foldl_nil, hsa, tidChangesOf]
    exact AfterRecord.refl k lsn p
  | commit | abort | other => exact AfterRecord.refl k lsn p

theorem plugin_records (k : ApplyCalls V) (heap : Relation) (xs : List (Nat × WalRecord))
    (p : ReplayContext V) (hn : (xs.map Prod.fst).Nodup)
    (hen : ∀ x ∈ xs, p.lsnToTidList x.1 = freshEntry heap x.2.body) :
    let p' := (xs.flatMap fun x => changesOf x.1 x.2.body).foldl (pluginChange k heap.relid) p
    (p'.cache, p'.opsDecoded) =
        replayAll k (xs.flatMap fun x => tidChangesOf heap x.1 x.2.body) (p.cache, p.opsDecoded) ∧
      ∀ q, q ∉ xs.map Prod.fst → p'.lsnToTidList q = p.lsnToTidList q := by
  induction xs generalizing p with
  | nil => exact ⟨rfl, fun _ _ => rfl⟩
  | cons x rest ih =>
    simp only [map_cons, nodup_cons] at hn
    have hrec := plugin_record k heap x.1 x.2.body p (hen x (by simp))
    simp only [flatMap_cons, foldl_append]
    generalize (changesOf x.1 x.2.body).foldl (pluginChange k heap.relid) p = p1 at hrec ⊢
    have hr : ∀ y ∈ rest, p1.lsnToTidList y.1 = freshEntry heap y.2.body := by
      intro y hy
      have hne : y.1 ≠ x.1 := fun h => hn.1 (h ▸ mem_map_of_mem hy)
      rw [hrec.others y.1 hne, hen y (by simp [hy])]
    obtain ⟨hval, hoth⟩ := ih p1 hn.2 hr
    refine ⟨?_, fun q hq => ?_⟩
    · rw [hval, hrec.applied]
      simp [replayAll]
    · simp only [map_cons, mem_cons, not_or] at hq
      rw [hoth q hq.2, hrec.others q hq.1]

/-! ## The decode loop -/

/-- The cursor of each buffered record stands at its first TID, and there is none yet for the
records that are still to be read. -/
structure Cursors (heap : Relation) (n : Nat) (buffer : List (Nat × WalRecord))
    (h : Nat → Option LsnTidEntry) : Prop where
  entries : ∀ x ∈ buffer, h x.1 = freshEntry heap x.2.body
  nodup : (buffer.map Prod.fst).Nodup
  below : ∀ x ∈ buffer, x.1 < n
  ahead : ∀ q, n ≤ q → h q = none

variable {buffer : List (Nat × WalRecord)} {n : Nat}

theorem Cursors.read (hc : Cursors heap n buffer h) (e : Option LsnTidEntry) :
    Cursors heap (n + 1) buffer (update h n e) where
  entries x hx := by
    have hlt := hc.below x hx
    rw [update_of_ne (by omega), hc.entries x hx]
  nodup := hc.nodup
  below x hx := Nat.lt_succ_of_lt (hc.below x hx)
  ahead q hq := by rw [update_of_ne (by omega), hc.ahead q (by omega)]

theorem Cursors.append (hc : Cursors heap n buffer h) (r : WalRecord) :
    Cursors heap (n + 1) (buffer ++ [(n, r)]) (update h n (freshEntry heap r.body)) where
  entries x hx := by
    rcases mem_append.mp hx with hx | hx
    · exact (hc.read _).entries x hx
    · simp only [mem_singleton] at hx
      subst hx
      simp
  nodup := by
    rw [map_append, nodup_append]
    refine ⟨hc.nodup, by simp, ?_⟩
    intro q hq q' hq' heq
    obtain ⟨x, hx, rfl⟩ := mem_map.mp hq
    simp only [map_cons, map_nil, mem_singleton] at hq'
    have := hc.below x hx
    omega
  below x hx := by
    rcases mem_append.mp hx with hx | hx
    · exact Nat.lt_succ_of_lt (hc.below x hx)
    · simp only [mem_singleton] at hx
      subst hx
      exact Nat.lt_succ_self _
  ahead := (hc.read _).ahead

theorem Cursors.end_xact (hc : Cursors heap n buffer h) (xid : Nat)
    (hs : ∀ q, q ∉ (buffer.filter fun x => x.2.xid = xid).map Prod.fst → h' q = h q) :
    Cursors heap n (buffer.filter fun x => x.2.xid ≠ xid) h' where
  entries x hx := by
    simp only [mem_filter, decide_eq_true_eq] at hx
    rw [← hc.entries x hx.1]
    refine hs x.1 fun hmem => ?_
    obtain ⟨y, hy, hyx⟩ := mem_map.mp hmem
    simp only [mem_filter, decide_eq_true_eq] at hy
    have := inj_on_of_nodup_map hc.nodup hy.1 hx.1 hyx
    exact hx.2 (this ▸ hy.2)
  nodup := hc.nodup.sublist (filter_sublist.map Prod.fst)
  below x hx := hc.below x (mem_of_mem_filter hx)
  ahead q hq := by
    rw [← hc.ahead q hq]
    refine hs q fun hmem => ?_
    obtain ⟨y, hy, rfl⟩ := mem_map.mp hmem
    have := hc.below y (mem_of_mem_filter hy)
    omega

/-- The decoder has read as far as `d`, and has applied what `d` delivered. -/
structure Sim (k : ApplyCalls V) (heap : Relation) (c : IndexCache V) (D : Decoder V)
    (d : Delivery) : Prop where
  endRecPtr : D.endRecPtr = d.endRecPtr
  buffer : D.buffer = d.inFlight
  applied : (D.ctx.cache, D.ctx.opsDecoded) = replayAll k d.changes (c, 0)
  cursors : Cursors heap D.endRecPtr D.buffer D.ctx.lsnToTidList

theorem sim_start (k : ApplyCalls V) (heap : Relation) (c : IndexCache V) :
    Sim k heap c ⟨0, [], ⟨c, fun _ => none, 0⟩⟩ ⟨0, [], []⟩ :=
  ⟨rfl, rfl, rfl, by simp, by simp, by simp, by simp⟩

variable {c : IndexCache V} {d : Delivery} {k : ApplyCalls V}

theorem sim_callback {X : Nat} {D D' : Decoder V} {r : WalRecord}
    (h : Sim k heap c D d) (hs : replayRecordCallback k heap X D r = some D') :
    Sim k heap c D' (deliver heap X d r) := by
  simp only [replayRecordCallback, map_eq_some_iff] at hs
  obtain ⟨tids, hpre, rfl⟩ := hs
  rw [preScan_eq (h.cursors.ahead _ (Nat.le_refl _)), ite_none_right_eq_some] at hpre
  cases hpre.2
  have hr := h.cursors.read (freshEntry heap r.body)
  have hp := h.cursors.append r
  unfold deliver
  cases hb : r.body with
  | commit =>
    simp only [hb] at hr ⊢
    by_cases hX : X ≤ D.endRecPtr
    · have hX' : X ≤ d.endRecPtr := h.endRecPtr ▸ hX
      simp only [hX, hX', if_true]
      have hf := filter_sublist (p := fun x => decide (x.2.xid = r.xid)) (l := D.buffer)
      have hre := plugin_records k heap (D.buffer.filter fun x => x.2.xid = r.xid)
        ⟨D.ctx.cache, update D.ctx.lsnToTidList D.endRecPtr (freshEntry heap .commit),
          D.ctx.opsDecoded⟩ (hr.nodup.sublist (hf.map Prod.fst))
        (fun x hx => hr.entries x (mem_of_mem_filter hx))
      refine ⟨by rw [h.endRecPtr], by rw [h.buffer], ?_, hr.end_xact r.xid hre.2⟩
      rw [hre.1, h.applied, h.buffer]
      simp [replayAll]
    · have hX' : ¬ X ≤ d.endRecPtr := h.endRecPtr ▸ hX
      simp only [hX, hX', if_false, append_nil]
      exact ⟨by rw [h.endRecPtr], by rw [h.buffer], h.applied, hr.end_xact r.xid fun _ _ => rfl⟩
  | abort =>
    simp only [hb] at hr ⊢
    exact ⟨by rw [h.endRecPtr], by rw [h.buffer], h.applied, hr.end_xact r.xid fun _ _ => rfl⟩
  | _ =>
    simp only [hb] at hp ⊢
    exact ⟨by rw [h.endRecPtr], by rw [h.buffer, h.endRecPtr], h.applied, hp⟩

/-- A decode loop has applied what the records it read deliver: those before the first one that
the pre-scan refuses. -/
theorem sim_loop (X : Nat) (wal : List WalRecord) {D : Decoder V} (h : Sim k heap c D d) :
    ∃ n, Sim k heap c (vamanaRunDecodeLoop k heap X wal D).1 ((wal.take n).foldl (deliver heap X) d)
      ∧ ((vamanaRunDecodeLoop k heap X wal D).2 = true → n = wal.length)
      ∧ (∀ r ∈ wal.take n, preScanTakes heap.relNumber r.body = true)
      ∧ ((∀ r ∈ wal, preScanTakes heap.relNumber r.body = true) →
        (vamanaRunDecodeLoop k heap X wal D).2 = true) := by
  induction wal generalizing D d with
  | nil => exact ⟨0, h, fun _ => rfl, by simp, fun _ => rfl⟩
  | cons r rest ih =>
    have hp := @preScan_eq heap _ _ (h.cursors.ahead _ (Nat.le_refl _)) r.body
    simp only [vamanaRunDecodeLoop]
    rcases hr : replayRecordCallback k heap X D r with _ | D'
    · refine ⟨0, h, by simp, by simp, fun hw => ?_⟩
      simp [replayRecordCallback, hp, hw r (by simp)] at hr
    · obtain ⟨n, hsim, hn, ht, hok⟩ := ih (sim_callback h hr)
      refine ⟨n + 1, hsim, fun hok => by simp [hn hok], forall_mem_cons.mpr ⟨?_, ht⟩,
        fun hw => hok fun x hx => hw x (by simp [hx])⟩
      by_contra hno
      simp [replayRecordCallback, hp, hno] at hr

variable {wal : List WalRecord}

theorem endRecPtr_deliver (heap : Relation) (X : Nat) (d : Delivery) (r : WalRecord) :
    (deliver heap X d r).endRecPtr = d.endRecPtr + 1 := by
  unfold deliver
  cases r.body <;> rfl

theorem endRecPtr_foldl (heap : Relation) (X : Nat) (wal : List WalRecord) (d : Delivery) :
    (wal.foldl (deliver heap X) d).endRecPtr = d.endRecPtr + wal.length := by
  induction wal generalizing d with
  | nil => rfl
  | cons r rest ih =>
    rw [foldl_cons, ih, endRecPtr_deliver, length_cons]
    omega

/-! ## The spec of a replay -/

/-- The replay gets the slot, and WAL was written since the last one. -/
def Runs (k : DrainCalls V) (wal : List WalRecord) (c : IndexCache V) : Prop :=
  noNewWal c wal.length = false ∧ k.slotFree = true

def replayed (k : ApplyCalls V) (heap : Relation) (wal : List WalRecord) (X : Nat)
    (c : IndexCache V) : IndexCache V × Nat := replayAll k (delivered heap X wal) (c, 0)

/-- What a replay that comes to its end returns: the position is confirmed only when a change
was applied. -/
def finished (k : ApplyCalls V) (heap : Relation) (wal : List WalRecord) (X : Nat)
    (c : IndexCache V) : Replayed V :=
  .returned { (replayed k heap wal X c).1 with lastReplayWalEnd := some wal.length }
    (if (replayed k heap wal X c).2 > 0 then wal.length else X)

variable {k : DrainCalls V}

theorem replay_of_not_runs (heap : Relation) (X : Nat) (h : ¬ Runs k wal c) :
    vamanaReplayPendingChanges k heap wal X c = .returned c X := by
  unfold vamanaReplayPendingChanges
  by_cases hwal : noNewWal c wal.length = true
  · rw [if_pos hwal]
  have hfr : k.slotFree = false := by
    cases hf : k.slotFree with
    | false => rfl
    | true => exact absurd ⟨by simpa using hwal, hf⟩ h
  simp [hfr]

/-- Where a replay runs, it either ends as `finished` says or raises an error part way. -/
theorem replay_of_runs (heap : Relation) (X : Nat) (h : Runs k wal c) :
    (k.raiseAt = none ∧ vamanaReplayPendingChanges k heap wal X c = finished k.apply heap wal X c) ∨
      ∃ n, vamanaReplayPendingChanges k heap wal X c =
        .raised (replayed k.apply heap (wal.take n) X c).1 := by
  obtain ⟨n, hsim, hn, -, -⟩ := sim_loop X (recordsRead wal k.raiseAt) (sim_start k.apply heap c)
  unfold vamanaReplayPendingChanges
  simp only [h.1, h.2, Bool.false_eq_true, if_false, Bool.not_true]
  generalize vamanaRunDecodeLoop k.apply heap X _ _ = res at hsim hn ⊢
  obtain ⟨D, ok⟩ := res
  have hc := congrArg Prod.fst hsim.applied
  rcases hr : k.raiseAt with _ | m
  · simp only [hr, recordsRead] at hsim hn hc ⊢
    cases ok with
    | false =>
      refine .inr ⟨n, ?_⟩
      exact congrArg Replayed.raised hc
    | true =>
      refine .inl ⟨trivial, ?_⟩
      have hend := hsim.endRecPtr
      rw [hn rfl, take_length] at hsim
      rw [hn rfl, take_length, endRecPtr_foldl] at hend
      have happ : (D.ctx.cache, D.ctx.opsDecoded) = replayed k.apply heap wal X c := hsim.applied
      simp only [isNone_none, Bool.and_self, if_true, finished, ← happ, hend, Nat.zero_add]
  · simp only [hr, recordsRead] at hc ⊢
    refine .inr ⟨min n m, ?_⟩
    simp only [isNone_some, Bool.and_false, Bool.false_eq_true, if_false]
    rw [take_take] at hc
    exact congrArg Replayed.raised hc

theorem replay_finished (X : Nat) (h : Runs k wal c) (hra : k.raiseAt = none)
    (hwal : ∀ r ∈ wal, preScanTakes heap.relNumber r.body = true) :
    vamanaReplayPendingChanges k heap wal X c = finished k.apply heap wal X c := by
  rcases replay_of_runs heap X h with ⟨-, hfin⟩ | ⟨n, hr⟩
  · exact hfin
  · exfalso
    obtain ⟨-, -, -, -, hok⟩ := sim_loop X wal (sim_start k.apply heap c)
    unfold vamanaReplayPendingChanges at hr
    simp only [h.1, h.2, hra, recordsRead, hok hwal, Bool.false_eq_true,
      if_false, Bool.not_true, isNone_none, Bool.and_self, if_true] at hr
    cases hr

theorem replay_raised (X : Nat) (h : Runs k wal c) {m : Nat} (hra : k.raiseAt = some m)
    (hwal : ∀ r ∈ wal, preScanTakes heap.relNumber r.body = true) :
    vamanaReplayPendingChanges k heap wal X c =
      .raised (replayed k.apply heap (wal.take m) X c).1 := by
  obtain ⟨n, hsim, hn, -, hok⟩ := sim_loop X (wal.take m) (sim_start k.apply heap c)
  rw [hn (hok fun r hr => hwal r (mem_of_mem_take hr)), take_length] at hsim
  unfold vamanaReplayPendingChanges
  simp only [h.1, h.2, hra, recordsRead, Bool.false_eq_true, if_false, Bool.not_true,
    isNone_some, Bool.and_false]
  exact congrArg Replayed.raised (congrArg Prod.fst hsim.applied)

theorem replayAll_count_eq_iff (k : ApplyCalls V) (xs : List TidChange) (c : IndexCache V)
    (n : Nat) : (replayAll k xs (c, n)).2 = n ↔ ∀ x ∈ xs, applyChange k x c = none := by
  have hm : ∀ (xs : List TidChange) (p : IndexCache V × Nat), p.2 ≤ (replayAll k xs p).2 := by
    intro xs
    induction xs with
    | nil => exact fun p => Nat.le_refl _
    | cons x xs ih =>
      intro p
      refine Nat.le_trans ?_ (ih (replayOne k p x))
      unfold replayOne
      split
      · exact Nat.le_refl _
      · exact Nat.le_succ _
  induction xs with
  | nil => simp [replayAll]
  | cons x xs ih =>
    change (replayAll k xs (replayOne k (c, n) x)).2 = n ↔ _
    rcases hx : applyChange k x c with _ | c'
    · have hone : replayOne k (c, n) x = (c, n) := by simp [replayOne, hx]
      rw [hone]
      apply ih.trans
      simp [hx]
    · have hone : replayOne k (c, n) x = (c', n + 1) := by simp [replayOne, hx]
      rw [hone]
      have hle := hm xs (c', n + 1)
      constructor
      · intro h
        omega
      · intro h
        have := h x (by simp)
        rw [hx] at this
        cases this

/-! ## Each change with its own TID -/

/-- The heap a record is about. -/
def relOf : WalBody → Option Relation
  | .heapInsert rel _ _ | .heapDelete rel _ | .heap2MultiInsert rel _ _ _ _ _ _ => some rel
  | _ => none

/-- The TIDs a record stores. -/
def storedTids : WalBody → List Tid
  | .heapInsert _ _ tid | .heapDelete _ tid => [tid]
  | .heap2MultiInsert _ _ isinit blkno ntuples offsets _ =>
    multiInsertTids isinit blkno ntuples offsets
  | _ => []

/-- A multi-insert on the heap whose counts and offsets a heap page can have. -/
def WellFormed (heap : Relation) : WalBody → Prop
  | .heap2MultiInsert rel containsNewTuple isinit _ ntuples offsets dataLen =>
    containsNewTuple = true → rel.relNumber = heap.relNumber →
      1 ≤ ntuples ∧ ntuples ≤ maxHeapTuplesPerPage ∧
      (isinit = false → sizeOfHeapMultiInsert + ntuples * sizeOfOffsetNumber ≤ dataLen ∧
        ∀ o ∈ offsets.take ntuples, 1 ≤ o ∧ o ≤ maxHeapTuplesPerPage)
  | _ => True

theorem preScanTakes_iff (heap : Relation) (b : WalBody) :
    preScanTakes heap.relNumber b = true ↔ WellFormed heap b := by
  cases b with
  | heap2MultiInsert rel new isinit blkno ntuples offsets dataLen =>
    cases new <;> cases isinit <;> by_cases hr : rel.relNumber = heap.relNumber <;>
      simp [preScanTakes, WellFormed, vamanaMultiInsertCountsValid, hr, and_assoc,
        Nat.one_le_iff_ne_zero]
  | _ => simp [preScanTakes, WellFormed]

theorem tidChangesOf_eq_zip (heap : Relation) (lsn : Nat) (b : WalBody) :
    tidChangesOf heap lsn b =
      if relOf b = some heap then
        (changesOf lsn b).zipWith (fun ch t => ⟨ch.lsn, ch.action, t⟩) (storedTids b)
      else [] := by
  cases b with
  | heapInsert rel new tid => cases new <;> simp [tidChangesOf, changesOf, relOf, storedTids]
  | heap2MultiInsert rel new isinit blkno ntuples offsets dataLen =>
    cases new with
    | false => simp [tidChangesOf, changesOf]
    | true =>
      simp only [tidChangesOf, changesOf, relOf, storedTids, and_true, if_true, some.injEq]
      congr 1
      apply ext_getElem
      · simp [length_multiInsertTids]
      · simp
  | _ => simp [tidChangesOf, changesOf, relOf, storedTids]

/-- The offsets that lie inside the data of a multi-insert. -/
def offsetsInData (offsets : List Nat) (dataLen : Nat) : List Nat :=
  offsets.take ((dataLen - sizeOfHeapMultiInsert) / sizeOfOffsetNumber)

theorem preScan_reads_data (hea lsn : Nat) (h : Nat → Option LsnTidEntry) (rel : Relation)
    (new isinit : Bool) (blkno ntuples : Nat) (offsets : List Nat) (dataLen : Nat) :
    vamanaPreScanWalRecord hea lsn h (.heap2MultiInsert rel new isinit blkno ntuples
      (offsetsInData offsets dataLen) dataLen) = vamanaPreScanWalRecord hea lsn h
        (.heap2MultiInsert rel new isinit blkno ntuples offsets dataLen) := by
  simp only [vamanaPreScanWalRecord]
  cases isinit with
  | true => simp [multiInsertTids]
  | false =>
    cases hv : vamanaMultiInsertCountsValid ntuples false dataLen with
    | false => simp
    | true =>
      have hn : ntuples ≤ (dataLen - sizeOfHeapMultiInsert) / sizeOfOffsetNumber := by
        simp [vamanaMultiInsertCountsValid] at hv
        rw [Nat.le_div_iff_mul_le (by decide)]
        omega
      have ht : (offsetsInData offsets dataLen).take ntuples = offsets.take ntuples := by
        rw [offsetsInData, take_take, Nat.min_eq_left hn]
      have hm : multiInsertTids false blkno ntuples (offsetsInData offsets dataLen) =
          multiInsertTids false blkno ntuples offsets := by
        refine map_congr_left fun i hi => ?_
        have := mem_range.mp hi
        simp [offsetsInData, getElem?_take_of_lt (Nat.lt_of_lt_of_le this hn)]
      rw [ht, hm]

/-- Each record in flight stands in the WAL at its LSN, and so does the record of each change. -/
structure FromWal (heap : Relation) (wal : List WalRecord) (d : Delivery) : Prop where
  endRecPtr : d.endRecPtr = wal.length
  inFlight : ∀ y ∈ d.inFlight, wal[y.1]? = some y.2
  changes : ∀ x ∈ d.changes, ∃ lsn r, wal[lsn]? = some r ∧ x ∈ tidChangesOf heap lsn r.body

theorem FromWal.read (h : FromWal heap wal d) (X : Nat) (r : WalRecord) :
    FromWal heap (wal ++ [r]) (deliver heap X d r) := by
  have hold : ∀ {q y}, wal[q]? = some y → (wal ++ [r])[q]? = some y := fun hq =>
    (getElem?_append_left (getElem?_eq_some_iff.mp hq).1).trans hq
  have hfl : ∀ y ∈ d.inFlight, (wal ++ [r])[y.1]? = some y.2 := fun y hy => hold (h.inFlight y hy)
  have hch : ∀ x ∈ d.changes, ∃ lsn r', (wal ++ [r])[lsn]? = some r' ∧
      x ∈ tidChangesOf heap lsn r'.body := by
    intro x hx
    obtain ⟨lsn, r', hr, hx⟩ := h.changes x hx
    exact ⟨lsn, r', hold hr, hx⟩
  have hend : d.endRecPtr + 1 = (wal ++ [r]).length := by simp [h.endRecPtr]
  unfold deliver
  cases r.body with
  | commit =>
    refine ⟨hend, fun y hy => hfl y (mem_of_mem_filter hy), ?_⟩
    refine forall_mem_append.mpr ⟨hch, fun x hx => ?_⟩
    split at hx
    · obtain ⟨y, hy, hx⟩ := mem_flatMap.mp hx
      exact ⟨y.1, y.2, hfl y (mem_of_mem_filter hy), hx⟩
    · cases hx
  | abort => exact ⟨hend, fun y hy => hfl y (mem_of_mem_filter hy), hch⟩
  | _ => exact ⟨hend, forall_mem_append.mpr ⟨hfl, by simp [h.endRecPtr]⟩, hch⟩

theorem fromWal (heap : Relation) (X : Nat) (wal : List WalRecord) :
    FromWal heap wal (deliveryOf heap X wal) := by
  induction wal using reverseRecOn with
  | nil => exact ⟨rfl, by simp [deliveryOf], by simp [deliveryOf]⟩
  | append_singleton wal r ih =>
    rw [deliveryOf, foldl_append]
    exact ih.read X r

end svs_vamana.delivery
