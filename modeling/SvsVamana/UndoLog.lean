-- The undo log of a backend: confirmed inserts by subtransaction, which an abort sends back to the
-- worker in batches of ids.
import Mathlib.Data.List.Sort
import SvsVamana.WriteSlot

namespace svs_vamana.undo_log

open write_slot

variable {ρ : Type}

/-! ## The pure model -/

/-- `VamanaUndoEntry`, as far as the delete goes; `subxid` is `none` for
`InvalidSubTransactionId`. `row` is what the insert was for, which the log itself does not
keep. -/
structure VamanaUndoEntry (ρ : Type) where
  indexRelid : Nat
  externalId : Nat
  subxid : Option Nat
  row : ρ
deriving Repr

/-- `VamanaUndoReserve`: whether there is room for one more entry. -/
def vamanaUndoReserve (maxEntries : Nat) (log : List (VamanaUndoEntry ρ)) : Bool :=
  log.length < maxEntries

/-- `VamanaUndoAppend` in the subtransaction `mySubid`. -/
def vamanaUndoAppend (indexRelid externalId mySubid : Nat) (row : ρ)
    (log : List (VamanaUndoEntry ρ)) : List (VamanaUndoEntry ρ) :=
  log ++ [⟨indexRelid, externalId, some mySubid, row⟩]

/-- `ReplaceMatchingSubxid`. -/
def replaceMatchingSubxid (mySubid : Nat) (replacement : Option Nat)
    (log : List (VamanaUndoEntry ρ)) : List (VamanaUndoEntry ρ) :=
  log.map fun e => if e.subxid = some mySubid then { e with subxid := replacement } else e

/-- `VamanaSubxidPendingArrayPruneAbortedSubxact`. -/
def pruneAbortedSubxact (mySubid : Nat) (log : List (VamanaUndoEntry ρ)) :
    List (VamanaUndoEntry ρ) := replaceMatchingSubxid mySubid none log

/-- `VamanaSubxidPendingArrayReparentSubxact`. -/
def reparentSubxact (mySubid parentSubid : Nat) (log : List (VamanaUndoEntry ρ)) :
    List (VamanaUndoEntry ρ) := replaceMatchingSubxid mySubid (some parentSubid) log

/-- `ConsolidatingUndoBatch`: the batches that were flushed, and the one that fills up. -/
structure UndoBatch (ρ : Type) where
  flushed : List (List (VamanaUndoEntry ρ))
  current : List (VamanaUndoEntry ρ)

/-- `ConsolidatingUndoBatchFlushCurrent`. -/
def UndoBatch.flushCurrent (b : UndoBatch ρ) : UndoBatch ρ :=
  if b.current = [] then b else ⟨b.flushed ++ [b.current], []⟩

/-- `ConsolidatingUndoBatchAdd`. -/
def UndoBatch.add (b : UndoBatch ρ) (e : VamanaUndoEntry ρ) : UndoBatch ρ :=
  if (b.current.getLast?.map (·.indexRelid)) ≠ some e.indexRelid ∨ maxDeleteIds ≤ b.current.length
  then ⟨b.flushCurrent.flushed, [e]⟩
  else ⟨b.flushed, b.current ++ [e]⟩

/-- The DELETE slots for a list of entries, through `ConsolidatingUndoBatchFinish`. -/
def undoBatches (es : List (VamanaUndoEntry ρ)) : List (List (VamanaUndoEntry ρ)) :=
  (es.foldl UndoBatch.add ⟨[], []⟩).flushCurrent.flushed

/-- `VamanaXactCallback` on an abort: the batches it sends. The log is gone afterwards. -/
def vamanaXactAbort (workerAvailable : Bool) (log : List (VamanaUndoEntry ρ)) :
    List (List (VamanaUndoEntry ρ)) :=
  if workerAvailable then
    undoBatches ((log.insertionSort fun a b => a.indexRelid ≤ b.indexRelid).filter
      fun e => e.subxid.isSome)
  else []

/-- `VamanaSubXactCallback` on an abort: the batches it sends, and the log. -/
def vamanaSubXactAbort (workerAvailable : Bool) (mySubid : Nat) (log : List (VamanaUndoEntry ρ)) :
    List (List (VamanaUndoEntry ρ)) × List (VamanaUndoEntry ρ) :=
  if workerAvailable then
    (undoBatches (log.filter fun e => e.subxid = some mySubid), pruneAbortedSubxact mySubid log)
  else ([], log)

/-! ## The laws -/

theorem flatten_flushCurrent (b : UndoBatch ρ) :
    b.flushCurrent.flushed.flatten = b.flushed.flatten ++ b.current := by
  unfold UndoBatch.flushCurrent
  split
  · rename_i h
    simp [h]
  · simp

theorem flatten_foldl_add (es : List (VamanaUndoEntry ρ)) (b : UndoBatch ρ) :
    (es.foldl UndoBatch.add b).flushed.flatten ++ (es.foldl UndoBatch.add b).current =
      b.flushed.flatten ++ b.current ++ es := by
  induction es generalizing b with
  | nil => simp
  | cons e es ih =>
    rw [List.foldl_cons, ih]
    unfold UndoBatch.add
    split
    · rw [flatten_flushCurrent]
      simp
    · simp

theorem flatten_undoBatches (es : List (VamanaUndoEntry ρ)) : (undoBatches es).flatten = es := by
  unfold undoBatches
  rw [flatten_flushCurrent, flatten_foldl_add]
  rfl

theorem mem_of_mem_undoBatches {es ids : List (VamanaUndoEntry ρ)} {e : VamanaUndoEntry ρ}
    (hids : ids ∈ undoBatches es) (he : e ∈ ids) : e ∈ es := by
  rw [← flatten_undoBatches es]
  exact List.mem_flatten.mpr ⟨ids, hids, he⟩

end svs_vamana.undo_log
