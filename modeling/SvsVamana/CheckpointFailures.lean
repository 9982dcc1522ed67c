-- What `PerformCheckpoint` and its error handler leave behind, whichever step fails and whichever
-- step of the handler fails after it.
import SvsVamana.SvsMemory

namespace svs_vamana.checkpoint_failures

open slot_table svs_memory

/-! ## The checkpoint -/

/-- The steps that can fail before and after the index's bytes are reconciled, in their order.
`SVSSaveIndex` compacts the live graph and then writes it. -/
inductive Step
  | openRelation
  | compact
  | writeGraph
  | writeTidMap
  | markIndexSaved
  | measure
  | headroom
  | advanceSlot
deriving DecidableEq, Repr

def Step.compacted : Step → Bool
  | .openRelation | .compact => false
  | _ => true

/-- `compactedOnDisk`, which is set when `SVSSaveIndex` returns. -/
def Step.compactedOnDisk : Step → Bool
  | .openRelation | .compact | .writeGraph => false
  | _ => true

/-- The entry, the slot and the books when control leaves the function. -/
structure Checkpoint where
  raised : Bool
  checkpointInProgress : Bool
  numDeleted : Nat
  compacted : Bool
  slotAdvanced : Bool
  ledger : Ledger

variable (relid measuredBytes : Nat)

/-- The error handler, after a failure at the step or at the reconcile. It ends with an error of its
own, or waits for a `memLock` that the first error has left held. -/
def handle (compacted compactedOnDisk measures : Bool) (numDeleted : Nat) (l : Ledger) :
    Checkpoint :=
  if !compactedOnDisk then ⟨true, false, numDeleted, compacted, false, l⟩
  else if !measures then ⟨true, true, 0, compacted, false, l⟩
  else
    let r := reconcileResident l relid measuredBytes none
    ⟨true, !r.2.isOk, 0, compacted, false, r.1⟩

/-- `PerformCheckpoint`. `fails` is the step that fails, if one does; the handler may be unable
to measure; and a slot may be busy, which is no error. -/
def performCheckpoint (fails : Option Step) (measures busy : Bool)
    (headroomVectors numDeleted : Nat) (l : Ledger) : Checkpoint :=
  match fails with
  | none =>
    let r := reconcileResident l relid measuredBytes (some headroomVectors)
    if r.2.isOk then ⟨false, false, 0, true, !busy, r.1⟩
    else handle relid measuredBytes true true measures numDeleted r.1
  | some .advanceSlot =>
    let r := reconcileResident l relid measuredBytes (some headroomVectors)
    handle relid measuredBytes true true measures numDeleted r.1
  | some step =>
    handle relid measuredBytes step.compacted step.compactedOnDisk measures numDeleted l

/-! ## Consistency -/

/-- The record of the index has the measured size and nothing to reclaim. -/
def Measured (l : Ledger) : Prop :=
  ∃ i r, findReservation l.toEntry relid = some (i, r) ∧ r.measuredBytes = measuredBytes ∧
    r.reclaimableBytes = 0

def Resident (l : Ledger) : Prop :=
  ∃ i r, findReservation l.toEntry relid = some (i, r) ∧ r.state = .resident

/-- What the checkpoint leaves agrees with the live graph, and the slot is where it was if
there was an error. -/
structure Consistent (numDeleted : Nat) (s : Checkpoint) : Prop where
  finished : s.checkpointInProgress = false
  deleted : s.numDeleted = if s.compacted then 0 else numDeleted
  slot : s.raised = true → s.slotAdvanced = false
  measured : s.compacted = true → Measured relid measuredBytes s.ledger

/-- A compacted graph is also written, unless there was nothing to compact; a written one has a
record of a resident index; and the handler of a later error can measure. -/
def Recoverable (fails : Option Step) (measures : Bool) (numDeleted : Nat) (l : Ledger) : Prop :=
  match fails with
  | some .openRelation | some .compact => True
  | some .writeGraph => numDeleted = 0 ∧ Measured relid measuredBytes l
  | some _ => Resident relid l ∧ measures = true
  | none => Resident relid l

variable {relid measuredBytes} {l : Ledger}

theorem reconcile_resident (m : Nat) (headroom : Option Nat) (h : Resident relid l) :
    let r := reconcileResident l relid m headroom
    r.2.isOk = true ∧ Resident relid r.1 ∧ Measured relid m r.1 := by
  obtain ⟨i, r, hf, hs⟩ := h
  have hp := (find_some hf).2
  simp only [reconcileResident, hf, hs]
  exact ⟨rfl, ⟨i, _, find_set_found hf hp, rfl⟩, i, _, find_set_found hf hp, rfl, rfl⟩

theorem reconcile_other (m : Nat) (headroom : Option Nat) (h : ¬ Resident relid l) :
    (reconcileResident l relid m headroom).1 = l ∧
      (reconcileResident l relid m headroom).2.isOk = false := by
  unfold reconcileResident
  rcases hf : findReservation l.toEntry relid with _ | ⟨i, r⟩
  · exact ⟨rfl, rfl⟩
  · have hs : r.state ≠ .resident := fun hs => h ⟨i, r, hf, hs⟩
    simp only [if_pos hs]
    exact ⟨trivial, rfl⟩

theorem consistent_handle_iff (measures : Bool) (numDeleted : Nat) :
    Consistent relid measuredBytes numDeleted
        (handle relid measuredBytes true true measures numDeleted l) ↔
      Resident relid l ∧ measures = true := by
  unfold handle
  cases measures with
  | false => exact iff_of_false (fun h => Bool.noConfusion h.finished) fun h => Bool.noConfusion h.2
  | true =>
    by_cases hres : Resident relid l
    · obtain ⟨hok, -, hm⟩ := reconcile_resident measuredBytes none hres
      simp only [hok]
      exact iff_of_true ⟨rfl, rfl, fun _ => rfl, fun _ => hm⟩ ⟨hres, trivial⟩
    · simp only [(reconcile_other measuredBytes none hres).2]
      exact iff_of_false (fun h => Bool.noConfusion h.finished) fun h => hres h.1

/-- Whatever fails, in the checkpoint or in its handler, the checkpoint leaves the entry, the
slot and the books in agreement exactly when it is recoverable. -/
theorem a_checkpoint_is_consistent_iff (relid measuredBytes : Nat) (fails : Option Step)
    (measures busy : Bool) (hea numDeleted : Nat) (l : Ledger) :
    Consistent relid measuredBytes numDeleted
        (performCheckpoint relid measuredBytes fails measures busy hea numDeleted l) ↔
      Recoverable relid measuredBytes fails measures numDeleted l := by
  cases fails with
  | none =>
    by_cases hres : Resident relid l
    · obtain ⟨hok, -, hm⟩ :=
        reconcile_resident measuredBytes (some hea) hres
      simp only [performCheckpoint, hok, if_true]
      exact iff_of_true ⟨rfl, rfl, Bool.noConfusion, fun _ => hm⟩ hres
    · obtain ⟨hs, hr⟩ :=
        reconcile_other measuredBytes (some hea) hres
      simp only [performCheckpoint, hs, hr, Bool.false_eq_true, if_false]
      exact iff_of_false (fun h => hres ((consistent_handle_iff measures numDeleted).mp h).1) hres
  | some step =>
    cases step with
    | openRelation | compact =>
      exact iff_of_true ⟨rfl, rfl, fun _ => rfl, Bool.noConfusion⟩ trivial
    | writeGraph =>
      exact ⟨fun h => ⟨h.deleted, h.measured rfl⟩, fun h => ⟨rfl, h.1, fun _ => rfl, fun _ => h.2⟩⟩
    | writeTidMap | markIndexSaved | measure | headroom =>
      exact consistent_handle_iff measures numDeleted
    | advanceSlot =>
      refine (consistent_handle_iff measures numDeleted).trans (and_congr_left fun _ => ?_)
      by_cases hres : Resident relid l
      · exact iff_of_true (reconcile_resident measuredBytes (some hea) hres).2.1 hres
      · rw [(reconcile_other measuredBytes (some hea) hres).1]

/-- Two of ten points are deleted, and the index takes 100 bytes. -/
def checkpointed : Ledger :=
  ⟨{ dbOid := 1, residencyBudget := 1000, residencyBytesCommitted := 100,
     reservations := [some { relid := 7, state := .resident, measuredBytes := 100 }] }, 0, [], []⟩

/-- `SVSSaveIndex` fails after its compaction, and the entry still counts the deleted points. And
without a reservation, the handler fails like the checkpoint before it. -/
theorem a_failed_checkpoint_is_left_in_progress :
    ¬ Consistent 7 80 2 (performCheckpoint 7 80 (some .writeGraph) true false 5 2 checkpointed) ∧
      (performCheckpoint 8 80 none true false 5 2 checkpointed).checkpointInProgress = true := by
  refine ⟨fun h => ?_, by decide +kernel⟩
  exact absurd h.deleted (by decide)

end svs_vamana.checkpoint_failures
