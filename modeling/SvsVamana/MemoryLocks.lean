-- The locks of the memory books: what an operation still holds when it returns or raises an error,
-- for the handler that calls the next one.
import SvsVamana.SvsMemory

namespace svs_vamana.memory_locks

open transition_runs slot_table svs_memory

/-! ## The locks that a call takes -/

inductive Lock
  | mem
  | header
deriving DecidableEq, Repr

inductive LockStep
  | acquire (k : Lock)
  | release (k : Lock)
deriving DecidableEq, Repr

/-- The locks that are held, or `none` once the process waits for a lock of its own. -/
def lockStep : Option (List Lock) → LockStep → Option (List Lock)
  | none, _ => none
  | some held, .acquire k => if k ∈ held then none else some (k :: held)
  | some held, .release k => some (held.erase k)

/-- `VamanaWorkerLookupSlot`, `TryAddGlobalBuildCommitted`, `SubtractGlobalBuildCommitted`. -/
def headerSection : List LockStep := [.acquire .header, .release .header]

/-- A section under `memLock`, with header sections inside. A branch that raises an error
releases the lock first. -/
def memSection (headerSections : Nat) : List LockStep :=
  .acquire .mem :: (List.replicate headerSections headerSection).flatten ++ [.release .mem]

/-- `FindResidentReservationOrError` does not release the lock before it raises its error. -/
def residentSection (e : Entry) (relid : Nat) : List LockStep :=
  if (findReservation e relid).isSome then memSection 0 else [.acquire .mem]

/-- The build peak of a record in one of the states is given back. -/
def recordSections (states : List ReservationState) (r : Reservation) : Nat :=
  if r.state ∈ states ∧ r.buildPeakBytes > 0 then 1 else 0

def peakSections (e : Entry) (relid : Nat) (states : List ReservationState) : Nat :=
  weight (recordSections states) ((findReservation e relid).map (·.2))

/-- How often an operation takes the header lock inside `memLock`. -/
def headerSections (l : Ledger) : Op → Nat
  | .reserveBuild pid now relid peak estimate ceiling =>
    match (reserveBuild l pid now relid peak estimate ceiling).2 with
    | .ok _ | .error .buildMemoryExceeded => 1
    | _ => 0
  | .confirmBuild relid peak measured =>
    match (confirmBuild l relid peak measured).2 with
    | .ok _ => 1
    | .error _ => 0
  | .abortBuild relid => peakSections l.toEntry relid [.reserved, .confirmed, .handoff, .rebuilding]
  | .reconcileLoad now relid measured headroom =>
    match (reconcileLoad l now relid measured headroom).2 with
    | .ok (.answer true) => peakSections l.toEntry relid [.rebuilding]
    | _ => 0
  | .accountUnload relid => peakSections l.toEntry relid [.rebuilding]
  | .reap dead =>
    total (weight fun r => if ownerPidIsDead dead r.ownerPid r.reservedAt then
      recordSections [.reserved, .rebuilding] r else 0) l.reservations
  | _ => 0

def opLocks (l : Ledger) : Op → List LockStep
  | .reanchorInsert relid _ => residentSection l.toEntry relid
  | .reconcileResident relid _ _ => residentSection l.toEntry relid
  | op => memSection (headerSections l op)

/-- The calls of the module. `read` is each of the functions that only read or write a field
of the block: the budget, the statistics, the search scratch options. -/
inductive Call
  | op (op : Op)
  | read
  | admitDatabase (residencyBudget durableCommittedFloor : Nat)
  | restoreResidencyBudget
  | seedDurableResidency (now relid durableBytes : Nat)
  | reserveSearchScratch
  | releaseSearchScratch

def sections (l : Ledger) : Call → List LockStep
  | .op op => opLocks l op
  | .read => memSection 0
  | .admitDatabase budget floor =>
    if budget = 0 then [] else memSection (if budget < max (realUsage l.toEntry) floor then 0 else 1)
  | .restoreResidencyBudget => memSection 1
  | .seedDurableResidency now relid bytes =>
    if (findReservation l.toEntry relid).isSome then memSection 0
    else memSection 0 ++ (headerSection ++ opLocks l (.reconcileLoad now relid bytes 0))
  | .reserveSearchScratch => headerSection
  | .releaseSearchScratch => []

/-- The locks of a call, which starts with its lookup; without a block it ends there. -/
def callLocks : Option Ledger → Call → List LockStep
  | none, _ => headerSection
  | some l, c => headerSection ++ sections l c

/-- A call on the books as it finds them. No transaction is aborted in between. -/
def callStep (held : Option (List Lock)) (x : Option Ledger × Call) : Option (List Lock) :=
  run lockStep held (callLocks x.1 x.2)

/-! ## What is held afterwards -/

/-- The operations that need a record of the index find one. -/
def FindsRecord : Option Ledger → Call → Prop
  | some l, .op (.reanchorInsert relid _) => (findReservation l.toEntry relid).isSome
  | some l, .op (.reconcileResident relid _ _) => (findReservation l.toEntry relid).isSome
  | _, _ => True

/-- The steps acquire no lock that is held and release all they acquire. -/
def Balanced (steps : List LockStep) : Prop := run lockStep (some []) steps = some []

theorem Balanced.append {xs ys : List LockStep} (hx : Balanced xs) (hy : Balanced ys) :
    Balanced (xs ++ ys) := by
  unfold Balanced at *
  rw [run_append, hx, hy]

theorem balanced_header : Balanced headerSection := rfl

theorem balanced_mem (n : Nat) : Balanced (memSection n) := by
  have hi : run lockStep (some [.mem]) (List.replicate n headerSection).flatten =
      some [.mem] := by
    induction n with
    | zero => rfl
    | succ n ih =>
      exact ih
  have ha : lockStep (some []) (.acquire .mem) = some [.mem] := rfl
  rw [Balanced, memSection, List.cons_append, run_cons, run_append, ha, hi]
  rfl

theorem balanced_resident_iff (e : Entry) (relid : Nat) :
    Balanced (headerSection ++ residentSection e relid) ↔ (findReservation e relid).isSome := by
  unfold residentSection
  split
  · rename_i hf
    exact iff_of_true (balanced_header.append (balanced_mem 0)) hf
  · rename_i hn
    refine iff_of_false (fun hba => ?_) hn
    simp [Balanced, headerSection, lockStep] at hba

/-- A call leaves no lock behind exactly when it finds the record that it needs. -/
theorem balanced_call_iff (l : Option Ledger) (c : Call) :
    Balanced (callLocks l c) ↔ FindsRecord l c := by
  rcases l with _ | l
  · cases c <;> exact iff_of_true balanced_header trivial
  have hmem : ∀ n, Balanced (headerSection ++ memSection n) := fun n =>
    balanced_header.append (balanced_mem n)
  cases c with
  | op op =>
    cases op with
    | reanchorInsert relid m => exact balanced_resident_iff l.toEntry relid
    | reconcileResident relid m k => exact balanced_resident_iff l.toEntry relid
    | _ => exact iff_of_true (hmem _) trivial
  | read | restoreResidencyBudget => exact iff_of_true (hmem _) trivial
  | admitDatabase budget floor =>
    refine iff_of_true ?_ trivial
    simp only [callLocks, sections]
    split
    · exact balanced_header
    · exact hmem _
  | seedDurableResidency now relid bytes =>
    refine iff_of_true ?_ trivial
    simp only [callLocks, sections]
    split
    · exact hmem 0
    · rw [← List.append_assoc]
      exact (hmem 0).append (hmem _)
  | reserveSearchScratch => exact iff_of_true (balanced_header.append balanced_header) trivial
  | releaseSearchScratch => exact iff_of_true balanced_header trivial

end svs_vamana.memory_locks
