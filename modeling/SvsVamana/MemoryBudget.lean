-- The residency budget of one database: a call admits within the budget, so that only a graph that
-- is measured again can go beyond it, and an admission that is turned down leaves no trace.
import SvsVamana.MemoryMoves

namespace svs_vamana.memory_budget

open transition_runs svs_memory

/-! ## The pure model -/

/-- The worker measures a graph again after it has applied inserts or compacted it: the size is
entered as it is, whatever the budget. -/
def remeasures : Op → Bool
  | .reanchorInsert _ _ => true
  | .reconcileResident _ _ _ => true
  | _ => false

def Within (l : Ledger) : Prop := l.residencyBytesCommitted ≤ l.residencyBudget

/-- The calls that take bytes only where they fit, and nothing where they do not. -/
def admits : Op → Bool
  | .reserveBuild .. => true
  | .reconcileLoad .. => true
  | .reserveInsert .. => true
  | _ => false

/-- A call was turned down, by `false` or by an error. -/
def Rejected : Except MemoryError Reply → Prop
  | .ok reply => reply = .answer false
  | .error _ => True

/-- All counters, those of the header too, and all records are as they were. -/
structure Unchanged (l l' : Ledger) : Prop where
  entry : l'.toEntry = l.toEntry
  buildTotal : l'.totalBuildCommittedGlobal = l.totalBuildCommittedGlobal

structure SameBooks (s s' : System) : Prop where
  blocks : s'.blocks = s.blocks
  buildTotal : s'.totalBuildCommittedGlobal = s.totalBuildCommittedGlobal
  residencyTotal : s'.totalResidencyCommittedGlobal = s.totalResidencyCommittedGlobal

/-- The budget is as it was, and what is committed had been committed or is within it. -/
structure Bounded (l l' : Ledger) : Prop where
  budget : l'.residencyBudget = l.residencyBudget
  committed : l'.residencyBytesCommitted ≤ max l.residencyBytesCommitted l.residencyBudget

/-! ## Calls that admit -/

/-- A call takes what fits and is answered so, or changes nothing. -/
structure Admission (l : Ledger) (out : Outcome) : Prop where
  bounded : Bounded l out.1
  rejected : Rejected out.2 → Unchanged l out.1

variable {l l' : Ledger} {answer : Except MemoryError Reply}

theorem Bounded.of_le (hb : l'.residencyBudget = l.residencyBudget)
    (hle : l'.residencyBytesCommitted ≤ l.residencyBudget) : Bounded l l' :=
  ⟨hb, Nat.le_trans hle (Nat.le_max_right _ _)⟩

theorem Bounded.of_release (hb : l'.residencyBudget = l.residencyBudget)
    (hle : l'.residencyBytesCommitted ≤ l.residencyBytesCommitted) : Bounded l l' :=
  ⟨hb, Nat.le_trans hle (Nat.le_max_left _ _)⟩

theorem Admission.unchanged (h : Unchanged l l') : Admission l (l', answer) := by
  refine ⟨.of_release ?_ (Nat.le_of_eq ?_), fun _ => h⟩
  · rw [h.entry]
  · rw [h.entry]

theorem Admission.taken (ha : ¬ Rejected answer) (h : Bounded l l') : Admission l (l', answer) :=
  ⟨h, fun hr => absurd hr ha⟩

theorem reserveBuild_admission (l : Ledger) (pid now relid peak estimate ceiling : Nat) :
    Admission l (reserveBuild l pid now relid peak estimate ceiling) := by
  unfold reserveBuild
  split
  · exact .unchanged ⟨rfl, rfl⟩
  split
  · split
    · exact .unchanged ⟨rfl, rfl⟩
    dsimp only
    split
    · exact .unchanged ⟨rfl, rfl⟩
    split
    · exact .unchanged ⟨rfl, rfl⟩
    · exact .taken (by simp [Rejected]) (.of_release rfl (Nat.le_refl _))
  · split
    · exact .unchanged ⟨rfl, rfl⟩
    next hf =>
    split
    · exact .unchanged ⟨rfl, rfl⟩
    split
    · exact .unchanged ⟨rfl, rfl⟩
    · exact .taken (by simp [Rejected]) (.of_le rfl (Nat.not_lt.mp hf))

theorem reconcileLoad_admission (l : Ledger) (now relid measured headroom : Nat) :
    Admission l (reconcileLoad l now relid measured headroom) := by
  unfold reconcileLoad
  split
  · exact .unchanged ⟨rfl, rfl⟩
  split
  · next i r _ =>
    have hc := (cleared_refl l (contribution r)).check (Nat.le_refl _)
      "a load reconcile's prior contribution"
    dsimp only
    split
    · exact .unchanged ⟨rfl, rfl⟩
    next hf =>
    apply Admission.taken (by simp [Rejected])
    exact .of_le (hc.releaseRebuild r "a build peak").budget (Nat.not_lt.mp hf)
  · split
    · exact .unchanged ⟨rfl, rfl⟩
    next hf =>
    split
    · exact .unchanged ⟨rfl, rfl⟩
    · exact .taken (by simp [Rejected]) (.of_le rfl (Nat.not_lt.mp hf))

theorem reserveInsert_admission (l : Ledger) (pid now relid deltaBytes : Nat) :
    Admission l (reserveInsert l pid now relid deltaBytes) := by
  unfold reserveInsert
  split
  · exact .unchanged ⟨rfl, rfl⟩
  extract_lets resident charge
  clear_value resident charge
  split
  · exact .unchanged ⟨rfl, rfl⟩
  next hf =>
  have hle : l.residencyBytesCommitted + charge ≤ l.residencyBudget := Nat.not_lt.mp hf
  split
  · exact .unchanged ⟨rfl, rfl⟩
  cases resident <;> exact .taken (by simp [Rejected]) (.of_le rfl hle)

theorem apply_admission (l : Ledger) {op : Op} (hop : admits op = true) :
    Admission l (op.apply l) := by
  cases op with
  | reserveBuild => exact reserveBuild_admission l _ _ _ _ _ _
  | reconcileLoad => exact reconcileLoad_admission l _ _ _ _
  | reserveInsert => exact reserveInsert_admission l _ _ _ _
  | _ => cases hop

theorem confirmBuild_bounded (l : Ledger) (relid peak measured : Nat) :
    Bounded l (confirmBuild l relid peak measured).1 := by
  unfold confirmBuild
  split
  · exact .of_release rfl (Nat.le_refl _)
  split
  · exact .of_release rfl (Nat.le_refl _)
  next i r _ _ =>
  dsimp only
  generalize (if r.state = .rebuilding then r.priorResidentBytes else r.estimateBytes) = prior
  split
  · next hf => exact .of_le rfl hf
  split
  · exact .of_release rfl (Nat.le_refl _)
  · exact .of_release rfl (Nat.sub_le _ _)

/-- An admission that is turned down changes nothing, in its block or in the header, and what is
committed after one that is taken was committed before it or is within the budget. -/
theorem admissions_change_nothing_or_stay_in_budget :
    (∀ (l : Ledger) (op : Op), admits op = true → Rejected (op.apply l).2 →
      Unchanged l (op.apply l).1) ∧
    (∀ (s : System) (i budget floor : Nat), SameBooks s (s.beginAdmit i budget floor)) ∧
    (∀ (s : System) (i budget ceiling : Nat), (s.admitSection i budget ceiling).2 = false →
      SameBooks s (s.admitSection i budget ceiling).1) ∧
    ∀ (l : Ledger) (op : Op), (admits op = true ∨ ∃ relid peak measured,
        op = .confirmBuild relid peak measured) →
      (op.apply l).1.residencyBytesCommitted ≤
        max l.residencyBytesCommitted l.residencyBudget := by
  refine ⟨fun l op hop => (apply_admission l hop).rejected, fun s i budget floor => ?_,
    fun s i budget ceiling hr => ?_, fun l op hop => ?_⟩
  · unfold System.beginAdmit
    repeat' split
    all_goals exact ⟨rfl, rfl, rfl⟩
  · unfold System.admitSection at hr ⊢
    split
    · exact ⟨rfl, rfl, rfl⟩
    next e hi =>
    simp only [hi] at hr ⊢
    split at hr
    · next hf =>
      rw [if_pos hf]
      exact ⟨rfl, rfl, rfl⟩
    · cases hr
  · obtain hop | ⟨relid, peak, measured, rfl⟩ := hop
    · exact (apply_admission l hop).bounded.committed
    · exact (confirmBuild_bounded l relid peak measured).committed

/-! ## Calls that stay within it -/

section

variable (h : Within l)
include h

theorem Within.bounded (hb : Bounded l l') : Within l' := by
  have hbu := hb.budget
  have hc := hb.committed
  unfold Within at *
  omega

theorem Within.lower (hbu : l'.residencyBudget = l.residencyBudget)
    (hle : l'.residencyBytesCommitted ≤ l.residencyBytesCommitted) : Within l' :=
  h.bounded (.of_release hbu hle)

theorem Within.clear {bound peak : Nat}
    (hc : Cleared l l' bound peak) : Within l' :=
  h.lower hc.budget (Nat.le_of_eq hc.committed)

theorem Within.release (i : Nat) (slot : Option Reservation)
    (amount : Nat) (what : String) : Within (l.release i slot amount what) :=
  h.lower rfl (Nat.sub_le _ _)

theorem Within.releaseInsert (j amount : Nat) (what : String) :
    Within (l.releaseInsert j amount what) :=
  h.lower rfl (Nat.sub_le _ _)

theorem Within.releasePeakOf (r : Reservation) (what : String) : Within (l.releasePeakOf r what) :=
  h.clear ((cleared_refl l 0).releasePeakOf r what)

end

theorem reapReservation_within (dead : Nat → Nat → Bool) (l : Ledger) (i : Nat) (h : Within l) :
    Within (reapReservation dead l i) := by
  unfold reapReservation
  split
  · next r hi =>
    split
    · have hp := h.releasePeakOf r "a dead backend's build peak"
      split
      · exact hp
      · exact hp.release i none _ _
    · exact h
  · exact h

theorem reapInsertReservation_within (dead : Nat → Nat → Bool) (l : Ledger) (j : Nat)
    (h : Within l) : Within (reapInsertReservation dead l j) := by
  unfold reapInsertReservation
  split
  · split
    · exact h.releaseInsert j _ _
    · exact h
  · exact h

theorem dropReservation_within (live : List Nat) (p : Ledger × List Nat) (i : Nat)
    (h : Within p.1) : Within (dropReservation live p i).1 := by
  unfold dropReservation
  split
  · split
    · exact h.release i none _ _
    · exact h
  · exact h

section
variable {l : Ledger} (h : Within l)
include h

variable (relid : Nat)

theorem handoffBuild_within : Within (handoffBuild l relid).1 := by
  unfold handoffBuild
  split
  · exact h
  split
  · exact h
  · exact h

theorem abortBuild_within : Within (abortBuild l relid).1 := by
  unfold abortBuild
  split
  · exact h
  next i r hf =>
  have hp := h.releasePeakOf r "a build peak"
  split
  · exact h
  split
  · exact hp
  · exact hp.release i none _ _

theorem accountUnload_within : Within (accountUnload l relid).1 := by
  unfold accountUnload
  split
  · exact h
  next i r hf =>
  have hp : Within (if r.state = .rebuilding then l.releasePeakOf r "a build peak" else l) := by
    split
    · exact h.releasePeakOf r "a build peak"
    · exact h
  exact hp.release i none _ _

theorem closeInsertReservation_within : Within (releaseOldestInsertReservation l relid) := by
  unfold releaseOldestInsertReservation
  split
  · exact h
  · exact h.releaseInsert _ _ _

theorem abortInsert_within (pid relid : Nat) : Within (abortInsert l pid relid).1 := by
  unfold abortInsert
  split
  · exact h
  next j r hf =>
  have hr := h.releaseInsert j r.deltaBytes "an aborted pending insert reservation"
  dsimp only
  split
  · exact hr
  · exact hr

theorem creditAbortedInserts_within (relid generation growth pct : Nat) :
    Within (creditAbortedInserts l relid generation growth pct).1 := by
  unfold creditAbortedInserts
  split
  · exact h
  split
  · exact h.lower rfl (Nat.sub_le _ _)
  · exact h

theorem reap_within (dead : Nat → Nat → Bool) : Within (reapEntryReservations dead l).1 := by
  apply run_keeps Within (reapInsertReservation_within dead)
  exact run_keeps Within (reapReservation_within dead) h _

theorem reconcileResidentReservations_within (live : List Nat) :
    Within (reconcileResidentReservations live l).1 := by
  have hp (slots : List Nat) : Within (run (dropReservation live) (l, []) slots).1 :=
    run_keeps (fun p : Ledger × List Nat => Within p.1) (dropReservation_within live) h slots
  unfold reconcileResidentReservations
  dsimp only
  exact hp (List.range vamanaMaxIndexes)

theorem apply_within {op : Op} (hop : remeasures op = false) : Within (op.apply l).1 := by
  cases op with
  | reserveBuild => exact h.bounded (reserveBuild_admission l _ _ _ _ _ _).bounded
  | confirmBuild => exact h.bounded (confirmBuild_bounded l _ _ _)
  | handoffBuild => exact handoffBuild_within h _
  | abortBuild => exact abortBuild_within h _
  | reconcileLoad => exact h.bounded (reconcileLoad_admission l _ _ _ _).bounded
  | accountUnload => exact accountUnload_within h _
  | reserveInsert => exact h.bounded (reserveInsert_admission l _ _ _ _).bounded
  | reanchorInsert => cases hop
  | reconcileResident => cases hop
  | closeInsertReservation => exact closeInsertReservation_within h _
  | abortInsert => exact abortInsert_within h _ _
  | creditAbortedInserts => exact creditAbortedInserts_within h _ _ _ _
  | reap => exact reap_within h _
  | reconcileResidentReservations => exact reconcileResidentReservations_within h _

end

end svs_vamana.memory_budget
