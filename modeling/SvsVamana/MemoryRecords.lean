-- What a call on a control block leaves of the record of one build: only calls for its own index,
-- and a verdict on its owner, can take it away.
import SvsVamana.ResidencyBooks

namespace svs_vamana.memory_records

open transition_runs slot_table svs_memory residency_books Ledger Option

/-! ## A record that stands -/

/-- What identifies a build's record. -/
structure RecordKey where
  relid : Nat
  state : ReservationState
  ownerPid : Nat
  reservedAt : Nat
deriving DecidableEq, Repr

def keyOf (r : Reservation) : RecordKey := ⟨r.relid, r.state, r.ownerPid, r.reservedAt⟩

/-- The table has a record with this key. -/
def Standing (k : RecordKey) (l : Ledger) : Prop :=
  ∃ (i : Nat) (r : Reservation), l.reservations[i]? = some (some r) ∧ keyOf r = k

variable {k : RecordKey} {l : Ledger}

theorem Standing.find (h : Standing k l) (hd : OnePerIndex l.toEntry) :
    ∃ i r, findReservation l.toEntry k.relid = some (i, r) ∧ keyOf r = k := by
  obtain ⟨i, r, hi, rfl⟩ := h
  cases hf : findReservation l.toEntry (keyOf r).relid with
  | none =>
    have ho : (r.relid == r.relid) = false := find_none hf hi
    simp at ho
  | some x =>
    obtain ⟨j, r'⟩ := x
    obtain ⟨hj, hr⟩ := findReservation_some hf
    obtain rfl : j = i := hd j i r' r hj hi hr
    obtain rfl : r' = r := some.inj (some.inj (hj.symm.trans hi))
    exact ⟨j, r', rfl, rfl⟩

theorem standing_posted {i : Nat} (hi : i < l.reservations.length) (r : Reservation)
    (committed : Nat) : Standing (keyOf r) (l.post i (some r) committed) :=
  ⟨i, r, by simp [post, hi], rfl⟩

variable {l' : Ledger}

theorem Standing.congr (h : Standing k l) (hs : l'.reservations = l.reservations) :
    Standing k l' := by
  unfold Standing
  rw [hs]
  exact h

variable {j : Nat}

/-- A slot is written that holds another record, or that keeps the key of the one it holds. -/
theorem Standing.post (h : Standing k l) (hs : l'.reservations = l.reservations)
    {old slot : Option Reservation} (hj : l.reservations[j]? = some old)
    (hk : ∀ r, old = some r → keyOf r = k → ∃ r', slot = some r' ∧ keyOf r' = k)
    (committed : Nat) : Standing k (l'.post j slot committed) := by
  obtain ⟨i, r, hi, hkey⟩ := h
  by_cases hij : j = i
  · subst hij
    cases hj.symm.trans hi
    obtain ⟨r', rfl, hkey'⟩ := hk r rfl hkey
    have hlt : j < l.reservations.length := (List.getElem?_eq_some_iff.mp hi).1
    exact ⟨j, r', by simp [Ledger.post, hs, hlt], hkey'⟩
  · refine ⟨i, r, ?_, hkey⟩
    simpa [Ledger.post, hs, hij] using hi

variable {r : Reservation}

section

variable (h : Standing k l) (hs : l'.reservations = l.reservations)
include h hs

theorem Standing.post_other
    (hj : l.reservations[j]? = some (some r)) (ho : keyOf r ≠ k) (slot : Option Reservation)
    (committed : Nat) : Standing k (l'.post j slot committed) := by
  apply h.post hs hj
  intro r' hr' hkey
  cases hr'
  exact absurd hkey ho

theorem Standing.post_free
    (hj : free l.reservations = some j) (slot : Option Reservation) (committed : Nat) :
    Standing k (l'.post j slot committed) := by
  apply h.post hs (free_some hj)
  intro r hr
  cases hr

theorem Standing.post_same
    {r' : Reservation} (hj : l.reservations[j]? = some (some r)) (hkey' : keyOf r' = keyOf r)
    (committed : Nat) : Standing k (l'.post j (some r') committed) := by
  apply h.post hs hj
  intro r₀ hr₀ hkey
  cases hr₀
  exact ⟨r', rfl, hkey'.trans hkey⟩

end

theorem releasePeakOf_reservations (l : Ledger) (r : Reservation) (what : String) :
    (l.releasePeakOf r what).reservations = l.reservations :=
  ((cleared_refl l 0).releasePeakOf r what).reservations

theorem rebuildPeak_reservations (l : Ledger) (r : Reservation) (what : String) :
    (if r.state = .rebuilding then l.releasePeakOf r what else l).reservations =
      l.reservations := by
  split
  · exact releasePeakOf_reservations l r what
  · rfl

theorem releaseOldest_reservations (l : Ledger) (relid : Nat) :
    (releaseOldestInsertReservation l relid).reservations = l.reservations := by
  obtain ⟨_, hs⟩ := releaseOldest_struck l relid
  exact hs.reservations

/-! ## Calls that leave it standing -/

/-- The record is that of a build: confirmed, handed off, or not finished. -/
def RecordKey.Pending (k : RecordKey) : Prop := k.state ≠ .resident

def RecordKey.Building (k : RecordKey) : Prop := k.state = .reserved ∨ k.state = .rebuilding

/-- The calls that neither finish the build of the record nor end its index's residency, and
reaps that do not take its owner for dead. A call for another index is always one. -/
def Spares (k : RecordKey) : Op → Prop
  | .confirmBuild relid _ _ => relid = k.relid → ¬ k.Building
  | .handoffBuild relid => relid = k.relid → k.state ≠ .confirmed
  | .abortBuild relid => relid ≠ k.relid
  | .reconcileLoad _ relid _ _ => relid ≠ k.relid
  | .accountUnload relid => relid ≠ k.relid
  | .reap dead => k.Building → ownerPidIsDead dead k.ownerPid k.reservedAt = false
  | _ => True

theorem key_ne_of_relid {relid : Nat} (h : r.relid = relid) (hne : relid ≠ k.relid) :
    keyOf r ≠ k := by
  rintro rfl
  exact hne h.symm

theorem key_ne_of_resident (h : r.state = .resident) (hp : k.Pending) : keyOf r ≠ k := by
  rintro rfl
  exact hp h

variable {dead : Nat → Nat → Bool}

theorem reapReservation_standing
    (hsp : k.Building → ownerPidIsDead dead k.ownerPid k.reservedAt = false) (l : Ledger)
    (i : Nat) (h : Standing k l) : Standing k (reapReservation dead l i) := by
  unfold reapReservation
  split
  · next r hi =>
    split
    · next hd =>
      have ho : keyOf r ≠ k := by
        rintro rfl
        have ha : ownerPidIsDead dead r.ownerPid r.reservedAt = false := hsp hd.1
        simp [ha] at hd
      have hs := releasePeakOf_reservations l r "a dead backend's build peak"
      split
      · exact h.post_other hs hi ho _ _
      · exact h.post_other hs hi ho _ _
    · exact h
  · exact h

theorem reapInsertReservation_standing (dead : Nat → Nat → Bool) (l : Ledger) (j : Nat)
    (h : Standing k l) : Standing k (reapInsertReservation dead l j) := by
  unfold reapInsertReservation
  split
  · split
    · exact h.congr rfl
    · exact h
  · exact h

theorem dropReservation_standing (hp : k.Pending) (live : List Nat) (p : Ledger × List Nat)
    (i : Nat) (h : Standing k p.1) : Standing k (dropReservation live p i).1 := by
  unfold dropReservation
  split
  · next r hi =>
    split
    · next hr =>
      exact h.post_other (by rfl) hi (key_ne_of_resident hr.1 hp) _ _
    · exact h
  · exact h

section
variable {k : RecordKey} {l : Ledger} (h : Standing k l)
include h

theorem reserveBuild_standing (hp : k.Pending) (pid now relid peak estimate ceiling : Nat) :
    Standing k (reserveBuild l pid now relid peak estimate ceiling).1 := by
  unfold reserveBuild
  split
  · exact h
  split
  · next i r hf =>
    obtain ⟨hi, -⟩ := findReservation_some hf
    split
    · exact h
    next hs =>
    -- only the record of a resident graph is turned into a rebuild's
    have ho := key_ne_of_resident (Classical.not_not.mp hs) hp
    dsimp only
    split
    · exact h.congr rfl
    split
    · exact h.congr rfl
    · exact h.post_other (by rfl) hi ho _ _
  · split
    · exact h
    split
    · exact h
    next i hfr =>
    split
    · exact h
    · exact h.post_free (by rfl) hfr _ _

variable {relid : Nat}

theorem confirmBuild_standing (hsp : relid = k.relid → ¬ k.Building) (peak measured : Nat) :
    Standing k (confirmBuild l relid peak measured).1 := by
  unfold confirmBuild
  split
  · exact h
  next i r hf =>
  obtain ⟨hi, hr⟩ := findReservation_some hf
  split
  · exact h
  next hs =>
  have ho : keyOf r ≠ k := by
    rintro rfl
    simp only [ne_eq, not_and_or, not_not] at hs
    exact hsp hr.symm hs
  dsimp only
  generalize (if r.state = .rebuilding then r.priorResidentBytes else r.estimateBytes) = prior
  split
  · exact h.post_other (by rfl) hi ho _ _
  split
  · exact h.post_other (by rfl) hi ho _ _
  · exact h.post_other (by rfl) hi ho _ _

theorem handoffBuild_standing (hs : relid = k.relid → k.state ≠ .confirmed) :
    Standing k (handoffBuild l relid).1 := by
  unfold handoffBuild
  split
  · exact h
  next i r hf =>
  obtain ⟨hi, hr⟩ := findReservation_some hf
  split
  · exact h
  next hst =>
  have ho : keyOf r ≠ k := by
    rintro rfl
    exact hs hr.symm (Classical.not_not.mp hst)
  exact h.post_other (by rfl) hi ho _ _

theorem abortBuild_standing (hne : relid ≠ k.relid) : Standing k (abortBuild l relid).1 := by
  unfold abortBuild
  split
  · exact h
  next i r hf =>
  obtain ⟨hi, hr⟩ := findReservation_some hf
  have ho := key_ne_of_relid hr hne
  have hs := releasePeakOf_reservations l r "a build peak"
  split
  · exact h
  split
  · exact h.post_other hs hi ho _ _
  · exact h.post_other hs hi ho _ _

theorem reconcileLoad_standing (hne : relid ≠ k.relid) (now measured headroom : Nat) :
    Standing k (reconcileLoad l now relid measured headroom).1 := by
  unfold reconcileLoad
  split
  · exact h
  split
  · next i r hf =>
    obtain ⟨hi, hr⟩ := findReservation_some hf
    dsimp only
    split
    · exact h.congr rfl
    · exact h.post_other (by exact rebuildPeak_reservations _ r _) hi (key_ne_of_relid hr hne) _ _
  · split
    · exact h
    split
    · exact h
    next i hfr => exact h.post_free (by rfl) hfr _ _

theorem accountUnload_standing (hne : relid ≠ k.relid) : Standing k (accountUnload l relid).1 := by
  unfold accountUnload
  split
  · exact h
  next i r hf =>
  obtain ⟨hi, hr⟩ := findReservation_some hf
  exact h.post_other (by exact rebuildPeak_reservations _ r _) hi (key_ne_of_relid hr hne) _ _

theorem reserveInsert_standing (pid now relid deltaBytes : Nat) :
    Standing k (reserveInsert l pid now relid deltaBytes).1 := by
  unfold reserveInsert
  split
  · exact h
  dsimp only
  generalize hr : (findReservation l.toEntry relid).filter
    (fun x => decide (x.2.capacityHeadroomVectors > 0)) = resident
  generalize (if resident.isSome then 0 else deltaBytes) = charge
  split
  · exact h
  split
  · exact h
  cases resident with
  | none => exact h.congr rfl
  | some x =>
    obtain ⟨hi, -⟩ := findReservation_some (filter_eq_some_iff.mp hr).1
    exact h.post_same (by rfl) hi (by rfl) _

theorem reanchorInsert_standing (relid measured : Nat) :
    Standing k (reanchorInsert l relid measured).1 := by
  unfold reanchorInsert
  split
  · exact h
  next i r hf =>
  obtain ⟨hi, -⟩ := findReservation_some hf
  have hr (what : String) : Standing k (l.release i (some r) r.measuredBytes what) :=
    h.post_same (by rfl) hi rfl _
  have hlt : i < l.reservations.length := (List.getElem?_eq_some_iff.mp hi).1
  refine (hr _).post_same (r := r) (by exact releaseOldest_reservations _ _) ?_ (by rfl) _
  simp [release, post, checkResidency, hlt]

theorem reconcileResident_standing (relid measured : Nat) (headroom : Option Nat) :
    Standing k (reconcileResident l relid measured headroom).1 := by
  unfold reconcileResident
  split
  · exact h
  next i r hf =>
  obtain ⟨hi, -⟩ := findReservation_some hf
  split
  · exact h
  · exact h.post_same (by rfl) hi (by rfl) _

theorem abortInsert_standing (pid relid : Nat) : Standing k (abortInsert l pid relid).1 := by
  unfold abortInsert
  split
  · exact h
  dsimp only
  split
  · exact h.congr rfl
  next i r hr =>
  obtain ⟨hi, -⟩ := findReservation_some (filter_eq_some_iff.mp hr).1
  exact h.post_same (by rfl) hi (by rfl) _

theorem creditAbortedInserts_standing (relid generation growth pct : Nat) :
    Standing k (creditAbortedInserts l relid generation growth pct).1 := by
  unfold creditAbortedInserts
  split
  · exact h
  next i r hf =>
  obtain ⟨hi, -⟩ := findReservation_some hf
  split
  · apply Standing.congr _ rfl
    exact h.post_same (by rfl) hi (by rfl) _
  · exact h

theorem reap_standing (hs : k.Building → ownerPidIsDead dead k.ownerPid k.reservedAt = false) :
    Standing k (reapEntryReservations dead l).1 := by
  apply run_keeps (Standing k) (reapInsertReservation_standing dead)
  exact run_keeps (Standing k) (reapReservation_standing hs) h _

theorem reconcileResidentReservations_standing (hp : k.Pending) (live : List Nat) :
    Standing k (reconcileResidentReservations live l).1 := by
  have hpa (slots : List Nat) : Standing k (run (dropReservation live) (l, []) slots).1 :=
    run_keeps (fun p : Ledger × List Nat => Standing k p.1)
      (dropReservation_standing hp live) h slots
  unfold reconcileResidentReservations
  dsimp only
  exact hpa (List.range vamanaMaxIndexes)

/-- The record of a build stands after every call that spares it. -/
theorem apply_standing (hp : k.Pending) {op : Op} (hs : Spares k op) :
    Standing k (op.apply l).1 := by
  cases op with
  | reserveBuild => exact reserveBuild_standing h hp _ _ _ _ _ _
  | confirmBuild => exact confirmBuild_standing h hs _ _
  | handoffBuild => exact handoffBuild_standing h hs
  | abortBuild => exact abortBuild_standing h hs
  | reconcileLoad => exact reconcileLoad_standing h hs _ _ _
  | accountUnload => exact accountUnload_standing h hs
  | reserveInsert => exact reserveInsert_standing h _ _ _ _
  | reanchorInsert => exact reanchorInsert_standing h _ _
  | reconcileResident => exact reconcileResident_standing h _ _ _
  | closeInsertReservation relid => exact h.congr (releaseOldest_reservations l relid)
  | abortInsert => exact abortInsert_standing h _ _
  | creditAbortedInserts => exact creditAbortedInserts_standing h _ _ _ _
  | reap => exact reap_standing h hs
  | reconcileResidentReservations => exact reconcileResidentReservations_standing h hp _

end

end svs_vamana.memory_records
