-- Rebuilds and evictions: an admitted build is still pending when it is confirmed, as long as the
-- cache does not let go of its index meanwhile.
import SvsVamana.VamanaCache

namespace svs_vamana.rebuild_eviction

open transition_runs slot_table residency_books memory_records vamana_cache
open svs_memory hiding Event step

/-! ## The pure model -/

/-- The answer of `SvsMemoryConfirmBuild` where nothing but the budget can refuse. -/
def budgetTest (l : Ledger) (r : Reservation) (measured : Nat) : Bool :=
  decide (l.residencyBytesCommitted - contribution r + measured ≤ l.residencyBudget)

/-- While the index is built its record is the one that the builder reserved, RESERVED or
REBUILDING, and a confirmation of it is refused by the budget test only. -/
def StaysPending (relid : Nat) (s : Database) : Prop :=
  ∀ pid reservedAt buildPeak, s.build = .building pid reservedAt buildPeak →
    ∃ i r, findReservation s.ledger.toEntry relid = some (i, r) ∧ r.Building ∧
      r.ownerPid = pid ∧ r.reservedAt = reservedAt ∧
      ∀ measured, (confirmBuild s.ledger relid buildPeak measured).2 =
        .ok (.answer (budgetTest s.ledger r measured))

def isBuilding : Build → Bool
  | .building _ _ _ => true
  | _ => false

/-- While the index is built, its entry does not leave the cache and no load of it is
reconciled. -/
def LeavesBuildAlone (relid : Nat) (s : Database) (e : Event) : Prop :=
  isBuilding s.build → ¬ Unloads relid s e ∧ ¬ Loads relid s e

deriving instance Decidable for LeavesBuildAlone

/-! ## Reservations and confirmations -/

theorem reserveBuild_granted (l : Ledger) (pid now relid peak estimate ceiling : Nat) :
    succeeded (reserveBuild l pid now relid peak estimate ceiling).2 →
    ∃ state, (state = .reserved ∨ state = .rebuilding) ∧
      Standing ⟨relid, state, pid, now⟩ (reserveBuild l pid now relid peak estimate ceiling).1 := by
  unfold reserveBuild
  split
  · simp [succeeded]
  split
  · next i r hf =>
    obtain ⟨hi, rfl⟩ := findReservation_some hf
    have hlt : i < l.reservations.length := (List.getElem?_eq_some_iff.mp hi).1
    split
    · simp [succeeded]
    dsimp only
    split
    · simp [succeeded]
    split
    · simp [succeeded]
    · intro _
      exact ⟨.rebuilding, .inr rfl, standing_posted (by exact hlt) _ _⟩
  · split
    · simp [succeeded]
    split
    · simp [succeeded]
    next i hfr =>
    have hlt : i < l.reservations.length := (List.getElem?_eq_some_iff.mp (free_some hfr)).1
    split
    · simp [succeeded]
    · intro _
      exact ⟨.reserved, .inl rfl, standing_posted (by exact hlt) _ _⟩

variable {relid i : Nat}

theorem confirmBuild_answer {l : Ledger} {r : Reservation}
    (hf : findReservation l.toEntry relid = some (i, r)) (hbu : r.Building) (peak measured : Nat) :
    (confirmBuild l relid peak measured).2 = .ok (.answer (budgetTest l r measured)) := by
  have hp : ¬ (r.state ≠ .reserved ∧ r.state ≠ .rebuilding) := by
    obtain h | h := hbu <;> simp [h]
  have hpr : (if r.state = .rebuilding then r.priorResidentBytes else r.estimateBytes) =
      contribution r := by
    obtain h | h := hbu <;> simp [contribution, h]
  unfold confirmBuild
  simp only [hf, hp, if_false, hpr]
  split
  · next hfi =>
    have ht : budgetTest l r measured = true := by
      unfold budgetTest
      exact decide_eq_true hfi
    simp [ht]
  · next hex =>
    have ht : budgetTest l r measured = false := by
      unfold budgetTest
      exact decide_eq_false hex
    split <;> simp [ht]

/-! ## The law -/

structure Inv (relid : Nat) (s : Database) : Prop where
  books : Books s.ledger
  stands : ∀ pid reservedAt peak, s.build = .building pid reservedAt peak →
    ∃ state, (state = .reserved ∨ state = .rebuilding) ∧
      Standing ⟨relid, state, pid, reservedAt⟩ s.ledger

theorem step_inv {s : Database} {e : Event} (h : Inv relid s)
    (hok : LeavesBuildAlone relid s e) : Inv relid (step relid s e) where
  books := (step_books h.books e).1
  stands := by
    intro pid reservedAt peak hbui
    have ha := step_advance relid s e
    rw [hbui] at ha
    generalize hbu : Build.building pid reservedAt peak = build at ha
    cases ha with
    | same hl =>
      -- the build goes on: its record is spared
      obtain ⟨state, hs, hst⟩ := h.stands pid reservedAt peak hbu.symm
      obtain ⟨hu, hlo⟩ := hok (by simp [isBuilding, ← hbu])
      have hp : (RecordKey.mk relid state pid reservedAt).Pending := by
        obtain rfl | rfl := hs <;> simp [RecordKey.Pending]
      refine ⟨state, hs, step_standing hst hp ?_⟩
      intro op hop
      exact callOf_spares rfl (by simp [← hbu]) (fun _ => ⟨peak, hbu.symm⟩) hl hu hlo hop
    | granted pid now peak estimate ceiling hn hc hg =>
      cases hbu
      rw [step_ledger, hc]
      exact reserveBuild_granted s.ledger _ _ relid _ estimate ceiling hg
    | confirmed | handedOff | settled | ended => cases hbu

theorem stays_pending {s : Database} (h : Inv relid s) : StaysPending relid s := by
  intro pid reservedAt peak hbu
  obtain ⟨state, hsta, hst⟩ := h.stands pid reservedAt peak hbu
  obtain ⟨i, r, hf, hkey⟩ := hst.find h.books.distinct
  simp only [keyOf, RecordKey.mk.injEq] at hkey
  obtain ⟨-, hs, ho, hr⟩ := hkey
  have hp : r.Building := by
    obtain rfl | rfl := hsta
    · exact .inl hs
    · exact .inr hs
  exact ⟨i, r, hf, hp, ho, hr, confirmBuild_answer hf hp peak⟩

/-- In every run that leaves the cache entry of the index alone during its builds, an admitted build
is pending until it is confirmed, and only the budget can refuse it. -/
theorem an_admitted_rebuild_stays_pending (relid residencyBudget total : Nat) (es : List Event)
    (h : EachStep (step relid) (LeavesBuildAlone relid) (start residencyBudget total) es) :
    EachState (step relid) (StaysPending relid) (start residencyBudget total) es := by
  have hst : Inv relid (start residencyBudget total) := by
    refine ⟨start_books residencyBudget total, ?_⟩
    intro pid reservedAt peak hbu
    cases hbu
  exact eachState_invariant (Inv relid) (fun s e hs hok => step_inv hs hok)
    (fun s hs => stays_pending hs) hst h

/-- The index is loaded, and a REINDEX of it is admitted. -/
def reindexed : List Event :=
  [.beginLoad ⟨7, 60, 0⟩, .endLoad 1 true, .reserveBuild 42 2 30 60 1000]

/-- Inserts into the index, another build and an eviction of another index go on beside the
rebuild. -/
theorem a_rebuild_beside_others_stays_pending :
    EachState (step 7) (StaysPending 7) (start 100 0)
      (reindexed ++ [.other (.reserveInsert 43 3 7 5), .other (.reserveBuild 44 4 8 10 10 1000),
        .evict 8, .confirmBuild 70]) :=
  an_admitted_rebuild_stays_pending 7 100 0 _ (by decide +kernel)

/-- The worker evicts the index while it is rebuilt: the REBUILDING record is gone, and the build
fails though its measured size fits the budget. -/
theorem an_eviction_takes_the_rebuild_down :
    ¬ EachState (step 7) (StaysPending 7) (start 100 0) (reindexed ++ [.evict 7]) ∧
    (confirmBuild (run (step 7) (start 100 0) (reindexed ++ [.evict 7])).ledger 7 30 60).2 =
      .error .noPendingBuild := by
  have hg : findReservation
      (run (step 7) (start 100 0) (reindexed ++ [.evict 7])).ledger.toEntry 7 = none := by
    decide +kernel
  have hbu : (run (step 7) (start 100 0) (reindexed ++ [.evict 7])).build =
      .building 42 2 30 := by
    decide +kernel
  constructor
  · intro h
    obtain ⟨i, r, hf, -⟩ := h.2.2.2.2 42 2 30 hbu
    cases hg.symm.trans hf
  · decide +kernel

end svs_vamana.rebuild_eviction
