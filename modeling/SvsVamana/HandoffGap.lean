-- The hand-off of a build: until the worker has loaded it, its bytes are counted and no admission
-- takes them, unless the load replaces an entry of the cache.
import SvsVamana.MemoryBudget
import SvsVamana.VamanaCache

namespace svs_vamana.handoff_gap

open transition_runs slot_table residency_books memory_budget memory_records vamana_cache
open svs_memory hiding Event step

/-! ## The pure model -/

/-- The state of the record of a build that has been confirmed and not been loaded. -/
def heldState : Build → Option ReservationState
  | .confirmed => some .confirmed
  | .handedOff => some .handoff
  | _ => none

/-- The record is in the table as the build has left it, and the counter covers all records. -/
def Counted (relid : Nat) (s : Database) : Prop :=
  Covered s.ledger.toEntry ∧
    ∃ i r, findReservation s.ledger.toEntry relid = some (i, r) ∧ heldState s.build = some r.state

/-- A load of the index that is no larger than what it holds is accepted. -/
def Loadable (relid : Nat) (s : Database) : Prop :=
  ∃ i r, findReservation s.ledger.toEntry relid = some (i, r) ∧
    ∀ now measured headroom, measured ≤ contribution r →
      (reconcileLoad s.ledger now relid measured headroom).2 = .ok (.answer true)

/-- After the step a confirmed build is counted, and if it could be loaded before, or has just
been confirmed, it can be loaded, whatever else the step has admitted. -/
def NoGap (relid : Nat) (s : Database) (e : Event) : Prop :=
  (heldState (step relid s e).build).isSome →
    Counted relid (step relid s e) ∧
    ((∀ op, e = .other op → remeasures op = false) →
      ((heldState s.build).isSome → Loadable relid s) → Loadable relid (step relid s e))

/-- While a confirmed build waits for its load, no entry of its index leaves the cache. -/
def EntersAlone (relid : Nat) (s : Database) (e : Event) : Prop :=
  (heldState s.build).isSome → ¬ Unloads relid s e

deriving instance Decidable for EntersAlone

/-! ## The calls of a hand-off -/

variable (l : Ledger)

theorem reserveBuild_budget (pid now relid peak estimate ceiling : Nat) :
    succeeded (reserveBuild l pid now relid peak estimate ceiling).2 → l.residencyBudget ≠ 0 := by
  unfold reserveBuild
  split
  · simp [succeeded]
  · next hbu =>
    intro _
    exact hbu

theorem confirmBuild_confirmed (relid peak measured : Nat) :
    succeeded (confirmBuild l relid peak measured).2 →
    (∃ pid reservedAt, Standing ⟨relid, .confirmed, pid, reservedAt⟩
      (confirmBuild l relid peak measured).1) ∧ Within (confirmBuild l relid peak measured).1 := by
  unfold confirmBuild
  split
  · simp [succeeded]
  next i r hf =>
  obtain ⟨hi, rfl⟩ := findReservation_some hf
  have hlt : i < l.reservations.length := (List.getElem?_eq_some_iff.mp hi).1
  split
  · simp [succeeded]
  dsimp only
  generalize (if r.state = .rebuilding then r.priorResidentBytes else r.estimateBytes) = prior
  split
  · next hfi =>
    intro _
    exact ⟨⟨r.ownerPid, r.reservedAt, standing_posted (by exact hlt) _ _⟩, hfi⟩
  split
  · simp [succeeded]
  · simp [succeeded]

theorem handoffBuild_handedOff (relid : Nat) :
    succeeded (handoffBuild l relid).2 →
    ∃ pid reservedAt, Standing ⟨relid, .handoff, pid, reservedAt⟩ (handoffBuild l relid).1 := by
  unfold handoffBuild
  split
  · simp [succeeded]
  next i r hf =>
  obtain ⟨hi, rfl⟩ := findReservation_some hf
  have hlt : i < l.reservations.length := (List.getElem?_eq_some_iff.mp hi).1
  split
  · simp [succeeded]
  · intro _
    exact ⟨r.ownerPid, r.reservedAt, standing_posted (by exact hlt) _ _⟩

theorem reconcileLoad_refused (now relid measured headroom : Nat) :
    succeeded (reconcileLoad l now relid measured headroom).2 = false →
    (reconcileLoad l now relid measured headroom).1.reservations = l.reservations := by
  unfold reconcileLoad
  split
  · simp
  split
  · dsimp only
    split
    · intro _
      rfl
    · simp [succeeded]
  · split
    · simp
    split
    · simp
    · simp [succeeded]

variable {relid : Nat} {s : Database}

theorem loadable_iff (hbo : Books s.ledger) (hbu : s.ledger.residencyBudget ≠ 0) {i : Nat}
    {r : Reservation} (hf : findReservation s.ledger.toEntry relid = some (i, r)) :
    Loadable relid s ↔ Within s.ledger := by
  have hh : contribution r ≤ s.ledger.residencyBytesCommitted := by
    have hboo : booked r ≤ bookedBytes s.ledger.toEntry :=
      le_total (weight booked) (findReservation_some hf).1
    have hle := contribution_le_booked r
    have hc := hbo.covered
    unfold Covered at hc
    omega
  have ha (now measured headroom : Nat) :
      (reconcileLoad s.ledger now relid measured headroom).2 = .ok (.answer true) ↔
        s.ledger.residencyBytesCommitted - contribution r + measured ≤
          s.ledger.residencyBudget := by
    unfold reconcileLoad
    simp only [hbu, if_false, hf]
    split
    · next hex =>
      have hex' : s.ledger.residencyBudget <
          s.ledger.residencyBytesCommitted - contribution r + measured := hex
      simp [hex']
    · next hfi =>
      have hfi' : s.ledger.residencyBytesCommitted - contribution r + measured ≤
          s.ledger.residencyBudget := Nat.not_lt.mp hfi
      simp [hfi']
  unfold Within
  constructor
  · rintro ⟨j, r', hf', hl⟩
    obtain ⟨rfl, rfl⟩ : j = i ∧ r' = r := by simpa [hf'] using hf
    have hfi := (ha 0 (contribution r') 0).mp (hl 0 _ 0 (Nat.le_refl _))
    omega
  · intro hw
    refine ⟨i, r, hf, ?_⟩
    intro now measured headroom hm
    rw [ha]
    omega

/-! ## The law -/

structure Inv (relid : Nat) (s : Database) : Prop where
  books : Books s.ledger
  admitted : s.build ≠ .none → s.ledger.residencyBudget ≠ 0
  stands : ∀ state, heldState s.build = some state →
    ∃ pid reservedAt, Standing ⟨relid, state, pid, reservedAt⟩ s.ledger

variable {state : ReservationState}

theorem heldState_some {build : Build} (h : heldState build = some state) :
    build = .confirmed ∧ state = .confirmed ∨ build = .handedOff ∧ state = .handoff := by
  cases build <;> simp_all [heldState]

theorem step_admitted (e : Event) (h : Inv relid s) (hs : (step relid s e).build ≠ .none) :
    s.ledger.residencyBudget ≠ 0 := by
  have ha := step_advance relid s e
  generalize hbu : (step relid s e).build = build at ha hs
  cases ha with
  | same => exact h.admitted hs
  | granted pid now peak estimate ceiling _ _ hok =>
    exact reserveBuild_budget s.ledger pid now relid peak estimate ceiling hok
  | confirmed _ _ _ _ hbe | handedOff hbe => exact h.admitted (by simp [hbe])
  | settled hbe => exact h.admitted hbe
  | ended => exact absurd rfl hs

variable {e : Event}

theorem held_standing (hok : EntersAlone relid s e) (hle : Leaves relid s e)
    (hs : heldState s.build = some state) {pid reservedAt : Nat}
    (h : Standing ⟨relid, state, pid, reservedAt⟩ s.ledger) :
    Standing ⟨relid, state, pid, reservedAt⟩ (step relid s e).ledger := by
  have hp := heldState_some hs
  have hu : ¬ Unloads relid s e := hok (by simp [hs])
  by_cases hlo : Loads relid s e
  · -- its own load is not accepted, or else the hand-off were over
    cases e with
    | endLoad now populated =>
      obtain ⟨load, hl, rfl⟩ := hlo
      have hh : s.build = .confirmed ∨ s.build = .handedOff := by tauto
      have hr := hle.load now populated rfl load hl rfl hh
      apply h.congr
      have hl' : s.loading = some load := hl
      rw [step_ledger]
      simp only [callOf, hl', Option.map_some, booksAfter]
      exact reconcileLoad_refused _ _ _ _ _ hr
    | _ => exact absurd hlo id
  · apply step_standing h
    · obtain ⟨-, rfl⟩ | ⟨-, rfl⟩ := hp <;> simp [RecordKey.Pending]
    · intro op hop
      apply callOf_spares rfl _ _ hle hu hlo hop
      · obtain ⟨hbu, -⟩ | ⟨hbu, -⟩ := hp <;> simp [hbu]
      · obtain ⟨-, rfl⟩ | ⟨-, rfl⟩ := hp <;> simp [RecordKey.Building]

theorem step_inv (h : Inv relid s) (hok : EntersAlone relid s e) : Inv relid (step relid s e) where
  books := (step_books h.books e).1
  admitted := by
    intro hst
    rw [(step_books h.books e).2]
    exact step_admitted e h hst
  stands := by
    have ha := step_advance relid s e
    generalize (step relid s e).build = build at ha
    intro state hs
    cases ha with
    | same hl =>
      obtain ⟨pid, reservedAt, hsta⟩ := h.stands state hs
      exact ⟨pid, reservedAt, held_standing hok hl hs hsta⟩
    | granted => cases hs
    | confirmed pid reservedAt peak measured hbu hc hco =>
      cases hs
      rw [step_ledger, hc]
      exact (confirmBuild_confirmed s.ledger relid peak measured hco).1
    | handedOff hbu hc hh =>
      cases hs
      rw [step_ledger, hc]
      exact handoffBuild_handedOff s.ledger relid hh
    | settled => cases hs
    | ended => cases hs

theorem held_find (h : Inv relid s) (hh : (heldState s.build).isSome) :
    ∃ i r, findReservation s.ledger.toEntry relid = some (i, r) ∧
      heldState s.build = some r.state := by
  obtain ⟨state, hs⟩ := Option.isSome_iff_exists.mp hh
  obtain ⟨pid, reservedAt, hst⟩ := h.stands state hs
  obtain ⟨i, r, hf, hkey⟩ := hst.find h.books.distinct
  simp only [keyOf, RecordKey.mk.injEq] at hkey
  exact ⟨i, r, hf, hs.trans (by rw [hkey.2.1])⟩

theorem held_loadable (h : Inv relid s) (hh : (heldState s.build).isSome) :
    Loadable relid s ↔ Within s.ledger := by
  obtain ⟨i, r, hf, -⟩ := held_find h hh
  apply loadable_iff h.books (h.admitted _) hf
  intro hn
  simp [hn, heldState] at hh

theorem callOf_admits (he : ∀ op, e = .other op → remeasures op = false) {op : Op}
    (hop : callOf relid s e = some op) : remeasures op = false := by
  cases e with
  | other op' =>
    simp only [callOf] at hop
    split at hop
    · cases hop
      exact he op rfl
    · cases hop
  | endLoad =>
    simp only [callOf, Option.map_eq_some_iff] at hop
    obtain ⟨load, -, rfl⟩ := hop
    rfl
  | endBuild => cases hop
  | restart => cases hop
  | _ =>
    simp only [callOf] at hop
    split at hop <;> cases hop
    rfl

theorem step_within (he : ∀ op, e = .other op → remeasures op = false) (h : Within s.ledger) :
    Within (step relid s e).ledger := by
  rw [step_ledger]
  cases hc : callOf relid s e with
  | none => exact h
  | some op => exact apply_within h (callOf_admits he hc)

/-- A build that is held after a step was held before it, or has been confirmed within the
budget. -/
theorem held_before (h : (heldState (step relid s e).build).isSome) :
    (heldState s.build).isSome ∨ Within (step relid s e).ledger := by
  have ha := step_advance relid s e
  generalize (step relid s e).build = build at ha h
  cases ha with
  | same => exact .inl h
  | granted => cases h
  | confirmed pid reservedAt peak measured hbu hca hc =>
    refine .inr ?_
    rw [step_ledger, hca]
    exact (confirmBuild_confirmed s.ledger relid peak measured hc).2
  | handedOff hbu => exact .inl (by simp [hbu, heldState])
  | settled => cases h
  | ended => cases h

theorem step_noGap (h : Inv relid s) (hok : EntersAlone relid s e) : NoGap relid s e := by
  intro hh
  have hinv := step_inv h hok
  refine ⟨⟨hinv.books.covered, held_find hinv hh⟩, ?_⟩
  intro ha hbe
  rw [held_loadable hinv hh]
  obtain hh' | hw := held_before hh
  · exact step_within ha ((held_loadable h hh').mp (hbe hh'))
  · exact hw

/-- In every run in which no entry of the index leaves the cache while a confirmed build waits for
its load, the build's bytes are counted and its load is not refused for another admission. -/
theorem a_confirmed_build_is_counted_until_its_load (relid residencyBudget total : Nat)
    (es : List Event)
    (h : EachStep (step relid) (EntersAlone relid) (start residencyBudget total) es) :
    EachStep (step relid) (NoGap relid) (start residencyBudget total) es := by
  have hst : Inv relid (start residencyBudget total) := by
    refine ⟨start_books residencyBudget total, fun hbu => absurd rfl hbu, ?_⟩
    intro state hsta
    cases hsta
  exact eachStep_invariant (Inv relid) (fun s e hs hok => step_inv hs hok)
    (fun s e hs hok => step_noGap hs hok) hst h

/-- An index is built, confirmed and handed off. -/
def handedOver : List Event :=
  [.reserveBuild 42 1 30 60 1000, .confirmBuild 60, .handoffBuild]

/-- Another build asks for bytes between the steps of its load. -/
theorem a_first_load_has_no_gap :
    EachStep (step 7) (NoGap 7) (start 100 0)
      (handedOver ++ [.beginLoad ⟨7, 60, 0⟩, .other (.reserveBuild 44 2 8 10 80 1000),
        .endLoad 3 true]) :=
  a_confirmed_build_is_counted_until_its_load 7 100 0 _ (by decide +kernel)

/-- The load of a rebuilt graph unloads the old one and with it the record of the hand-off; another
build is admitted to the bytes, and the load is refused. -/
def replaced : List Event :=
  [.beginLoad ⟨7, 60, 0⟩, .endLoad 0 true] ++ handedOver ++
    [.beginLoad ⟨7, 60, 0⟩, .other (.reserveBuild 44 2 8 10 80 1000)]

theorem a_load_that_replaces_an_entry_opens_a_gap :
    ¬ EachStep (step 7) (NoGap 7) (start 100 0) replaced ∧
    (run (step 7) (start 100 0) replaced).build = .handedOff ∧
    (run (step 7) (start 100 0) replaced).succeeds (.reconcileLoad 3 7 60 0) = false := by
  refine ⟨?_, by decide +kernel, by decide +kernel⟩
  intro h
  obtain ⟨⟨-, i, r, hf, -⟩, -⟩ := h.2.2.2.2.2.1 (by decide +kernel)
  have hg : findReservation
      (run (step 7) (start 100 0) (replaced.take 6)).ledger.toEntry 7 = none := by
    decide +kernel
  cases hg.symm.trans hf

end svs_vamana.handoff_gap
