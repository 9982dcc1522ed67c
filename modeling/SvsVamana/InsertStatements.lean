-- The insert statements of any number of backends into one index. The worker releases one pending
-- reservation for each insert that it applies, whosever that is.
import Mathlib.Logic.Function.Basic
import SvsVamana.ResidencyBooks

namespace svs_vamana.insert_statements

open transition_runs slot_table svs_memory residency_books Ledger Option

/-! ## The pure model -/

/-- Where the request of an insert is: with its backend, in the slot, with the worker, or
answered with DONE or ERROR. -/
inductive RequestState
  | unsent
  | pending
  | processing
  | answered (done : Bool)
deriving DecidableEq, Repr

/-- An insert that got its reservation. `running` says whether its statement is still in
`vamanainsert`, `applied` whether the worker has released a reservation for it. -/
structure Insert where
  pid : Nat
  againstHeadroom : Bool
  request : RequestState := .unsent
  running : Bool := true
  applied : Bool := false
deriving DecidableEq, Repr

/-- The control block and all inserts so far. The rest is history: the installed headroom, the
vectors added against it, and the slots taken since. -/
structure State where
  ledger : Ledger
  inserts : List Insert := []
  installed : Nat := 0
  added : Nat := 0
  taken : Nat → Bool := fun _ => false

open State

def headroom (l : Ledger) (relid : Nat) : Nat :=
  ((findReservation l.toEntry relid).map fun x => x.2.capacityHeadroomVectors).getD 0

def start (l : Ledger) (relid : Nat) : State := { ledger := l, installed := headroom l relid }

inductive Event
  | reserve (pid now deltaBytes : Nat)
  | submit (n : Nat)
  | take (n : Nat)
  | reanchor (n measuredBytes : Nat)
  | close (n : Nat)
  | answer (n : Nat) (done : Bool)
  | finish (n : Nat)
  | giveUp (n : Nat)
  | exit (n : Nat)
  | load (now measuredBytes capacityHeadroomVectors : Nat)
  | reconcile (measuredBytes : Nat) (capacityHeadroomVectors : Option Nat)
  | reap (dead : Nat → Nat → Bool)

namespace State

def setInsert (s : State) (n : Nat) (x : Insert) : State :=
  { s with inserts := s.inserts.set n x }

/-- `SvsMemoryReserveInsert`, by a backend that has no other insert running. -/
def reserve (relid : Nat) (s : State) (pid now deltaBytes : Nat) : State :=
  if s.inserts.any fun x => x.pid == pid && x.running then s else
  match reserveInsert s.ledger pid now relid deltaBytes, free s.ledger.insertReservations with
  | (l, .ok (.answer true)), some j =>
    { s with
      ledger := l
      inserts := s.inserts ++ [{ pid, againstHeadroom := decide (0 < headroom s.ledger relid) }]
      taken := Function.update s.taken j true }
  | (l, _), _ => { s with ledger := l }

/-- The request goes to the backend's slot, unless an earlier one is still in it. -/
def submit (s : State) (n : Nat) (x : Insert) : State :=
  if x.running ∧ x.request = .unsent ∧
      ¬ s.inserts.any fun y => y.pid == x.pid && (y.request == .pending || y.request == .processing)
  then s.setInsert n { x with request := .pending }
  else s

def take (s : State) (n : Nat) (x : Insert) : State :=
  if x.request = .pending then s.setInsert n { x with request := .processing } else s

/-- The worker has the insert in hand and has not released a reservation for it. -/
def InHand (x : Insert) : Prop := x.request = .processing ∧ x.applied = false

deriving instance Decidable for InHand

/-- The worker has added the vector and calls `SvsMemoryReanchorInsert`. -/
def reanchor (relid : Nat) (s : State) (n measuredBytes : Nat) (x : Insert) : State :=
  if InHand x then
    match reanchorInsert s.ledger relid measuredBytes with
    | (l, .ok _) =>
      { s.setInsert n { x with applied := true } with
        ledger := l
        added := s.added + if x.againstHeadroom then 1 else 0 }
    | (l, .error _) => { s with ledger := l }
  else s

/-- The worker has built the graph from this insert's vector and accounted for it by a load; it
now calls `SvsMemoryCloseInsertReservation`. -/
def close (relid : Nat) (s : State) (n : Nat) (x : Insert) : State :=
  if InHand x then
    { s.setInsert n { x with applied := true } with
      ledger := (closeInsertReservation s.ledger relid).1 }
  else s

/-- DONE is only written for an insert that was applied; an error may come before or after. -/
def answer (s : State) (n : Nat) (done : Bool) (x : Insert) : State :=
  if x.request = .processing ∧ (done = true → x.applied = true) then
    s.setInsert n { x with request := .answered done }
  else s

/-- The statement ends with an error: `SvsMemoryAbortInsert`. -/
def abort (relid : Nat) (s : State) (n : Nat) (x : Insert) : State :=
  { s.setInsert n { x with running := false } with ledger := (abortInsert s.ledger x.pid relid).1 }

def finish (relid : Nat) (s : State) (n : Nat) (x : Insert) : State :=
  if x.running then
    match x.request with
    | .answered true => s.setInsert n { x with running := false }
    | .answered false => s.abort relid n x
    | _ => s
  else s

/-- A timeout, a cancel or another error in the submit. Only a pending request is taken back. -/
def giveUp (relid : Nat) (s : State) (n : Nat) (x : Insert) : State :=
  if x.running then
    s.abort relid n
      { x with request := if x.request = .pending then .unsent else x.request }
  else s

def exit (s : State) (n : Nat) (x : Insert) : State :=
  if x.running then s.setInsert n { x with running := false } else s

def measured (s : State) (l : Ledger) (capacityHeadroomVectors : Nat) : State :=
  { s with
    ledger := l
    installed := capacityHeadroomVectors
    added := 0
    taken := fun _ => false }

/-- `SvsMemoryReconcileLoad`. -/
def load (relid : Nat) (s : State) (now measuredBytes capacityHeadroomVectors : Nat) : State :=
  match reconcileLoad s.ledger now relid measuredBytes capacityHeadroomVectors with
  | (l, .ok (.answer true)) => s.measured l capacityHeadroomVectors
  | (l, _) => { s with ledger := l }

/-- `SvsMemoryReconcileResident`. Without a headroom the one of the last measurement stays. -/
def reconcile (relid : Nat) (s : State) (measuredBytes : Nat)
    (capacityHeadroomVectors : Option Nat) : State :=
  match reconcileResident s.ledger relid measuredBytes capacityHeadroomVectors,
    capacityHeadroomVectors with
  | (l, .ok _), some n => s.measured l n
  | (l, _), _ => { s with ledger := l }

def withInsert (s : State) (n : Nat) (f : Insert → State) : State :=
  match s.inserts[n]? with
  | some x => f x
  | none => s

end State

def step (relid : Nat) (s : State) : Event → State
  | .reserve pid now deltaBytes => s.reserve relid pid now deltaBytes
  | .submit n => s.withInsert n (s.submit n)
  | .take n => s.withInsert n (s.take n)
  | .reanchor n measuredBytes => s.withInsert n (s.reanchor relid n measuredBytes)
  | .close n => s.withInsert n (s.close relid n)
  | .answer n done => s.withInsert n (s.answer n done)
  | .finish n => s.withInsert n (s.finish relid n)
  | .giveUp n => s.withInsert n (s.giveUp relid n)
  | .exit n => s.withInsert n (s.exit n)
  | .load now measuredBytes capacityHeadroomVectors =>
    s.load relid now measuredBytes capacityHeadroomVectors
  | .reconcile measuredBytes capacityHeadroomVectors =>
    s.reconcile relid measuredBytes capacityHeadroomVectors
  | .reap dead => { s with ledger := (reapEntryReservations dead s.ledger).1 }

/-! ## What the calls leave -/

/-- The state and the headroom of the record of an index. -/
def standing (l : Ledger) (relid : Nat) : Option (ReservationState × Nat) :=
  (findReservation l.toEntry relid).map fun x => (x.2.state, x.2.capacityHeadroomVectors)

theorem headroom_eq (l : Ledger) (relid : Nat) :
    headroom l relid = ((standing l relid).map (·.2)).getD 0 := by
  simp [headroom, standing, map_map, Function.comp_def]

variable {l : Ledger} {relid : Nat} {r : Reservation}

variable {i : Nat}

theorem standing_found (h : findReservation l.toEntry relid = some (i, r)) :
    standing l relid = some (r.state, r.capacityHeadroomVectors) := by
  simp [standing, h]

variable {l' : Ledger}

theorem standing_congr (h : l'.reservations = l.reservations) (relid : Nat) :
    standing l' relid = standing l relid := by
  simp [standing, findReservation, h]

theorem standing_post {r' : Reservation} (h : findReservation l.toEntry relid = some (i, r))
    (hset : l'.reservations = l.reservations.set i (some r')) (hkey : r'.relid = r.relid) :
    standing l' relid = some (r'.state, r'.capacityHeadroomVectors) := by
  have hr := (findReservation_some h).2
  have hf : findReservation l'.toEntry relid = some (i, r') := by
    unfold findReservation at h ⊢
    rw [hset]
    apply find_set_found h
    simp [hkey, hr]
  exact standing_found hf

/-- It was written to a block that differs from the first one in this record only. -/
theorem standing_written {l₁ : Ledger} (h : findReservation l.toEntry relid = some (i, r))
    (hr : ∀ slot, l₁.reservations.set i slot = l.reservations.set i slot) (r' : Reservation)
    (committed : Nat) (hkey : r'.relid = r.relid) :
    standing (l₁.post i (some r') committed) relid = some (r'.state, r'.capacityHeadroomVectors) :=
  standing_post h (hr (some r')) hkey

/-- What a granted insert leaves. -/
structure Granted (relid pid : Nat) (l l' : Ledger) (j : Nat) : Prop where
  slot : free l.insertReservations = some j
  inserts : ∃ now charge, l'.insertReservations = l.insertReservations.set j
    (some ⟨relid, pid, now, charge, decide (0 < headroom l relid)⟩)
  standing : standing l' relid = (standing l relid).map fun x => (x.1, x.2 - 1)

section

variable (l : Ledger)

theorem reserveInsert_spec (pid now relid deltaBytes : Nat) :
    (∃ j, Granted relid pid l (reserveInsert l pid now relid deltaBytes).1 j) ∧
        (reserveInsert l pid now relid deltaBytes).2 = .ok (.answer true) ∨
      (reserveInsert l pid now relid deltaBytes).1 = l ∧
        (reserveInsert l pid now relid deltaBytes).2 ≠ .ok (.answer true) := by
  unfold reserveInsert
  split
  · exact .inr ⟨rfl, nofun⟩
  extract_lets resident charge
  have hre : resident =
      (findReservation l.toEntry relid).filter fun x => x.2.capacityHeadroomVectors > 0 := rfl
  clear_value resident charge
  split
  · exact .inr ⟨rfl, nofun⟩
  split
  · exact .inr ⟨rfl, nofun⟩
  next j hfr =>
  left
  cases hr : resident with
  | none =>
    have hz : ∀ x, findReservation l.toEntry relid = some x →
        x.2.capacityHeadroomVectors = 0 := by
      intro x hx
      rw [hr, hx] at hre
      simpa [Option.filter] using hre.symm
    have hn : headroom l relid = 0 := by
      unfold headroom
      cases hf : findReservation l.toEntry relid with
      | none => simp
      | some x => simp [hz x hf]
    refine ⟨⟨j, hfr, ⟨now, charge, by simp [hn, postInsert]⟩, ?_⟩, rfl⟩
    rw [standing_congr (l := l) (by rfl)]
    unfold standing
    cases hf : findReservation l.toEntry relid with
    | none => simp
    | some x => simp [hz x hf]
  | some x =>
    obtain ⟨i, r⟩ := x
    rw [hr] at hre
    obtain ⟨hf, hpos⟩ := filter_eq_some_iff.mp hre.symm
    have hs : 0 < headroom l relid := by simpa [headroom, hf] using hpos
    refine ⟨⟨j, hfr, ⟨now, charge, by simp [hs, postInsert, post]⟩, ?_⟩, rfl⟩
    rw [standing_found hf]
    refine (standing_post hf (by rfl) (by rfl)).trans ?_
    simp

theorem releaseOldest_inserts (relid : Nat) :
    (releaseOldestInsertReservation l relid).insertReservations =
      strike l.insertReservations (findOldestInsertReservation l.toEntry relid) := by
  unfold releaseOldestInsertReservation
  split
  · next h => simp [h, strike]
  · next h => simp [h, strike, releaseInsert, postInsert, checkResidency]

theorem releaseOldest_standing (relid : Nat) :
    standing (releaseOldestInsertReservation l relid) relid = standing l relid := by
  obtain ⟨_, hs⟩ := releaseOldest_struck l relid
  exact standing_congr hs.reservations relid

/-- A reanchor strikes out the oldest pending insert of the index, or finds no record. -/
theorem reanchorInsert_spec (relid measured : Nat) :
    ((reanchorInsert l relid measured).1.insertReservations =
          strike l.insertReservations (findOldestInsertReservation l.toEntry relid) ∧
        standing (reanchorInsert l relid measured).1 relid = standing l relid ∧
        (standing l relid).isSome ∧ ∃ reply, (reanchorInsert l relid measured).2 = .ok reply) ∨
      standing l relid = none ∧ (reanchorInsert l relid measured).1 = l ∧
        ∃ err, (reanchorInsert l relid measured).2 = .error err := by
  unfold reanchorInsert
  cases hf : findReservation l.toEntry relid with
  | none => exact .inr ⟨by simp [standing, hf], rfl, _, rfl⟩
  | some x =>
    obtain ⟨i, r⟩ := x
    have hi := (findReservation_some hf).1
    left
    refine ⟨?_, ?_, by simp [standing, hf], _, rfl⟩
    · exact releaseOldest_inserts
        (l.release i (some r) r.measuredBytes "an index's pre-reanchor residency") relid
    · rw [standing_found hf]
      obtain ⟨_, hs⟩ := releaseOldest_struck
        (l.release i (some r) r.measuredBytes "an index's pre-reanchor residency") relid
      have hr : (releaseOldestInsertReservation (l.release i (some r) r.measuredBytes
          "an index's pre-reanchor residency") relid).reservations =
            l.reservations.set i (some r) := by
        rw [hs.reservations]
        rfl
      have hset : ∀ slot, (releaseOldestInsertReservation (l.release i (some r) r.measuredBytes
          "an index's pre-reanchor residency") relid).reservations.set i slot =
            l.reservations.set i slot := by
        intro slot
        rw [hr, List.set_set]
      exact standing_written hf hset _ _ rfl

/-- What an abort gives back of the headroom: the unit of the reservation it finds. -/
def ownUnit (l : Ledger) (relid pid : Nat) : Nat :=
  match findInsertReservationByOwner l.toEntry relid pid with
  | some (_, r) => if r.consumedHeadroom then 1 else 0
  | none => 0

theorem abortInsert_spec (pid relid : Nat) :
    (abortInsert l pid relid).1.insertReservations =
        strike l.insertReservations (findInsertReservationByOwner l.toEntry relid pid) ∧
      standing (abortInsert l pid relid).1 relid =
        (standing l relid).map fun x => (x.1, x.2 + ownUnit l relid pid) := by
  unfold abortInsert ownUnit
  cases hown : findInsertReservationByOwner l.toEntry relid pid with
  | none => simp [strike]
  | some x =>
    obtain ⟨j, r⟩ := x
    dsimp only
    have hs : findReservation
        (l.releaseInsert j r.deltaBytes "an aborted pending insert reservation").toEntry relid =
        findReservation l.toEntry relid := rfl
    rw [hs]
    cases hf : findReservation l.toEntry relid with
    | none =>
      refine ⟨rfl, ?_⟩
      simp only [standing, hf, filter_none, hs, map_none]
    | some y =>
      obtain ⟨i, resident⟩ := y
      cases hc : r.consumedHeadroom with
      | false =>
        simp only [filter_some, Bool.false_eq_true, if_false]
        refine ⟨rfl, ?_⟩
        simp only [standing, hf, hs, map_some, Nat.add_zero]
      | true =>
        refine ⟨rfl, ?_⟩
        rw [standing_found hf]
        refine (standing_post hf (by rfl) (by rfl)).trans ?_
        simp

theorem reconcileLoad_spec (now relid measured capacity : Nat) :
    (reconcileLoad l now relid measured capacity).1.insertReservations = l.insertReservations ∧
      ((reconcileLoad l now relid measured capacity).2 = .ok (.answer true) ∧
          standing (reconcileLoad l now relid measured capacity).1 relid =
            some (.resident, capacity) ∨
        (reconcileLoad l now relid measured capacity).2 ≠ .ok (.answer true) ∧
          standing (reconcileLoad l now relid measured capacity).1 relid = standing l relid) := by
  unfold reconcileLoad
  split
  · exact ⟨rfl, .inr ⟨by simp, rfl⟩⟩
  cases hf : findReservation l.toEntry relid with
  | some x =>
    obtain ⟨i, r⟩ := x
    dsimp only
    split
    · exact ⟨rfl, .inr ⟨by simp, standing_congr (by rfl) relid⟩⟩
    generalize hch : l.checkResidency (contribution r) "a load reconcile's prior contribution" = l₁
    have hc : Cleared l₁ (if r.state = .rebuilding then l₁.releasePeakOf r "a build peak"
        else l₁) 0 (if r.state = .rebuilding then r.buildPeakBytes else 0) :=
      (cleared_refl l₁ 0).releaseRebuild r "a build peak"
    generalize (if r.state = .rebuilding then l₁.releasePeakOf r "a build peak" else l₁) = l₂
      at hc ⊢
    have hins : l₁.insertReservations = l.insertReservations := by rw [← hch]; rfl
    have hr : l₁.reservations = l.reservations := by rw [← hch]; rfl
    refine ⟨?_, .inl ⟨rfl, ?_⟩⟩
    · simp [post, stampGeneration, hc.inserts, hins]
    · have hset : ∀ slot, l₂.stampGeneration.reservations.set i slot =
          l.reservations.set i slot := by
        intro slot
        simp only [stampGeneration, hc.reservations, hr]
      exact standing_written hf hset _ _ rfl
  | none =>
    dsimp only
    split
    · exact ⟨rfl, .inr ⟨by simp, rfl⟩⟩
    split
    · exact ⟨rfl, .inr ⟨by simp, rfl⟩⟩
    next i hfr =>
    refine ⟨rfl, .inl ⟨rfl, ?_⟩⟩
    have hi := free_some hfr
    have hlt : i < l.reservations.length := (List.getElem?_eq_some_iff.mp hi).1
    have hfo := find_set_fresh hf hlt
      (b := { relid, state := .resident, reservedAt := now, estimateBytes := measured,
              measuredBytes := measured, capacityHeadroomVectors := capacity,
              residentGeneration := l.nextGeneration })
      (by simp)
    unfold standing findReservation
    rw [show (l.stampGeneration.post i _ _).reservations = l.reservations.set i _ from rfl, hfo]
    rfl

end

theorem reconcileResident_spec (l : Ledger) (relid measured : Nat) (given : Option Nat) :
    (reconcileResident l relid measured given).1.insertReservations = l.insertReservations ∧
      ((∃ reply, (reconcileResident l relid measured given).2 = .ok reply) ∧
          (∃ n, standing l relid = some (.resident, n) ∧
            standing (reconcileResident l relid measured given).1 relid =
              some (.resident, given.getD n)) ∨
        (∃ err, (reconcileResident l relid measured given).2 = .error err) ∧
          (reconcileResident l relid measured given).1 = l) := by
  unfold reconcileResident
  cases hf : findReservation l.toEntry relid with
  | none => exact ⟨rfl, .inr ⟨⟨_, rfl⟩, rfl⟩⟩
  | some x =>
    obtain ⟨i, r⟩ := x
    dsimp only
    split
    · exact ⟨rfl, .inr ⟨⟨_, rfl⟩, rfl⟩⟩
    next hs =>
    have hs : r.state = .resident := by simpa using hs
    refine ⟨rfl, .inl ⟨⟨_, rfl⟩, r.capacityHeadroomVectors, ?_, ?_⟩⟩
    · rw [standing_found hf, hs]
    · rw [standing_post hf (by rfl) (by rfl)]
      simp [hs]

/-! ## What a reap leaves -/

/-- The slot without an owner that the process table takes for dead. -/
def survivor (dead : Nat → Nat → Bool) (slot : Option InsertReservation) :
    Option InsertReservation :=
  slot.filter fun r => !ownerPidIsDead dead r.ownerPid r.reservedAt

variable (dead : Nat → Nat → Bool)

theorem reapInsert_inserts (l : Ledger) (j k : Nat) :
    (reapInsertReservation dead l j).insertReservations[k]? =
      if k = j then (l.insertReservations[k]?).map (survivor dead)
      else l.insertReservations[k]? := by
  unfold reapInsertReservation survivor
  split
  · next r hj =>
    have hlt : j < l.insertReservations.length := (List.getElem?_eq_some_iff.mp hj).1
    by_cases hk : k = j
    · subst hk
      rw [if_pos rfl, hj]
      split
      · next hd =>
        simp [releaseInsert, postInsert, checkResidency, hlt, hd, Option.filter]
      · next hd => simp [hj, hd, Option.filter]
    · have hjk : j ≠ k := Ne.symm hk
      split
      · simp [releaseInsert, postInsert, checkResidency, hjk]
      · simp
  · next hj =>
    by_cases hk : k = j
    · subst hk
      rw [if_pos rfl]
      cases hs : l.insertReservations[k]? with
      | none => rfl
      | some x =>
        cases x with
        | none => rfl
        | some r => exact absurd hs (hj r)
    · rw [if_neg hk]

theorem reapInserts_inserts (l : Ledger) {slots : List Nat} (hnd : slots.Nodup) (k : Nat) :
    (run (reapInsertReservation dead) l slots).insertReservations[k]? =
      if k ∈ slots then (l.insertReservations[k]?).map (survivor dead)
      else l.insertReservations[k]? := by
  induction slots generalizing l with
  | nil => simp
  | cons j rest ih =>
    obtain ⟨hj, hr⟩ := List.nodup_cons.mp hnd
    rw [run_cons, ih _ hr, reapInsert_inserts]
    by_cases hk : k = j
    · subst hk
      simp [hj]
    · simp [hk]

theorem reapReservation_inserts (l : Ledger) (i : Nat) :
    (reapReservation dead l i).insertReservations = l.insertReservations := by
  unfold reapReservation
  split
  · next r hi =>
    have hp := ((cleared_refl l 0).releasePeakOf r "a dead backend's build peak").inserts
    split
    · dsimp only
      split
      · simp [post, hp]
      · simp [release, post, checkResidency, hp]
    · rfl
  · rfl

/-- All records of the index are resident. -/
def AllResident (l : Ledger) (relid : Nat) : Prop :=
  ∀ x ∈ l.reservations, ∀ r, x = some r → r.relid = relid → r.state = .resident

/-- A slot of another index is written for another index, or cleared. -/
theorem standing_other (hi : l.reservations[i]? = some (some r))
    (hr : r.relid ≠ relid) (slot : Option Reservation)
    (hset : l'.reservations = l.reservations.set i slot)
    (hslot : ∀ r', slot = some r' → r'.relid ≠ relid) (hs : AllResident l relid) :
    standing l' relid = standing l relid ∧ AllResident l' relid := by
  unfold standing findReservation AllResident
  rw [hset, find_set_other hi]
  · exact ⟨rfl, forall_set hs (fun r' h heq => absurd heq (hslot r' h)) i⟩
  · rintro _ ⟨⟩
    simpa using hr
  · intro r' h
    simpa using hslot r' h

variable (dead : Nat → Nat → Bool)

theorem reapReservation_standing (i : Nat) (hs : AllResident l relid) :
    standing (reapReservation dead l i) relid = standing l relid ∧
      AllResident (reapReservation dead l i) relid := by
  unfold reapReservation
  split
  · next r hi =>
    have hp := ((cleared_refl l 0).releasePeakOf r "a dead backend's build peak").reservations
    split
    · next hbu =>
      have ho : r.relid ≠ relid := by
        intro hr
        have := hs _ (List.mem_of_getElem? hi) r rfl hr
        simp [this] at hbu
      split
      · refine standing_other hi ho (some (restorePriorResidency r)) (by rw [← hp]; rfl) ?_ hs
        rintro _ ⟨⟩
        exact ho
      · exact standing_other hi ho none (by rw [← hp]; rfl) nofun hs
    · exact ⟨rfl, hs⟩
  · exact ⟨rfl, hs⟩

theorem reapReservations_standing (slots : List Nat) (hs : AllResident l relid) :
    standing (run (reapReservation dead) l slots) relid = standing l relid := by
  induction slots generalizing l with
  | nil => rfl
  | cons i rest ih =>
    obtain ⟨hsa, hs'⟩ := reapReservation_standing dead i hs
    rw [run_cons, ih hs', hsa]

theorem reapReservations_inserts (l : Ledger) (slots : List Nat) :
    (run (reapReservation dead) l slots).insertReservations = l.insertReservations :=
  run_keeps (fun l' : Ledger => l'.insertReservations = l.insertReservations)
    (fun l' i h => (reapReservation_inserts dead l' i).trans h) rfl slots

theorem reapInserts_reservations (l : Ledger) (slots : List Nat) :
    (run (reapInsertReservation dead) l slots).reservations = l.reservations := by
  refine run_keeps (fun l' : Ledger => l'.reservations = l.reservations) (fun l' j h => ?_) rfl slots
  unfold reapInsertReservation
  split
  · split <;> exact h
  · exact h

theorem reap_standing (hs : AllResident l relid) :
    standing (reapEntryReservations dead l).1 relid = standing l relid := by
  unfold reapEntryReservations
  rw [standing_congr (reapInserts_reservations dead _ _), reapReservations_standing dead _ hs]

theorem reap_inserts
    (hlen : l.insertReservations.length = svsMaxPendingInsertReservations) (k : Nat) :
    (reapEntryReservations dead l).1.insertReservations[k]? =
      (l.insertReservations[k]?).map (survivor dead) := by
  unfold reapEntryReservations
  rw [reapInserts_inserts dead _ List.nodup_range, reapReservations_inserts]
  split
  · rfl
  · next hk =>
    rw [List.mem_range, Nat.not_lt, ← hlen] at hk
    simp [List.getElem?_eq_none hk]

theorem moves_length {e : Entry} {op : Op} (h : Moves e op l l') :
    l'.insertReservations.length = l.insertReservations.length := by
  induction h with
  | done => rfl
  | checked _ hc _ ih => rw [ih, hc.inserts]
  | post hp _ _ _ ih =>
    rw [ih]
    obtain ⟨hs, -, -⟩ | ⟨j, -, hs⟩ := hp.inserts
    · rw [hs]
    · rw [hs, List.length_set]

/-! ## The books -/

/-- The books of the block are in order, and the index is resident if it has a record. -/
structure Books (relid : Nat) (l : Ledger) : Prop where
  covered : Covered l.toEntry
  balanced : Balanced l.toEntry
  distinct : OnePerIndex l.toEntry
  resident : ∀ x ∈ standing l relid, x.1 = .resident
  slots : l.insertReservations.length = svsMaxPendingInsertReservations

theorem Books.allResident (h : Books relid l) : AllResident l relid := by
  rintro x hx r rfl hr
  obtain ⟨i, hi⟩ := List.getElem?_of_mem hx
  cases hf : findReservation l.toEntry relid with
  | none =>
    have := find_none hf hi
    simp [hr] at this
  | some y =>
    obtain ⟨j, r'⟩ := y
    obtain ⟨hj, hr'⟩ := findReservation_some hf
    obtain rfl : j = i := h.distinct j i r' r hj hi (hr'.trans hr.symm)
    obtain rfl : r' = r := by simpa [hi] using hj.symm
    exact h.resident _ (standing_found hf)

/-- The calls that the statements and the worker make for an index. -/
inductive InsertOp (relid : Nat) : Op → Prop
  | reserve (pid now deltaBytes : Nat) : InsertOp relid (.reserveInsert pid now relid deltaBytes)
  | reanchor (measured : Nat) : InsertOp relid (.reanchorInsert relid measured)
  | close : InsertOp relid (.closeInsertReservation relid)
  | abort (pid : Nat) : InsertOp relid (.abortInsert pid relid)
  | load (now measured capacity : Nat) : InsertOp relid (.reconcileLoad now relid measured capacity)
  | reconcile (measured : Nat) (capacity : Option Nat) :
      InsertOp relid (.reconcileResident relid measured capacity)
  | reap (dead : Nat → Nat → Bool) : InsertOp relid (.reap dead)

variable {op : Op}

theorem InsertOp.sound (hop : InsertOp relid op) (h : Books relid l) :
    OnTarget Sound l.toEntry op := by
  intro relid' hr' x hx
  cases hop with
  | reanchor measured =>
    obtain rfl : relid = relid' := by simpa [Op.target] using hr'
    have hs : x.2.state = .resident := h.resident _ (standing_found hx)
    refine ⟨fun measured' _ hbu => ?_, by simp [unloads]⟩
    simp [Reservation.Building, hs] at hbu
  | _ => exact ⟨by simp [reanchoredAt], by simp [unloads]⟩

theorem InsertOp.resident (hop : InsertOp relid op) (h : Books relid l) :
    ∀ x ∈ standing (op.apply l).1 relid, x.1 = .resident := by
  have hs (l' : Ledger) (f : Nat → Nat)
      (hl' : standing l' relid = (standing l relid).map fun x => (x.1, f x.2)) :
      ∀ x ∈ standing l' relid, x.1 = .resident := by
    rw [hl']
    intro x hx
    obtain ⟨y, hy, rfl⟩ := map_eq_some_iff.mp hx
    exact h.resident y hy
  cases hop with
  | reserve pid now deltaBytes =>
    obtain ⟨⟨j, hg⟩, -⟩ | ⟨hl', -⟩ := reserveInsert_spec l pid now relid deltaBytes
    · exact hs _ (· - 1) hg.standing
    · simp only [Op.apply, hl']
      exact h.resident
  | reanchor measured =>
    obtain ⟨-, hl', -⟩ | ⟨-, hl', -⟩ := reanchorInsert_spec l relid measured
    · simp only [Op.apply, hl']
      exact h.resident
    · simp only [Op.apply, hl']
      exact h.resident
  | close =>
    simp only [Op.apply, closeInsertReservation, releaseOldest_standing]
    exact h.resident
  | abort pid => exact hs _ (· + ownUnit l relid pid) (abortInsert_spec l pid relid).2
  | load now measured capacity =>
    obtain ⟨-, hl'⟩ | ⟨-, hl'⟩ := (reconcileLoad_spec l now relid measured capacity).2
    · simp [Op.apply, hl']
    · simp only [Op.apply, hl']
      exact h.resident
  | reconcile measured capacity =>
    obtain ⟨-, n, -, hl'⟩ | ⟨-, hl'⟩ := (reconcileResident_spec l relid measured capacity).2
    · simp [Op.apply, hl']
    · simp only [Op.apply, hl']
      exact h.resident
  | reap dead =>
    simp only [Op.apply, reap_standing dead h.allResident]
    exact h.resident

theorem InsertOp.books (hop : InsertOp relid op) (h : Books relid l) :
    Books relid (op.apply l).1 := by
  have hk := moves_kept (apply_moves l op) h.covered h.distinct
  exact ⟨hk.covered, hk.balanced (hop.sound h) h.balanced, hk.distinct,
    hop.resident h, (moves_length (apply_moves l op)).trans h.slots⟩

/-- A step makes one of these calls, or none. -/
theorem step_ledger (relid : Nat) (s : State) (ev : Event) :
    (step relid s ev).ledger = s.ledger ∨
      ∃ op, InsertOp relid op ∧ (step relid s ev).ledger = (op.apply s.ledger).1 := by
  have hw {n : Nat} {f : Insert → State} (hf : ∀ x, (f x).ledger = s.ledger ∨
      ∃ op, InsertOp relid op ∧ (f x).ledger = (op.apply s.ledger).1) :
      (s.withInsert n f).ledger = s.ledger ∨
        ∃ op, InsertOp relid op ∧ (s.withInsert n f).ledger = (op.apply s.ledger).1 := by
    unfold withInsert
    split
    · exact hf _
    · exact .inl rfl
  cases ev with
  | reserve pid now deltaBytes =>
    simp only [step, reserve]
    split
    · exact .inl rfl
    right
    refine ⟨_, .reserve pid now deltaBytes, ?_⟩
    simp only [Op.apply]
    split <;> simp [*]
  | submit | take | answer | exit =>
    refine hw fun x => ?_
    dsimp only [submit, take, answer, exit]
    split <;> exact .inl rfl
  | reanchor n measured =>
    refine hw fun x => ?_
    unfold reanchor
    split
    · right
      refine ⟨_, .reanchor measured, ?_⟩
      simp only [Op.apply]
      split <;> simp [*]
    · exact .inl rfl
  | close n =>
    refine hw fun x => ?_
    unfold close
    split
    · exact .inr ⟨_, .close, rfl⟩
    · exact .inl rfl
  | finish n =>
    refine hw fun x => ?_
    unfold finish
    split
    · split
      · exact .inl rfl
      · exact .inr ⟨_, .abort x.pid, rfl⟩
      · exact .inl rfl
    · exact .inl rfl
  | giveUp n =>
    refine hw fun x => ?_
    unfold giveUp
    split
    · exact .inr ⟨_, .abort x.pid, rfl⟩
    · exact .inl rfl
  | load now measured capacity =>
    right
    refine ⟨_, .load now measured capacity, ?_⟩
    simp only [step, load, Op.apply]
    split <;> simp [State.measured, *]
  | reconcile measured capacity =>
    right
    refine ⟨_, .reconcile measured capacity, ?_⟩
    simp only [step, reconcile, Op.apply]
    cases reconcileResident s.ledger relid measured capacity with
    | mk l answer => cases answer <;> cases capacity <;> rfl
  | reap dead =>
    right
    refine ⟨_, .reap dead, ?_⟩
    simp only [step, Op.apply]

variable {s : State}

theorem step_books (h : Books relid s.ledger) (ev : Event) :
    Books relid (step relid s ev).ledger := by
  obtain hs | ⟨op, hop, hl'⟩ := step_ledger relid s ev
  · rw [hs]
    exact h
  · rw [hl']
    exact hop.books h

def emptyBlock : Ledger :=
  { residencyBudget := 100000
    totalBuildCommittedGlobal := 0
    residencyUnderflows := []
    buildUnderflows := [] }

theorem emptyBlock_books (relid : Nat) : Books relid emptyBlock := by
  obtain ⟨hc, hd, hba⟩ := empty_books (e := emptyBlock.toEntry) rfl rfl rfl
  refine ⟨hc, hba, hd, ?_, by simp [emptyBlock]⟩
  intro x hx
  obtain ⟨⟨i, r⟩, hf, -⟩ := map_eq_some_iff.mp hx
  have hi := (findReservation_some hf).1
  simp [emptyBlock, List.getElem?_replicate] at hi

/-! ## What a step does -/

/-- The insert for which a step has a reservation released: the one that the worker has in hand,
or the one whose statement ends with an error. -/
def acting (relid : Nat) (s : State) : Event → Option Insert
  | .reanchor n _ => s.inserts[n]?.filter fun x => InHand x ∧ (standing s.ledger relid).isSome
  | .close n => s.inserts[n]?.filter fun x => InHand x
  | .finish n => s.inserts[n]?.filter fun x => x.running ∧ x.request = .answered false
  | .giveUp n => s.inserts[n]?.filter fun x => x.running
  | _ => none

/-- All that a step can do. -/
inductive Effect (relid : Nat) (s : State) : Event → State → Prop
  | idle (ev : Event) (hidle : acting relid s ev = none) (hreap : ∀ dead, ev ≠ .reap dead) :
      Effect relid s ev s
  | granted (pid now deltaBytes : Nat) (l : Ledger) (j : Nat)
      (hfirst : ∀ x ∈ s.inserts, x.pid = pid → x.running = false)
      (hgranted : Granted relid pid s.ledger l j) :
      Effect relid s (.reserve pid now deltaBytes)
        { s with
          ledger := l
          inserts := s.inserts ++ [{ pid, againstHeadroom := decide (0 < headroom s.ledger relid) }]
          taken := Function.update s.taken j true }
  | noted (ev : Event) (n : Nat) (x : Insert) (q : RequestState) (hidle : acting relid s ev = none)
      (hreap : ∀ dead, ev ≠ .reap dead) (hx : s.inserts[n]? = some x)
      (hq : q = .answered true → x.applied = true) :
      Effect relid s ev (s.setInsert n { x with request := q })
  | applied (n measuredBytes : Nat) (x : Insert) (l : Ledger)
      (hx : s.inserts[n]? = some x) (hact : x ∈ acting relid s (.reanchor n measuredBytes))
      (hinserts : l.insertReservations =
        strike s.ledger.insertReservations (findOldestInsertReservation s.ledger.toEntry relid))
      (hstanding : standing l relid = standing s.ledger relid) :
      Effect relid s (.reanchor n measuredBytes)
        { s.setInsert n { x with applied := true } with
          ledger := l
          added := s.added + if x.againstHeadroom then 1 else 0 }
  | closed (n : Nat) (x : Insert) (hx : s.inserts[n]? = some x)
      (hact : x ∈ acting relid s (.close n)) :
      Effect relid s (.close n)
        { s.setInsert n { x with applied := true } with
          ledger := (closeInsertReservation s.ledger relid).1 }
  | aborted (ev : Event) (n : Nat) (x : Insert) (q : RequestState) (hx : s.inserts[n]? = some x)
      (hact : x ∈ acting relid s ev) (hev : ev = .finish n ∨ ev = .giveUp n)
      (hq : q = .answered true → q = x.request) :
      Effect relid s ev (s.abort relid n { x with request := q })
  | finished (n : Nat) (x : Insert) (hx : s.inserts[n]? = some x)
      (hidle : acting relid s (.finish n) = none) (hdone : x.request = .answered true) :
      Effect relid s (.finish n) (s.setInsert n { x with running := false })
  | exited (n : Nat) (x : Insert) (hx : s.inserts[n]? = some x) :
      Effect relid s (.exit n) (s.setInsert n { x with running := false })
  | measured (ev : Event) (l : Ledger) (n : Nat)
      (hev : (∃ now bytes, ev = .load now bytes n) ∨ ∃ bytes, ev = .reconcile bytes (some n))
      (hinserts : l.insertReservations = s.ledger.insertReservations)
      (hstanding : standing l relid = some (.resident, n)) : Effect relid s ev (s.measured l n)
  | kept (ev : Event) (l : Ledger) (hidle : acting relid s ev = none)
      (hreap : ∀ dead, ev ≠ .reap dead)
      (hinserts : l.insertReservations = s.ledger.insertReservations)
      (hstanding : standing l relid = standing s.ledger relid) :
      Effect relid s ev { s with ledger := l }
  | reaped (dead : Nat → Nat → Bool) :
      Effect relid s (.reap dead) { s with ledger := (reapEntryReservations dead s.ledger).1 }

variable {n : Nat}

theorem effect_withInsert {ev : Event} {f : Insert → State}
    (hr : ∀ dead, ev ≠ .reap dead) (hn : s.inserts[n]? = none → acting relid s ev = none)
    (hf : ∀ x, s.inserts[n]? = some x → Effect relid s ev (f x)) :
    Effect relid s ev (s.withInsert n f) := by
  unfold withInsert
  cases hx : s.inserts[n]? with
  | none => exact .idle ev (hn hx) hr
  | some x => exact hf x hx

theorem step_reserve_effect (relid : Nat) (s : State) (pid now deltaBytes : Nat) :
    Effect relid s (.reserve pid now deltaBytes) (s.reserve relid pid now deltaBytes) := by
  unfold reserve
  split
  · exact .idle _ rfl nofun
  next hf =>
  have hs := reserveInsert_spec s.ledger pid now relid deltaBytes
  cases hc : reserveInsert s.ledger pid now relid deltaBytes with
  | mk l answer =>
    rw [hc] at hs
    obtain ⟨⟨j, hg⟩, hok⟩ | ⟨hl, hno⟩ := hs
    · simp only at hok
      simp only [hok, hg.slot]
      refine .granted pid now deltaBytes l j ?_ hg
      simpa using hf
    · have hk : Effect relid s (.reserve pid now deltaBytes) { s with ledger := l } :=
        .kept _ l rfl nofun (congrArg (·.insertReservations) hl) (congrArg (standing · relid) hl)
      split
      · next heq _ =>
        cases heq
        exact absurd rfl hno
      · next heq _ =>
        cases heq
        exact hk

theorem step_reanchor_effect {x : Insert} (hx : s.inserts[n]? = some x) (measuredBytes : Nat) :
    Effect relid s (.reanchor n measuredBytes) (s.reanchor relid n measuredBytes x) := by
  unfold reanchor
  split
  · next hh =>
    have hsp := reanchorInsert_spec s.ledger relid measuredBytes
    cases hc : reanchorInsert s.ledger relid measuredBytes with
    | mk l answer =>
      rw [hc] at hsp
      obtain ⟨hi, hs, hso, reply, hok⟩ | ⟨hn, hl, err, herr⟩ := hsp
      · simp only at hok
        simp only [hok]
        have hact : x ∈ acting relid s (.reanchor n measuredBytes) := by
          simp [acting, hx, hh, hso]
        exact .applied n measuredBytes x l hx hact hi hs
      · simp only at herr hl
        simp only [herr, hl]
        exact .idle _ (by simp [acting, hx, hn]) nofun
  · next hh => exact .idle _ (by simp [acting, hx, hh]) nofun

theorem step_finish_effect {x : Insert} (hx : s.inserts[n]? = some x) :
    Effect relid s (.finish n) (s.finish relid n x) := by
  unfold finish
  split
  · next hrun =>
    split
    · next hd => exact .finished n x hx (by simp [acting, hx, hd]) hd
    · next herr =>
      have hact : x ∈ acting relid s (.finish n) := by simp [acting, hx, hrun, herr]
      exact .aborted _ n x x.request hx hact (.inl rfl) (fun _ => rfl)
    · next hno => exact .idle _ (by simpa [acting, hx] using fun _ => hno) nofun
  · next hrun => exact .idle _ (by simp [acting, hx, hrun]) nofun

section

variable (relid : Nat) (s : State)

theorem step_load_effect (now measuredBytes capacity : Nat) :
    Effect relid s (.load now measuredBytes capacity) (s.load relid now measuredBytes capacity) := by
  unfold load
  obtain ⟨hi, hsp⟩ := reconcileLoad_spec s.ledger now relid measuredBytes capacity
  cases hc : reconcileLoad s.ledger now relid measuredBytes capacity with
  | mk l answer =>
    rw [hc] at hi hsp
    obtain ⟨hok, hs⟩ | ⟨hno, hs⟩ := hsp
    · simp only at hok
      simp only [hok]
      exact .measured _ l capacity (.inl ⟨_, _, rfl⟩) hi hs
    · split
      · next heq =>
        cases heq
        exact absurd rfl hno
      · next heq =>
        cases heq
        exact .kept _ l rfl nofun hi hs

theorem step_reconcile_effect (measuredBytes : Nat) (capacity : Option Nat) :
    Effect relid s (.reconcile measuredBytes capacity)
      (s.reconcile relid measuredBytes capacity) := by
  unfold reconcile
  obtain ⟨hi, hsp⟩ := reconcileResident_spec s.ledger relid measuredBytes capacity
  cases hc : reconcileResident s.ledger relid measuredBytes capacity with
  | mk l answer =>
    rw [hc] at hi hsp
    obtain ⟨⟨reply, hok⟩, n, hbe, hs⟩ | ⟨⟨err, herr⟩, hl⟩ := hsp
    · simp only at hok
      cases capacity with
      | none =>
        simp only [hok]
        exact .kept _ l rfl nofun hi (by simpa [hbe] using hs)
      | some m =>
        simp only [hok]
        exact .measured _ l m (.inr ⟨_, rfl⟩) hi (by simpa using hs)
    · simp only at herr hl
      simp only [herr]
      exact .kept _ l rfl nofun hi (by rw [hl])

theorem step_effect (ev : Event) : Effect relid s ev (step relid s ev) := by
  cases ev with
  | reserve pid now deltaBytes => exact step_reserve_effect relid s pid now deltaBytes
  | submit | take =>
    refine effect_withInsert nofun (fun _ => rfl) fun x hx => ?_
    dsimp only [submit, take]
    split
    · exact .noted _ _ x _ rfl nofun hx nofun
    · exact .idle _ rfl nofun
  | reanchor n measuredBytes =>
    refine effect_withInsert nofun (fun hn => by simp [acting, hn]) fun x hx => ?_
    exact step_reanchor_effect hx measuredBytes
  | close n =>
    refine effect_withInsert nofun (fun hn => by simp [acting, hn]) fun x hx => ?_
    unfold close
    split
    · next hh => exact .closed n x hx (by simp [acting, hx, hh])
    · next hh => exact .idle _ (by simp [acting, hx, hh]) nofun
  | answer n done =>
    refine effect_withInsert nofun (fun _ => rfl) fun x hx => ?_
    unfold answer
    split
    · next hd =>
      refine .noted _ n x _ rfl nofun hx fun hq => hd.2 ?_
      simpa using hq
    · exact .idle _ rfl nofun
  | finish n =>
    refine effect_withInsert nofun (fun hn => by simp [acting, hn]) fun x hx => ?_
    exact step_finish_effect hx
  | giveUp n =>
    refine effect_withInsert nofun (fun hn => by simp [acting, hn]) fun x hx => ?_
    unfold giveUp
    split
    · next hrun =>
      refine .aborted _ n x _ hx (by simp [acting, hx, hrun]) (.inr rfl) ?_
      split
      · exact nofun
      · exact fun _ => rfl
    · next hrun => exact .idle _ (by simp [acting, hx, hrun]) nofun
  | exit n =>
    refine effect_withInsert nofun (fun _ => rfl) fun x hx => ?_
    unfold exit
    split
    · exact .exited n x hx
    · exact .idle _ rfl nofun
  | load now measuredBytes capacity => exact step_load_effect relid s now measuredBytes capacity
  | reconcile measuredBytes capacity => exact step_reconcile_effect relid s measuredBytes capacity
  | reap dead => exact .reaped dead

end

theorem step_standing (h : Books relid s.ledger) (ev : Event)
    (hso : (standing s.ledger relid).isSome) :
    (standing (step relid s ev).ledger relid).isSome := by
  have hef := step_effect relid s ev
  generalize step relid s ev = s' at hef
  cases hef with
  | idle | noted | finished | exited => exact hso
  | granted pid now deltaBytes l j hf hg => simpa [hg.standing] using hso
  | applied n measuredBytes x l hx hact hi hs => simpa [hs] using hso
  | closed => simpa [closeInsertReservation, releaseOldest_standing] using hso
  | aborted _ n x => simpa [abort, (abortInsert_spec s.ledger x.pid relid).2] using hso
  | measured _ l n _ _ hs => simp [measured, hs]
  | kept _ l _ _ _ hs => simpa [hs] using hso
  | reaped dead => simpa [reap_standing dead h.allResident] using hso

end svs_vamana.insert_statements
