-- The headroom of a resident index in units of one row, which inserts take and their reservations
-- carry until they are released or reaped.
import SvsVamana.InsertStatements

namespace svs_vamana.headroom_units

open transition_runs slot_table insert_statements
open svs_memory hiding Event step

/-! ## Units -/

/-- The unit that slot `j` of the pending inserts carries: that of a reservation for the index
which was taken against headroom since the last measurement. -/
def unitAt (relid : Nat) (t : List (Option InsertReservation)) (taken : Nat → Bool) (j : Nat) :
    Nat :=
  match t[j]? with
  | some (some r) => if r.relid = relid ∧ r.consumedHeadroom = true ∧ taken j = true then 1 else 0
  | _ => 0

def foundUnit (relid : Nat) (s : State) : Option (Nat × InsertReservation) → Nat
  | none => 0
  | some (j, _) => unitAt relid s.ledger.insertReservations s.taken j

def pendingUnits (relid : Nat) (s : State) : Nat :=
  total (unitAt relid s.ledger.insertReservations s.taken)
    (List.range s.ledger.insertReservations.length)

/-- The headroom that is left, the vectors that were added against it and the inserts that may
still be are what the last measurement has installed. -/
def Conserved (relid : Nat) (s : State) : Prop :=
  headroom s.ledger relid + s.added + pendingUnits relid s = s.installed

deriving instance Decidable for Conserved

/-- No unit is lost or made: the worker releases a reservation that was admitted as its insert was,
a failing statement's is no older than the measurement, and no reaped owner holds a unit. -/
def Matched (relid : Nat) (s : State) : Event → Prop
  | .reanchor n measuredBytes => ∀ x ∈ acting relid s (.reanchor n measuredBytes),
      foundUnit relid s (findOldestInsertReservation s.ledger.toEntry relid) =
        if x.againstHeadroom then 1 else 0
  | .close n => ∀ x ∈ acting relid s (.close n),
      foundUnit relid s (findOldestInsertReservation s.ledger.toEntry relid) = 0
  | .finish n => ∀ x ∈ acting relid s (.finish n),
      ∀ y ∈ findInsertReservationByOwner s.ledger.toEntry relid x.pid,
        y.2.consumedHeadroom = true → s.taken y.1 = true
  | .giveUp n => ∀ x ∈ acting relid s (.giveUp n),
      ∀ y ∈ findInsertReservationByOwner s.ledger.toEntry relid x.pid,
        y.2.consumedHeadroom = true → s.taken y.1 = true
  | .reap dead => ∀ j ∈ List.range s.ledger.insertReservations.length,
      unitAt relid s.ledger.insertReservations s.taken j ≠ 0 →
        (s.ledger.insertReservations[j]?).map (survivor dead) = s.ledger.insertReservations[j]?
  | _ => True

instance (relid : Nat) (s : State) (ev : Event) : Decidable (Matched relid s ev) := by
  cases ev <;> unfold Matched <;> infer_instance

/-! ## The books of the units -/

/-- The books of the block are in order, and a reservation that took a unit is for an index with a
record. -/
structure Inv (relid : Nat) (l : Ledger) : Prop where
  books : Books relid l
  recorded : ∀ (j : Nat) (r : InsertReservation), l.insertReservations[j]? = some (some r) →
    r.relid = relid → r.consumedHeadroom = true → (standing l relid).isSome

variable {relid : Nat} {l : Ledger}

theorem Inv.fewer {l' : Ledger} (h : Inv relid l) (hbo : Books relid l')
    (hf : ∀ (j : Nat) (r : InsertReservation), l'.insertReservations[j]? = some (some r) →
      l.insertReservations[j]? = some (some r))
    (hs : (standing l relid).isSome → (standing l' relid).isSome) : Inv relid l' := by
  refine ⟨hbo, ?_⟩
  intro j r hj hr hc
  exact hs (h.recorded j r (hf j r hj) hr hc)

theorem headroom_pos (h : 0 < headroom l relid) : (standing l relid).isSome := by
  rw [headroom_eq] at h
  cases hs : standing l relid with
  | none => simp [hs] at h
  | some x => rfl

variable {pid j : Nat}

theorem Inv.granted {l' : Ledger} (h : Inv relid l) (hbo : Books relid l')
    (hg : Granted relid pid l l' j) : Inv relid l' := by
  obtain ⟨now, charge, hset⟩ := hg.inserts
  have hs : (standing l relid).isSome → (standing l' relid).isSome := by
    rw [hg.standing]
    simp
  refine ⟨hbo, ?_⟩
  intro k r hk hre hc
  apply hs
  rw [hset] at hk
  obtain ⟨rfl, hr⟩ | ⟨-, hk⟩ := of_set hk
  · cases hr
    exact headroom_pos (by simpa using hc)
  · exact h.recorded k r hk hre hc

variable {s : State}

theorem step_inv (h : Inv relid s.ledger) (ev : Event) : Inv relid (step relid s ev).ledger := by
  have hbo := step_books h.books ev
  have hs := step_standing h.books ev
  have hef := step_effect relid s ev
  generalize step relid s ev = s' at hbo hs hef
  cases hef with
  | idle | noted | finished | exited => exact h
  | granted pid now deltaBytes l j hf hg => exact h.granted hbo hg
  | applied n measuredBytes x l hx hact hi hst =>
    exact h.fewer hbo (fun j r hj => (of_strike (hi ▸ hj)).1) hs
  | closed n x hx hact =>
    refine h.fewer hbo (fun j r hj => ?_) hs
    exact (of_strike (releaseOldest_inserts s.ledger relid ▸ hj)).1
  | aborted _ n x q =>
    have hstr := (abortInsert_spec s.ledger x.pid relid).1
    exact h.fewer hbo (fun j r hj => (of_strike (hstr ▸ hj)).1) hs
  | measured _ l n _ hi hst =>
    refine h.fewer hbo (fun j r hj => ?_) hs
    simpa [State.measured, hi] using hj
  | kept _ l _ _ hi hst =>
    refine h.fewer hbo (fun j r hj => ?_) hs
    simpa [hi] using hj
  | reaped dead =>
    refine h.fewer hbo (fun j r hj => ?_) hs
    simp only [reap_inserts dead h.books.slots] at hj
    obtain ⟨y, hy, hk⟩ := Option.map_eq_some_iff.mp hj
    rw [hy, (Option.filter_eq_some_iff.mp hk).1]

/-! ## What becomes of the units -/

theorem unitAt_found {t : List (Option InsertReservation)} {taken : Nat → Bool}
    {r : InsertReservation} (hj : t[j]? = some (some r)) :
    unitAt relid t taken j =
      if r.relid = relid ∧ r.consumedHeadroom = true ∧ taken j = true then 1 else 0 := by
  simp [unitAt, hj]

variable {s' : State}

theorem pendingUnits_strike {found : Option (Nat × InsertReservation)}
    (hf : ∀ j r, found = some (j, r) → s.ledger.insertReservations[j]? = some (some r))
    (hs : s'.ledger.insertReservations = strike s.ledger.insertReservations found)
    (ht : s'.taken = s.taken) :
    pendingUnits relid s' + foundUnit relid s found = pendingUnits relid s := by
  unfold pendingUnits
  rw [hs, ht, length_strike]
  cases found with
  | none => simp [strike, foundUnit]
  | some x =>
    obtain ⟨j, r⟩ := x
    have hlt := (List.getElem?_eq_some_iff.mp (hf j r rfl)).1
    simp only [foundUnit]
    generalize s.ledger.insertReservations = t at hlt
    have ho : ∀ k, k ≠ j → unitAt relid (strike t (some (j, r))) s.taken k =
        unitAt relid t s.taken k := by
      intro k hk
      simp [unitAt, strike, Ne.symm hk]
    have hg : unitAt relid (strike t (some (j, r))) s.taken j = 0 := by
      simp [unitAt, strike, hlt]
    have hc := total_range_change hlt ho
    omega

theorem pendingUnits_granted (hg : Granted relid pid s.ledger s'.ledger j)
    (ht : s'.taken = Function.update s.taken j true) :
    headroom s'.ledger relid + pendingUnits relid s' =
      headroom s.ledger relid + pendingUnits relid s := by
  obtain ⟨now, charge, hset⟩ := hg.inserts
  have hf := free_some hg.slot
  have hlt := (List.getElem?_eq_some_iff.mp hf).1
  have hl : headroom s'.ledger relid = headroom s.ledger relid - 1 := by
    rw [headroom_eq, headroom_eq, hg.standing]
    cases standing s.ledger relid <;> rfl
  unfold pendingUnits
  rw [hset, ht, List.length_set, hl]
  generalize s.ledger.insertReservations = t at hf hlt
  generalize headroom s.ledger relid = n
  have ho : ∀ k, k ≠ j → unitAt relid (t.set j (some ⟨relid, pid, now, charge, decide (0 < n)⟩))
      (Function.update s.taken j true) k = unitAt relid t s.taken k := by
    intro k hk
    simp [unitAt, Ne.symm hk, hk]
  have hbe : unitAt relid t s.taken j = 0 := by simp [unitAt, hf]
  have ha : unitAt relid (t.set j (some ⟨relid, pid, now, charge, decide (0 < n)⟩))
      (Function.update s.taken j true) j = if 0 < n then 1 else 0 := by
    simp [unitAt, hlt]
  have hc := total_range_change hlt ho
  split at ha <;> omega

/-- The units that are lost with the reservations of dead owners. -/
def reapedUnits (relid : Nat) (dead : Nat → Nat → Bool) (s : State) : Nat :=
  total (fun j => if (s.ledger.insertReservations[j]?).map (survivor dead) =
      s.ledger.insertReservations[j]? then 0
    else unitAt relid s.ledger.insertReservations s.taken j)
    (List.range s.ledger.insertReservations.length)

theorem pendingUnits_reaped (h : Books relid s.ledger) (dead : Nat → Nat → Bool) :
    pendingUnits relid { s with ledger := (reapEntryReservations dead s.ledger).1 } +
      reapedUnits relid dead s = pendingUnits relid s := by
  have hs := reap_inserts dead h.slots
  unfold pendingUnits reapedUnits
  rw [moves_length (reap_moves _ dead), ← total_add]
  refine total_congr fun j _ => ?_
  simp only [unitAt, hs]
  cases hj : s.ledger.insertReservations[j]? with
  | none => simp
  | some x =>
    cases x with
    | none => simp [survivor]
    | some r =>
      cases hd : ownerPidIsDead dead r.ownerPid r.reservedAt <;>
        simp [survivor, Option.filter, hd]

theorem reapedUnits_eq_zero {dead : Nat → Nat → Bool} :
    reapedUnits relid dead s = 0 ↔ Matched relid s (.reap dead) := by
  unfold reapedUnits Matched
  rw [total_eq_zero]
  refine forall_congr' fun j => imp_congr_right fun _ => ?_
  split
  · next hs => simp [hs]
  · next hg => simp [hg]

/-- What an abort gives back and what the reservation still carries agree if it was taken since
the measurement, or against no headroom. -/
theorem ownUnit_eq_iff :
    ownUnit s.ledger relid pid =
        foundUnit relid s (findInsertReservationByOwner s.ledger.toEntry relid pid) ↔
      ∀ y ∈ findInsertReservationByOwner s.ledger.toEntry relid pid,
        y.2.consumedHeadroom = true → s.taken y.1 = true := by
  unfold ownUnit
  cases hf : findInsertReservationByOwner s.ledger.toEntry relid pid with
  | none => simp [foundUnit]
  | some y =>
    obtain ⟨j, r⟩ := y
    obtain ⟨hj, hp⟩ := find_some hf
    obtain ⟨hr, -⟩ : r.relid = relid ∧ r.ownerPid = pid := by simpa using hp
    simp only [foundUnit, unitAt_found hj, hr, true_and]
    cases hc : r.consumedHeadroom <;> cases ht : s.taken j <;> simp [hc, ht]

theorem headroom_abort (h : Inv relid l) (pid : Nat) :
    headroom (abortInsert l pid relid).1 relid = headroom l relid + ownUnit l relid pid := by
  rw [headroom_eq, headroom_eq, (abortInsert_spec l pid relid).2]
  cases hs : standing l relid with
  | some x => simp
  | none =>
    -- without a record no reservation has taken a unit
    unfold ownUnit
    cases hf : findInsertReservationByOwner l.toEntry relid pid with
    | none => simp
    | some y =>
      obtain ⟨j, r⟩ := y
      obtain ⟨hj, hp⟩ := find_some hf
      obtain ⟨hr, -⟩ : r.relid = relid ∧ r.ownerPid = pid := by simpa using hp
      cases hc : r.consumedHeadroom with
      | false => simp [hc]
      | true =>
        have := h.recorded j r hj hr hc
        simp [hs] at this

/-! ## Steps -/

/-- A reservation is struck out, `given` units go back to the headroom and `more` become vectors:
the account stands if that is the unit of the reservation. -/
theorem conserved_struck_iff (hc : Conserved relid s) (given more : Nat)
    (found : Option (Nat × InsertReservation))
    (hf : ∀ j r, found = some (j, r) → s.ledger.insertReservations[j]? = some (some r))
    (hs : s'.ledger.insertReservations = strike s.ledger.insertReservations found)
    (ht : s'.taken = s.taken) (hh : headroom s'.ledger relid = headroom s.ledger relid + given)
    (ha : s'.added = s.added + more) (hi : s'.installed = s.installed) :
    Conserved relid s' ↔ foundUnit relid s found = given + more := by
  have hp : pendingUnits relid s' + foundUnit relid s found = pendingUnits relid s :=
    pendingUnits_strike hf hs ht
  unfold Conserved at hc ⊢
  omega

theorem conserved_granted (hc : Conserved relid s) (hg : Granted relid pid s.ledger s'.ledger j)
    (ht : s'.taken = Function.update s.taken j true) (ha : s'.added = s.added)
    (hi : s'.installed = s.installed) : Conserved relid s' := by
  have hm := pendingUnits_granted hg ht
  unfold Conserved at hc ⊢
  omega

theorem conserved_same (hc : Conserved relid s)
    (hins : s'.ledger.insertReservations = s.ledger.insertReservations)
    (ht : s'.taken = s.taken) (hs : standing s'.ledger relid = standing s.ledger relid)
    (ha : s'.added = s.added) (hi : s'.installed = s.installed) : Conserved relid s' := by
  unfold Conserved pendingUnits at hc ⊢
  rw [headroom_eq] at hc ⊢
  rw [hins, ht, hs, ha, hi, hc]

theorem conserved_aborted_iff (h : Inv relid s.ledger) (hc : Conserved relid s) (n : Nat)
    (x : Insert) :
    Conserved relid (s.abort relid n x) ↔
      ∀ y ∈ findInsertReservationByOwner s.ledger.toEntry relid x.pid,
        y.2.consumedHeadroom = true → s.taken y.1 = true := by
  have hs := (abortInsert_spec s.ledger x.pid relid).1
  refine Iff.trans (conserved_struck_iff hc (ownUnit s.ledger relid x.pid) 0
    (findInsertReservationByOwner s.ledger.toEntry relid x.pid)
    (fun _ _ hf => (find_some hf).1) hs rfl (headroom_abort h x.pid) rfl rfl) ?_
  rw [Nat.add_zero, eq_comm, ownUnit_eq_iff]

theorem conserved_measured {n : Nat} (s : State)
    (hs : standing l relid = some (.resident, n)) : Conserved relid (s.measured l n) := by
  have hh : headroom l relid = n := by simp [headroom_eq, hs]
  have hp : pendingUnits relid (s.measured l n) = 0 := by
    unfold pendingUnits
    rw [total_eq_zero]
    intro j _
    unfold unitAt
    split <;> simp [State.measured]
  simp only [Conserved, hp]
  simp [State.measured, hh]

/-- A step keeps the account of the units exactly if they match. -/
theorem step_conserved_iff (h : Inv relid s.ledger) (hc : Conserved relid s) (ev : Event) :
    Conserved relid (step relid s ev) ↔ Matched relid s ev := by
  have hef := step_effect relid s ev
  generalize step relid s ev = s' at hef
  have hq {ev : Event} (hi : acting relid s ev = none) (hr : ∀ dead, ev ≠ .reap dead) :
      Matched relid s ev := by
    cases ev with
    | reap dead => exact absurd rfl (hr dead)
    | _ => simp [Matched, hi]
  cases hef with
  | idle _ hi hr | noted _ n x q hi hr => exact iff_of_true hc (hq hi hr)
  | granted pid now deltaBytes l j hfi hg =>
    exact iff_of_true (conserved_granted hc hg rfl rfl rfl) trivial
  | applied n measuredBytes x l hx hact hins hs =>
    have hsa : headroom l relid = headroom s.ledger relid := by
      rw [headroom_eq, headroom_eq, hs]
    refine Iff.trans (conserved_struck_iff hc 0 (if x.againstHeadroom then 1 else 0)
      (findOldestInsertReservation s.ledger.toEntry relid) (fun _ _ hf => (oldest_some hf).1)
      hins rfl hsa rfl rfl) ?_
    simp only [Matched]
    rw [hact]
    simp
  | closed n x hx hact =>
    have hsa : headroom (closeInsertReservation s.ledger relid).1 relid =
        headroom s.ledger relid := by
      rw [headroom_eq, headroom_eq, closeInsertReservation, releaseOldest_standing]
    refine Iff.trans (conserved_struck_iff hc 0 0
      (findOldestInsertReservation s.ledger.toEntry relid) (fun _ _ hf => (oldest_some hf).1)
      (releaseOldest_inserts s.ledger relid) rfl hsa rfl rfl) ?_
    simp only [Matched]
    rw [hact]
    simp
  | aborted _ n x q hx hact hev =>
    refine (conserved_aborted_iff h hc n { x with request := q }).trans ?_
    obtain rfl | rfl := hev <;> (simp only [Matched]; rw [hact]; simp)
  | finished n x hx hi => exact iff_of_true hc (hq hi (by simp))
  | exited => exact iff_of_true hc trivial
  | measured _ l n hev hins hs =>
    refine iff_of_true (conserved_measured s hs) ?_
    obtain ⟨_, _, rfl⟩ | ⟨_, rfl⟩ := hev <;> trivial
  | kept _ l hi hr hins hs =>
    exact iff_of_true (conserved_same hc hins rfl hs rfl rfl) (hq hi hr)
  | reaped dead =>
    have hp := pendingUnits_reaped h.books dead
    have hsa : headroom (reapEntryReservations dead s.ledger).1 relid =
        headroom s.ledger relid := by
      rw [headroom_eq, headroom_eq, reap_standing dead h.books.allResident]
    rw [← reapedUnits_eq_zero]
    unfold Conserved at hc ⊢
    dsimp only
    omega

/-! ## Whole runs -/

theorem start_conserved (l : Ledger) (relid : Nat) : Conserved relid (start l relid) := by
  have hp : pendingUnits relid (start l relid) = 0 := by
    unfold pendingUnits
    rw [total_eq_zero]
    intro j _
    unfold unitAt
    split <;> simp [start]
  simp only [Conserved, hp]
  simp [start]

theorem emptyBlock_inv (relid : Nat) : Inv relid emptyBlock := by
  refine ⟨emptyBlock_books relid, ?_⟩
  intro j r hj
  simp [emptyBlock, List.getElem?_replicate] at hj

/-- The account of the headroom stands in every state of a run exactly if the units match in each
of its steps. -/
theorem headroom_is_conserved_iff_the_units_match {relid : Nat} {l : Ledger} (hl : Inv relid l)
    (es : List Event) :
    EachState (step relid) (Conserved relid) (start l relid) es ↔
      EachStep (step relid) (Matched relid) (start l relid) es := by
  have hinv : ∀ s ev, Inv relid s.ledger → Inv relid (step relid s ev).ledger :=
    fun _ ev hs => step_inv hs ev
  apply eachState_iff_eachStep hinv
  · intro s ev hs hc
    exact step_conserved_iff hs hc ev
  · exact hl
  · exact start_conserved l relid

/-- Two backends insert against a headroom of five; the second one fails. -/
def fiveRows : List Event :=
  [.load 1 100 5, .reserve 11 2 10, .reserve 12 3 10, .submit 0, .take 0, .reanchor 0 100,
   .answer 0 true, .finish 0, .giveUp 1]

theorem five_rows_are_conserved :
    Inv 7 emptyBlock ∧ headroom (run (step 7) (start emptyBlock 7) fiveRows).ledger 7 = 4 ∧
      EachState (step 7) (Conserved 7) (start emptyBlock 7) fiveRows := by
  refine ⟨emptyBlock_inv 7, by decide +kernel, ?_⟩
  rw [headroom_is_conserved_iff_the_units_match (emptyBlock_inv 7)]
  decide +kernel

def reapedInsert : List Event :=
  [.load 1 100 5, .reserve 11 2 10, .exit 0, .reap fun _ _ => true]

/-- The graph is compacted and measured while an insert is pending that then fails. -/
def measuredMeanwhile : List Event :=
  [.load 1 100 5, .reserve 11 2 10, .reconcile 100 (some 5), .giveUp 0]

/-- A reap keeps the unit of the insert that never came, and an abort gives a unit to a measurement
that it was not taken from. -/
theorem reaps_and_late_aborts_miscount_the_headroom :
    Inv 7 emptyBlock ∧
      (headroom (run (step 7) (start emptyBlock 7) reapedInsert).ledger 7 = 4 ∧
        (run (step 7) (start emptyBlock 7) reapedInsert).installed = 5 ∧
        ¬ Conserved 7 (run (step 7) (start emptyBlock 7) reapedInsert)) ∧
      headroom (run (step 7) (start emptyBlock 7) measuredMeanwhile).ledger 7 = 6 ∧
        (run (step 7) (start emptyBlock 7) measuredMeanwhile).installed = 5 ∧
        ¬ Conserved 7 (run (step 7) (start emptyBlock 7) measuredMeanwhile) := by
  refine ⟨emptyBlock_inv 7, ⟨?_, ?_, ?_⟩, ?_, ?_, ?_⟩
  all_goals decide +kernel

end svs_vamana.headroom_units
