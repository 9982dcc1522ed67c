-- The residency laws: what a database has committed is what its records and pending inserts stand
-- for, and how an insert during a rebuild breaks that.
import SvsVamana.BuildMemory
import SvsVamana.ResidencyBudgets

namespace svs_vamana.residency_books

open transition_runs slot_table svs_memory List

/-! ## What the counter stands for -/

def contributions (e : Entry) : Nat := total (weight contribution) e.reservations

def pendingDeltas (e : Entry) : Nat := total (weight delta) e.insertReservations

/-- Everything that the records account for. -/
def bookedBytes (e : Entry) : Nat := total (weight booked) e.reservations

def strays (e : Entry) : Nat := total (weight stray) e.reservations

theorem bookedBytes_eq (e : Entry) : bookedBytes e = contributions e + strays e := by
  unfold bookedBytes contributions strays
  rw [← total_add]
  apply total_congr
  intro x _
  cases x <;> rfl

/-! ## Conditions on the callers -/

/-- The size that a reanchoring operation has measured. -/
def reanchoredAt : Op → Option Nat
  | .reanchorInsert _ measured => some measured
  | _ => none

def unloads : Op → Bool
  | .accountUnload _ => true
  | _ => false

/-- An insert adds nothing to an index under construction, and no build that has not been
confirmed is unloaded. -/
def Sound (op : Op) (r : Reservation) : Prop :=
  (∀ measured ∈ reanchoredAt op, r.Building → netSize r measured = 0) ∧
  (unloads op → r.state ≠ .reserved)

variable {op : Op}

theorem sound_of_target_none (h : op.target = none) (r : Reservation) : Sound op r := by
  cases op with
  | reanchorInsert => cases h
  | accountUnload => cases h
  | _ => exact ⟨nofun, nofun⟩

/-! ## Turns -/

variable {r : Reservation}

theorem contribution_of_settled (h : r.state ≠ .reserved) (h' : r.state ≠ .rebuilding) :
    contribution r = r.measuredBytes := by
  cases hs : r.state <;> simp_all [contribution]

theorem booked_of_settled (h : r.state ≠ .reserved) (h' : r.state ≠ .rebuilding) :
    booked r = r.measuredBytes := by
  simp [booked, stray, Reservation.Building, contribution_of_settled, h, h']

theorem booked_of_reserved (h : r.state = .reserved) :
    booked r = r.estimateBytes + r.measuredBytes := by
  simp [booked, contribution, stray, Reservation.Building, h]

theorem booked_of_rebuilding (h : r.state = .rebuilding) :
    booked r = r.priorResidentBytes + r.measuredBytes := by
  simp [booked, contribution, stray, Reservation.Building, h]

variable {old new : Option Reservation} {out into peakOut peakIn : Nat}

/-- A turn gives up no more than the record accounts for, and what the new record accounts for
has been taken. -/
theorem turn_booked (h : Turn op old new out into peakOut peakIn) :
    out ≤ weight booked old ∧ weight booked new + out ≤ weight booked old + into := by
  cases h with
  | still => simp
  | granted => simp [booked_of_reserved]
  | rebuilt pid now relid peak estimate ceiling r hs =>
    simp [booked_of_rebuilding, booked_of_settled, hs]
  | confirmed relid peak _ generation r hs | loaded now relid _ headroom generation r =>
    have := contribution_le_booked r
    simp [booked_of_settled]
    omega
  | rejected relid peak measured r hs => simp [contribution_le_booked]
  | rejectedRebuild relid peak measured r hs | restored op r hs =>
    simp [booked_of_settled, booked_of_rebuilding, restorePriorResidency, hs]
  | handedOff relid r hs => simp [booked_of_settled, hs]
  | withdrawn op r => simp [contribution_le_booked]
  | loadedFresh => simp [booked_of_settled]
  | unloaded relid r =>
    by_cases hs : r.state = .rebuilding
    · simp [booked_of_rebuilding, hs]
    · simp [hs, measuredBytes_le_booked]
  | headroom op r n => exact ⟨Nat.zero_le _, Nat.le_refl _⟩
  | reanchored relid measured r =>
    have := measuredBytes_le_booked r
    cases hs : r.state <;>
      simp [booked_of_settled, booked_of_reserved, booked_of_rebuilding, hs] <;> omega
  | reconciled relid _ given r n hs | credited relid generation growth pct _ r hs hc =>
    simp [booked_of_settled, hs]
    omega
  | dropped live r hs => simp [booked_of_settled, hs]

/-- A turn takes no more than it enters in the record's contribution, unless it is an insert
into an index under construction or unloads a fresh build. -/
theorem turn_contribution (h : Turn op old new out into peakOut peakIn)
    (hso : ∀ r, old = some r → Sound op r) :
    into + weight contribution old ≤ weight contribution new + out := by
  cases h with
  | still => simp
  | granted => simp [contribution]
  | rebuilt pid now relid peak estimate ceiling r hs | handedOff relid r hs
  | reconciled relid _ given r n hs | dropped live r hs =>
    simp [contribution, hs]
  | confirmed relid peak _ generation r hs => simp [contribution_of_settled]
  | rejected relid peak measured r hs => simp
  | rejectedRebuild relid peak measured r hs => simp [contribution, restorePriorResidency, hs]
  | withdrawn op r => simp
  | restored op r hs => simp [contribution, restorePriorResidency, hs]
  | loaded now relid _ headroom generation r => simp [contribution_of_settled]
  | loadedFresh => simp [contribution]
  | unloaded relid r =>
    by_cases hs : r.state = .rebuilding
    · simp [contribution, hs]
    · simp [contribution_of_settled, (hso r rfl).2 rfl, hs]
  | headroom op r n => exact Nat.le_of_eq (Nat.add_comm _ _)
  | reanchored relid measured r =>
    by_cases hr : r.Building
    · -- the contribution is the estimate or the prior size, which stay as they are
      have hnet : netSize r measured = 0 := (hso r rfl).1 measured rfl hr
      obtain hs | hs := hr <;> simp [contribution, hs, hnet]
    · obtain ⟨hf, hre⟩ := not_or.mp hr
      simp [contribution_of_settled, hf, hre]
  | credited relid generation growth pct _ r hs hc =>
    simp [contribution, hs]
    omega

/-! ## Moves -/

/-- The counter holds everything that the records and the pending inserts account for. -/
def Covered (e : Entry) : Prop := bookedBytes e + pendingDeltas e ≤ e.residencyBytesCommitted

/-- The counter is what the records and the pending inserts stand for. -/
def Balanced (e : Entry) : Prop := e.residencyBytesCommitted = contributions e + pendingDeltas e

/-- At most one record is about any one index. -/
def OnePerIndex (e : Entry) : Prop := Distinct (fun r : Reservation => r.relid) e.reservations

/-- What the moves of `op`, started on block `e`, do to the residency books. -/
structure Kept (e : Entry) (op : Op) (l l' : Ledger) : Prop where
  covered : Covered l'.toEntry
  distinct : OnePerIndex l'.toEntry
  quiet : l'.residencyUnderflows = l.residencyUnderflows
  balanced : OnTarget Sound e op → Balanced l.toEntry → Balanced l'.toEntry

variable {e : Entry} {l : Ledger}

theorem Kept.trans {l₁ l₂ : Ledger} (h : Kept e op l l₁) (h' : Kept e op l₁ l₂) :
    Kept e op l l₂ where
  covered := h'.covered
  distinct := h'.distinct
  quiet := h'.quiet.trans h.quiet
  balanced := fun hs hbal => h'.balanced hs (h.balanced hs hbal)

theorem contributions_le_bookedBytes (e : Entry) : contributions e ≤ bookedBytes e := by
  rw [bookedBytes_eq]
  exact Nat.le_add_right _ _

theorem posting_kept {l' : Ledger} {ins ins' : Option InsertReservation}
    (h : Posting l l' old new ins ins' out into peakOut peakIn)
    (turn : Turn op old new out into peakOut peakIn)
    (target : ∀ r, old = some r → ∀ relid ∈ op.target, ∃ i, findReservation e relid = some (i, r))
    (hc : Covered l.toEntry) (hd : OnePerIndex l.toEntry) : Kept e op l l' := by
  obtain ⟨hout, hbo⟩ := turn_booked turn
  have hm : bookedBytes l'.toEntry + weight booked old =
      bookedBytes l.toEntry + weight booked new := h.reservations.total booked
  have hh : weight booked old ≤ bookedBytes l.toEntry := h.reservations.le_total booked
  have hp : pendingDeltas l'.toEntry + weight delta ins =
      pendingDeltas l.toEntry + weight delta ins' := h.inserts.total delta
  have hde : weight delta ins ≤ pendingDeltas l.toEntry := h.inserts.le_total delta
  have hcom := h.committed
  unfold Covered at hc
  have hc' : Covered l'.toEntry := by
    unfold Covered
    omega
  refine ⟨hc', h.reservations.distinct hd h.key, h.residencyQuiet (by omega), ?_⟩
  intro hs hbal
  have hen := turn_contribution turn (hs.of_turn sound_of_target_none target)
  have hco : contributions l'.toEntry + weight contribution old =
      contributions l.toEntry + weight contribution new := h.reservations.total contribution
  have hl := contributions_le_bookedBytes l'.toEntry
  unfold Balanced at hbal ⊢
  unfold Covered at hc'
  omega

theorem moves_kept {l' : Ledger} (h : Moves e op l l') (hco : Covered l.toEntry)
    (hd : OnePerIndex l.toEntry) : Kept e op l l' := by
  induction h with
  | done l => exact ⟨hco, hd, rfl, fun _ hbal => hbal⟩
  | @checked l l₁ l₂ i r hi hc _ ih =>
    have hbo : booked r ≤ l.residencyBytesCommitted := by
      have hle : booked r ≤ bookedBytes l.toEntry := le_total (weight booked) hi
      unfold Covered at hco
      omega
    have hf : Kept e op l l₁ := by
      refine ⟨?_, ?_, hc.residencyQuiet hbo, fun _ hbal => ?_⟩
      · simpa only [Covered, bookedBytes, pendingDeltas, hc.reservations, hc.inserts,
          hc.committed] using hco
      · simpa only [OnePerIndex, hc.reservations] using hd
      · simpa only [Balanced, contributions, pendingDeltas, hc.reservations, hc.inserts,
          hc.committed] using hbal
    exact hf.trans (ih hf.covered hf.distinct)
  | post hp turn target _ ih =>
    have hf := posting_kept hp turn target hco hd
    exact hf.trans (ih hf.covered hf.distinct)

/-! ## Steps -/

structure Booked (s : System) : Prop where
  covered : ∀ e ∈ s.blocks, Covered e
  distinct : ∀ e ∈ s.blocks, OnePerIndex e
  quiet : s.residencyUnderflows = []

/-- In every database the counter is what the records and the pending inserts stand for. -/
def Conserved (s : System) : Prop := ∀ e ∈ s.blocks, Balanced e

deriving instance Decidable for Balanced
deriving instance Decidable for Conserved

theorem empty_books (hs : e.reservations = replicate vamanaMaxIndexes none)
    (hins : e.insertReservations = replicate svsMaxPendingInsertReservations none)
    (hz : e.residencyBytesCommitted = 0) : Covered e ∧ OnePerIndex e ∧ Balanced e := by
  refine ⟨?_, ?_, ?_⟩
  · simp [Covered, bookedBytes, pendingDeltas, hs, hins, total_replicate]
  · unfold OnePerIndex
    rw [hs]
    exact distinct_free _ _
  · simp [Balanced, contributions, pendingDeltas, hs, hins, hz, total_replicate]

variable {s s' : System}

theorem set_booked (h : Booked s) {i : Nat} {e' : Entry} (hbl : s'.blocks = s.blocks.set i e')
    (hq : s'.residencyUnderflows = s.residencyUnderflows) (hc : Covered e')
    (hd : OnePerIndex e') : Booked s' := by
  refine ⟨?_, ?_, hq.trans h.quiet⟩
  · rw [hbl]
    exact forall_set h.covered hc i
  · rw [hbl]
    exact forall_set h.distinct hd i

theorem set_conserved (h : Conserved s) {i : Nat} {e' : Entry}
    (hbl : s'.blocks = s.blocks.set i e') (hbal : Balanced e') : Conserved s' := by
  unfold Conserved
  rw [hbl]
  exact forall_set h hbal i

theorem other_booked (h : Booked s) (ho : Other s s') :
    Booked s' ∧ (Conserved s → Conserved s') := by
  cases ho with
  | idle pending | refused pending what hi => exact ⟨⟨h.covered, h.distinct, h.quiet⟩, id⟩
  | @budget pending i e what residencyBudget hi =>
    have hmem := mem_of_getElem? hi
    exact ⟨set_booked h rfl rfl (h.covered e hmem) (h.distinct e hmem),
      fun hc => set_conserved hc rfl (hc e hmem)⟩
  | @reserved i e dbOid hi =>
    have hmem := mem_of_getElem? hi
    exact ⟨set_booked h rfl rfl (h.covered e hmem) (h.distinct e hmem),
      fun hc => set_conserved hc rfl (hc e hmem)⟩
  | @released i e hi =>
    obtain ⟨hco, hd, hbal⟩ := empty_books
      (e := { dbOid := 0, nextResidentGeneration := e.nextResidentGeneration }) rfl rfl rfl
    exact ⟨set_booked h rfl rfl hco hd, fun hc => set_conserved hc rfl hbal⟩

theorem step_booked (s : System) (ev : Event) (h : Booked s) :
    Booked (step s ev) ∧ (OnWork Sound s ev → Conserved s → Conserved (step s ev)) := by
  obtain ⟨i, e, op, pending, hw, hst⟩ | ⟨-, ho⟩ := step_cases s ev
  · have hmem := mem_of_getElem? (work_some hw)
    have hk := moves_kept (apply_moves (s.ledger e) op) (h.covered e hmem) (h.distinct e hmem)
    rw [hst]
    refine ⟨set_booked h rfl hk.quiet hk.covered hk.distinct, fun hs hc => ?_⟩
    exact set_conserved hc rfl (hk.balanced (hs _ hw) (hc e hmem))
  · obtain ⟨hbo, hco⟩ := other_booked h ho
    exact ⟨hbo, fun _ => hco⟩

theorem init_booked (maxDatabases : Nat) :
    Booked (init maxDatabases) ∧ Conserved (init maxDatabases) := by
  have hf : ∀ e ∈ (init maxDatabases).blocks, Covered e ∧ OnePerIndex e ∧ Balanced e := by
    intro e he
    rw [eq_of_mem_replicate he]
    exact empty_books rfl rfl rfl
  exact ⟨⟨fun e he => (hf e he).1, fun e he => (hf e he).2.1, rfl⟩, fun e he => (hf e he).2.2⟩

/-! ## Conservation -/

/-- No insert is reanchored on an index under construction, and no fresh build is unloaded. -/
def Allowed (op : Op) (r : Reservation) : Prop :=
  ((reanchoredAt op).isSome → ¬ r.Building) ∧ (unloads op → r.state ≠ .reserved)

deriving instance Decidable for Allowed

theorem Allowed.sound (h : Allowed op r) : Sound op r := by
  refine ⟨fun measured hm hr => ?_, h.2⟩
  exact absurd hr (h.1 (Option.isSome_of_mem hm))

/-- Index 7 is seeded and takes an insert, is rebuilt and handed off; an aborted insert is
credited; index 8's backend dies, and so does a backend with a pending insert. -/
def inOrder : List Event :=
  build_memory.admitted ++
    [.beginSeed 0 7 100, .finish (.seedLoad 0 7 100) 1 0,
      .call 0 (.reserveInsert 50 2 7 10), .call 0 (.reanchorInsert 7 115),
      .call 0 (.creditAbortedInserts 7 1 15 20),
      .call 0 (.reserveBuild 42 3 7 40 120 10000), .call 0 (.confirmBuild 7 40 110),
      .call 0 (.handoffBuild 7), .call 0 (.reconcileLoad 4 7 111 8),
      .call 0 (.reserveBuild 43 5 8 30 50 10000), .call 0 (.reserveInsert 43 6 9 12),
      .call 0 (.reap fun pid _ => pid == 43), .call 0 (.accountUnload 7)]

/-- Neither an insert nor an unload meets a build that has not been confirmed. -/
def SparesReserved (op : Op) (r : Reservation) : Prop :=
  ((reanchoredAt op).isSome ∨ unloads op) → r.state ≠ .reserved

/-- An insert that is applied during a rebuild finds the graph no larger than what aborted
inserts have left in it. -/
def LateInsertAddsNothing (op : Op) (r : Reservation) : Prop :=
  ∀ measured ∈ reanchoredAt op, r.state = .rebuilding → measured ≤ r.reclaimableBytes

deriving instance Decidable for SparesReserved

deriving instance Decidable for LateInsertAddsNothing

theorem netSize_eq_zero (r : Reservation) (measured : Nat) :
    netSize r measured = 0 ↔ measured ≤ r.reclaimableBytes := by
  unfold netSize
  omega

theorem sound_of_late (hs : SparesReserved op r) (hl : LateInsertAddsNothing op r) :
    Sound op r := by
  refine ⟨fun measured hm hr => ?_, fun hu => hs (.inr hu)⟩
  have hf : r.state ≠ .reserved := hs (.inl (Option.isSome_of_mem hm))
  exact (netSize_eq_zero r measured).mpr (hl measured hm (hr.resolve_left hf))

/-- What a late insert measures stays in the record's `measuredBytes`, outside its
contribution, and in the counter. -/
theorem netSize_of_balanced {relid i measured : Nat}
    (hf : findReservation l.toEntry relid = some (i, r)) (hs : r.state = .rebuilding)
    (hc : Covered (reanchorInsert l relid measured).1.toEntry)
    (hbal : Balanced (reanchorInsert l relid measured).1.toEntry) : netSize r measured = 0 := by
  obtain ⟨ins, hp⟩ := reanchorInsert_posting hf measured
  have hm := hp.reservations.total stray
  have hh := hp.reservations.le_total stray
  have hbo := bookedBytes_eq (reanchorInsert l relid measured).1.toEntry
  simp only [weight_some, stray, Reservation.Building, hs, or_true, if_true] at hm hh
  unfold Covered at hc
  unfold Balanced at hbal
  simp only [strays] at hbo
  omega

/-- A step from a conserved state leaves a conserved state only if a late insert adds
nothing. -/
theorem late_of_conserved {ev : Event} (h : Booked (step s ev)) (hc : Conserved (step s ev)) :
    OnWork LateInsertAddsNothing s ev := by
  intro w hw relid hr x hx measured hm hs
  obtain ⟨i, e, op⟩ := w
  obtain ⟨i', e', op', pending, hwo, hst⟩ | ⟨hn, -⟩ := step_cases s ev
  · cases hwo.symm.trans hw
    cases op with
    | reanchorInsert relid' measured' =>
      cases hr
      cases hm
      have hmem : (reanchorInsert (s.ledger e) relid measured).1.toEntry ∈ (step s ev).blocks := by
        rw [hst]
        exact List.mem_set (List.getElem?_eq_some_iff.mp (work_some hwo)).1 _
      exact (netSize_eq_zero x.2 measured).mp
        (netSize_of_balanced hx hs (h.covered _ hmem) (hc _ hmem))
    | _ => cases hm
  · rw [hn] at hw
    cases hw

/-- Where neither an insert nor an unload meets a RESERVED record, the books are conserved exactly
if every insert applied during a rebuild measures no more than the reclaimable bytes. -/
theorem late_inserts_decide_conservation (maxDatabases : Nat) (es : List Event)
    (h : EachStep step (OnWork SparesReserved) (init maxDatabases) es) :
    EachState step Conserved (init maxDatabases) es ↔
      EachStep step (OnWork LateInsertAddsNothing) (init maxDatabases) es := by
  obtain ⟨hbo, hco⟩ := init_booked maxDatabases
  apply eachState_iff_eachStep_under _ _ hbo hco h
  · exact fun s ev hs _ => (step_booked s ev hs).1
  · intro s ev hs hc hsp
    obtain ⟨hbo', hc'⟩ := step_booked s ev hs
    constructor
    · exact late_of_conserved hbo'
    · intro hl
      refine hc' (fun w hw relid hr x hx => ?_) hc
      exact sound_of_late (hsp w hw relid hr x hx) (hl w hw relid hr x hx)

/-- Index 7 holds 100 bytes, and backend 50 has an insert of 10 pending on it, when backend 42
starts a rebuild. The worker then applies the insert to the old graph. -/
def lateInsert : List Event :=
  build_memory.admitted ++
    [.call 0 (.reconcileLoad 1 7 100 0), .call 0 (.reserveInsert 50 2 7 10),
      .call 0 (.reserveBuild 42 3 7 40 120 10000), .call 0 (.reanchorInsert 7 110)]

/-- Whether the rebuild aborts or confirms, 110 bytes stay committed that no record and no
pending insert stands for. -/
theorem a_late_insert_leaves_bytes_committed :
    EachStep step (OnWork SparesReserved) (init 1) lateInsert ∧
    (run step (init 1) (lateInsert ++ [.call 0 (.abortBuild 7)])).blocks.map
      (fun e => (e.residencyBytesCommitted, contributions e, pendingDeltas e)) =
      [(210, 100, 0)] ∧
    (run step (init 1) (lateInsert ++ [.call 0 (.confirmBuild 7 40 115)])).blocks.map
      (fun e => (e.residencyBytesCommitted, contributions e, pendingDeltas e)) =
      [(225, 115, 0)] ∧
    ¬ Conserved (run step (init 1) (lateInsert ++ [.call 0 (.abortBuild 7)])) ∧
    ¬ Conserved (run step (init 1) (lateInsert ++ [.call 0 (.confirmBuild 7 40 115)])) := by
  decide +kernel

/-- All of index 7's 130 bytes are credited back to aborted inserts before a rebuild starts; an
insert applied during the rebuild measures 125. -/
def lateInsertInDebt : List Event :=
  build_memory.admitted ++
    [.call 0 (.reconcileLoad 1 7 130 0), .call 0 (.creditAbortedInserts 7 1 200 20),
      .call 0 (.reserveInsert 50 2 7 10), .call 0 (.reserveBuild 42 3 7 40 120 10000),
      .call 0 (.reanchorInsert 7 125), .call 0 (.abortBuild 7)]

theorem a_late_insert_within_the_debt_is_accounted_for :
    EachState step Conserved (init 1) lateInsertInDebt :=
  (late_inserts_decide_conservation 1 lateInsertInDebt (by decide +kernel)).mpr
    (by decide +kernel)

end svs_vamana.residency_books
