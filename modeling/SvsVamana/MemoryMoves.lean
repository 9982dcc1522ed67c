-- What the operations on a control block do to its books, said once for all of them: each takes one
-- record from old to new and moves the counters by the bytes of that turn.
import SvsVamana.SvsMemory

namespace svs_vamana.svs_memory

open transition_runs slot_table Ledger List

/-! ## Turns of a reservation -/

def Reservation.Building (r : Reservation) : Prop := r.state = .reserved ∨ r.state = .rebuilding

deriving instance Decidable for Reservation.Building

/-- Bytes that an insert has entered for an index under construction: they come on top of
the record's contribution. -/
def stray (r : Reservation) : Nat := if r.Building then r.measuredBytes else 0

/-- All the bytes of `residencyBytesCommitted` that a record accounts for. -/
def booked (r : Reservation) : Nat := contribution r + stray r

/-- The bytes of the counter that stand for a pending insert. -/
def delta (r : InsertReservation) : Nat := r.deltaBytes

/-- From the old record to the new one: the residency counter gives up the first number of bytes and
takes the second, the build counters the third and the fourth. -/
inductive Turn : Op → Option Reservation → Option Reservation → Nat → Nat → Nat → Nat → Prop
  | still (op : Op) : Turn op none none 0 0 0 0
  | granted (pid now relid peak estimate ceiling : Nat) :
      Turn (.reserveBuild pid now relid peak estimate ceiling) none
        (some { relid, ownerPid := pid, reservedAt := now, estimateBytes := estimate,
                buildPeakBytes := peak, state := .reserved }) 0 estimate 0 peak
  | rebuilt (pid now relid peak estimate ceiling : Nat) (r : Reservation)
      (hs : r.state = .resident) :
      Turn (.reserveBuild pid now relid peak estimate ceiling) (some r)
        (some { r with
          ownerPid := pid, reservedAt := now, estimateBytes := estimate, measuredBytes := 0,
          buildPeakBytes := peak, priorResidentBytes := r.measuredBytes,
          state := .rebuilding }) 0 0 0 peak
  | confirmed (relid peak measured generation : Nat) (r : Reservation) (hs : r.Building) :
      Turn (.confirmBuild relid peak measured) (some r)
        (some { r with
          buildPeakBytes := 0, state := .confirmed, measuredBytes := measured,
          priorResidentBytes := 0, reclaimableBytes := 0, residentGeneration := generation })
        (contribution r) measured peak 0
  | rejected (relid peak measured : Nat) (r : Reservation) (hs : r.state = .reserved) :
      Turn (.confirmBuild relid peak measured) (some r) none (contribution r) 0 peak 0
  | rejectedRebuild (relid peak measured : Nat) (r : Reservation) (hs : r.state = .rebuilding) :
      Turn (.confirmBuild relid peak measured) (some r) (some (restorePriorResidency r))
        0 0 peak 0
  | handedOff (relid : Nat) (r : Reservation) (hs : r.state = .confirmed) :
      Turn (.handoffBuild relid) (some r) (some { r with state := .handoff }) 0 0 0 0
  | withdrawn (op : Op) (r : Reservation) :
      Turn op (some r) none (contribution r) 0 r.buildPeakBytes 0
  | restored (op : Op) (r : Reservation) (hs : r.state = .rebuilding) :
      Turn op (some r) (some (restorePriorResidency r)) 0 0 r.buildPeakBytes 0
  | loaded (now relid measured headroom generation : Nat) (r : Reservation) :
      Turn (.reconcileLoad now relid measured headroom) (some r)
        (some { r with
          state := .resident, ownerPid := 0, measuredBytes := measured,
          capacityHeadroomVectors := headroom, priorResidentBytes := 0, buildPeakBytes := 0,
          reclaimableBytes := 0, residentGeneration := generation })
        (contribution r) measured (if r.state = .rebuilding then r.buildPeakBytes else 0) 0
  | loadedFresh (now relid measured headroom generation : Nat) :
      Turn (.reconcileLoad now relid measured headroom) none
        (some { relid, state := .resident, reservedAt := now, estimateBytes := measured,
                measuredBytes := measured, capacityHeadroomVectors := headroom,
                residentGeneration := generation }) 0 measured 0 0
  | unloaded (relid : Nat) (r : Reservation) :
      Turn (.accountUnload relid) (some r) none
        (if r.state = .rebuilding then r.priorResidentBytes else r.measuredBytes) 0
        (if r.state = .rebuilding then r.buildPeakBytes else 0) 0
  | headroom (op : Op) (r : Reservation) (n : Nat) :
      Turn op (some r) (some { r with capacityHeadroomVectors := n }) 0 0 0 0
  | reanchored (relid measured : Nat) (r : Reservation) :
      Turn (.reanchorInsert relid measured) (some r)
        (some { r with
          measuredBytes := netSize r measured
          reclaimableBytes := min r.reclaimableBytes measured })
        r.measuredBytes (netSize r measured) 0 0
  | reconciled (relid measured : Nat) (given : Option Nat) (r : Reservation) (n : Nat)
      (hs : r.state = .resident) :
      Turn (.reconcileResident relid measured given) (some r)
        (some { r with
          measuredBytes := measured, capacityHeadroomVectors := n, reclaimableBytes := 0 })
        r.measuredBytes measured 0 0
  | credited (relid generation growth pct credit : Nat) (r : Reservation)
      (hs : r.state = .resident) (hcredit : credit ≤ r.measuredBytes) :
      Turn (.creditAbortedInserts relid generation growth pct) (some r)
        (some { r with
          measuredBytes := r.measuredBytes - credit
          reclaimableBytes := r.reclaimableBytes + credit }) credit 0 0 0
  | dropped (live : List Nat) (r : Reservation) (hs : r.state = .resident) :
      Turn (.reconcileResidentReservations live) (some r) none r.measuredBytes 0 0 0

/-! ## Moves of the books -/

/-- `l'` is `l` after one reservation has gone from `old` to `new` and one pending insert
from `ins` to `ins'`. No counter warns as long as it holds what is checked against it. -/
structure Posting (l l' : Ledger) (old new : Option Reservation)
    (ins ins' : Option InsertReservation) (out into peakOut peakIn : Nat) : Prop where
  reservations : Replaced l.reservations l'.reservations old new
  key : ∀ r, new = some r → (∃ r₀, old = some r₀ ∧ r.relid = r₀.relid) ∨
    findReservation l.toEntry r.relid = none
  inserts : Replaced l.insertReservations l'.insertReservations ins ins'
  budget : l'.residencyBudget = l.residencyBudget
  committed : l'.residencyBytesCommitted =
    l.residencyBytesCommitted - out - weight delta ins + into + weight delta ins'
  build : l'.buildBytesCommitted = l.buildBytesCommitted - peakOut + peakIn
  buildTotal : l'.totalBuildCommittedGlobal = l.totalBuildCommittedGlobal - peakOut + peakIn
  residencyQuiet : weight booked old + weight delta ins ≤ l.residencyBytesCommitted →
    l'.residencyUnderflows = l.residencyUnderflows
  buildQuiet : peakOut ≤ l.buildBytesCommitted → peakOut ≤ l.totalBuildCommittedGlobal →
    l'.buildUnderflows = l.buildUnderflows

/-- `l'` is `l` after a build peak has been given up and no more than `bound` bytes have
been checked against the residency counter. -/
structure Cleared (l l' : Ledger) (bound peak : Nat) : Prop where
  reservations : l'.reservations = l.reservations
  inserts : l'.insertReservations = l.insertReservations
  budget : l'.residencyBudget = l.residencyBudget
  committed : l'.residencyBytesCommitted = l.residencyBytesCommitted
  build : l'.buildBytesCommitted = l.buildBytesCommitted - peak
  buildTotal : l'.totalBuildCommittedGlobal = l.totalBuildCommittedGlobal - peak
  residencyQuiet : bound ≤ l.residencyBytesCommitted →
    l'.residencyUnderflows = l.residencyUnderflows
  buildQuiet : peak ≤ l.buildBytesCommitted → peak ≤ l.totalBuildCommittedGlobal →
    l'.buildUnderflows = l.buildUnderflows

/-- The index whose record an operation works on, where the conditions on the callers
depend on the record. -/
def Op.target : Op → Option Nat
  | .confirmBuild relid _ _ => some relid
  | .reconcileLoad _ relid _ _ => some relid
  | .accountUnload relid => some relid
  | .reanchorInsert relid _ => some relid
  | _ => none

/-- `C` holds of the operation and of the record that it works on. -/
def OnTarget (C : Op → Reservation → Prop) (e : Entry) (op : Op) : Prop :=
  ∀ relid ∈ op.target, ∀ x ∈ findReservation e relid, C op x.2

instance (C : Op → Reservation → Prop) [∀ op r, Decidable (C op r)] (e : Entry) (op : Op) :
    Decidable (OnTarget C e op) :=
  inferInstanceAs (Decidable (∀ relid ∈ op.target, ∀ x ∈ findReservation e relid, C op x.2))

variable {e : Entry} {op : Op} {old : Option Reservation}

theorem OnTarget.of_turn {C : Op → Reservation → Prop} (h : OnTarget C e op)
    (hfr : op.target = none → ∀ r, C op r)
    (target : ∀ r, old = some r → ∀ relid ∈ op.target, ∃ i, findReservation e relid = some (i, r)) :
    ∀ r, old = some r → C op r := by
  intro r hr
  cases ht : op.target with
  | none => exact hfr ht r
  | some relid =>
    obtain ⟨i, hf⟩ := target r hr relid ht
    exact h relid ht (i, r) hf

/-- The moves that `op` makes, started on block `e`. -/
inductive Moves (e : Entry) (op : Op) : Ledger → Ledger → Prop
  | done (l : Ledger) : Moves e op l l
  | checked {l l₁ l₂ : Ledger} {i : Nat} {r : Reservation}
      (hi : l.reservations[i]? = some (some r)) (h : Cleared l l₁ (booked r) 0)
      (rest : Moves e op l₁ l₂) : Moves e op l l₂
  | post {l l₁ l₂ : Ledger} {old new : Option Reservation} {ins ins' : Option InsertReservation}
      {out into peakOut peakIn : Nat}
      (h : Posting l l₁ old new ins ins' out into peakOut peakIn)
      (turn : Turn op old new out into peakOut peakIn)
      (target : ∀ r, old = some r → ∀ relid ∈ op.target,
        ∃ i, findReservation e relid = some (i, r))
      (rest : Moves e op l₁ l₂) : Moves e op l l₂

variable {l : Ledger}

theorem Moves.trans {l₁ l₂ : Ledger} (h : Moves e op l l₁) (h' : Moves e op l₁ l₂) :
    Moves e op l l₂ := by
  induction h with
  | done => exact h'
  | checked hi hc _ ih => exact .checked hi hc (ih h')
  | post hp turn target _ ih => exact .post hp turn target (ih h')

/-! ## Clearing -/

variable {committed : Nat}

theorem underflow_of_le {amount : Nat} (what : String) (h : amount ≤ committed) :
    underflow committed amount what = [] :=
  if_neg (by omega)

theorem cleared_refl (l : Ledger) (bound : Nat) : Cleared l l bound 0 :=
  ⟨rfl, rfl, rfl, rfl, rfl, rfl, fun _ => rfl, fun _ _ => rfl⟩

variable {l' : Ledger} {bound peak : Nat}

theorem Cleared.check {amount : Nat} (h : Cleared l l' bound peak) (hle : amount ≤ bound)
    (what : String) : Cleared l (l'.checkResidency amount what) bound peak := by
  refine ⟨h.reservations, h.inserts, h.budget, h.committed, h.build, h.buildTotal, ?_, h.buildQuiet⟩
  intro hbo
  have hf : amount ≤ l'.residencyBytesCommitted := by
    rw [h.committed]
    omega
  simp only [checkResidency, underflow_of_le what hf, append_nil]
  exact h.residencyQuiet hbo

theorem Cleared.stamp (h : Cleared l l' bound peak) : Cleared l l'.stampGeneration bound peak :=
  ⟨h.reservations, h.inserts, h.budget, h.committed, h.build, h.buildTotal, h.residencyQuiet,
    h.buildQuiet⟩

section

variable (h : Cleared l l' bound 0)
include h

theorem Cleared.releaseBuild (peak : Nat) (what : String) :
    Cleared l (l'.releaseBuild peak what) bound peak := by
  have hbu : l'.buildBytesCommitted = l.buildBytesCommitted := h.build
  have ht : l'.totalBuildCommittedGlobal = l.totalBuildCommittedGlobal := h.buildTotal
  refine ⟨h.reservations, h.inserts, h.budget, h.committed, ?_, ?_, h.residencyQuiet, ?_⟩
  · simp only [Ledger.releaseBuild, hbu]
  · simp only [Ledger.releaseBuild, ht]
  · intro hbl hh
    have hq := h.buildQuiet (Nat.zero_le _) (Nat.zero_le _)
    rw [← hbu] at hbl
    rw [← ht] at hh
    simp only [Ledger.releaseBuild, underflow_of_le _ hbl, underflow_of_le _ hh, append_nil, hq]

theorem Cleared.releasePeakOf (r : Reservation) (what : String) :
    Cleared l (l'.releasePeakOf r what) bound r.buildPeakBytes := by
  unfold Ledger.releasePeakOf
  split
  · exact h.releaseBuild r.buildPeakBytes what
  · have hz : r.buildPeakBytes = 0 := by omega
    rw [hz]
    exact h

theorem Cleared.releaseRebuild (r : Reservation) (what : String) :
    Cleared l (if r.state = .rebuilding then l'.releasePeakOf r what else l') bound
      (if r.state = .rebuilding then r.buildPeakBytes else 0) := by
  split
  · exact h.releasePeakOf r what
  · exact h

end

variable {new : Option Reservation} {i into out : Nat}

section

variable (h : Cleared l l' (weight booked old) peak) (hi : l.reservations[i]? = some old)
  (hkey : ∀ r, new = some r → (∃ r₀, old = some r₀ ∧ r.relid = r₀.relid) ∨
    findReservation l.toEntry r.relid = none)
include h hi hkey

/-- Writing a slot for a build whose peak has been taken, after the books have been cleared. -/
theorem Cleared.buildPosting (taken : Nat)
    (hc : committed = l.residencyBytesCommitted - out + into) :
    Posting l ((l'.commitBuild taken).post i new committed) old new none none out into peak taken
    where
  reservations := by
    simp only [post, commitBuild, h.reservations]
    exact replaced_set hi new
  key := hkey
  inserts := by
    simp only [post, commitBuild, h.inserts]
    exact replaced_refl _
  budget := h.budget
  committed := hc
  build := congrArg (· + taken) h.build
  buildTotal := congrArg (· + taken) h.buildTotal
  residencyQuiet := fun hle => h.residencyQuiet (by simpa using hle)
  buildQuiet := h.buildQuiet

theorem Cleared.posting (hc : committed = l.residencyBytesCommitted - out + into) :
    Posting l (l'.post i new committed) old new none none out into peak 0 :=
  h.buildPosting hi hkey 0 hc

end

theorem key_some {r₀ r' : Reservation} (h : r'.relid = r₀.relid) :
    ∀ r, some r' = some r → (∃ r₁, some r₀ = some r₁ ∧ r.relid = r₁.relid) ∨
      findReservation l.toEntry r.relid = none := by
  rintro r ⟨⟩
  exact .inl ⟨r₀, rfl, h⟩

theorem key_none :
    ∀ r : Reservation, none = some r → (∃ r₀, old = some r₀ ∧ r.relid = r₀.relid) ∨
      findReservation l.toEntry r.relid = none :=
  nofun

theorem contribution_le_booked (r : Reservation) : contribution r ≤ booked r :=
  Nat.le_add_right _ _

theorem measuredBytes_le_booked (r : Reservation) : r.measuredBytes ≤ booked r := by
  cases hs : r.state <;> simp [booked, contribution, stray, Reservation.Building, hs]

variable {r : Reservation} {relid : Nat}

theorem findReservation_some (h : findReservation e relid = some (i, r)) :
    e.reservations[i]? = some (some r) ∧ r.relid = relid := by
  obtain ⟨hi, hr⟩ := find_some h
  exact ⟨hi, by simpa using hr⟩

variable {ins ins' : Option InsertReservation} {peakOut peakIn : Nat}

theorem Moves.one (hf : findReservation l.toEntry relid = some (i, r))
    (turn : Turn op (some r) new out into peakOut peakIn) (ht : ∀ x ∈ op.target, x = relid)
    (h : Posting l l' (some r) new ins ins' out into peakOut peakIn) : Moves l.toEntry op l l' := by
  refine .post h turn ?_ (.done l')
  intro r' hr' x hx
  cases hr'
  exact ⟨i, ht x hx ▸ hf⟩

theorem Moves.any (ht : op.target = none) (turn : Turn op old new out into peakOut peakIn)
    (h : Posting l l' old new ins ins' out into peakOut peakIn) : Moves e op l l' := by
  refine .post h turn ?_ (.done l')
  intro r _ relid hr
  rw [ht] at hr
  cases hr

theorem Moves.fresh (turn : Turn op none new out into peakOut peakIn)
    (h : Posting l l' none new ins ins' out into peakOut peakIn) : Moves e op l l' :=
  .post h turn (fun r hr => by cases hr) (.done l')

/-! ## The moves of each operation -/

section

variable (l : Ledger)

theorem reserveBuild_moves (pid now relid peak estimate ceiling : Nat) :
    Moves l.toEntry (.reserveBuild pid now relid peak estimate ceiling) l
      (reserveBuild l pid now relid peak estimate ceiling).1 := by
  unfold reserveBuild
  split
  · exact .done l
  split
  · next i r hf =>
    obtain ⟨hi, -⟩ := findReservation_some hf
    have hc : Cleared l (l.checkResidency r.measuredBytes "a rebuild's prior resident bytes")
        (booked r) 0 := (cleared_refl l (booked r)).check (measuredBytes_le_booked r) _
    split
    · exact .done l
    next hs =>
    dsimp only
    split
    · exact .checked hi hc (.done _)
    split
    · exact .checked hi hc (.done _)
    have ht := Turn.rebuilt pid now relid peak estimate ceiling r (by simpa using hs)
    exact Moves.any rfl ht (hc.buildPosting hi (key_some (by rfl)) peak rfl)
  · next hf =>
    split
    · exact .done l
    split
    · exact .done l
    next i hfr =>
    split
    · exact .done l
    exact Moves.fresh (.granted pid now relid peak estimate ceiling)
      ((cleared_refl l _).buildPosting (free_some hfr)
        (fun r hr => by cases hr; exact .inr hf) peak rfl)

theorem confirmBuild_moves (relid peak measured : Nat) :
    Moves l.toEntry (.confirmBuild relid peak measured) l
      (confirmBuild l relid peak measured).1 := by
  unfold confirmBuild
  split
  · exact .done l
  next i r hf =>
  obtain ⟨hi, -⟩ := findReservation_some hf
  split
  · exact .done l
  next hs =>
  have hbu : r.Building := by
    simp only [ne_eq, not_and_or, not_not] at hs
    exact hs
  -- what a build in progress holds is its contribution, in either state
  have hp : (if r.state = .rebuilding then r.priorResidentBytes else r.estimateBytes) =
      contribution r := by
    obtain h | h := hbu <;> simp [contribution, h]
  simp only [hp]
  have hc := ((cleared_refl l (booked r)).releaseBuild peak "a build peak").check
    (contribution_le_booked r) "a build handoff's prior residency contribution"
  have ht : ∀ x ∈ (Op.confirmBuild relid peak measured).target, x = relid := by
    simp [Op.target]
  split
  · exact Moves.one hf (.confirmed relid peak measured _ r hbu) ht
      (hc.stamp.posting hi (key_some (by rfl)) rfl)
  split
  · next hr =>
    exact Moves.one hf (.rejectedRebuild relid peak measured r hr) ht
      (hc.posting hi (key_some (by rfl)) rfl)
  · next hnot =>
    exact Moves.one hf (.rejected relid peak measured r (hbu.resolve_right hnot)) ht
      (hc.posting hi (key_none) rfl)

theorem handoffBuild_moves (relid : Nat) :
    Moves l.toEntry (.handoffBuild relid) l (handoffBuild l relid).1 := by
  unfold handoffBuild
  split
  · exact .done l
  next i r hf =>
  obtain ⟨hi, -⟩ := findReservation_some hf
  split
  · exact .done l
  next hs =>
  exact Moves.any rfl (.handedOff relid r (by simpa using hs))
    ((cleared_refl l _).posting hi (key_some (by rfl)) rfl)

theorem abortBuild_moves (relid : Nat) :
    Moves l.toEntry (.abortBuild relid) l (abortBuild l relid).1 := by
  unfold abortBuild
  split
  · exact .done l
  next i r hf =>
  obtain ⟨hi, -⟩ := findReservation_some hf
  have hc := (cleared_refl l (booked r)).releasePeakOf r "a build peak"
  split
  · exact .done l
  next hr =>
  split
  · next hs =>
    exact Moves.any rfl (.restored _ r hs) (hc.posting hi (key_some (by rfl)) hc.committed)
  · next hs =>
    have hh : (if r.state = .reserved then r.estimateBytes else r.measuredBytes) =
        contribution r := by
      cases h : r.state <;> simp_all [contribution]
    rw [hh]
    exact Moves.any rfl (.withdrawn _ r)
      ((hc.check (contribution_le_booked r) _).posting hi (key_none)
        (by rw [hc.committed]; rfl))

theorem reconcileLoad_moves (now relid measured headroom : Nat) :
    Moves l.toEntry (.reconcileLoad now relid measured headroom) l
      (reconcileLoad l now relid measured headroom).1 := by
  unfold reconcileLoad
  split
  · exact .done l
  split
  · next i r hf =>
    obtain ⟨hi, -⟩ := findReservation_some hf
    have hc := (cleared_refl l (booked r)).check (contribution_le_booked r)
      "a load reconcile's prior contribution"
    dsimp only
    split
    · exact .checked hi hc (.done _)
    exact Moves.one hf (.loaded now relid measured headroom _ r) (by simp [Op.target])
      ((hc.releaseRebuild r "a build peak").stamp.posting hi
        (key_some (by rfl)) rfl)
  · next hf =>
    split
    · exact .done l
    split
    · exact .done l
    next i hfr =>
    exact Moves.fresh (.loadedFresh now relid measured headroom _)
      ((cleared_refl l _).stamp.posting (free_some hfr)
        (fun r hr => by cases hr; exact .inr hf) rfl)

theorem accountUnload_moves (relid : Nat) :
    Moves l.toEntry (.accountUnload relid) l (accountUnload l relid).1 := by
  unfold accountUnload
  split
  · exact .done l
  next i r hf =>
  obtain ⟨hi, -⟩ := findReservation_some hf
  have hc := (cleared_refl l (booked r)).releaseRebuild r "a build peak"
  have hh : (if r.state = .rebuilding then r.priorResidentBytes else r.measuredBytes) ≤
      booked r := by
    split
    · next hs => simp [booked, contribution, hs]
    · exact measuredBytes_le_booked r
  exact Moves.one hf (.unloaded relid r) (by simp [Op.target])
    ((hc.check hh _).posting hi key_none (by rw [hc.committed]; rfl))

/-! ## Inserts -/

end

theorem posting_insert {j : Nat} (hj : l.insertReservations[j]? = some none) (r : InsertReservation) :
    Posting l (l.postInsert j (some r) (l.residencyBytesCommitted + r.deltaBytes))
      none none none (some r) 0 0 0 0 where
  reservations := replaced_refl _
  key := key_none
  inserts := replaced_set hj _
  budget := rfl
  committed := rfl
  build := rfl
  buildTotal := rfl
  residencyQuiet := fun _ => rfl
  buildQuiet := fun _ _ => rfl

/-- `l'` is `l` with the pending insert `ins` struck out. -/
structure Struck (l l' : Ledger) (ins : Option InsertReservation) : Prop where
  reservations : l'.reservations = l.reservations
  inserts : Replaced l.insertReservations l'.insertReservations ins none
  budget : l'.residencyBudget = l.residencyBudget
  committed : l'.residencyBytesCommitted = l.residencyBytesCommitted - weight delta ins
  build : l'.buildBytesCommitted = l.buildBytesCommitted
  buildTotal : l'.totalBuildCommittedGlobal = l.totalBuildCommittedGlobal
  residencyQuiet : weight delta ins ≤ l.residencyBytesCommitted →
    l'.residencyUnderflows = l.residencyUnderflows
  buildQuiet : l'.buildUnderflows = l.buildUnderflows

theorem releaseInsert_struck {j : Nat} {r : InsertReservation}
    (hj : l.insertReservations[j]? = some (some r)) (what : String) :
    Struck l (l.releaseInsert j r.deltaBytes what) (some r) where
  reservations := rfl
  inserts := replaced_set hj _
  budget := rfl
  committed := rfl
  build := rfl
  buildTotal := rfl
  residencyQuiet := fun hle => append_right_eq_self.mpr (underflow_of_le what hle)
  buildQuiet := rfl

theorem releaseOldest_struck (l : Ledger) (relid : Nat) :
    ∃ ins, Struck l (releaseOldestInsertReservation l relid) ins := by
  unfold releaseOldestInsertReservation
  split
  · exact ⟨none, rfl, replaced_refl _, rfl, rfl, rfl, rfl, fun _ => rfl, rfl⟩
  · next j r ho => exact ⟨some r, releaseInsert_struck (oldest_some ho).1 _⟩

theorem Struck.moves (h : Struck l l' ins) : Moves e op l l' := by
  have hp : Posting l l' none none ins none 0 0 0 0 := {
    reservations := by rw [h.reservations]; exact replaced_refl _
    key := key_none
    inserts := h.inserts
    budget := h.budget
    committed := h.committed
    build := h.build
    buildTotal := h.buildTotal
    residencyQuiet := fun hle => h.residencyQuiet (by simpa using hle)
    buildQuiet := fun _ _ => h.buildQuiet }
  exact Moves.fresh (.still op) hp

theorem headroom_moves (ht : op.target = none) (hi : l.reservations[i]? = some (some r)) (n : Nat) :
    Moves e op l
      (l.post i (some { r with capacityHeadroomVectors := n }) l.residencyBytesCommitted) :=
  Moves.any ht (.headroom op r n)
    ((cleared_refl l _).posting hi (key_some (by rfl)) rfl)

theorem reserveInsert_moves (l : Ledger) (pid now relid deltaBytes : Nat) :
    Moves l.toEntry (.reserveInsert pid now relid deltaBytes) l
      (reserveInsert l pid now relid deltaBytes).1 := by
  unfold reserveInsert
  split
  · exact .done l
  extract_lets resident charge
  have hf : ∀ x, resident = some x → findReservation l.toEntry relid = some x :=
    fun x hx => (Option.filter_eq_some_iff.mp hx).1
  clear_value resident charge
  split
  · exact .done l
  split
  · exact .done l
  next j hfr =>
  have hins := posting_insert (free_some hfr) ⟨relid, pid, now, charge, resident.isSome⟩
  cases resident with
  | none => exact Moves.fresh (.still _) hins
  | some x =>
    obtain ⟨i, r⟩ := x
    obtain ⟨hi, -⟩ := findReservation_some (hf (i, r) rfl)
    refine (Moves.fresh (.still _) hins).trans ?_
    apply headroom_moves
    · rfl
    · exact hi

/-- Between the two sides of a reanchor's turn a pending insert is struck out. -/
theorem reanchorInsert_posting (hf : findReservation l.toEntry relid = some (i, r))
    (measured : Nat) :
    ∃ ins, Posting l (reanchorInsert l relid measured).1 (some r)
      (some { r with
        measuredBytes := netSize r measured
        reclaimableBytes := min r.reclaimableBytes measured })
      ins none r.measuredBytes (netSize r measured) 0 0 := by
  obtain ⟨hi, -⟩ := findReservation_some hf
  obtain ⟨ins, hs⟩ := releaseOldest_struck
    (l.release i (some r) r.measuredBytes "an index's pre-reanchor residency") relid
  have hsl := hs.reservations
  have hm := measuredBytes_le_booked r
  refine ⟨ins, ?_⟩
  unfold reanchorInsert
  rw [hf]
  exact {
    reservations := by
      simp only [post, hsl]
      simp only [release, post, set_set]
      exact replaced_set hi _
    key := key_some rfl
    inserts := hs.inserts
    budget := hs.budget
    committed := congrArg (· + netSize r measured) hs.committed
    build := hs.build
    buildTotal := hs.buildTotal
    residencyQuiet := by
      intro hle
      simp only [weight_some] at hle
      have hfi : r.measuredBytes ≤ l.residencyBytesCommitted := by omega
      have hse : weight delta ins ≤ l.residencyBytesCommitted - r.measuredBytes := by omega
      exact (hs.residencyQuiet hse).trans (append_right_eq_self.mpr (underflow_of_le _ hfi))
    buildQuiet := fun _ _ => hs.buildQuiet }

variable (l : Ledger)

theorem reanchorInsert_moves (relid measured : Nat) :
    Moves l.toEntry (.reanchorInsert relid measured) l (reanchorInsert l relid measured).1 := by
  cases hf : findReservation l.toEntry relid with
  | none =>
    unfold reanchorInsert
    rw [hf]
    exact .done l
  | some x =>
    obtain ⟨ins, hp⟩ := reanchorInsert_posting hf measured
    exact Moves.one hf (.reanchored relid measured x.2) (by simp [Op.target]) hp

theorem reconcileResident_moves (relid measured : Nat) (headroom : Option Nat) :
    Moves l.toEntry (.reconcileResident relid measured headroom) l
      (reconcileResident l relid measured headroom).1 := by
  unfold reconcileResident
  split
  · exact .done l
  next i r hf =>
  obtain ⟨hi, -⟩ := findReservation_some hf
  split
  · exact .done l
  next hs =>
  have hc := (cleared_refl l (booked r)).check (measuredBytes_le_booked r)
    "an index's pre-reconcile residency"
  exact Moves.any rfl (.reconciled relid measured headroom r _ (by simpa using hs))
    (hc.posting hi (key_some (by rfl)) rfl)

theorem abortInsert_moves (pid relid : Nat) :
    Moves l.toEntry (.abortInsert pid relid) l (abortInsert l pid relid).1 := by
  unfold abortInsert
  split
  · exact .done l
  next j r hf =>
  have hs := releaseInsert_struck (find_some hf).1 "an aborted pending insert reservation"
  dsimp only
  split
  · exact hs.moves
  next i resident hr =>
  obtain ⟨hi, -⟩ := findReservation_some (Option.filter_eq_some_iff.mp hr).1
  refine hs.moves.trans ?_
  apply headroom_moves
  · rfl
  · exact hi

theorem creditAbortedInserts_moves (relid generation growth pct : Nat) :
    Moves l.toEntry (.creditAbortedInserts relid generation growth pct) l
      (creditAbortedInserts l relid generation growth pct).1 := by
  unfold creditAbortedInserts
  split
  · exact .done l
  next i r hf =>
  obtain ⟨hi, -⟩ := findReservation_some hf
  split
  · next hs =>
    have hle : min growth r.measuredBytes ≤ r.measuredBytes := Nat.min_le_right _ _
    have hc := (cleared_refl l (booked r)).check (Nat.le_trans hle (measuredBytes_le_booked r))
      "an aborted insert's credited growth"
    simp only [underflow_of_le _ hle, append_nil]
    exact Moves.any rfl (.credited relid generation growth pct _ r hs.1 hle)
      (hc.posting hi (key_some (by rfl)) rfl)
  · exact .done l

/-! ## Passes over a table -/

theorem run_moves {f : Ledger → Nat → Ledger} (hf : ∀ l i, Moves e op l (f l i)) (l : Ledger)
    (slots : List Nat) : Moves e op l (run f l slots) := by
  induction slots generalizing l with
  | nil => exact .done l
  | cons i slots ih => exact (hf l i).trans (ih (f l i))

theorem reapReservation_moves (ht : op.target = none) (dead : Nat → Nat → Bool) (l : Ledger)
    (i : Nat) : Moves e op l (reapReservation dead l i) := by
  unfold reapReservation
  split
  · next r hi =>
    have hc := (cleared_refl l (booked r)).releasePeakOf r "a dead backend's build peak"
    split
    · next hs =>
      split
      · next hr =>
        exact Moves.any ht (.restored op r hr) (hc.posting hi (key_some (by rfl)) hc.committed)
      · next hnot =>
        have hh : r.estimateBytes = contribution r := by
          simp [contribution, hs.1.resolve_right hnot]
        rw [hh]
        exact Moves.any ht (.withdrawn op r)
          ((hc.check (contribution_le_booked r) _).posting hi key_none
            (by rw [hc.committed]; rfl))
    · exact .done l
  · exact .done l

theorem reapInsertReservation_moves (dead : Nat → Nat → Bool) (l : Ledger) (j : Nat) :
    Moves e op l (reapInsertReservation dead l j) := by
  unfold reapInsertReservation
  split
  · next r hj =>
    split
    · exact (releaseInsert_struck hj _).moves
    · exact .done l
  · exact .done l

theorem reap_moves (l : Ledger) (dead : Nat → Nat → Bool) :
    Moves l.toEntry (.reap dead) l (reapEntryReservations dead l).1 := by
  unfold reapEntryReservations
  dsimp only
  apply Moves.trans (run_moves (reapReservation_moves rfl dead) l (range vamanaMaxIndexes))
  exact run_moves (reapInsertReservation_moves dead) _ _

theorem dropReservation_moves (live : List Nat) (p : Ledger × List Nat) (i : Nat) :
    Moves e (.reconcileResidentReservations live) p.1 (dropReservation live p i).1 := by
  unfold dropReservation
  split
  · next r hi =>
    split
    · next hs =>
      exact Moves.any rfl (.dropped live r hs.1)
        (((cleared_refl p.1 (booked r)).check (measuredBytes_le_booked r) _).posting hi key_none
          rfl)
    · exact .done p.1
  · exact .done p.1

theorem dropPass_moves (live : List Nat) (l : Ledger) (relids slots : List Nat) :
    Moves e (.reconcileResidentReservations live) l
      (run (dropReservation live) (l, relids) slots).1 := by
  induction slots generalizing l relids with
  | nil => exact .done l
  | cons i slots ih => exact (dropReservation_moves live (l, relids) i).trans (ih _ _)

variable (l : Ledger)

theorem reconcileResidentReservations_moves (live : List Nat) :
    Moves l.toEntry (.reconcileResidentReservations live) l
      (reconcileResidentReservations live l).1 := by
  unfold reconcileResidentReservations
  dsimp only
  exact dropPass_moves live l [] (range vamanaMaxIndexes)

/-! ## All operations -/

theorem apply_moves (op : Op) : Moves l.toEntry op l (op.apply l).1 := by
  cases op with
  | reserveBuild pid now relid peak estimate ceiling =>
    exact reserveBuild_moves l pid now relid peak estimate ceiling
  | confirmBuild relid peak measured => exact confirmBuild_moves l relid peak measured
  | handoffBuild relid => exact handoffBuild_moves l relid
  | abortBuild relid => exact abortBuild_moves l relid
  | reconcileLoad now relid measured headroom =>
    exact reconcileLoad_moves l now relid measured headroom
  | accountUnload relid => exact accountUnload_moves l relid
  | reserveInsert pid now relid deltaBytes => exact reserveInsert_moves l pid now relid deltaBytes
  | reanchorInsert relid measured => exact reanchorInsert_moves l relid measured
  | reconcileResident relid measured headroom =>
    exact reconcileResident_moves l relid measured headroom
  | closeInsertReservation relid =>
    obtain ⟨ins, hs⟩ := releaseOldest_struck l relid
    exact hs.moves
  | abortInsert pid relid => exact abortInsert_moves l pid relid
  | creditAbortedInserts relid generation growth pct =>
    exact creditAbortedInserts_moves l relid generation growth pct
  | reap dead => exact reap_moves l dead
  | reconcileResidentReservations live => exact reconcileResidentReservations_moves l live

theorem releasePeakOf_dbOid (r : Reservation) (what : String) :
    (l.releasePeakOf r what).dbOid = l.dbOid := by
  unfold releasePeakOf
  split <;> rfl

theorem releaseOldestInsertReservation_dbOid (relid : Nat) :
    (releaseOldestInsertReservation l relid).dbOid = l.dbOid := by
  unfold releaseOldestInsertReservation
  split <;> rfl

theorem reapReservation_dbOid (dead : Nat → Nat → Bool) (l : Ledger) (i : Nat) :
    (reapReservation dead l i).dbOid = l.dbOid := by
  unfold reapReservation
  repeat' split
  all_goals first
    | rfl
    | exact releasePeakOf_dbOid _ _ _

theorem reapInsertReservation_dbOid (dead : Nat → Nat → Bool) (l : Ledger) (j : Nat) :
    (reapInsertReservation dead l j).dbOid = l.dbOid := by
  unfold reapInsertReservation
  repeat' split
  all_goals rfl

theorem dropReservation_dbOid (live : List Nat) (p : Ledger × List Nat) (i : Nat) :
    (dropReservation live p i).1.dbOid = p.1.dbOid := by
  unfold dropReservation
  repeat' split
  all_goals rfl

theorem apply_dbOid (l : Ledger) (op : Op) : (op.apply l).1.dbOid = l.dbOid := by
  cases op with
  | reap dead =>
    have hbu := run_keeps (fun l' : Ledger => l'.dbOid = l.dbOid)
      (fun l' i h => (reapReservation_dbOid dead l' i).trans h) rfl (range vamanaMaxIndexes)
    simp only [Op.apply, reapEntryReservations]
    exact run_keeps (fun l' : Ledger => l'.dbOid = l.dbOid)
      (fun l' j h => (reapInsertReservation_dbOid dead l' j).trans h) hbu
      (range svsMaxPendingInsertReservations)
  | reconcileResidentReservations live =>
    have h₀ : ((l, []) : Ledger × List Nat).1.dbOid = l.dbOid := rfl
    simp only [Op.apply, reconcileResidentReservations]
    exact run_keeps (fun p : Ledger × List Nat => p.1.dbOid = l.dbOid)
      (fun p i h => (dropReservation_dbOid live p i).trans h) h₀ (range vamanaMaxIndexes)
  | closeInsertReservation relid => exact releaseOldestInsertReservation_dbOid l relid
  | reanchorInsert relid measured =>
    unfold Op.apply reanchorInsert
    dsimp only
    split
    · rfl
    · exact releaseOldestInsertReservation_dbOid _ relid
  | _ =>
    simp only [Op.apply, reserveBuild, confirmBuild,
      handoffBuild, abortBuild, reconcileLoad,
      accountUnload, reserveInsert, reconcileResident,
      abortInsert, creditAbortedInserts]
    repeat' split
    all_goals first
      | rfl
      | exact releasePeakOf_dbOid _ _ _

end svs_vamana.svs_memory
