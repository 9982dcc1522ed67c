-- The build-memory law: the build counters hold the peaks of the builds under way, as long as no
-- load and no unload meets a fresh build.
import SvsVamana.MemorySteps

namespace svs_vamana.build_memory

open transition_runs slot_table svs_memory System List

/-! ## Peaks -/

def peak (r : Reservation) : Nat := r.buildPeakBytes

def peaks (e : Entry) : Nat := total (weight peak) e.reservations

/-- Only a build under way holds a peak. -/
def Tidy (r : Reservation) : Prop := ¬ r.Building → r.buildPeakBytes = 0

def confirmedPeak : Op → Option Nat
  | .confirmBuild _ buildPeak _ => some buildPeak
  | _ => none

/-- A build under way is confirmed with the peak that its record holds. -/
def ConfirmsOwnPeak (op : Op) (r : Reservation) : Prop :=
  r.Building → ∀ buildPeak ∈ confirmedPeak op, buildPeak = r.buildPeakBytes

def loadsOrUnloads : Op → Bool
  | .reconcileLoad _ _ _ _ => true
  | .accountUnload _ => true
  | _ => false

/-- Neither a load nor an unload meets a build that has not been confirmed. -/
def SparesFreshBuild (op : Op) (r : Reservation) : Prop :=
  loadsOrUnloads op → r.state ≠ .reserved

deriving instance Decidable for ConfirmsOwnPeak

deriving instance Decidable for SparesFreshBuild

variable {op : Op}

theorem confirmsOwnPeak_of_target_none (h : op.target = none) (r : Reservation) :
    ConfirmsOwnPeak op r := by
  cases op with
  | confirmBuild => cases h
  | _ => exact fun _ => nofun

theorem sparesFreshBuild_of_target_none (h : op.target = none) (r : Reservation) :
    SparesFreshBuild op r := by
  cases op with
  | reconcileLoad => cases h
  | accountUnload => cases h
  | _ => exact nofun

/-! ## Turns -/

variable {old new : Option Reservation} {out into peakOut peakIn : Nat}

theorem turn_tidy (h : Turn op old new out into peakOut peakIn) (hold : ∀ r, old = some r → Tidy r) :
    ∀ r, new = some r → Tidy r := by
  intro r hr
  cases h with
  | still | rejected | withdrawn | unloaded | dropped => cases hr
  | granted | rebuilt => cases hr; simp [Tidy, Reservation.Building]
  | confirmed | loaded | loadedFresh => cases hr; simp [Tidy]
  | rejectedRebuild | restored => cases hr; simp [Tidy, restorePriorResidency]
  | handedOff relid r₀ hs =>
    cases hr
    have hp := hold r₀ rfl (by simp [Reservation.Building, hs])
    simp [Tidy, hp]
  | headroom op r₀ | reanchored relid measured r₀ | reconciled relid measured given r₀
  | credited relid generation growth pct credit r₀ =>
    cases hr; exact hold r₀ rfl

theorem Tidy.peak_eq_zero {r : Reservation} (h : Tidy r) (hf : r.state ≠ .reserved)
    (hr : r.state ≠ .rebuilding) : r.buildPeakBytes = 0 :=
  h (not_or.mpr ⟨hf, hr⟩)

/-- A turn gives up no more than the record holds, and the whole peak that it stops holding, unless
it meets a fresh build with a load or an unload. -/
theorem turn_peak (h : Turn op old new out into peakOut peakIn)
    (hown : ∀ r, old = some r → ConfirmsOwnPeak op r) (ht : ∀ r, old = some r → Tidy r) :
    peakOut ≤ weight peak old ∧ weight peak new + peakOut ≤ weight peak old + peakIn ∧
      ((∀ r, old = some r → SparesFreshBuild op r) →
        weight peak old + peakIn ≤ weight peak new + peakOut) := by
  cases h with
  | rebuilt pid now relid _ estimate ceiling r hs | dropped live r hs =>
    have hz := (ht r rfl).peak_eq_zero (by simp [hs]) (by simp [hs])
    simp [peak, hz]
  | confirmed relid _ measured generation r hs =>
    have hp : peakOut = peak r := hown r rfl hs peakOut rfl
    simp [peak, hp]
  | rejected relid _ measured r hs =>
    have hp : peakOut = peak r := hown r rfl (.inl hs) peakOut rfl
    simp [hp]
  | rejectedRebuild relid _ measured r hs =>
    have hp : peakOut = peak r := hown r rfl (.inr hs) peakOut rfl
    simp [peak, restorePriorResidency, hp]
  | loaded now relid measured headroom generation r | unloaded relid r =>
    by_cases hs : r.state = .rebuilding
    · simp [peak, hs]
    · refine ⟨by simp [hs], by simp [hs, peak], fun hsp => ?_⟩
      have hz := (ht r rfl).peak_eq_zero (hsp r rfl rfl) hs
      simp [peak, hz]
  | _ => simp [peak, restorePriorResidency]

/-! ## Moves -/

/-- The counters hold the peaks of the block's records, and the header's holds the block's. -/
structure Covers (l : Ledger) : Prop where
  tidy : ∀ r, some r ∈ l.reservations → Tidy r
  peaks : peaks l.toEntry ≤ l.buildBytesCommitted
  block : l.buildBytesCommitted ≤ l.totalBuildCommittedGlobal

/-- What the moves of `op`, started on block `e`, do to the build counters. -/
structure Kept (e : Entry) (op : Op) (l l' : Ledger) : Prop where
  covers : Covers l'
  /-- The block and the header move together. -/
  together : l'.totalBuildCommittedGlobal + l.buildBytesCommitted =
    l.totalBuildCommittedGlobal + l'.buildBytesCommitted
  quiet : l'.buildUnderflows = l.buildUnderflows
  exact : OnTarget SparesFreshBuild e op → peaks l.toEntry = l.buildBytesCommitted →
    peaks l'.toEntry = l'.buildBytesCommitted

variable {e : Entry} {l : Ledger}

theorem Kept.trans {l₁ l₂ : Ledger} (h : Kept e op l l₁) (h' : Kept e op l₁ l₂) :
    Kept e op l l₂ := by
  refine ⟨h'.covers, ?_, h'.quiet.trans h.quiet, fun hs heq => ?_⟩
  · have := h.together
    have := h'.together
    omega
  · exact h'.exact hs (h.exact hs heq)

theorem posting_kept {l' : Ledger} {ins ins' : Option InsertReservation}
    (h : Posting l l' old new ins ins' out into peakOut peakIn)
    (turn : Turn op old new out into peakOut peakIn)
    (target : ∀ r, old = some r → ∀ relid ∈ op.target, ∃ i, findReservation e relid = some (i, r))
    (hown : OnTarget ConfirmsOwnPeak e op) (hl : Covers l) : Kept e op l l' := by
  have hown' := hown.of_turn confirmsOwnPeak_of_target_none target
  have ht : ∀ r, old = some r → Tidy r := by
    rintro r rfl
    exact hl.tidy r h.reservations.mem
  obtain ⟨hout, hle, hge⟩ := turn_peak turn hown' ht
  have hm := h.reservations.total peak
  have hh := h.reservations.le_total peak
  have hp := hl.peaks
  have hbl := hl.block
  have hbu := h.build
  have hto := h.buildTotal
  unfold peaks at hp
  refine ⟨⟨?_, ?_, ?_⟩, ?_, ?_, ?_⟩
  · exact fun r hr => h.reservations.forall hl.tidy (turn_tidy turn ht) hr
  · unfold peaks
    omega
  · omega
  · omega
  · exact h.buildQuiet (by omega) (by omega)
  · intro hs heq
    have hex := hge (hs.of_turn sparesFreshBuild_of_target_none target)
    unfold peaks at heq ⊢
    omega

theorem moves_kept {l' : Ledger} (h : Moves e op l l') (hown : OnTarget ConfirmsOwnPeak e op)
    (hl : Covers l) : Kept e op l l' := by
  induction h with
  | done l => exact ⟨hl, rfl, rfl, fun _ heq => heq⟩
  | @checked l l₁ l₂ i r hi hc _ ih =>
    have hs : peaks l₁.toEntry = peaks l.toEntry := by
      unfold peaks
      rw [hc.reservations]
    have hbu : l₁.buildBytesCommitted = l.buildBytesCommitted := hc.build
    have ht : l₁.totalBuildCommittedGlobal = l.totalBuildCommittedGlobal := hc.buildTotal
    have hf : Kept e op l l₁ := by
      refine ⟨⟨?_, ?_, ?_⟩, ?_, hc.buildQuiet (Nat.zero_le _) (Nat.zero_le _), ?_⟩
      · rw [hc.reservations]
        exact hl.tidy
      · rw [hs, hbu]
        exact hl.peaks
      · rw [hbu, ht]
        exact hl.block
      · rw [hbu, ht]
      · rw [hs, hbu]
        exact fun _ heq => heq
    exact hf.trans (ih hf.covers)
  | post hp turn target _ ih =>
    have hf := posting_kept hp turn target hown hl
    exact hf.trans (ih hf.covers)

/-! ## Steps -/

/-- The header total is the sum of the blocks' counters, each of which holds the peaks of its
records. -/
structure Built (s : System) : Prop where
  tidy : ∀ e ∈ s.blocks, ∀ r, some r ∈ e.reservations → Tidy r
  peaks : ∀ e ∈ s.blocks, peaks e ≤ e.buildBytesCommitted
  header : s.totalBuildCommittedGlobal = total (fun e => e.buildBytesCommitted) s.blocks
  quiet : s.buildUnderflows = []

def Exact (s : System) : Prop := ∀ e ∈ s.blocks, peaks e = e.buildBytesCommitted

variable {s : System}

theorem Built.covers (h : Built s) {i : Nat} (hi : s.blocks[i]? = some e) :
    Covers (s.ledger e) where
  tidy := h.tidy e (mem_of_getElem? hi)
  peaks := h.peaks e (mem_of_getElem? hi)
  block := by
    change e.buildBytesCommitted ≤ s.totalBuildCommittedGlobal
    rw [h.header]
    exact le_total (fun e => e.buildBytesCommitted) hi

theorem store_built (h : Built s) {i : Nat} (hi : s.blocks[i]? = some e) (pending : List Section)
    (hk : Kept e op (s.ledger e) (op.apply (s.ledger e)).1) :
    Built ({ s with pending }.store i (op.apply (s.ledger e)).1) where
  tidy := forall_set h.tidy hk.covers.tidy i
  peaks := forall_set h.peaks hk.covers.peaks i
  header := by
    have hset := total_set (fun e => e.buildBytesCommitted) (op.apply (s.ledger e)).1.toEntry hi
    have ht := hk.together
    have hh := h.header
    simp only [store, ledger] at *
    omega
  quiet := hk.quiet.trans h.quiet

theorem peaks_of_free (e : Entry) (h : e.reservations = replicate vamanaMaxIndexes none) :
    peaks e = 0 := by
  unfold peaks
  rw [h, total_replicate]
  rfl

theorem released_tidy (e : Entry) (h : e.reservations = replicate vamanaMaxIndexes none) :
    ∀ r, some r ∈ e.reservations → Tidy r := by
  intro r hr
  rw [h] at hr
  cases eq_of_mem_replicate hr

theorem rewrite_built {s' : System} (h : Built s) {i : Nat} {e' : Entry}
    (hi : s.blocks[i]? = some e) (hbl : s'.blocks = s.blocks.set i e')
    (hs : e'.reservations = e.reservations) (hbu : e'.buildBytesCommitted = e.buildBytesCommitted)
    (ht : s'.totalBuildCommittedGlobal = s.totalBuildCommittedGlobal)
    (hq : s'.buildUnderflows = s.buildUnderflows) : Built s' ∧ (Exact s → Exact s') := by
  have hmem := mem_of_getElem? hi
  have hp : peaks e' = peaks e := congrArg (total (weight peak)) hs
  refine ⟨⟨?_, ?_, ?_, hq.trans h.quiet⟩, fun hex => ?_⟩
  · rw [hbl]
    exact forall_set h.tidy (hs ▸ h.tidy e hmem) i
  · rw [hbl]
    apply forall_set h.peaks
    rw [hp, hbu]
    exact h.peaks e hmem
  · have hset := total_set (fun e => e.buildBytesCommitted) e' hi
    have hh := h.header
    rw [hbl, ht]
    omega
  · unfold Exact
    rw [hbl]
    apply forall_set hex
    rw [hp, hbu]
    exact hex e hmem

theorem other_built {s' : System} (h : Built s) (ho : Other s s') :
    Built s' ∧ (Exact s → Exact s') := by
  have hh := h.header
  cases ho with
  | idle pending | refused pending what hi => exact ⟨⟨h.tidy, h.peaks, h.header, h.quiet⟩, id⟩
  | budget pending what residencyBudget hi | reserved dbOid hi =>
    exact rewrite_built h hi rfl rfl rfl rfl rfl
  | @released i e hi =>
    have hle : e.buildBytesCommitted ≤ s.totalBuildCommittedGlobal := (h.covers hi).block
    have hset := total_set (fun e => e.buildBytesCommitted)
      { dbOid := 0, nextResidentGeneration := e.nextResidentGeneration } hi
    refine ⟨⟨forall_set h.tidy (released_tidy _ rfl) i, forall_set h.peaks ?_ i, ?_, ?_⟩,
      fun hex => forall_set hex (peaks_of_free _ rfl) i⟩
    · exact Nat.le_of_eq (peaks_of_free _ rfl)
    · simp only [resetDatabaseAccounting] at *
      omega
    · simp only [resetDatabaseAccounting, underflow_of_le _ hle, append_nil]
      exact h.quiet

theorem step_built (s : System) (ev : Event) (h : Built s) (hown : OnWork ConfirmsOwnPeak s ev) :
    Built (step s ev) ∧ (OnWork SparesFreshBuild s ev → Exact s → Exact (step s ev)) := by
  obtain ⟨i, e, op, pending, hw, hst⟩ | ⟨-, ho⟩ := step_cases s ev
  · have hi := work_some hw
    have hk := moves_kept (apply_moves (s.ledger e) op) (hown _ hw) (h.covers hi)
    rw [hst]
    refine ⟨store_built h hi pending hk, fun hs hex => ?_⟩
    apply forall_set hex
    exact hk.exact (hs _ hw) (hex e (mem_of_getElem? hi))
  · obtain ⟨hbu, hex⟩ := other_built h ho
    exact ⟨hbu, fun _ => hex⟩

theorem init_built (maxDatabases : Nat) :
    Built (init maxDatabases) ∧ Exact (init maxDatabases) := by
  have hf : ∀ e ∈ (init maxDatabases).blocks, e = {} :=
    fun e he => eq_of_mem_replicate he
  refine ⟨⟨?_, ?_, ?_, rfl⟩, ?_⟩
  · intro e he
    rw [hf e he]
    exact released_tidy _ rfl
  · intro e he
    rw [hf e he]
    exact Nat.le_of_eq (peaks_of_free _ rfl)
  · simp [init, total_replicate]
  · intro e he
    rw [hf e he]
    exact peaks_of_free _ rfl

/-! ## The law -/

def outstanding (e : Entry) : Nat :=
  total (weight fun r => if r.Building then r.buildPeakBytes else 0) e.reservations

theorem outstanding_eq_peaks (h : ∀ r, some r ∈ e.reservations → Tidy r) :
    outstanding e = peaks e := by
  apply total_congr
  intro x hx
  cases x with
  | none => rfl
  | some r =>
    by_cases hr : r.Building
    · simp [peak, hr]
    · simp [peak, hr, h r hx hr]

/-- Each build counter is the sum of the peaks of the builds under way, and the header total that of
the counters. -/
def BuildConserved (s : System) : Prop :=
  (∀ e ∈ s.blocks, e.buildBytesCommitted = outstanding e) ∧
  s.totalBuildCommittedGlobal = total (fun e => e.buildBytesCommitted) s.blocks ∧
  ((∀ e ∈ s.blocks, ∀ slot ∈ e.reservations, ∀ r ∈ slot, ¬ r.Building) →
    s.totalBuildCommittedGlobal = 0 ∧ ∀ e ∈ s.blocks, e.buildBytesCommitted = 0)

deriving instance Decidable for BuildConserved

theorem outstanding_of_idle (h : ∀ slot ∈ e.reservations, ∀ r ∈ slot, ¬ r.Building) :
    outstanding e = 0 := by
  apply total_eq_zero.mpr
  intro x hx
  cases x with
  | none => rfl
  | some r => simp [h (some r) hx r rfl]

theorem Built.conserved (h : Built s) (hex : Exact s) : BuildConserved s := by
  have hbl : ∀ e ∈ s.blocks, e.buildBytesCommitted = outstanding e := by
    intro e he
    rw [outstanding_eq_peaks (h.tidy e he), hex e he]
  refine ⟨hbl, h.header, fun hi => ?_⟩
  have hz : ∀ e ∈ s.blocks, e.buildBytesCommitted = 0 := by
    intro e he
    rw [hbl e he]
    exact outstanding_of_idle (hi e he)
  refine ⟨?_, hz⟩
  rw [h.header]
  exact total_eq_zero.mpr hz

/-- Builds are confirmed with the peak they reserved, and neither a load (a startup seed's is
one) nor an unload meets a record that is still RESERVED. -/
def KeepsPeaks (s : System) (ev : Event) : Prop :=
  OnWork ConfirmsOwnPeak s ev ∧ OnWork SparesFreshBuild s ev

deriving instance Decidable for KeepsPeaks

/-- Along every run of critical sections that keep to it, the build counters hold the builds
under way, in each database and in the header. -/
theorem build_counters_hold_the_builds_under_way (maxDatabases : Nat) (es : List Event)
    (h : EachStep step KeepsPeaks (init maxDatabases) es) :
    EachState step BuildConserved (init maxDatabases) es := by
  apply eachState_invariant (fun s => Built s ∧ Exact s) _ _ (init_built maxDatabases) h
  · rintro s ev ⟨hbu, hex⟩ ⟨hown, hsp⟩
    obtain ⟨hbu', hex'⟩ := step_built s ev hbu hown
    exact ⟨hbu', hex' hsp hex⟩
  · exact fun s hs => hs.1.conserved hs.2

def admitted : List Event :=
  [.reserveSlot 5, .beginAdmit 0 1000 0, .finish (.admission 0 1000) 0 10000]

/-- Index 7 is seeded, built anew with a peak of 40 bytes, confirmed and handed off; index 8 is
reserved by a backend that dies; the database is dropped. -/
def rebuildAndReap : List Event :=
  admitted ++
    [.beginSeed 0 7 100, .finish (.seedLoad 0 7 100) 1 0,
      .call 0 (.reserveBuild 42 2 7 40 120 10000), .call 0 (.confirmBuild 7 40 110),
      .call 0 (.handoffBuild 7), .call 0 (.reserveBuild 43 3 8 30 50 10000),
      .call 0 (.reap fun pid _ => pid == 43), .releaseSlot 5]

theorem a_rebuild_gives_its_peak_back : EachState step BuildConserved (init 1) rebuildAndReap :=
  build_counters_hold_the_builds_under_way 1 rebuildAndReap (by decide +kernel)

/-- The worker's startup pass finds no record of index 7, a backend reserves its build, and the pass
loads the index over it. -/
def seedRace : List Event :=
  admitted ++
    [.beginSeed 0 7 100, .call 0 (.reserveBuild 42 1 7 40 120 10000),
      .finish (.seedLoad 0 7 100) 2 0, .call 0 (.confirmBuild 7 40 110),
      .call 0 (.abortBuild 7)]

/-- No build is under way, and 40 bytes stay committed in the block and in the header. -/
theorem a_seed_load_drops_a_build_peak :
    EachStep step (OnWork ConfirmsOwnPeak) (init 1) seedRace ∧
    (run step (init 1) seedRace).blocks.map (fun e => (e.buildBytesCommitted, outstanding e)) =
      [(40, 0)] ∧
    (run step (init 1) seedRace).totalBuildCommittedGlobal = 40 ∧
    ¬ BuildConserved (run step (init 1) seedRace) := by
  decide +kernel

end svs_vamana.build_memory
