-- How long a request can stay PENDING: a slot below the batch size is promoted by the next scan,
-- while one at or above it can be passed over for ever.
import SvsVamana.SlotProtocol

namespace svs_vamana.request_fairness

open index_cache request_slot request_pass slot_protocol transition_runs

/-! ## The scans of a run -/

/-- The request slots with the number of collections that the worker has finished. -/
structure Watched where
  sys : System
  scans : Nat

open Watched List

/-- The worker's next step is to leave the loop that collects the PENDING slots. -/
def endsScan (s : System) : Bool :=
  match s.worker.ops, s.worker.phase with
  | [], .scanning i t => !decide (i < s.maxSlots ∧ t.all.length < s.worker.maxBatch)
  | _, _ => false

namespace Watched

def init (maxSlots : Nat) : Watched := ⟨System.init maxSlots, 0⟩

def step (w : Watched) (e : Event) : Watched where
  sys := w.sys.step e
  scans :=
    match e with
    | .work _ _ => if endsScan w.sys then w.scans + 1 else w.scans
    | _ => w.scans

end Watched

/-- Slot `i` has a request that nobody has taken. -/
def Pending (i : Nat) (w : Watched) : Prop := (w.sys.slots i).status = .pending

/-- Every pass is allowed at least one slot. -/
def TakesSome (_ : Watched) : Event → Prop
  | .start _ maxBatch => 1 ≤ maxBatch
  | _ => True

/-- Every pass is allowed more slots than there are in front of slot `i`. -/
def Reaches (i : Nat) (_ : Watched) : Event → Prop
  | .start _ maxBatch => i < maxBatch
  | _ => True

deriving instance Decidable for Pending

instance (i : Nat) (w : Watched) : (e : Event) → Decidable (Reaches i w e)
  | .start _ maxBatch => inferInstanceAs (Decidable (i < maxBatch))
  | .backend _ _ | .work _ _ => isTrue trivial

/-- In whatever way the backends behave, a request does not stay PENDING for more than a number of
scans that depends on the number of slots. -/
def StarvationFree (bound : Nat → Nat) : Prop :=
  ∀ maxSlots es es' i, i < maxSlots →
    EachStep step TakesSome (init maxSlots) (es ++ es') →
    EachState step (Pending i) (run step (init maxSlots) es) es' →
    (run step (init maxSlots) (es ++ es')).scans ≤
      (run step (init maxSlots) es).scans + bound maxSlots

/-! ## The worker's way through the slots -/

/-- A scan has promoted no more slots than it has looked at, and its batch takes more than `i`. -/
def ScanCount (i : Nat) (s : System) : Prop :=
  match s.worker.phase with
  | .scanning j t => t.all.length ≤ j ∧ i < s.worker.maxBatch
  | .promoting j t => t.all.length ≤ j ∧ i < s.worker.maxBatch
  | .sorting j t => t.all.length ≤ j + 1 ∧ i < s.worker.maxBatch
  | _ => True

variable {i : Nat} {s : System}

theorem ScanCount.nextPhase (h : ScanCount i s) (k : BatchCalls) (w : WriteSlotCalls) :
    ScanCount i (s.nextPhase k w) := by
  have hok := h
  unfold ScanCount at h
  unfold System.nextPhase
  generalize s.worker.phase = phase at h
  cases phase with
  | scanning j t =>
    dsimp only
    split
    · split
      · exact h
      · exact ⟨Nat.le_succ_of_le h.1, h.2⟩
    · split <;> trivial
  | promoting j t =>
    dsimp only
    split
    · exact ⟨by simpa using h.1, h.2⟩
    · exact ⟨Nat.le_succ_of_le h.1, h.2⟩
  | sorting j t =>
    dsimp only
    split
    · exact h
    · split <;> exact h
  | searches todo writes all =>
    cases todo with
    | nil => trivial
    | cons j rest =>
      dsimp only
      split <;> trivial
  | writes todo all => cases todo <;> trivial
  | waking todo => cases todo <;> trivial
  | _ => exact hok

variable {w : Watched}

theorem ScanCount.step (h : ScanCount i w.sys) {e : Event} (hr : Reaches i w e) :
    ScanCount i (w.step e).sys := by
  cases e with
  | backend j e => exact h
  | start acceptsWrites maxBatch =>
    simp only [Watched.step, System.step]
    split
    · exact ⟨Nat.le_refl _, hr⟩
    · exact h
  | work k c =>
    simp only [Watched.step, System.step]
    cases w.sys.worker.ops with
    | nil => exact h.nextPhase k c
    | cons op rest => exact h

theorem maxSlots_step (s : System) (e : Event) : (s.step e).maxSlots = s.maxSlots := by
  cases e with
  | backend j e => rfl
  | start acceptsWrites maxBatch =>
    simp only [System.step]
    split <;> rfl
  | work k w =>
    simp only [System.step]
    cases s.worker.ops with
    | cons op rest => rfl
    | nil => exact (s.nextPhase_does k w).1

/-- The scan that is under way has already passed slot `i`. -/
def passed (i : Nat) : WorkerPhase → Bool
  | .scanning j _ => decide (i < j)
  | .promoting j _ => decide (i < j)
  | .sorting j _ => decide (i ≤ j)
  | _ => false

/-- What the scans can still come to while slot `i` is PENDING: the one that has passed it. -/
def allowance (i : Nat) (s : System) : Nat := if passed i s.worker.phase then 1 else 0

theorem nextPhase_allowance (hi : i < s.maxSlots) (hc : ScanCount i s) (hops : s.worker.ops = [])
    (hp : (s.slots i).status = .pending) (k : BatchCalls) (w : WriteSlotCalls)
    (hp' : ((s.nextPhase k w).slots i).status = .pending) :
    (if endsScan s then 1 else 0) + allowance i (s.nextPhase k w) ≤ allowance i s := by
  unfold ScanCount at hc
  unfold System.nextPhase at hp' ⊢
  unfold endsScan
  rw [hops]
  cases hph : s.worker.phase with
  | scanning j t =>
    simp only [hph] at hc hp' ⊢
    by_cases hr : j < s.maxSlots ∧ t.all.length < s.worker.maxBatch
    · simp only [if_pos hr, decide_eq_true hr, Bool.not_true, Bool.false_eq_true, if_false]
      by_cases hst : (s.slots j).status = .pending
      · simp [hst, allowance, System.goTo, passed, hph]
      have hji : j ≠ i := fun heq => hst (heq ▸ hp)
      have hpa : passed i (.scanning (j + 1) t) = passed i (.scanning j t) := by
        simp only [passed, decide_eq_decide]
        omega
      simp [hst, allowance, System.goTo, hph, hpa]
    · -- a scan that ends here has left slot `i` behind
      have hbe : i < j := by omega
      simp only [if_neg hr, decide_eq_false hr, Bool.not_false, if_true]
      split <;> simp [allowance, System.goTo, passed, hph, hbe]
  | promoting j t =>
    simp only [hph] at hp' ⊢
    by_cases hst : (s.slots j).status = .pending
    · simp only [if_pos hst] at hp' ⊢
      have hji : j ≠ i := by
        rintro rfl
        simp [System.slots, System.goTo, System.setCell, Cell.promote, Cell.setStatus] at hp'
      have hpa : passed i (.sorting j { t with all := t.all ++ [j] }) =
          passed i (.promoting j t) := by
        simp only [passed, decide_eq_decide]
        omega
      simp [allowance, System.goTo, System.setCell, hph, hpa]
    · have hji : j ≠ i := fun heq => hst (heq ▸ hp)
      have hpa : passed i (.scanning (j + 1) t) = passed i (.promoting j t) := by
        simp only [passed, decide_eq_decide]
        omega
      simp [if_neg hst, allowance, System.goTo, hph, hpa]
  | sorting j t =>
    have hpa : ∀ t', passed i (.scanning (j + 1) t') = passed i (.sorting j t) := by
      intro t'
      simp only [passed, decide_eq_decide]
      omega
    simp only [Bool.false_eq_true, if_false, Nat.zero_add]
    split
    · simp [allowance, System.goTo, hph, hpa]
    · split
      · simp [allowance, System.goTo, hph, hpa]
      · simp [allowance, System.plan, hph, hpa]
  | searches todo writes all =>
    cases todo with
    | nil => simp [allowance, System.goTo, passed]
    | cons j rest =>
      simp only [Bool.false_eq_true, if_false, Nat.zero_add]
      split <;> simp [allowance, System.plan, passed]
  | writes todo all => cases todo <;> simp [allowance, System.goTo, System.plan, passed]
  | waking todo => cases todo <;> simp [allowance, System.goTo, System.setCell, passed]
  | idle | stopped => simp [allowance, hph, passed]

/-- While slot `i` is PENDING, every scan that ends uses the allowance up. -/
theorem step_allowance (hi : i < w.sys.maxSlots) (hc : ScanCount i w.sys) (hp : Pending i w)
    (e : Event) (hp' : Pending i (w.step e)) :
    (w.step e).scans + allowance i (w.step e).sys ≤ w.scans + allowance i w.sys := by
  cases e with
  | backend j e => exact Nat.le_refl _
  | start acceptsWrites maxBatch =>
    simp only [step, System.step]
    split
    · simp [allowance, passed]
    · exact Nat.le_refl _
  | work k c =>
    simp only [Pending, step, System.step] at hp' ⊢
    cases hops : w.sys.worker.ops with
    | nil =>
      simp only [hops] at hp'
      have hn := nextPhase_allowance hi hc hops hp k c hp'
      dsimp only
      split
      · rename_i hen
        rw [if_pos hen] at hn
        omega
      · rename_i hen
        rw [if_neg hen] at hn
        omega
    | cons op rest =>
      have hno : endsScan w.sys = false := by simp [endsScan, hops]
      simp [hno, allowance]

theorem run_allowance (hi : i < w.sys.maxSlots) (hc : ScanCount i w.sys) {es : List Event}
    (hr : EachStep step (Reaches i) w es) (hp : EachState step (Pending i) w es) :
    (run step w es).scans ≤ w.scans + allowance i w.sys := by
  induction es generalizing w with
  | nil => exact Nat.le_add_right _ _
  | cons e es ih =>
    have hn : Pending i (w.step e) := hp.2.first
    have hs : i < (w.step e).sys.maxSlots := by
      simpa [step, maxSlots_step] using hi
    exact Nat.le_trans (ih hs (hc.step hr.1) hr.2 hp.2)
      (step_allowance hi hc hp.1 e hn)

/-- A request whose slot has a number below the batch size of every pass is promoted by the first
scan that begins while it is PENDING. -/
theorem a_reached_slot_waits_for_one_scan (maxSlots i : Nat) (hi : i < maxSlots)
    {es es' : List Event} (hreach : EachStep step (Reaches i) (init maxSlots) (es ++ es'))
    (hp : EachState step (Pending i) (run step (init maxSlots) es) es') :
    (run step (init maxSlots) (es ++ es')).scans ≤
      (run step (init maxSlots) es).scans + 1 := by
  obtain ⟨hbe, ha⟩ := eachStep_append.mp hreach
  have hinv : ScanCount i (run step (init maxSlots) es).sys ∧
      (run step (init maxSlots) es).sys.maxSlots = maxSlots :=
    run_invariant (fun w => ScanCount i w.sys ∧ w.sys.maxSlots = maxSlots)
      (fun w e hw hok => ⟨hw.1.step hok, by simpa [step, maxSlots_step] using hw.2⟩)
      ⟨by simp [ScanCount, init, System.init], rfl⟩ hbe
  obtain ⟨hc, hs⟩ := hinv
  have hrun := run_allowance (by rw [hs]; exact hi) hc ha hp
  have hone : allowance i (run step (init maxSlots) es).sys ≤ 1 := by
    unfold allowance
    split <;> omega
  rw [run_append]
  omega

def publishes : List BackendEvent :=
  .submit (.warmup 7) :: replicate 6 (.advance true true)

/-- A request that is published when the scan has just passed its slot. -/
def lateRequest : List Event :=
  [.start true 1, .work quietBatch quietWriteSlot] ++ publishes.map (.backend 0)

theorem a_late_request_waits_for_one_scan :
    EachStep step (Reaches 0) (init 1)
        (lateRequest ++ [.work quietBatch quietWriteSlot]) ∧
      EachState step (Pending 0) (run step (init 1) lateRequest)
        [.work quietBatch quietWriteSlot] ∧
      (run step (init 1) lateRequest).scans = 0 ∧
      (run step (init 1)
        (lateRequest ++ [.work quietBatch quietWriteSlot])).scans ≤
        (run step (init 1) lateRequest).scans + 1 := by
  have hr : EachStep step (Reaches 0) (init 1)
      (lateRequest ++ [.work quietBatch quietWriteSlot]) := by decide +kernel
  have hn : Pending 0 ((run step (init 1) lateRequest).step
      (.work quietBatch quietWriteSlot)) := by decide +kernel
  have hp : EachState step (Pending 0)
      (run step (init 1) lateRequest) [.work quietBatch quietWriteSlot] :=
    ⟨by decide +kernel, hn⟩
  exact ⟨hr, hp, by decide +kernel,
    a_reached_slot_waits_for_one_scan 1 0 (by omega) hr hp⟩

/-! ## A slot that is never reached -/

/-- A backend whose request is done takes the answer. -/
def consumes : List BackendEvent := .leave 0 :: replicate 4 (.advance true true)

def onePass : List Event := .start true 1 :: replicate 11 (.work quietBatch quietWriteSlot)

def round : List Event :=
  publishes.map (.backend 0) ++ onePass ++ consumes.map (.backend 0)

theorem run_backend (w : Watched) (i : Nat) (es : List BackendEvent) :
    run step w (es.map (.backend i)) =
      ⟨w.sys.setCell i (es.foldl Cell.backendStep (w.sys.cells i)), w.scans⟩ := by
  induction es generalizing w with
  | nil => simp [System.setCell]
  | cons e es ih =>
    rw [map_cons, run_cons, ih]
    simp [step, System.step, System.setCell]

theorem pending_backend {j : Nat} (hne : i ≠ j) (h : Pending i w) (es : List BackendEvent) :
    EachState step (Pending i) w (es.map (.backend j)) := by
  induction es generalizing w with
  | nil => exact h
  | cons e es ih =>
    refine ⟨h, ih ?_⟩
    simpa [Pending, step, System.step, System.slots, System.setCell, hne] using h

theorem cell_publishes {c : Cell} (hb : c.backend = .idle) (hf : c.slot.status = .empty) :
    (publishes.foldl Cell.backendStep c).backend = .waiting c.published.length ∧
      (publishes.foldl Cell.backendStep c).slot.status = .pending ∧
      (publishes.foldl Cell.backendStep c).slot.slotKind = .warmup := by
  simp [publishes, replicate, Cell.backendStep, Cell.advance, hb, hf, Request.passes,
    Request.passesClaimed, Request.fieldWrites, FieldWrite.apply, Cell.ownLatch, Cell.setStatus]

theorem cell_consumes {c : Cell} {n : Nat} (hb : c.backend = .waiting n)
    (hd : c.slot.status = .done) :
    (consumes.foldl Cell.backendStep c).backend = .idle ∧
      (consumes.foldl Cell.backendStep c).slot.status = .empty := by
  simp [consumes, replicate, Cell.backendStep, Cell.advance, hb, hd, Cell.disownLatch,
    Cell.setStatus]

/-- What a pass does to slot 0. -/
def served (c : Cell) : Cell :=
  ((c.promote.workerOp (.execute 0)).workerOp (.write 0 (.status .done))).setLatch

/-- The worker rests, slot 1 is PENDING, and slot 0 has the given backend and status. -/
structure Stage (backend : Backend) (status : SlotStatus) (w : Watched) : Prop where
  maxSlots : w.sys.maxSlots = 2
  phase : w.sys.worker.phase = .idle
  ops : w.sys.worker.ops = []
  backend : (w.sys.cells 0).backend = backend
  status : (w.sys.cells 0).slot.status = status
  pending : Pending 1 w

theorem Stage.backend_run {b b' : Backend} {st st' : SlotStatus} (h : Stage b st w)
    {es : List BackendEvent} (hb : (es.foldl Cell.backendStep (w.sys.cells 0)).backend = b')
    (hst : (es.foldl Cell.backendStep (w.sys.cells 0)).slot.status = st') :
    Stage b' st' (run step w (es.map (.backend 0))) := by
  rw [run_backend]
  refine ⟨h.maxSlots, h.phase, h.ops, ?_, ?_, ?_⟩
  · simpa [System.setCell] using hb
  · simpa [System.setCell] using hst
  · simpa [Pending, System.slots, System.setCell] using h.pending

section
variable {b : Backend} {w : Watched}

section

variable (h : Stage b .pending w) (hk : (w.sys.cells 0).slot.slotKind = .warmup)
include h hk

theorem run_onePass :
    run step w onePass =
      ⟨⟨2, Function.update w.sys.cells 0 (served (w.sys.cells 0)), ⟨[], .idle, true, 1⟩⟩,
        w.scans + 1⟩ := by
  obtain ⟨⟨n, cells, ops, phase, aw, mb⟩, scans⟩ := w
  obtain ⟨rfl, rfl, rfl, -, h0, -⟩ := h
  simp only at h0 hk
  simp [onePass, replicate, step, System.step, System.nextPhase, System.slots,
    System.goTo, System.plan, System.setCell, endsScan, h0, hk, Cell.promote, Cell.setStatus,
    vamanaWorkerDispatchWriteSlot, quietWriteSlot, answerWrites, endSlot, slotOf, served]

theorem pending_onePass : EachState step (Pending 1) w onePass := by
  obtain ⟨⟨n, cells, ops, phase, aw, mb⟩, scans⟩ := w
  obtain ⟨rfl, rfl, rfl, -, h0, h1⟩ := h
  simp only [Pending, System.slots] at h0 hk h1
  simp [onePass, replicate, EachState, Pending, step, System.step, System.nextPhase,
    System.slots, System.goTo, System.plan, System.setCell, h0, hk, h1, Cell.promote,
    Cell.setStatus, vamanaWorkerDispatchWriteSlot, quietWriteSlot, answerWrites, endSlot, slotOf]

theorem Stage.onePass : Stage b .done (run step w onePass) := by
  rw [run_onePass h hk]
  refine ⟨rfl, rfl, rfl, ?_, ?_, ?_⟩
  · simpa [served, Cell.workerOp, Cell.promote, Cell.setLatch, Cell.setStatus] using h.backend
  · simp [served, Cell.workerOp, Cell.setLatch, SlotWrite.apply]
  · simpa [Pending, System.slots] using h.pending

end

end

/-- A round answers slot 0 and ends a scan, and slot 1 is PENDING all the time. -/
theorem stage_round (h : Stage .idle .empty w) :
    Stage .idle .empty (run step w round) ∧
      (run step w round).scans = w.scans + 1 ∧
      EachState step (Pending 1) w round := by
  obtain ⟨hw, hp, hki⟩ := cell_publishes h.backend h.status
  have hs := h.backend_run hw hp
  have hk : ((run step w (publishes.map (.backend 0))).sys.cells 0).slot.slotKind =
      .warmup := by
    rw [run_backend]
    simpa [System.setCell] using hki
  have ha := hs.onePass hk
  obtain ⟨hi, hem⟩ := cell_consumes ha.backend ha.status
  have hpa := ha.backend_run hi hem
  have hr : run step w round = run step (run step
      (run step w (publishes.map (.backend 0))) onePass) (consumes.map (.backend 0)) := by
    rw [round, run_append, run_append]
  refine ⟨hr ▸ hpa, ?_, ?_⟩
  · rw [hr, run_backend, run_onePass hs hk, run_backend]
  · rw [round, eachState_append, eachState_append, run_append]
    exact ⟨⟨pending_backend (by simp) h.pending publishes, pending_onePass hs hk⟩,
      pending_backend (by simp) ha.pending consumes⟩

theorem stage_rounds (n : Nat) (h : Stage .idle .empty w) :
    (run step w (replicate n round).flatten).scans = w.scans + n ∧
      EachState step (Pending 1) w (replicate n round).flatten := by
  induction n generalizing w with
  | zero => exact ⟨rfl, h.pending⟩
  | succ n ih =>
    obtain ⟨hn, hs, hp⟩ := stage_round h
    obtain ⟨hm, hr⟩ := ih hn
    rw [replicate_succ, flatten_cons, run_append, eachState_append]
    exact ⟨by omega, hp, hr⟩

/-- With room for one slot in a pass, a backend that sends one request after the other keeps the
request behind it PENDING for any number of scans. -/
theorem a_request_can_starve : ¬ ∃ bound, StarvationFree bound := by
  rintro ⟨bound, hfr⟩
  have hf : Stage .idle .empty
      (run step (init 2) (publishes.map (.backend 1))) := by
    rw [run_backend]
    obtain ⟨-, hp, -⟩ := cell_publishes
      (c := (init 2).sys.cells 1) rfl rfl
    refine ⟨rfl, rfl, rfl, rfl, rfl, ?_⟩
    simpa [Pending, System.slots, System.setCell] using hp
  obtain ⟨hsc, hp⟩ := stage_rounds (bound 2 + 1) hf
  have hs : ∀ e ∈ publishes.map (Event.backend 1) ++
      (replicate (bound 2 + 1) round).flatten, ∀ w, TakesSome w e := by
    intro e he w
    simp only [mem_append, mem_flatten, mem_replicate] at he
    rcases he with he | ⟨l, ⟨-, rfl⟩, he⟩
    · obtain ⟨b, -, rfl⟩ := mem_map.mp he
      trivial
    · simp only [round, onePass, mem_append, mem_map, mem_cons,
        mem_replicate] at he
      rcases he with (⟨b, -, rfl⟩ | rfl | ⟨-, rfl⟩) | ⟨b, -, rfl⟩
      · trivial
      · exact Nat.le_refl 1
      · trivial
      · trivial
  have hbo := hfr 2 (publishes.map (.backend 1)) (replicate (bound 2 + 1) round).flatten
    1 (by omega) (eachStep_of_forall hs _) hp
  rw [run_append] at hbo
  omega

end svs_vamana.request_fairness
