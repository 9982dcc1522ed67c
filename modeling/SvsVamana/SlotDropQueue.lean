-- The queue of replication slots that are to be dropped: backends hand a drop to their worker, and
-- the launcher takes what a stopped worker has left.
import Mathlib.Data.Fin.Basic
import Mathlib.Data.List.FinRange
import Mathlib.Data.List.Nodup
import Mathlib.Logic.Function.Basic
import SvsVamana.Lib.Runs

namespace svs_vamana.slot_drop_queue

open transition_runs Function List

/-! ## The pure model -/

/-- `VAMANA_MAX_SLOT_DROP_QUEUE` cells. -/
abbrev Cell := Fin 16

inductive VamanaSlotDropResult
  | done
  | busy
  | failed
deriving DecidableEq, Repr

/-- A drop that `VamanaWorkerRequestSlotDrop` has answered with true: the OID that stands in the
cell, and which call it is of. -/
structure Handoff where
  id : Nat
  relid : Nat
deriving DecidableEq, Repr

inductive Party
  | worker
  | launcher
deriving DecidableEq, Repr

/-- Where the worker is in `VamanaWorkerProcessSlotDrops`: it has read a cell, or it has dropped
the slot and is to clear the cell. -/
inductive WorkerPhase
  | stopped
  | idle
  | dropping (i : Cell) (h : Handoff)
  | clearing (i : Cell)
deriving DecidableEq, Repr

/-- The control block of a database, the worker's place, the drops that the launcher has taken, and
the attempts that were made. -/
structure State where
  reserved : Bool := true
  cells : Cell → Option Handoff := fun _ => none
  worker : WorkerPhase := .idle
  launcher : Option (List Handoff) := none
  attempts : List (Party × Nat) := []
  next : Nat := 0

inductive Event
  | request (i : Cell) (relid : Nat)
  | workerStarts
  | workerStops
  | workerReads (i : Cell)
  | workerDrops (result : VamanaSlotDropResult)
  | workerClears
  | take
  | launcherDrops
  | release
  | reserve
deriving DecidableEq, Repr

/-- The compare-and-exchange that succeeds, under the header lock. -/
def requestSlotDrop (s : State) (i : Cell) (relid : Nat) : State :=
  if s.reserved = true ∧ s.cells i = none then
    { s with cells := update s.cells i (some ⟨s.next, relid⟩), next := s.next + 1 }
  else s

def workerReads (s : State) (i : Cell) : State :=
  match s.worker, s.cells i with
  | .idle, some h => { s with worker := .dropping i h }
  | _, _ => s

/-- A drop that is busy or has failed stays in the queue. -/
def workerDrops (s : State) (result : VamanaSlotDropResult) : State :=
  match s.worker with
  | .dropping i h =>
    { s with
      attempts := (.worker, h.id) :: s.attempts
      worker := if result = .done then .clearing i else .idle }
  | _ => s

/-- The store is unconditional. -/
def workerClears (s : State) : State :=
  match s.worker with
  | .clearing i => { s with cells := update s.cells i none, worker := .idle }
  | _ => s

def queue (s : State) : List Handoff := (finRange 16).filterMap s.cells

/-- `VamanaWorkerTakePendingSlotDrops`. -/
def takePendingSlotDrops (s : State) : State :=
  if s.reserved = true ∧ s.launcher = none then
    { s with launcher := some (queue s), cells := fun _ => none }
  else s

def launcherDrops (s : State) : State :=
  match s.launcher with
  | some (h :: rest) =>
    { s with attempts := (.launcher, h.id) :: s.attempts, launcher := some rest }
  | _ => s

/-- `VamanaWorkerReleaseSlot`, after `DropSlotsAbandonedByStoppedWorker`. -/
def releaseSlot (s : State) : State :=
  if s.launcher = some [] then
    { s with reserved := false, cells := fun _ => none, launcher := none }
  else s

/-- The launcher starts workers, so it starts none between its take and its release. -/
def step (s : State) : Event → State
  | .request i relid => requestSlotDrop s i relid
  | .workerStarts =>
    if s.worker = .stopped ∧ s.launcher = none ∧ s.reserved = true then { s with worker := .idle }
    else s
  | .workerStops => { s with worker := .stopped }
  | .workerReads i => workerReads s i
  | .workerDrops result => workerDrops s result
  | .workerClears => workerClears s
  | .take => takePendingSlotDrops s
  | .launcherDrops => launcherDrops s
  | .release => releaseSlot s
  | .reserve => if s.reserved = false then { s with reserved := true } else s

/-! ## The owners -/

def Queued (s : State) (i : Cell) (id : Nat) : Prop := ∃ h, s.cells i = some h ∧ h.id = id

def held (s : State) : List Nat := (s.launcher.getD []).map Handoff.id

def workerPass (cells : List Cell) (result : Cell → VamanaSlotDropResult) : List Event :=
  cells.flatMap fun i => [.workerReads i, .workerDrops (result i), .workerClears]

/-- Every drop handed off is in one cell, or once in the hands of the launcher, or was attempted, by
one party; and whoever has it attempts it. -/
structure OneOwner (s : State) : Prop where
  kept : ∀ id, id < s.next →
    (∃ i, Queued s i id) ∨ id ∈ held s ∨ ∃ party, (party, id) ∈ s.attempts
  cell : ∀ i j id, Queued s i id → Queued s j id → i = j
  apart : ∀ i id, Queued s i id → id ∉ held s
  nodup : (held s).Nodup
  party : ∀ id party party', (party, id) ∈ s.attempts → (party', id) ∈ s.attempts → party = party'
  worker : s.worker = .idle → ∀ result i id, Queued s i id →
    (.worker, id) ∈ (run step s (workerPass (finRange 16) result)).attempts
  launcher : ∀ id ∈ held s,
    (.launcher, id) ∈ (run step s (replicate (held s).length .launcherDrops)).attempts

/-! ## Whoever has a drop attempts it -/

theorem visit_spec (s : State) (hi : s.worker = .idle) (i : Cell) (result : VamanaSlotDropResult) :
    let s' := run step s [.workerReads i, .workerDrops result, .workerClears]
    s'.worker = .idle ∧ (∀ a ∈ s.attempts, a ∈ s'.attempts) ∧
      (∀ h, s.cells i = some h → (.worker, h.id) ∈ s'.attempts) ∧
      ∀ j, j ≠ i → s'.cells j = s.cells j := by
  intro s'
  cases hc : s.cells i with
  | none =>
    have hv : s' = s := by
      simp [s', step, workerReads, workerDrops, workerClears, hc, hi]
    rw [hv]
    exact ⟨hi, fun a ha => ha, fun h hh => absurd hh (Option.some_ne_none h).symm, fun _ _ => rfl⟩
  | some h =>
    have hv : s' = { s with
        attempts := (.worker, h.id) :: s.attempts
        cells := if result = .done then update s.cells i none else s.cells } := by
      cases result <;> simp [s', step, workerReads, workerDrops, workerClears, hc, hi]
    rw [hv]
    refine ⟨hi, fun a ha => mem_cons_of_mem _ ha, fun h' hh => ?_, fun j hj => ?_⟩
    · obtain rfl := Option.some.inj hh
      exact mem_cons_self
    · dsimp only
      split
      · exact update_of_ne hj _ _
      · rfl

theorem workerPass_spec (result : Cell → VamanaSlotDropResult) (cells : List Cell) (s : State)
    (hid : s.worker = .idle) :
    (∀ a ∈ s.attempts, a ∈ (run step s (workerPass cells result)).attempts) ∧
      ∀ i ∈ cells, cells.Nodup → ∀ h, s.cells i = some h →
        (.worker, h.id) ∈ (run step s (workerPass cells result)).attempts := by
  induction cells generalizing s with
  | nil => exact ⟨fun a ha => ha, fun i hi => absurd hi not_mem_nil⟩
  | cons i cells ih =>
    have hrun : run step s (workerPass (i :: cells) result) = run step
        (run step s [.workerReads i, .workerDrops (result i), .workerClears])
        (workerPass cells result) := by
      rw [← run_append]
      rfl
    obtain ⟨hid', hm, hv, hs⟩ := visit_spec s hid i (result i)
    obtain ⟨hm', hr⟩ := ih _ hid'
    rw [hrun]
    refine ⟨fun a ha => hm' a (hm a ha), fun j hj hn h hh => ?_⟩
    rw [nodup_cons] at hn
    obtain rfl | hmem := mem_cons.mp hj
    · exact hm' _ (hv h hh)
    have hne : j ≠ i := by
      rintro rfl
      exact hn.1 hmem
    exact hr j hmem hn.2 h ((hs j hne).trans hh)

theorem worker_attempts (s : State) (hi : s.worker = .idle)
    (result : Cell → VamanaSlotDropResult) (i : Cell) (id : Nat) (h : Queued s i id) :
    (.worker, id) ∈ (run step s (workerPass (finRange 16) result)).attempts := by
  obtain ⟨handoff, hc, rfl⟩ := h
  exact (workerPass_spec result (finRange 16) s hi).2 i (mem_finRange i)
    (nodup_finRange 16) handoff hc

theorem launcher_attempts_all (hands : List Handoff) (s : State) (h : s.launcher = some hands) :
    (∀ a ∈ s.attempts, a ∈ (run step s (replicate hands.length .launcherDrops)).attempts) ∧
      ∀ x ∈ hands, (.launcher, x.id) ∈
        (run step s (replicate hands.length .launcherDrops)).attempts := by
  induction hands generalizing s with
  | nil => exact ⟨fun a ha => ha, fun x hx => absurd hx not_mem_nil⟩
  | cons y rest ih =>
    have hs : step s .launcherDrops =
        { s with attempts := (.launcher, y.id) :: s.attempts, launcher := some rest } := by
      simp [step, launcherDrops, h]
    obtain ⟨hm, hr⟩ := ih (step s .launcherDrops) (by rw [hs])
    rw [length_cons, replicate_succ, run_cons]
    have hk : ∀ a ∈ (.launcher, y.id) :: s.attempts, a ∈ (step s .launcherDrops).attempts := by
      rw [hs]
      exact fun a ha => ha
    refine ⟨fun a ha => hm a (hk a (mem_cons_of_mem _ ha)), fun x hx => ?_⟩
    obtain rfl | hmem := mem_cons.mp hx
    · exact hm _ (hk _ mem_cons_self)
    · exact hr x hmem

theorem launcher_attempts (s : State) (id : Nat) (h : id ∈ held s) :
    (.launcher, id) ∈ (run step s (replicate (held s).length .launcherDrops)).attempts := by
  unfold held at h ⊢
  cases hl : s.launcher with
  | none => simp [hl] at h
  | some hands =>
    simp only [hl, Option.getD_some, length_map] at h ⊢
    obtain ⟨x, hx, rfl⟩ := mem_map.mp h
    exact (launcher_attempts_all hands s hl).2 x hx

/-! ## Every interleaving -/

/-- The launcher takes the queue of a stopped worker that has attempted nothing in it, and
releases the control block while nothing new is in the queue. -/
def Careful (s : State) : Event → Prop
  | .take => s.worker = .stopped ∧ ∀ h ∈ queue s, (.worker, h.id) ∉ s.attempts
  | .release => queue s = []
  | _ => True

instance Careful.decidable (s : State) : (e : Event) → Decidable (Careful s e) := by
  intro e
  cases e <;> unfold Careful <;> infer_instance

/-- Where the worker is, as the queue shows it. -/
def WorkerFits (s : State) : Prop :=
  match s.worker with
  | .dropping i h => s.cells i = some h
  | .clearing i => ∃ h, s.cells i = some h ∧ (.worker, h.id) ∈ s.attempts
  | _ => True

structure Inv (s : State) : Prop where
  kept : ∀ id, id < s.next →
    (∃ i, Queued s i id) ∨ id ∈ held s ∨ ∃ party, (party, id) ∈ s.attempts
  cell : ∀ i j id, Queued s i id → Queued s j id → i = j
  apart : ∀ i id, Queued s i id → id ∉ held s
  nodup : (held s).Nodup
  party : ∀ id party party', (party, id) ∈ s.attempts → (party', id) ∈ s.attempts → party = party'
  queued : ∀ i id, Queued s i id → id < s.next ∧ (.launcher, id) ∉ s.attempts
  hands : ∀ id ∈ held s, id < s.next ∧ ∀ party, (party, id) ∉ s.attempts
  attempted : ∀ party id, (party, id) ∈ s.attempts → id < s.next
  worker : WorkerFits s
  stopped : s.launcher ≠ none → s.worker = .stopped

variable {s : State}

theorem Inv.oneOwner (h : Inv s) : OneOwner s :=
  ⟨h.kept, h.cell, h.apart, h.nodup, h.party, fun hi result i id hq =>
    worker_attempts s hi result i id hq, fun id hh => launcher_attempts s id hh⟩

theorem Inv.atWork (h : Inv s) (hw : s.worker ≠ .stopped) : s.launcher = none := by
  by_contra hl
  exact hw (h.stopped hl)

theorem workerFits_stopped (h : s.worker = .stopped) : WorkerFits s := by
  unfold WorkerFits
  simp only [h]

theorem WorkerFits.fill (h : WorkerFits s) {i : Cell} (hf : s.cells i = none) (x : Handoff)
    (next : Nat) : WorkerFits { s with cells := update s.cells i (some x), next } := by
  have ho : ∀ j y, s.cells j = some y → j ≠ i := by
    rintro j y hy rfl
    rw [hf] at hy
    cases hy
  unfold WorkerFits at h ⊢
  dsimp only
  split
  · rename_i j y hp
    simp only [hp] at h
    rw [update_of_ne (ho j y h)]
    exact h
  · rename_i j hp
    simp only [hp] at h
    obtain ⟨y, hy, hmem⟩ := h
    rw [update_of_ne (ho j y hy)]
    exact ⟨y, hy, hmem⟩
  · trivial

theorem party_cons {attempts : List (Party × Nat)}
    (h : ∀ id p q, (p, id) ∈ attempts → (q, id) ∈ attempts → p = q) {party : Party} {id : Nat}
    (hm : ∀ p, (p, id) ∈ attempts → p = party) :
    ∀ id' p q, (p, id') ∈ (party, id) :: attempts → (q, id') ∈ (party, id) :: attempts → p = q := by
  intro id' p q hp hq
  simp only [mem_cons, Prod.mk.injEq] at hp hq
  obtain ⟨rfl, rfl⟩ | hp := hp
  · obtain ⟨rfl, -⟩ | hq := hq
    · rfl
    · exact (hm q hq).symm
  · obtain ⟨rfl, rfl⟩ | hq := hq
    · exact hm p hp
    · exact h id' p q hp hq

theorem mem_queue {h : Handoff} : h ∈ queue s ↔ ∃ i, s.cells i = some h := by
  simp [queue]

theorem nodup_queue (h : ∀ i j id, Queued s i id → Queued s j id → i = j) :
    ((queue s).map Handoff.id).Nodup := by
  unfold queue
  rw [map_filterMap]
  refine (nodup_finRange 16).filterMap fun i j id hi hj => ?_
  obtain ⟨x, hx, hxid⟩ := Option.map_eq_some_iff.mp hi
  obtain ⟨y, hy, hyid⟩ := Option.map_eq_some_iff.mp hj
  exact h i j id ⟨x, hx, hxid⟩ ⟨y, hy, hyid⟩

section

variable (h : Inv s)
include h

theorem inv_requestSlotDrop (i : Cell) (relid : Nat) : Inv (requestSlotDrop s i relid) := by
  unfold requestSlotDrop
  split
  · rename_i hf
    have hnew : ∀ j id, Queued { s with
        cells := update s.cells i (some ⟨s.next, relid⟩), next := s.next + 1 } j id ↔
        (j = i ∧ id = s.next) ∨ Queued s j id := by
      intro j id
      unfold Queued
      by_cases hj : j = i
      · subst hj
        simp [hf.2, eq_comm]
      · simp [hj]
    refine ⟨fun id hid => ?_, fun j k id hj hk => ?_, fun j id hj => ?_, h.nodup, h.party,
      fun j id hj => ?_, fun id hid => ?_, fun party id hid => ?_, ?_, h.stopped⟩
    · obtain hlt | rfl := Nat.lt_succ_iff_lt_or_eq.mp hid
      · obtain ⟨j, hj⟩ | ho := h.kept id hlt
        · exact .inl ⟨j, (hnew j id).mpr (.inr hj)⟩
        · exact .inr ho
      · exact .inl ⟨i, (hnew i _).mpr (.inl ⟨rfl, rfl⟩)⟩
    · obtain ⟨hji, hid⟩ | hold := (hnew j id).mp hj
      · obtain ⟨hki, -⟩ | hold' := (hnew k id).mp hk
        · rw [hji, hki]
        · exact absurd (h.queued k id hold').1 (by rw [hid]; exact Nat.lt_irrefl _)
      · obtain ⟨-, hid⟩ | hold' := (hnew k id).mp hk
        · exact absurd (h.queued j id hold).1 (by rw [hid]; exact Nat.lt_irrefl _)
        · exact h.cell j k id hold hold'
    · obtain ⟨rfl, rfl⟩ | hj := (hnew j id).mp hj
      · exact fun hh => absurd (h.hands _ hh).1 (Nat.lt_irrefl _)
      · exact h.apart j id hj
    · obtain ⟨rfl, rfl⟩ | hj := (hnew j id).mp hj
      · exact ⟨Nat.lt_succ_self _, fun hmem => absurd (h.attempted _ _ hmem) (Nat.lt_irrefl _)⟩
      · exact ⟨Nat.lt_succ_of_lt (h.queued j id hj).1, (h.queued j id hj).2⟩
    · exact ⟨Nat.lt_succ_of_lt (h.hands id hid).1, (h.hands id hid).2⟩
    · exact Nat.lt_succ_of_lt (h.attempted party id hid)
    · exact h.worker.fill hf.2 _ _
  · exact h

theorem Inv.setWorker {worker : WorkerPhase} (hf : WorkerFits { s with worker })
    (hs : s.launcher ≠ none → worker = .stopped) : Inv { s with worker } :=
  ⟨h.kept, h.cell, h.apart, h.nodup, h.party, h.queued, h.hands, h.attempted, hf, hs⟩

theorem inv_workerReads (i : Cell) : Inv (workerReads s i) := by
  unfold workerReads
  split
  · rename_i x hi hc
    have hla : s.launcher = none := h.atWork (by simp [hi])
    exact h.setWorker hc fun hl => absurd hla hl
  · exact h

theorem inv_workerDrops (result : VamanaSlotDropResult) : Inv (workerDrops s result) := by
  unfold workerDrops
  split
  · rename_i i x hph
    have hc : s.cells i = some x := by
      have hw := h.worker
      unfold WorkerFits at hw
      simpa only [hph] using hw
    have hqu : Queued s i x.id := ⟨x, hc, rfl⟩
    have hla : s.launcher = none := h.atWork (by simp [hph])
    -- the launcher has attempted nothing that is queued
    have hm : ∀ p, (p, x.id) ∈ s.attempts → p = .worker := by
      rintro (_ | _) hp
      · rfl
      · exact absurd hp (h.queued i x.id hqu).2
    refine ⟨fun id hid => ?_, h.cell, h.apart, h.nodup, party_cons h.party hm, fun j id hj => ?_,
      fun id hid => ?_, fun p id hp => ?_, ?_, fun hl => absurd hla hl⟩
    · obtain hq | hh | ⟨p, hp⟩ := h.kept id hid
      · exact .inl hq
      · exact .inr (.inl hh)
      · exact .inr (.inr ⟨p, mem_cons_of_mem _ hp⟩)
    · refine ⟨(h.queued j id hj).1, ?_⟩
      simp only [mem_cons, Prod.mk.injEq, reduceCtorEq, false_and, false_or]
      exact (h.queued j id hj).2
    · refine ⟨(h.hands id hid).1, fun p hp => ?_⟩
      simp only [mem_cons, Prod.mk.injEq] at hp
      obtain ⟨-, rfl⟩ | hp := hp
      · exact h.apart i x.id hqu hid
      · exact (h.hands id hid).2 p hp
    · simp only [mem_cons, Prod.mk.injEq] at hp
      obtain ⟨-, rfl⟩ | hp := hp
      · exact (h.queued i x.id hqu).1
      · exact h.attempted p id hp
    · unfold WorkerFits
      cases result with
      | done => exact ⟨x, hc, mem_cons_self⟩
      | busy => trivial
      | failed => trivial
  · exact h

theorem inv_workerClears : Inv (workerClears s) := by
  unfold workerClears
  split
  · rename_i i hp
    have hc : ∃ x, s.cells i = some x ∧ (.worker, x.id) ∈ s.attempts := by
      have hw := h.worker
      unfold WorkerFits at hw
      simpa only [hp] using hw
    obtain ⟨x, hx, hmem⟩ := hc
    have hla : s.launcher = none := h.atWork (by simp [hp])
    have hle : ∀ j id, Queued { s with
        cells := update s.cells i none, worker := .idle } j id ↔
        j ≠ i ∧ Queued s j id := by
      intro j id
      unfold Queued
      by_cases hj : j = i
      · subst hj
        simp
      · simp [hj]
    have hold := fun j id hq => ((hle j id).mp hq).2
    refine ⟨fun id hid => ?_, fun j k id hj hk => h.cell j k id (hold j id hj) (hold k id hk),
      fun j id hj => h.apart j id (hold j id hj), h.nodup, h.party,
      fun j id hj => h.queued j id (hold j id hj), h.hands, h.attempted, trivial,
      fun hl => absurd hla hl⟩
    obtain ⟨j, hq⟩ | ho := h.kept id hid
    · by_cases hj : j = i
      · obtain ⟨y, hy, rfl⟩ := hq
        rw [hj, hx] at hy
        obtain rfl := Option.some.inj hy
        exact .inr (.inr ⟨_, hmem⟩)
      · exact .inl ⟨j, (hle j id).mpr ⟨hj, hq⟩⟩
    · exact .inr ho
  · exact h

theorem inv_takePendingSlotDrops (hs : s.worker = .stopped)
    (hnew : ∀ x ∈ queue s, (.worker, x.id) ∉ s.attempts) : Inv (takePendingSlotDrops s) := by
  unfold takePendingSlotDrops
  split
  · rename_i hf
    have hn : held s = [] := by simp [held, hf.2]
    have hem : ∀ j id, ¬ Queued { s with launcher := some (queue s), cells := fun _ => none } j id := by
      rintro j id ⟨y, hy, -⟩
      cases hy
    have hhe : ∀ id, id ∈ (queue s).map Handoff.id ↔ ∃ i, Queued s i id := by
      intro id
      simp only [mem_map, mem_queue, Queued]
      constructor
      · rintro ⟨x, ⟨i, hi⟩, rfl⟩
        exact ⟨i, x, hi, rfl⟩
      · rintro ⟨i, x, hi, rfl⟩
        exact ⟨x, ⟨i, hi⟩, rfl⟩
    refine ⟨fun id hid => ?_, fun j k id hj => absurd hj (hem j id),
      fun j id hj => absurd hj (hem j id), ?_, h.party, fun j id hj => absurd hj (hem j id),
      fun id hid => ?_, h.attempted, workerFits_stopped hs, fun _ => hs⟩
    · obtain hq | hh | ha := h.kept id hid
      · exact .inr (.inl ((hhe id).mpr hq))
      · rw [hn] at hh
        cases hh
      · exact .inr (.inr ha)
    · exact nodup_queue h.cell
    · obtain ⟨i, hq⟩ := (hhe id).mp hid
      refine ⟨(h.queued i id hq).1, fun p hp => ?_⟩
      cases p with
      | worker =>
        obtain ⟨x, hx, rfl⟩ := hq
        exact hnew x (mem_queue.mpr ⟨i, hx⟩) hp
      | launcher => exact (h.queued i id hq).2 hp
  · exact h

theorem inv_launcherDrops : Inv (launcherDrops s) := by
  unfold launcherDrops
  split
  · rename_i x rest hha
    have hhe : held s = x.id :: rest.map Handoff.id := by simp [held, hha]
    have hn := h.nodup
    have hm := h.hands x.id (by rw [hhe]; exact mem_cons_self)
    rw [hhe, nodup_cons] at hn
    have hr : ∀ id, id ∈ rest.map Handoff.id → id ∈ held s := by
      intro id hid
      rw [hhe]
      exact mem_cons_of_mem _ hid
    have hs : s.worker = .stopped := h.stopped (by simp [hha])
    refine ⟨fun id hid => ?_, h.cell, fun i id hq hh => h.apart i id hq (hr id hh), hn.2,
      party_cons h.party fun p hp => absurd hp (hm.2 p), fun i id hq => ?_, fun id hh => ?_,
      fun p id hp => ?_, workerFits_stopped hs, fun _ => hs⟩
    · obtain hq | hh | ⟨p, hp⟩ := h.kept id hid
      · exact .inl hq
      · rw [hhe] at hh
        obtain rfl | hh := mem_cons.mp hh
        · exact .inr (.inr ⟨.launcher, mem_cons_self⟩)
        · exact .inr (.inl hh)
      · exact .inr (.inr ⟨p, mem_cons_of_mem _ hp⟩)
    · refine ⟨(h.queued i id hq).1, fun hp => ?_⟩
      simp only [mem_cons, Prod.mk.injEq] at hp
      obtain ⟨-, rfl⟩ | hp := hp
      · exact h.apart i _ hq (by rw [hhe]; exact mem_cons_self)
      · exact (h.queued i id hq).2 hp
    · refine ⟨(h.hands id (hr id hh)).1, fun p hp => ?_⟩
      simp only [mem_cons, Prod.mk.injEq] at hp
      obtain ⟨-, rfl⟩ | hp := hp
      · exact hn.1 hh
      · exact (h.hands id (hr id hh)).2 p hp
    · simp only [mem_cons, Prod.mk.injEq] at hp
      obtain ⟨-, rfl⟩ | hp := hp
      · exact hm.1
      · exact h.attempted p id hp
  · exact h

theorem inv_releaseSlot (hqu : queue s = []) : Inv (releaseSlot s) := by
  unfold releaseSlot
  split
  · rename_i hha
    have hn : ∀ i, s.cells i = none := by
      intro i
      by_contra hi
      obtain ⟨x, hx⟩ := Option.ne_none_iff_exists'.mp hi
      have hmem := mem_queue.mpr ⟨i, hx⟩
      rw [hqu] at hmem
      cases hmem
    have hc : (fun _ => none) = s.cells := funext fun i => (hn i).symm
    have hhe : held s = [] := by simp [held, hha]
    have hs : s.worker = .stopped := h.stopped (by simp [hha])
    rw [hc]
    refine ⟨fun id hid => ?_, h.cell, fun i id _ hh => absurd hh not_mem_nil, nodup_nil,
      h.party, h.queued, fun id hh => absurd hh not_mem_nil, h.attempted,
      workerFits_stopped hs, fun hl => absurd rfl hl⟩
    obtain hq | hh | hp := h.kept id hid
    · exact .inl hq
    · rw [hhe] at hh
      cases hh
    · exact .inr (.inr hp)
  · exact h

end

theorem inv_step (s : State) (e : Event) (h : Inv s) (hc : Careful s e) : Inv (step s e) := by
  cases e with
  | request i relid => exact inv_requestSlotDrop h i relid
  | workerStarts =>
    unfold step
    dsimp only
    split
    · rename_i hs
      exact h.setWorker trivial fun hl => absurd hs.2.1 hl
    · exact h
  | workerStops => exact h.setWorker trivial fun _ => rfl
  | workerReads i => exact inv_workerReads h i
  | workerDrops result => exact inv_workerDrops h result
  | workerClears => exact inv_workerClears h
  | take => exact inv_takePendingSlotDrops h hc.1 hc.2
  | launcherDrops => exact inv_launcherDrops h
  | release => exact inv_releaseSlot h hc
  | reserve =>
    unfold step
    dsimp only
    split
    · exact ⟨h.kept, h.cell, h.apart, h.nodup, h.party, h.queued, h.hands, h.attempted, h.worker,
        h.stopped⟩
    · exact h

theorem inv_start : Inv {} := by
  have hem : ∀ i id, ¬ Queued {} i id := by
    rintro i id ⟨x, hx, -⟩
    cases hx
  refine ⟨fun id hid => absurd hid (Nat.not_lt_zero id), fun i j id hi => absurd hi (hem i id),
    fun i id hi => absurd hi (hem i id), nodup_nil, fun id p q hp => absurd hp not_mem_nil,
    fun i id hi => absurd hi (hem i id), fun id hh => absurd hh not_mem_nil,
    fun p id hp => absurd hp not_mem_nil, trivial, fun hl => absurd rfl hl⟩

/-- If the launcher takes the queue of a stopped worker that has attempted nothing in it, and
nothing is queued until the release, every drop has one owner in every state. -/
theorem every_slot_drop_has_one_owner (events : List Event)
    (hcareful : EachStep step Careful {} events) : EachState step OneOwner {} events :=
  eachState_invariant Inv inv_step (fun _ h => h.oneOwner) inv_start hcareful

/-- One drop for the worker, and one that it leaves to the launcher. -/
def removal : List Event :=
  [.request 0 7, .workerReads 0, .workerDrops .busy, .workerReads 0, .workerDrops .done,
    .workerClears, .request 1 8, .workerStops, .take, .launcherDrops, .release]

theorem a_removal_without_a_late_drop_is_owned :
    EachStep step Careful {} removal ∧ EachState step OneOwner {} removal :=
  ⟨by decide +kernel, every_slot_drop_has_one_owner removal (by decide +kernel)⟩

/-- A drop that is queued between the take and the release is erased with the control block. -/
theorem a_drop_between_take_and_release_is_erased :
    ¬ OneOwner (run step {} [.workerStops, .take, .request 0 7, .release]) := by
  intro h
  have hk := h.kept 0 (by decide)
  obtain ⟨i, x, hx, -⟩ | hh | ⟨party, hp⟩ := hk
  · cases hx
  · cases hh
  · cases hp

end svs_vamana.slot_drop_queue
