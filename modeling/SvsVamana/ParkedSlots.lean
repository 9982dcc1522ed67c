-- The parked search slots of svs_cpu_slots.c and the worker that owns them: a slot exits when the
-- control block has another pid than its owner's.
import SvsVamana.Lib.Runs
import Mathlib.Data.List.Perm.Subperm

namespace svs_vamana.parked_slots

open transition_runs List

/-! ## The model -/

/-- A process in `SvsParkedSlotMain`. -/
structure ParkedSlot where
  ownerPid : Nat
  gotSigterm : Bool
  running : Bool
deriving DecidableEq, Repr

/-- How far a worker has come: it serves once it has published its pid. -/
inductive Phase
  | down
  | starting
  | serving
  | stopping
deriving DecidableEq, Repr

/-- The control block, the worker and its slot set: `slots` are all processes that were started,
`entries` those in the set, the last one first, `target` is that of a resize under way. -/
structure World where
  workerPid : Nat
  registeredSearchSlots : Nat
  worker : Nat
  phase : Phase
  entries : List Nat
  target : Option Nat
  slots : List ParkedSlot
deriving DecidableEq, Repr

open World

inductive Event
  | start (grant : Nat)
  | converge (grant : Nat)
  | resize (started : Bool)
  | publish
  | drain
  | exit (released : Bool)
  | check (i : Nat)
deriving DecidableEq, Repr

/-- `TerminateBackgroundWorker`, which does not wait for the process to exit. -/
def terminate (slots : List ParkedSlot) (told : List Nat) : List ParkedSlot :=
  slots.mapIdx fun i x => { x with gotSigterm := x.gotSigterm || decide (i ∈ told) }

namespace World

def init : World := ⟨0, 0, 0, .down, [], none, []⟩

/-- The worker is there and has not begun to stop. -/
def Alive (w : World) : Prop := w.phase = .starting ∨ w.phase = .serving

deriving instance Decidable for World.Alive

def runs (w : World) (i : Nat) : Bool := (w.slots[i]?.map ParkedSlot.running).getD false

/-- The next round of `SvsSlotSetResize`. The slot that is terminated may exit later, and one that
is not started ends the resize. -/
def resize (w : World) (started : Bool) : World :=
  match w.target with
  | none => w
  | some target =>
    if target < w.entries.length then
      { w with slots := terminate w.slots (w.entries.take 1), entries := w.entries.drop 1 }
    else if w.entries.length < target ∧ started = true then
      { w with
        slots := w.slots ++ [⟨w.worker, false, true⟩]
        entries := w.slots.length :: w.entries }
    else { w with target := none, registeredSearchSlots := w.entries.length }

/-- The loop of a parked slot between two waits, with `SvsSlotOwnerIsAlive`. -/
def check (w : World) (i : Nat) : World :=
  match w.slots[i]? with
  | none => w
  | some x =>
    if x.gotSigterm = true ∨ w.workerPid ≠ x.ownerPid then
      { w with slots := w.slots.set i { x with running := false } }
    else w

/-- A worker that starts resets the pid in the block and begins its first convergence; its drain
resets the pid again. An exit runs `VamanaWorkerReleaseSearchSlotsOnExit`, unless the process
crashes. -/
def step (w : World) : Event → World
  | .start grant =>
    if w.phase = .down then
      ⟨0, w.registeredSearchSlots, w.worker + 1, .starting, [], some grant, w.slots⟩
    else w
  | .converge grant =>
    if w.phase = .serving ∧ w.target = none then
      { w with target := some grant, entries := w.entries.filter w.runs }
    else w
  | .resize started => w.resize started
  | .publish =>
    if w.phase = .starting ∧ w.target = none then
      { w with phase := .serving, workerPid := w.worker }
    else w
  | .drain =>
    if w.phase = .serving ∨ w.phase = .starting ∧ w.target = none then
      { w with phase := .stopping, workerPid := 0, target := none }
    else w
  | .exit released =>
    { w with
      phase := .down
      target := none
      slots := terminate w.slots (if released then w.entries else []) }
  | .check i => w.check i

end World

variable {w w' : World}

/-- The process has begun to stop, or has exited. -/
def Stopped (w : World) (pid : Nat) : Prop := pid = w.worker → ¬ w.Alive

/-- A slot that has exited was told to, or its owner has begun to stop. -/
def Lawful (w : World) : Prop :=
  ∀ x ∈ w.slots, x.running = false → x.gotSigterm = true ∨ Stopped w x.ownerPid

deriving instance Decidable for Stopped, Lawful

/-- After a convergence there are at least as many running slots as were published. -/
def Held (w : World) : Prop :=
  w.Alive → w.target = none →
    w.registeredSearchSlots ≤ ((range w.slots.length).filter w.runs).length

/-- No slot looks for its owner while that is starting. -/
def ChecksPublished (w : World) : Event → Prop
  | .check i => ∀ x ∈ w.slots[i]?, x.running = true → x.gotSigterm = false →
      x.ownerPid = w.worker → w.phase ≠ .starting
  | _ => True

instance (w : World) : ∀ e, Decidable (ChecksPublished w e)
  | .check i => inferInstanceAs (Decidable (∀ x ∈ w.slots[i]?, _ → _ → _ → w.phase ≠ .starting))
  | .start _ | .converge _ | .resize _ | .publish | .drain | .exit _ => isTrue trivial

/-! ## The slot set -/

/-- Whatever the slots do: the block has the pid of a worker that serves and of none that starts,
and the slots of the set are the worker's own and were not told to exit. -/
structure Inv (w : World) : Prop where
  owners : ∀ x ∈ w.slots, 0 < x.ownerPid ∧ x.ownerPid ≤ w.worker
  pid : w.Alive → 0 < w.worker ∧ w.workerPid = if w.phase = .serving then w.worker else 0
  resizing : w.target ≠ none → w.Alive
  own : w.Alive → ∀ i ∈ w.entries, ∃ x, w.slots[i]? = some x ∧
    x.ownerPid = w.worker ∧ x.gotSigterm = false
  nodup : w.entries.Nodup
  settled : w.Alive → w.target = none → w.registeredSearchSlots = w.entries.length

theorem inv_init : Inv init :=
  ⟨by simp [init], by simp [init, Alive], by simp [init],
    by simp [init], nodup_nil, by simp [init]⟩

theorem mem_terminate {slots : List ParkedSlot} {told : List Nat} {x : ParkedSlot}
    (h : x ∈ terminate slots told) : ∃ y ∈ slots, x.ownerPid = y.ownerPid ∧
      x.running = y.running ∧ (y.gotSigterm = true → x.gotSigterm = true) := by
  obtain ⟨i, hi, rfl⟩ := mem_mapIdx.mp h
  exact ⟨slots[i], getElem_mem hi, rfl, rfl, fun hy => by simp [hy]⟩

/-- A worker that stops leaves its set behind. -/
theorem Inv.stop (h : Inv w) (hw : w'.worker = w.worker) (he : w'.entries = w.entries)
    (ha : ¬ w'.Alive) (ht : w'.target = none)
    (hs : ∀ x ∈ w'.slots, ∃ y ∈ w.slots, x.ownerPid = y.ownerPid) : Inv w' where
  owners x hx := by
    obtain ⟨y, hy, ho⟩ := hs x hx
    exact ho ▸ hw ▸ h.owners y hy
  pid hal := absurd hal ha
  resizing hn := absurd ht hn
  own hal := absurd hal ha
  nodup := he ▸ h.nodup
  settled hal := absurd hal ha

theorem Inv.resize (h : Inv w) (started : Bool) : Inv (w.resize started) := by
  unfold World.resize
  split
  · exact h
  rename_i target ht
  have ha := h.resizing (by simp [ht])
  split
  · refine ⟨fun x hx => ?_, h.pid, h.resizing, fun _ i hi => ?_,
      h.nodup.sublist (drop_sublist 1 _), fun _ hn => by simp [ht] at hn⟩
    · obtain ⟨y, hy, ho, -⟩ := mem_terminate hx
      exact ho ▸ h.owners y hy
    · -- the entry that goes is not among those that stay
      have hd : i ∉ w.entries.take 1 := fun hmem =>
        disjoint_take_drop h.nodup (Nat.le_refl 1) hmem hi
      have hg : (terminate w.slots (w.entries.take 1))[i]? = w.slots[i]? := by
        simp [terminate, hd]
      exact hg ▸ h.own ha i (mem_of_mem_drop hi)
  split
  · have hlt : ∀ i ∈ w.entries, i < w.slots.length := fun i hi => by
      obtain ⟨x, hx, -⟩ := h.own ha i hi
      exact (List.getElem?_eq_some_iff.mp hx).1
    refine ⟨fun x hx => ?_, h.pid, h.resizing, fun _ i hi => ?_,
      nodup_cons.mpr ⟨fun hm => Nat.lt_irrefl _ (hlt _ hm), h.nodup⟩,
      fun _ hn => by simp [ht] at hn⟩
    · rcases mem_append.mp hx with hold | hnew
      · exact h.owners x hold
      · obtain rfl := mem_singleton.mp hnew
        exact ⟨(h.pid ha).1, Nat.le_refl _⟩
    · rcases mem_cons.mp hi with rfl | hold
      · exact ⟨⟨w.worker, false, true⟩, by simp, rfl, rfl⟩
      · obtain ⟨x, hx, hown⟩ := h.own ha i hold
        exact ⟨x, (getElem?_append_left (hlt i hold)).trans hx, hown⟩
  · exact ⟨h.owners, h.pid, fun hn => absurd rfl hn, h.own, h.nodup, fun _ _ => rfl⟩

theorem Inv.check (h : Inv w) (i : Nat) : Inv (w.check i) := by
  unfold World.check
  split
  · exact h
  rename_i x hx
  split
  · refine ⟨fun y hy => ?_, h.pid, h.resizing, fun ha j hj => ?_, h.nodup, h.settled⟩
    · rcases mem_or_eq_of_mem_set hy with hold | rfl
      · exact h.owners y hold
      · exact h.owners x (mem_of_getElem? hx)
    · obtain ⟨y, hy, ho, ht⟩ := h.own ha j hj
      by_cases hij : i = j
      · subst hij
        cases hx.symm.trans hy
        exact ⟨_, List.getElem?_set_self (List.getElem?_eq_some_iff.mp hx).1, ho, ht⟩
      · exact ⟨y, (getElem?_set_ne hij).trans hy, ho, ht⟩
  · exact h

theorem inv_step (h : Inv w) (e : Event) : Inv (w.step e) := by
  cases e with
  | resize started => exact h.resize started
  | check i => exact h.check i
  | exit released =>
    refine h.stop rfl rfl (by simp [step, Alive]) rfl fun x hx => ?_
    obtain ⟨y, hy, ho, -⟩ := mem_terminate hx
    exact ⟨y, hy, ho⟩
  | start grant =>
    simp only [step]
    split
    · refine ⟨fun x hx => ?_, fun _ => ⟨Nat.succ_pos _, rfl⟩, fun _ => .inl rfl,
        fun _ i hi => absurd hi not_mem_nil, nodup_nil, fun _ hn => by simp at hn⟩
      obtain ⟨hpos, hle⟩ := h.owners x hx
      exact ⟨hpos, Nat.le_succ_of_le hle⟩
    · exact h
  | converge grant =>
    simp only [step]
    split
    · rename_i hon
      exact ⟨h.owners, h.pid, fun _ => .inr hon.1,
        fun ha i hi => h.own ha i (mem_filter.mp hi).1, h.nodup.filter _,
        fun _ hn => by simp at hn⟩
    · exact h
  | publish =>
    simp only [step]
    split
    · rename_i hon
      have ha : w.Alive := .inl hon.1
      exact ⟨h.owners, fun _ => ⟨(h.pid ha).1, rfl⟩, fun _ => .inr rfl, fun _ => h.own ha,
        h.nodup, fun _ => h.settled ha⟩
    · exact h
  | drain =>
    simp only [step]
    split
    · exact h.stop rfl rfl (by simp [Alive]) rfl fun x hx => ⟨x, hx, rfl⟩
    · exact h

/-! ## The slots and their owner -/

/-- A slot of the set that is not running would have exited without a reason. -/
theorem Lawful.held (h : Lawful w) (hi : Inv w) : Held w := by
  intro ha ht
  rw [hi.settled ha ht]
  refine (subperm_of_subset hi.nodup fun i hmem => ?_).length_le
  obtain ⟨x, hx, ho, hs⟩ := hi.own ha i hmem
  have hr : x.running = true := by
    by_contra hn
    rcases h x (mem_of_getElem? hx) (by simpa using hn) with hto | hst
    · simp [hs] at hto
    · exact hst ho ha
  refine List.mem_filter.mpr ⟨List.mem_range.mpr (List.getElem?_eq_some_iff.mp hx).1, ?_⟩
  simp [runs, hx, hr]

theorem Lawful.keep (h : Lawful w) (hs : ∀ x ∈ w'.slots, x.running = false →
      ∃ y ∈ w.slots, x.ownerPid = y.ownerPid ∧ x.running = y.running ∧
        (y.gotSigterm = true → x.gotSigterm = true))
    (hst : ∀ x ∈ w.slots, Stopped w x.ownerPid → Stopped w' x.ownerPid) : Lawful w' := by
  intro x hx hr
  obtain ⟨y, hy, ho, hrun, ht⟩ := hs x hx hr
  rcases h y hy (hrun ▸ hr) with hto | hs
  · exact .inl (ht hto)
  · exact .inr (ho ▸ hst y hy hs)

theorem lawful_check_iff (h : Lawful w) (hi : Inv w) (i : Nat) :
    Lawful (w.check i) ↔ ChecksPublished w (.check i) := by
  unfold check ChecksPublished
  split
  · rename_i hx
    simp [hx, h]
  rename_i x hx
  have hmem := mem_of_getElem? hx
  split
  · rename_i hex
    constructor
    · intro hl y hy hr hs ho hp
      cases hx.symm.trans hy
      have hlt := (List.getElem?_eq_some_iff.mp hx).1
      rcases hl _ (mem_set hlt _) rfl with ht | hst
      · simp [hs] at ht
      · exact hst ho (.inl hp)
    · intro hok y hy hr
      rcases mem_or_eq_of_mem_set hy with hold | rfl
      · exact h y hold hr
      by_cases hrun : x.running = true
      · by_cases hs : x.gotSigterm = true
        · exact .inl hs
        -- the slot has found another pid, so that its owner does not serve
        refine .inr fun ho ha => ?_
        have hser := ha.resolve_left (hok x hx hrun (by simpa using hs) ho)
        have hpid := (hi.pid ha).2
        rw [if_pos hser] at hpid
        exact (hex.resolve_left hs) (hpid.trans ho.symm)
      · exact h x hmem (by simpa using hrun)
  · rename_i hin
    refine iff_of_true h fun y hy _ _ _ hp => ?_
    have hpid := (hi.pid (.inl hp)).2
    have hpos := (hi.owners x hmem).1
    rw [hp, if_neg (by simp)] at hpid
    omega

theorem lawful_step (h : Lawful w) (hi : Inv w) {e : Event} (he : ∀ i, e ≠ .check i) :
    Lawful (w.step e) := by
  have hs : ∀ x ∈ w.slots, x.running = false → ∃ y ∈ w.slots, x.ownerPid = y.ownerPid ∧
      x.running = y.running ∧ (y.gotSigterm = true → x.gotSigterm = true) :=
    fun x hx _ => ⟨x, hx, rfl, rfl, id⟩
  cases e with
  | check i => exact absurd rfl (he i)
  | exit released =>
    exact h.keep (fun x hx _ => mem_terminate hx) fun _ _ _ _ => by simp [step, Alive]
  | start grant =>
    simp only [step]
    split
    · refine h.keep hs fun x hx _ ho => ?_
      have hle := (hi.owners x hx).2
      dsimp only at ho
      omega
    · exact h
  | converge grant =>
    simp only [step]
    split
    · exact h.keep hs fun _ _ => id
    · exact h
  | resize started =>
    simp only [step, resize]
    split
    · exact h
    split
    · exact h.keep (fun x hx _ => mem_terminate hx) fun _ _ => id
    split
    · refine h.keep (fun x hx hr => ?_) fun _ _ => id
      rcases mem_append.mp hx with hold | hnew
      · exact hs x hold hr
      · obtain rfl := mem_singleton.mp hnew
        simp at hr
    · exact h.keep hs fun _ _ => id
  | publish =>
    simp only [step]
    split
    · rename_i hon
      exact h.keep hs fun x _ hst ho => absurd (.inl hon.1) (hst ho)
    · exact h
  | drain =>
    simp only [step]
    split
    · exact h.keep hs fun _ _ _ _ => by simp [Alive]
    · exact h

/-- No slot exits before it is told to or its owner begins to stop, and the published number is
there between convergence and drain, exactly if no slot looks for its owner before that has
published its pid. -/
theorem parked_slots_outlive_all_but_their_owner (es : List Event) :
    EachState step (fun w => Lawful w ∧ Held w) init es ↔
      EachStep step ChecksPublished init es := by
  have hl : Lawful init := by simp [Lawful, init]
  refine eachState_iff_eachStep (fun w e (h : Inv w) => inv_step h e) (fun w e hi hP => ?_) es
    inv_init ⟨hl, hl.held inv_init⟩
  have hiff : Lawful (w.step e) ↔ ChecksPublished w e := by
    cases e with
    | check i => exact lawful_check_iff hP.1 hi i
    | _ => exact iff_of_true (lawful_step hP.1 hi (by simp)) trivial
  exact ⟨fun h => hiff.mp h.1, fun h => ⟨hiff.mpr h, (hiff.mpr h).held (inv_step hi e)⟩⟩

/-- A worker starts with two slots, serves, and is left with one by a lower grant. -/
theorem late_checks_find_the_owner :
    EachState step (fun w => Lawful w ∧ Held w) init
      [.start 2, .resize true, .resize true, .resize true, .publish, .check 0, .check 1,
        .converge 1, .resize true, .check 1, .resize true, .drain, .check 0, .exit true] :=
  (parked_slots_outlive_all_but_their_owner _).mpr (by decide +kernel)

/-- A slot comes to its loop before the worker that has just registered it publishes its pid. -/
theorem an_early_check_ends_a_slot :
    ¬ EachState step (fun w => Lawful w ∧ Held w) init
      [.start 1, .resize true, .resize true, .check 0, .publish] :=
  fun h => absurd h.2.2.2.2.1.1 (by decide +kernel)

end svs_vamana.parked_slots
