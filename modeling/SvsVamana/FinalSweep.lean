-- The shutdown of a worker: the last sweep of `VamanaWorkerDrainAndStop` is an ordinary pass, and
-- serves the whole backlog only where that fits into one batch.
import SvsVamana.SlotProtocol

namespace svs_vamana.final_sweep

open index_cache request_slot request_pass slot_protocol transition_runs
open Function List

/-! ## The drain -/

/-- How far the shutdown has come. -/
inductive DrainPhase
  | serving
  | closed
  | sweeping
  | finished
deriving DecidableEq, Repr

/-- The request slots with the intake flag. The history beside it: the requests of each slot when
the intake closed, and those that were answered. -/
structure World where
  sys : System
  accepting : Bool
  phase : DrainPhase
  closedAt : Nat → Nat
  answered : Nat → List Nat

open World

inductive Event
  | backend (i : Nat) (e : BackendEvent)
  | start (acceptsWrites : Bool) (maxBatch : Nat)
  | stopAccepting
  | sweep (acceptsWrites : Bool) (maxBatch : Nat)
  | work (k : BatchCalls) (w : WriteSlotCalls)
  | finish

/-- A backend that comes to publish reads the flag of its block. -/
def observe (accepting : Bool) : BackendEvent → BackendEvent
  | .advance workerFound _ => .advance workerFound accepting
  | e => e

def Rests (s : System) : Prop := s.worker.phase = .idle ∧ s.worker.ops = []

deriving instance Decidable for Rests

/-- The last request of a slot joins those that were answered. -/
def answerLast (c : Cell) (answered : List Nat) : List Nat :=
  match c.published.length with
  | 0 => answered
  | n + 1 => n :: answered

/-- What the next access of the worker answers: a DONE or ERROR is for the last request. -/
def record (s : System) (answered : Nat → List Nat) : Nat → List Nat :=
  match s.worker.ops with
  | .write i (.status _) :: _ =>
    update answered i (answerLast (s.cells i) (answered i))
  | _ => answered

namespace World

def init (maxSlots : Nat) : World :=
  ⟨System.init maxSlots, true, .serving, fun _ => 0, fun _ => []⟩

/-- The drain closes the intake once the main loop is left and makes one pass; an error that leaves
the pass ends the process before. -/
def step (w : World) : Event → World
  | .backend i e => { w with sys := w.sys.step (.backend i (observe w.accepting e)) }
  | .start acceptsWrites maxBatch =>
    if w.phase = .serving then { w with sys := w.sys.step (.start acceptsWrites maxBatch) } else w
  | .stopAccepting =>
    if w.phase = .serving ∧ Rests w.sys then
      { w with
        accepting := false
        phase := .closed
        closedAt := fun i => (w.sys.cells i).published.length }
    else w
  | .sweep acceptsWrites maxBatch =>
    if w.phase = .closed then
      { w with sys := w.sys.step (.start acceptsWrites maxBatch), phase := .sweeping }
    else w
  | .work k c =>
    { w with sys := w.sys.step (.work k c), answered := record w.sys w.answered }
  | .finish => if w.phase = .sweeping ∧ Rests w.sys then { w with phase := .finished } else w

end World

/-- Request `n` of slot `i` was answered or taken back. -/
def Over (w : World) (i n : Nat) : Prop := n ∈ w.answered i ∨ n ∈ (w.sys.cells i).abandoned

def Swept (w : World) : Prop :=
  w.phase = .finished → ∀ i < w.sys.maxSlots, ∀ n < w.closedAt i, Over w i n

/-! ## One slot -/

/-- The worker has yet to write a DONE or ERROR. -/
def Open (c : Cell) : Prop := c.slot.status = .pending ∨ c.slot.status = .processing

/-- From its claim to its publishing, and again once it has read the answer, a backend has no
open request; before that the one it waits for is the last. -/
def BackendSound (c : Cell) : Prop :=
  match c.backend with
  | .resetting _ => ¬ Open c
  | .claimed _ => ¬ Open c
  | .owning _ => ¬ Open c
  | .filling _ _ => ¬ Open c
  | .publishing _ => ¬ Open c
  | .waiting n => c.published.length = n + 1
  | .leaving n _ => c.published.length = n + 1
  | .checking n _ => c.published.length = n + 1
  | .cancelling n => c.published.length = n + 1
  | .expiring n _ => c.published.length = n + 1
  | .consuming _ _ => ¬ Open c
  | _ => True

/-- Every published request is over, unless it is the last one and its slot is open. -/
structure Settled (c : Cell) (answered : List Nat) : Prop where
  each : ∀ n < c.published.length, n ∈ answered ∨ n ∈ c.abandoned ∨
    (n + 1 = c.published.length ∧ Open c)
  backend : BackendSound c

theorem settled_init : Settled Cell.init [] := ⟨by simp [Cell.init], trivial⟩

variable {c : Cell} {answered : List Nat}

theorem Settled.all_over (h : Settled c answered) (hop : ¬ Open c) {n : Nat}
    (hn : n < c.published.length) : n ∈ answered ∨ n ∈ c.abandoned := by
  rcases h.each n hn with ha | ha | ⟨-, ho⟩
  · exact .inl ha
  · exact .inr ha
  · exact absurd ho hop

variable {c' : Cell}

section

variable (h : Settled c answered)
include h

theorem Settled.goOn (hst : c'.slot.status = c.slot.status)
    (hp : c'.published = c.published) (ha : c'.abandoned = c.abandoned) (hb : BackendSound c') :
    Settled c' answered := by
  refine ⟨fun n hn => ?_, hb⟩
  rw [hp] at hn
  rw [ha, hp, Open, hst]
  exact h.each n hn

theorem Settled.release (ho : ¬ Open c)
    (hp : c'.published = c.published) (ha : c'.abandoned = c.abandoned) (hb : BackendSound c') :
    Settled c' answered := by
  refine ⟨fun n hn => ?_, hb⟩
  rw [hp] at hn
  rcases h.all_over ho hn with h' | h'
  · exact .inl h'
  · exact .inr (.inl (ha ▸ h'))

theorem Settled.abandon {n : Nat} (hn : c.published.length = n + 1)
    {b : Backend} (hb : ∀ c' : Cell, c'.backend = b → BackendSound c') :
    Settled { c.abandon n with backend := b } answered := by
  unfold Cell.abandon
  split
  · refine ⟨fun m hm => ?_, hb _ rfl⟩
    rcases h.each m hm with ha | ha | ⟨hl, -⟩
    · exact .inl ha
    · exact .inr (.inl (mem_cons_of_mem _ ha))
    · have hmn : m = n := by omega
      exact .inr (.inl (hmn ▸ mem_cons_self))
  · exact h.goOn rfl rfl rfl (hb _ rfl)

theorem Settled.publish (ho : ¬ Open c) (r : Request) :
    Settled { c.setStatus .pending with
      published := c.published ++ [r]
      backend := .waiting c.published.length } answered := by
  refine ⟨fun n hn => ?_, by simp [BackendSound]⟩
  simp only [length_append, length_singleton] at hn ⊢
  by_cases hl : n = c.published.length
  · exact .inr (.inr ⟨by omega, .inl rfl⟩)
  have hea : n < c.published.length := by omega
  rcases h.all_over ho hea with h' | h'
  · exact .inl h'
  · exact .inr (.inl h')

theorem Settled.advance (workerFound accepting : Bool) :
    Settled (c.advance workerFound accepting) answered := by
  have hb := h.backend
  unfold BackendSound at hb
  unfold Cell.advance
  generalize c.backend = b at hb
  cases b with
  | idle | waiting => exact h
  | claiming r =>
    dsimp only
    split
    · exact h.goOn rfl rfl rfl trivial
    · split <;> exact h.goOn rfl rfl rfl (by simp [BackendSound, Open, *])
  | resetting r => exact h.release hb rfl rfl (by simp [BackendSound, Open, Cell.setStatus])
  | claimed r | leaving n waitedMs => exact h.goOn rfl rfl rfl hb
  | owning r =>
    dsimp only
    split
    · exact h.goOn rfl rfl rfl hb
    · exact h.goOn rfl rfl rfl trivial
  | filling r todo =>
    cases todo with
    | nil =>
      dsimp only
      split
      · exact h.goOn rfl rfl rfl hb
      · exact h.goOn rfl rfl rfl trivial
    | cons w todo =>
      have hst : (w.apply c.slot).status = c.slot.status := by cases w <;> rfl
      exact h.goOn hst rfl rfl (by simpa [BackendSound, Open, hst] using hb)
  | publishing r => exact h.publish hb r
  | checking n waitedMs =>
    dsimp only
    split
    · rename_i hst
      exact h.goOn rfl rfl rfl (by simp [BackendSound, Open, hst])
    · rename_i hst
      exact h.goOn rfl rfl rfl (by simp [BackendSound, Open, hst])
    all_goals exact h.goOn rfl rfl rfl hb
  | cancelling n | expiring n waitedMs =>
    exact h.abandon hb fun c' hc' => by simp [BackendSound, hc']
  | cancelled n | expired n waitedMs | reading n done => exact h.goOn rfl rfl rfl trivial
  | consuming n done => exact h.release hb rfl rfl trivial

end

theorem Settled.backendStep (h : Settled c answered) (e : BackendEvent) :
    Settled (c.backendStep e) answered := by
  have hb := h.backend
  cases e with
  | advance workerFound accepting => exact h.advance workerFound accepting
  | submit r | exit =>
    simp only [Cell.backendStep]
    split
    · exact h.goOn rfl rfl rfl trivial
    · exact h
  | leave waitedMs | cancel =>
    simp only [Cell.backendStep]
    split
    · rename_i n hp
      simp only [BackendSound, hp] at hb
      exact h.goOn rfl rfl rfl (by simpa [BackendSound] using hb)
    · exact h

/-- A worker's change of a slot keeps what its backend relies on, as long as it opens nothing. -/
theorem BackendSound.kept (h : BackendSound c) (hb : c'.backend = c.backend)
    (hp : c'.published = c.published) (hop : Open c' → Open c) : BackendSound c' := by
  unfold BackendSound at h ⊢
  rw [hb, hp]
  cases hph : c.backend <;> simp only [hph] at h ⊢ <;> first
    | exact h
    | exact fun ho => h (hop ho)

theorem Settled.promote (h : Settled c answered) (hst : c.slot.status = .pending) :
    Settled c.promote answered := by
  refine ⟨fun n hn => ?_, h.backend.kept rfl rfl fun _ => .inl hst⟩
  rcases h.each n hn with h' | h' | ⟨hl, -⟩
  · exact .inl h'
  · exact .inr (.inl h')
  · exact .inr (.inr ⟨hl, .inr rfl⟩)

theorem Settled.setLatch (h : Settled c answered) : Settled c.setLatch answered :=
  h.goOn rfl rfl rfl (h.backend.kept rfl rfl id)

theorem Settled.finish (h : Settled c answered) (hop : ¬ Open c') (hb : c'.backend = c.backend)
    (hp : c'.published = c.published) (ha : c'.abandoned = c.abandoned) :
    Settled c' (answerLast c answered) := by
  refine ⟨fun n hn => ?_, h.backend.kept hb hp fun ho => absurd ho hop⟩
  rw [hp] at hn
  rw [ha]
  unfold answerLast
  cases hlen : c.published.length with
  | zero => omega
  | succ m =>
    rcases h.each n hn with h' | h' | ⟨hl, -⟩
    · exact .inl (mem_cons_of_mem _ h')
    · exact .inr (.inl h')
    · have hnm : n = m := by omega
      exact .inl (hnm ▸ mem_cons_self)

/-! ## What a backend does to its slot -/

theorem backendStep_cases (c : Cell) (e : BackendEvent) :
    ((c.backendStep e).published = c.published ∧
      ((c.backendStep e).slot.status = c.slot.status ∨
        (c.backendStep e).slot.status = .empty)) ∨
    (∃ r, c.backend = .publishing r ∧ (c.backendStep e).slot.status = .pending ∧
      (c.backendStep e).published = c.published ++ [r]) := by
  cases e with
  | advance workerFound accepting =>
    simp only [Cell.backendStep]
    unfold Cell.advance
    cases hp : c.backend with
    | claiming r =>
      left
      dsimp only
      split
      · exact ⟨rfl, .inl rfl⟩
      · split <;> exact ⟨rfl, .inl rfl⟩
    | owning r | checking n waitedMs =>
      left
      dsimp only
      split <;> exact ⟨rfl, .inl rfl⟩
    | filling r todo =>
      left
      cases todo with
      | nil =>
        dsimp only
        split <;> exact ⟨rfl, .inl rfl⟩
      | cons w todo => exact ⟨rfl, .inl (by cases w <;> rfl)⟩
    | publishing r => exact .inr ⟨r, rfl, rfl, rfl⟩
    | cancelling n | expiring n waitedMs =>
      left
      simp only [Cell.abandon]
      split
      · exact ⟨rfl, .inr rfl⟩
      · exact ⟨rfl, .inl rfl⟩
    | resetting r => exact .inl ⟨rfl, .inr rfl⟩
    | consuming n done => exact .inl ⟨rfl, .inr rfl⟩
    | _ => exact .inl ⟨rfl, .inl rfl⟩
  | submit r | leave waitedMs | cancel | exit =>
    left
    simp only [Cell.backendStep]
    split <;> exact ⟨rfl, .inl rfl⟩

theorem processing_of_backendStep {e : BackendEvent}
    (h : (c.backendStep e).slot.status = .processing) : c.slot.status = .processing := by
  rcases backendStep_cases c e with ⟨-, hs | hem⟩ | ⟨r, -, hp, -⟩
  · exact hs ▸ h
  · rw [hem] at h
    cases h
  · rw [hp] at h
    cases h

theorem publishing_of_backendStep {e : BackendEvent} {r : Request}
    (h : (c.backendStep (observe false e)).backend = .publishing r) :
    c.backend = .publishing r := by
  cases e with
  | advance workerFound accepting =>
    simp only [observe, Cell.backendStep] at h
    unfold Cell.advance at h
    cases hp : c.backend with
    | claiming r' =>
      simp only [hp] at h
      split at h
      · cases h
      · split at h <;> cases h
    | owning r' | checking n waitedMs =>
      simp only [hp] at h
      split at h <;> cases h
    | filling r' todo => cases todo <;> simp [hp] at h
    | _ => simp [hp] at h
  | submit r' | leave waitedMs | cancel | exit =>
    simp only [observe, Cell.backendStep] at h
    split at h
    · cases h
    · exact h

/-! ## The worker -/

def due : WorkerPhase → List Nat
  | .scanning _ t => t.search ++ t.writes
  | .promoting _ t => t.search ++ t.writes
  | .sorting i t => i :: (t.search ++ t.writes)
  | .searches todo writes _ => todo ++ writes
  | .writes todo _ => todo
  | _ => []

/-- The slots that a scan has sorted are among those it has promoted. -/
def Listed : WorkerPhase → Prop
  | .scanning _ t => ∀ i ∈ t.search ++ t.writes, i ∈ t.all
  | .promoting _ t => ∀ i ∈ t.search ++ t.writes, i ∈ t.all
  | .sorting i t => i ∈ t.all ∧ ∀ i ∈ t.search ++ t.writes, i ∈ t.all
  | _ => True

/-- A slot that is PROCESSING will be answered: the worker has planned it, or the slot is still to
be dispatched. It is given up only with the process. -/
structure Attended (s : System) : Prop where
  only : EndsOnly s.worker.ops
  listed : Listed s.worker.phase
  each : s.worker.phase ≠ .stopped → ∀ i, (s.slots i).status = .processing →
    Ends s.worker.ops i ∨ i ∈ due s.worker.phase

theorem attended_init (maxSlots : Nat) : Attended (System.init maxSlots) where
  only := by simp [EndsOnly, System.init]
  listed := trivial
  each := by simp [System.slots, System.init, Cell.init, Slot.init]

variable {s : System}

theorem Attended.keep {s' : System} (h : Attended s) (hw : s'.worker = s.worker)
    (hst : ∀ i, (s'.slots i).status = .processing → (s.slots i).status = .processing) :
    Attended s' := by
  refine ⟨hw ▸ h.only, hw ▸ h.listed, ?_⟩
  rw [hw]
  exact fun hne i hi => h.each hne i (hst i hi)

theorem Attended.goTo (h : Attended s) (hops : s.worker.ops = []) {phase : WorkerPhase}
    (hrun : s.worker.phase ≠ .stopped) (hl : Listed phase)
    (hdue : ∀ i ∈ due s.worker.phase, i ∈ due phase) : Attended (s.goTo phase) := by
  refine ⟨h.only, hl, fun _ i hi => ?_⟩
  rcases h.each hrun i hi with ⟨st, hend⟩ | hmem
  · rw [hops] at hend
    cases hend
  · exact .inr (hdue i hmem)

/-- The worker goes on with accesses planned that answer what is no longer to be dispatched. -/
theorem Attended.plan (h : Attended s) (hops : s.worker.ops = []) {ops : List SlotOp}
    {phase : WorkerPhase} (hrun : s.worker.phase ≠ .stopped) (hl : Listed phase)
    (ho : EndsOnly ops) (hdue : ∀ i ∈ due s.worker.phase, Ends ops i ∨ i ∈ due phase) :
    Attended (s.plan ops phase) := by
  refine ⟨ho, hl, fun _ i hi => ?_⟩
  rcases h.each hrun i hi with ⟨st, hend⟩ | hmem
  · rw [hops] at hend
    cases hend
  · exact hdue i hmem

theorem cells_setCell (s : System) (i j : Nat) (c : Cell) :
    (s.setCell i c).cells j = if j = i then c else s.cells j :=
   update_apply s.cells i c j

theorem slots_setCell (s : System) (i j : Nat) (c : Cell) :
    (s.setCell i c).slots j = if j = i then c.slot else s.slots j := by
  unfold System.slots
  rw [cells_setCell]
  split <;> rfl

theorem mem_batches (s : System) (i : Nat) (rest : List Nat) {j : Nat} (h : j ∈ i :: rest) :
    j ∈ s.batchOf i rest ∨ j ∈ s.otherBatches i rest := by
  by_cases hrel : (s.slots j).indexRelid = (s.slots i).indexRelid
  · exact .inl (mem_filter.mpr ⟨h, by simpa using hrel⟩)
  · exact .inr (mem_filter.mpr ⟨h, by simpa using hrel⟩)

theorem failSlot_endsOnly (i : Nat) (message : String) (category : ErrorCategory) :
    EndsOnly (vamanaWorkerFailSlot i message category) := by
  intro j st hop
  rcases mem_endSlot.mp hop with ⟨w, hw, heq⟩ | heq
  · cases heq
    simp at hw
  · cases heq
    exact .inr rfl

theorem Attended.nextPhase (h : Attended s) (hops : s.worker.ops = []) (k : BatchCalls)
    (w : WriteSlotCalls) : Attended (s.nextPhase k w) := by
  have hl := h.listed
  unfold System.nextPhase
  by_cases hrun : s.worker.phase = .stopped
  · rw [hrun]
    exact h
  cases hp : s.worker.phase with
  | idle => exact h
  | stopped => exact absurd hp hrun
  | scanning i t =>
    simp only [hp, Listed] at hl
    dsimp only
    split
    · split <;> exact h.goTo hops hrun hl (by simp [hp, due])
    · split
      · rename_i hn
        refine h.goTo hops hrun trivial fun j hj => ?_
        rw [hp] at hj
        have hmem := hl j hj
        rw [length_eq_zero_iff.mp hn] at hmem
        cases hmem
      · exact h.goTo hops hrun trivial (by simp [hp, due])
  | promoting i t =>
    simp only [hp, Listed] at hl
    dsimp only
    split
    · refine ⟨h.only, ⟨by simp, fun j hj => mem_append_left _ (hl j hj)⟩, ?_⟩
      intro _ j hj
      by_cases hji : j = i
      · exact .inr (hji ▸ mem_cons_self)
      have hj' : (s.slots j).status = .processing := by
        simpa [System.slots, System.goTo, System.setCell, hji] using hj
      rcases h.each hrun j hj' with hend | hmem
      · exact .inl hend
      · rw [hp] at hmem
        exact .inr (mem_cons_of_mem _ hmem)
    · exact h.goTo hops hrun hl (by simp [hp, due])
  | sorting i t =>
    simp only [hp, Listed] at hl
    have hli : ∀ j, j = i ∨ j ∈ t.search ∨ j ∈ t.writes → j ∈ t.all := by
      rintro j (rfl | hj)
      · exact hl.1
      · exact hl.2 j (mem_append.mpr hj)
    dsimp only
    split
    · refine h.goTo hops hrun (fun j hj => hli j ?_) fun j hj => ?_
      all_goals
        simp only [hp, due, mem_cons, mem_append] at hj ⊢
        tauto
    · split
      · refine h.goTo hops hrun (fun j hj => hli j ?_) fun j hj => ?_
        all_goals
          simp only [hp, due, mem_cons, mem_append] at hj ⊢
          tauto
      · refine h.plan hops hrun (fun j hj => hl.2 j hj)
          (failSlot_endsOnly _ _ _) fun j hj => ?_
        rw [hp, due] at hj
        rcases mem_cons.mp hj with rfl | hj
        · exact .inl ⟨.error, mem_endSlot.mpr (.inr rfl)⟩
        · exact .inr hj
  | searches todo writes all =>
    cases todo with
    | nil => exact h.goTo hops hrun trivial (by simp [hp, due])
    | cons i rest =>
      dsimp only
      rcases runBatch_ends k s.slots (s.slots i).indexRelid (s.batchOf i rest) with
        ⟨-, hr⟩ | ⟨-, hk, hen⟩
      · rw [hr]
        exact ⟨by simp [EndsOnly, System.plan], trivial, fun hne => absurd rfl hne⟩
      · rw [hk]
        refine h.plan hops hrun trivial hen.only fun j hj => ?_
        rw [hp, due, mem_append] at hj
        rcases hj with hj | hj
        · rcases mem_batches s i rest hj with hb | ho
          · exact .inl (hen.each j hb)
          · exact .inr (mem_append_left _ ho)
        · exact .inr (mem_append_right _ hj)
  | writes todo all =>
    cases todo with
    | nil => exact h.goTo hops hrun trivial (by simp [hp, due])
    | cons i rest =>
      have hen := writeSlot_ends w (s.slots i).slotKind i
      refine h.plan hops hrun trivial hen.only fun j hj => ?_
      rw [hp, due] at hj
      rcases mem_cons.mp hj with rfl | hj
      · exact .inl (hen.each _ mem_cons_self)
      · exact .inr hj
  | waking todo =>
    cases todo with
    | nil => exact h.goTo hops hrun trivial (by simp [hp, due])
    | cons i rest =>
      have hs : Attended (s.setCell i (s.cells i).setLatch) := by
        refine h.keep rfl fun j hj => ?_
        rw [slots_setCell] at hj
        split at hj
        · rename_i hji
          exact hji ▸ hj
        · exact hj
      exact hs.goTo hops hrun trivial (by simp [System.setCell, hp, due])

theorem workerOp_status (c : Cell) (op : SlotOp) :
    (c.workerOp op).slot.status = c.slot.status ∨
      ∃ i st, op = .write i (.status st) ∧ (c.workerOp op).slot.status = st := by
  cases op with
  | execute i => exact .inl rfl
  | write i w =>
    cases w with
    | status st => exact .inr ⟨i, st, rfl, rfl⟩
    | _ => exact .inl rfl

theorem workerOp_keeps (c : Cell) (op : SlotOp) :
    (c.workerOp op).backend = c.backend ∧ (c.workerOp op).published = c.published := by
  cases op with
  | execute i => exact ⟨rfl, rfl⟩
  | write i w => cases w <;> exact ⟨rfl, rfl⟩

variable {rest : List SlotOp}

theorem Attended.op (h : Attended s) {op : SlotOp} (hops : s.worker.ops = op :: rest) :
    Attended { s.setCell (slotOf op) ((s.cells (slotOf op)).workerOp op) with
      worker := { s.worker with ops := rest } } := by
  have ho : ∀ i st, SlotOp.write i (.status st) ∈ op :: rest → st = .done ∨ st = .error :=
    hops ▸ h.only
  refine ⟨fun i st hmem => ho i st (mem_cons_of_mem _ hmem), h.listed, ?_⟩
  intro hrun j hj
  have hs : (if j = slotOf op then ((s.cells (slotOf op)).workerOp op).slot
      else s.slots j).status = .processing := by
    rw [← slots_setCell]
    exact hj
  -- the slot was PROCESSING before, and this access is not the one that answers it
  have hbe : (s.slots j).status = .processing ∧ ∀ st, op ≠ .write j (.status st) := by
    by_cases hji : j = slotOf op
    · rw [if_pos hji] at hs
      rcases workerOp_status (s.cells (slotOf op)) op with hsa | ⟨i, st, rfl, hst⟩
      · refine ⟨by rw [hji]; exact hsa ▸ hs, ?_⟩
        rintro st rfl
        have hend := ho j st mem_cons_self
        have hst : st = SlotStatus.processing := hs
        rw [hst] at hend
        simp at hend
      · have hend := ho i st mem_cons_self
        rw [hst] at hs
        rw [hs] at hend
        simp at hend
    · rw [if_neg hji] at hs
      exact ⟨hs, fun st heq => hji (by rw [heq]; rfl)⟩
  rcases h.each hrun j hbe.1 with ⟨st, hend⟩ | hmem
  · rw [hops] at hend
    rcases mem_cons.mp hend with heq | hr
    · exact absurd heq.symm (hbe.2 st)
    · exact .inl ⟨st, hr⟩
  · exact .inr hmem

/-! ## Every state -/

structure Sound (w : World) : Prop where
  cells : ∀ i, Settled (w.sys.cells i) (w.answered i)
  worker : Attended w.sys

theorem sound_init (maxSlots : Nat) : Sound (init maxSlots) where
  cells _ := settled_init
  worker := attended_init maxSlots

variable {answered : Nat → List Nat} {i : Nat}

theorem settled_setCell (h : ∀ i, Settled (s.cells i) (answered i)) (hc : Settled c (answered i))
    (j : Nat) : Settled ((s.setCell i c).cells j) (answered j) :=
  (forall_update_iff s.cells fun j (c : Cell) => Settled c (answered j)).mpr
    ⟨hc, fun j _ => h j⟩ j

variable {w : World}

theorem Sound.backend (h : Sound w) (i : Nat) (e : BackendEvent) :
    Sound { w with sys := w.sys.step (.backend i e) } where
  cells := settled_setCell h.cells ((h.cells i).backendStep e)
  worker := by
    refine h.worker.keep rfl fun j hj => ?_
    simp only [System.step] at hj
    rw [slots_setCell] at hj
    split at hj
    · rename_i hji
      exact hji ▸ processing_of_backendStep hj
    · exact hj

theorem Sound.start (h : Sound w) (acceptsWrites : Bool) (maxBatch : Nat) :
    Sound { w with sys := w.sys.step (.start acceptsWrites maxBatch) } := by
  simp only [System.step]
  split
  · rename_i hid
    refine ⟨h.cells, h.worker.only, by simp [Listed], fun _ i hi => ?_⟩
    have hrun : w.sys.worker.phase ≠ .stopped := by simp [hid]
    rcases h.worker.each hrun i hi with hend | hmem
    · exact .inl hend
    · rw [hid] at hmem
      cases hmem
  · exact h

theorem settled_nextPhase (h : ∀ i, Settled (s.cells i) (answered i)) (k : BatchCalls)
    (w : WriteSlotCalls) (j : Nat) : Settled ((s.nextPhase k w).cells j) (answered j) := by
  rcases (s.nextPhase_does k w).2 j with heq | ⟨hst, heq⟩ | heq
  · rw [heq]
    exact h j
  · rw [heq]
    exact (h j).promote hst
  · rw [heq]
    exact (h j).setLatch

theorem settled_op (h : ∀ i, Settled (s.cells i) (answered i)) (hend : EndsOnly s.worker.ops)
    {op : SlotOp} (hops : s.worker.ops = op :: rest) (j : Nat) :
    Settled ((s.setCell (slotOf op) ((s.cells (slotOf op)).workerOp op)).cells j)
      (record s answered j) := by
  have hk : ∀ c : Cell, c.slot.status = (s.cells (slotOf op)).slot.status →
      c.published = (s.cells (slotOf op)).published →
      c.abandoned = (s.cells (slotOf op)).abandoned →
      c.backend = (s.cells (slotOf op)).backend →
      Settled ((s.setCell (slotOf op) c).cells j) (answered j) := by
    intro c hst hp ha hb
    refine settled_setCell h ((h _).goOn hst hp ha ?_) j
    exact (h _).backend.kept hb hp fun ho => by rwa [Open, ← hst]
  unfold record
  rw [hops]
  cases op with
  | execute i => exact hk _ rfl rfl rfl rfl
  | write i w =>
    cases w with
    | status st =>
      have hst : st = .done ∨ st = .error := hend i st (by rw [hops]; exact mem_cons_self)
      have hc : ¬ Open ((s.cells i).workerOp (.write i (.status st))) := by
        rcases hst with rfl | rfl <;> simp [Open, Cell.workerOp, SlotWrite.apply]
      by_cases hji : j = i
      · subst hji
        simpa [System.setCell, slotOf] using (h j).finish hc rfl rfl rfl
      · simpa [System.setCell, slotOf, hji] using h j
    | _ => exact hk _ rfl rfl rfl rfl

theorem Sound.work (h : Sound w) (k : BatchCalls) (c : WriteSlotCalls) :
    Sound { w with sys := w.sys.step (.work k c), answered := record w.sys w.answered } := by
  simp only [System.step]
  cases hops : w.sys.worker.ops with
  | nil =>
    have hs : record w.sys w.answered = w.answered := by simp [record, hops]
    exact ⟨by rw [hs]; exact settled_nextPhase h.cells k c, h.worker.nextPhase hops k c⟩
  | cons op rest => exact ⟨settled_op h.cells h.worker.only hops, h.worker.op hops⟩

/-! ## The sweep -/

/-- The slot has a request, or its backend has found the intake open and is about to publish. -/
def inLine (c : Cell) : Bool :=
  match c.backend with
  | .publishing _ => true
  | _ => decide (c.slot.status = .pending)

/-- The slots from number `i` on that may come to be promoted. -/
def backlogFrom (s : System) (i : Nat) : Nat :=
  (range' i (s.maxSlots - i)).countP fun j => inLine (s.cells j)

/-- What is in line for one pass. -/
def backlog (s : System) : Nat := backlogFrom s 0

theorem inLine_iff (c : Cell) :
    inLine c = true ↔ (∃ r, c.backend = .publishing r) ∨ c.slot.status = .pending := by
  unfold inLine
  split
  · rename_i r hp
    simp [hp]
  rename_i hp
  rw [decide_eq_true_eq]
  refine ⟨.inr, ?_⟩
  rintro (⟨r, hr⟩ | hst)
  · exact absurd hr (hp r)
  · exact hst

theorem backlogFrom_succ (h : i < s.maxSlots) :
    backlogFrom s i = (if inLine (s.cells i) then 1 else 0) + backlogFrom s (i + 1) := by
  have hs : s.maxSlots - i = (s.maxSlots - (i + 1)) + 1 := by omega
  rw [backlogFrom, hs, range'_succ, countP_cons, Nat.add_comm, backlogFrom]

theorem backlogFrom_mono {s' : System} (hn : s'.maxSlots = s.maxSlots)
    (h : ∀ j, inLine (s'.cells j) = true → inLine (s.cells j) = true) (i : Nat) :
    backlogFrom s' i ≤ backlogFrom s i := by
  unfold backlogFrom
  rw [hn]
  exact countP_mono_left fun j _ => h j

theorem backlogFrom_succ_le (i : Nat) : backlogFrom s (i + 1) ≤ backlogFrom s i := by
  by_cases h : i < s.maxSlots
  · rw [backlogFrom_succ h]
    omega
  · have hn : s.maxSlots - (i + 1) = 0 := by omega
    simp [backlogFrom, hn]

theorem not_inLine_of_backlogFrom {j : Nat} (h : backlogFrom s i = 0) (hij : i ≤ j)
    (hj : j < s.maxSlots) : ¬ inLine (s.cells j) = true := by
  have hmem : j ∈ range' i (s.maxSlots - i) := by
    simp only [mem_range'_1]
    omega
  exact countP_eq_zero.mp h j hmem

/-- The slot's last request was published before the intake closed, and is still PENDING. -/
def Old (w : World) (j : Nat) : Prop :=
  (w.sys.slots j).status = .pending ∧ (w.sys.cells j).published.length ≤ w.closedAt j

/-- The sweep leaves no such request behind, as what it has taken and what is in line still fit
into its batch. -/
def ScanOk (w : World) : Prop :=
  match w.sys.worker.phase with
  | .scanning i t =>
    (∀ j < i, ¬ Old w j) ∧ t.all.length + backlogFrom w.sys i ≤ w.sys.worker.maxBatch
  | .promoting i t =>
    i < w.sys.maxSlots ∧ (∀ j < i, ¬ Old w j) ∧
      t.all.length + backlogFrom w.sys i ≤ w.sys.worker.maxBatch
  | .sorting i t =>
    (∀ j < i + 1, ¬ Old w j) ∧ t.all.length + backlogFrom w.sys (i + 1) ≤ w.sys.worker.maxBatch
  | .stopped => True
  | _ => ∀ j < w.sys.maxSlots, ¬ Old w j

theorem ScanOk.keep {w' : World} (h : ScanOk w) (hn : w'.sys.maxSlots = w.sys.maxSlots)
    (hph : w'.sys.worker.phase = w.sys.worker.phase)
    (hba : w'.sys.worker.maxBatch = w.sys.worker.maxBatch) (hold : ∀ j, Old w' j → Old w j)
    (hli : ∀ j, inLine (w'.sys.cells j) = true → inLine (w.sys.cells j) = true) : ScanOk w' := by
  unfold ScanOk at h ⊢
  rw [hph, hn, hba]
  have hl := backlogFrom_mono hn hli
  generalize w.sys.worker.phase = phase at h
  cases phase with
  | scanning i t =>
    exact ⟨fun j hj ho => h.1 j hj (hold j ho),
      Nat.le_trans (Nat.add_le_add_left (hl i) _) h.2⟩
  | promoting i t =>
    exact ⟨h.1, fun j hj ho => h.2.1 j hj (hold j ho),
      Nat.le_trans (Nat.add_le_add_left (hl i) _) h.2.2⟩
  | sorting i t =>
    exact ⟨fun j hj ho => h.1 j hj (hold j ho),
      Nat.le_trans (Nat.add_le_add_left (hl (i + 1)) _) h.2⟩
  | stopped => trivial
  | _ =>
    exact fun j hj ho => h j hj (hold j ho)

/-- A scan that stops has left nothing behind: it has seen all slots, or its batch is full, and
then nothing is in line any more. -/
theorem nothing_old {taken : Nat} (hs : ∀ j < i, ¬ Old w j)
    (hf : taken + backlogFrom w.sys i ≤ w.sys.worker.maxBatch)
    (hst : ¬ (i < w.sys.maxSlots ∧ taken < w.sys.worker.maxBatch)) :
    ∀ j < w.sys.maxSlots, ¬ Old w j := by
  intro j hj ho
  by_cases hji : j < i
  · exact hs j hji ho
  · have hn : backlogFrom w.sys i = 0 := by omega
    exact not_inLine_of_backlogFrom hn (by omega) hj ((inLine_iff _).mpr (.inr ho.1))

theorem scanned_on {taken : Nat} (hs : ∀ j < i, ¬ Old w j)
    (hf : taken + backlogFrom w.sys i ≤ w.sys.worker.maxBatch)
    (hst : (w.sys.slots i).status ≠ .pending) : (∀ j < i + 1, ¬ Old w j) ∧
      taken + backlogFrom w.sys (i + 1) ≤ w.sys.worker.maxBatch := by
  refine ⟨fun j hj ho => ?_, Nat.le_trans (Nat.add_le_add_left (backlogFrom_succ_le i) _) hf⟩
  rcases Nat.lt_succ_iff_lt_or_eq.mp hj with hlt | rfl
  · exact hs j hlt ho
  · exact hst ho.1

theorem ScanOk.nextPhase (h : ScanOk w) (k : BatchCalls) (c : WriteSlotCalls) :
    ScanOk { w with sys := w.sys.nextPhase k c } := by
  have hok := h
  unfold ScanOk at h
  unfold System.nextPhase
  generalize w.sys.worker.phase = phase at h
  cases phase with
  | idle | stopped => exact hok
  | scanning i t =>
    obtain ⟨hs, hf⟩ := h
    dsimp only
    split
    · rename_i hr
      split
      · exact ⟨hr.1, hs, hf⟩
      · rename_i hst
        exact scanned_on hs hf hst
    · rename_i hstop
      split <;> exact nothing_old hs hf hstop
  | promoting i t =>
    obtain ⟨hi, hs, hf⟩ := h
    dsimp only
    split
    · rename_i hst
      have hl : inLine (w.sys.cells i) = true := (inLine_iff _).mpr (.inr hst)
      rw [backlogFrom_succ hi, if_pos hl] at hf
      have hle : backlogFrom (w.sys.setCell i (w.sys.cells i).promote) (i + 1) ≤
          backlogFrom w.sys (i + 1) := by
        have hsl : (w.sys.setCell i (w.sys.cells i).promote).maxSlots = w.sys.maxSlots := rfl
        refine backlogFrom_mono hsl (fun j hj => ?_) (i + 1)
        by_cases hji : j = i
        · exact hji ▸ hl
        · simpa [System.setCell, hji] using hj
      constructor
      · intro j hj ho
        by_cases hji : j = i
        · subst hji
          simp [Old, System.slots, System.goTo, System.setCell, Cell.promote, Cell.setStatus] at ho
        · refine hs j (by omega) ?_
          simpa [Old, System.slots, System.goTo, System.setCell, hji] using ho
      · have hf' : t.all.length + 1 + backlogFrom w.sys (i + 1) ≤ w.sys.worker.maxBatch := by
          omega
        simp only [length_append, length_singleton]
        exact Nat.le_trans (Nat.add_le_add_left hle _) hf'
    · rename_i hst
      exact scanned_on hs hf hst
  | sorting i t =>
    dsimp only
    split
    · exact h
    · split <;> exact h
  | searches todo writes all =>
    cases todo with
    | nil => exact h
    | cons i rest =>
      dsimp only
      split
      · trivial
      · exact h
  | writes todo all =>
    cases todo <;> exact h
  | waking todo =>
    cases todo with
    | nil => exact h
    | cons i rest =>
      intro j hj ho
      apply h j hj
      by_cases hji : j = i
      · subst hji
        simpa [Old, System.slots, System.goTo, System.setCell, Cell.setLatch] using ho
      · simpa [Old, System.slots, System.goTo, System.setCell, hji] using ho

theorem ScanOk.op (h : ScanOk w) (hend : EndsOnly w.sys.worker.ops) {op : SlotOp}
    (hops : w.sys.worker.ops = op :: rest) :
    ScanOk { w with sys := { w.sys.setCell (slotOf op) ((w.sys.cells (slotOf op)).workerOp op) with
      worker := { w.sys.worker with ops := rest } } } := by
  -- no access makes a slot PENDING or publishes
  have hk : ∀ j, ((((w.sys.setCell (slotOf op) ((w.sys.cells (slotOf op)).workerOp op)).cells
      j).slot.status = .pending → (w.sys.cells j).slot.status = .pending) ∧
      ((w.sys.setCell (slotOf op) ((w.sys.cells (slotOf op)).workerOp op)).cells j).backend =
        (w.sys.cells j).backend ∧
      ((w.sys.setCell (slotOf op) ((w.sys.cells (slotOf op)).workerOp op)).cells j).published =
        (w.sys.cells j).published) := by
    refine (forall_update_iff w.sys.cells fun j (c : Cell) =>
      (c.slot.status = .pending → (w.sys.cells j).slot.status = .pending) ∧
        c.backend = (w.sys.cells j).backend ∧ c.published = (w.sys.cells j).published).mpr
      ⟨⟨fun hj => ?_, workerOp_keeps _ op⟩, fun j _ => ⟨id, rfl, rfl⟩⟩
    rcases workerOp_status (w.sys.cells (slotOf op)) op with hs | ⟨i, st, rfl, hst⟩
    · exact hs ▸ hj
    · have hd := hend i st (by rw [hops]; exact mem_cons_self)
      rw [hst] at hj
      rw [hj] at hd
      simp at hd
  refine h.keep rfl rfl rfl (fun j ho => ?_) fun j hj => ?_
  · refine ⟨(hk j).1 ho.1, ?_⟩
    rw [← (hk j).2.2]
    exact ho.2
  · rw [inLine_iff] at hj ⊢
    rcases hj with ⟨r, hr⟩ | hst
    · exact .inl ⟨r, by rw [← (hk j).2.1]; exact hr⟩
    · exact .inr ((hk j).1 hst)

/-! ## The drain as a whole -/

/-- The intake is closed, and the requests of that moment are counted. -/
structure Shut (w : World) : Prop where
  accepting : w.accepting = false
  counted : ∀ j, w.closedAt j ≤ (w.sys.cells j).published.length

theorem Shut.backend (h : Shut w) (i : Nat) (e : BackendEvent) :
    Shut (w.step (.backend i e)) ∧ (∀ j, Old (w.step (.backend i e)) j → Old w j) ∧
      ∀ j, inLine ((w.step (.backend i e)).sys.cells j) = true →
        inLine (w.sys.cells j) = true := by
  have hc := backendStep_cases (w.sys.cells i) (observe false e)
  have hj : ∀ j, w.closedAt j ≤ ((w.step (.backend i e)).sys.cells j).published.length ∧
      (Old (w.step (.backend i e)) j → Old w j) ∧
      (inLine ((w.step (.backend i e)).sys.cells j) = true →
        inLine (w.sys.cells j) = true) := by
    simp only [step, System.step, h.accepting]
    refine (forall_update_iff w.sys.cells fun j (c : Cell) =>
      w.closedAt j ≤ c.published.length ∧
        (c.slot.status = .pending ∧ c.published.length ≤ w.closedAt j → Old w j) ∧
        (inLine c = true → inLine (w.sys.cells j) = true)).mpr
      ⟨⟨?_, ?_, fun hj => ?_⟩, fun j _ => ⟨h.counted j, id, id⟩⟩
    · refine Nat.le_trans (h.counted i) ?_
      rcases hc with ⟨hp, -⟩ | ⟨r, -, -, hp⟩
      · exact Nat.le_of_eq (congrArg length hp.symm)
      · simp [hp]
    · rintro ⟨hst, hlen⟩
      rcases hc with ⟨hp, hs | hem⟩ | ⟨r, -, -, hp⟩
      · exact ⟨hs ▸ hst, hp ▸ hlen⟩
      · rw [hem] at hst
        cases hst
      · rw [hp, length_append, length_singleton] at hlen
        have hco := h.counted i
        omega
    · rw [inLine_iff] at hj ⊢
      rcases hj with ⟨r, hr⟩ | hst
      · exact .inl ⟨r, publishing_of_backendStep hr⟩
      · rcases hc with ⟨-, hs | hem⟩ | ⟨r, hph, -⟩
        · exact .inr (hs ▸ hst)
        · rw [hem] at hst
          cases hst
        · exact .inl ⟨r, hph⟩
  exact ⟨⟨h.accepting, fun j => (hj j).1⟩, fun j => (hj j).2.1, fun j => (hj j).2.2⟩

/-- What each phase of the shutdown has reached. -/
structure Inv (w : World) : Prop where
  sound : Sound w
  shut : w.phase ≠ .serving → Shut w
  closed : w.phase = .closed → Rests w.sys
  sweeping : w.phase = .sweeping → ScanOk w
  finished : w.phase = .finished → Rests w.sys ∧ ∀ j < w.sys.maxSlots, ¬ Old w j

theorem inv_init (maxSlots : Nat) : Inv (init maxSlots) where
  sound := sound_init maxSlots
  shut := fun h => absurd rfl h
  closed := by simp [init]
  sweeping := by simp [init]
  finished := by simp [init]

/-- The backlog fits into one batch when the sweep begins. -/
def BacklogFits (w : World) : Event → Prop
  | .sweep _ maxBatch => backlog w.sys ≤ maxBatch
  | _ => True

instance (w : World) : (e : Event) → Decidable (BacklogFits w e)
  | .sweep _ maxBatch => inferInstanceAs (Decidable (backlog w.sys ≤ maxBatch))
  | .backend _ _ | .start _ _ | .stopAccepting | .work _ _ | .finish => isTrue trivial

theorem work_rests (h : Rests w.sys) (k : BatchCalls) (c : WriteSlotCalls) :
    w.step (.work k c) = w := by
  simp [step, System.step, System.nextPhase, record, h.1, h.2]

theorem Inv.backend (h : Inv w) (i : Nat) (e : BackendEvent) :
    Inv (w.step (.backend i e)) where
  sound := h.sound.backend i _
  shut hp := ((h.shut hp).backend i e).1
  closed hp := h.closed hp
  sweeping hp := by
    have hph : w.phase = .sweeping := hp
    obtain ⟨-, hold, hl⟩ := (h.shut (by simp [hph])).backend i e
    exact (h.sweeping hph).keep rfl rfl rfl hold hl
  finished hp := by
    have hph : w.phase = .finished := hp
    obtain ⟨-, hold, -⟩ := (h.shut (by simp [hph])).backend i e
    obtain ⟨hr, hn⟩ := h.finished hph
    exact ⟨hr, fun j hj ho => hn j hj (hold j ho)⟩

theorem work_published (s : System) (k : BatchCalls) (c : WriteSlotCalls) (j : Nat) :
    ((s.step (.work k c)).cells j).published = (s.cells j).published := by
  simp only [System.step]
  cases hops : s.worker.ops with
  | nil =>
    rcases (s.nextPhase_does k c).2 j with heq | ⟨-, heq⟩ | heq <;> simp only [heq] <;> rfl
  | cons op rest =>
    rw [cells_setCell]
    split
    · rename_i hji
      exact hji ▸ (workerOp_keeps _ op).2
    · rfl

theorem ScanOk.work (h : ScanOk w) (hend : EndsOnly w.sys.worker.ops) (k : BatchCalls)
    (c : WriteSlotCalls) : ScanOk (w.step (.work k c)) := by
  simp only [step, System.step]
  cases hops : w.sys.worker.ops with
  | nil => exact h.nextPhase k c
  | cons op rest => exact h.op hend hops

theorem Inv.work (h : Inv w) (k : BatchCalls) (c : WriteSlotCalls) : Inv (w.step (.work k c)) := by
  have hs := h.sound.work k c
  cases hph : w.phase with
  | serving =>
    refine ⟨hs, fun hp => absurd hph hp, fun hp => ?_, fun hp => ?_, fun hp => ?_⟩
    all_goals
      simp only [step, hph] at hp
      cases hp
  | closed =>
    rw [work_rests (h.closed hph)]
    exact h
  | finished =>
    rw [work_rests (h.finished hph).1]
    exact h
  | sweeping =>
    have hsh := h.shut (by simp [hph])
    refine ⟨hs, fun _ => ⟨hsh.accepting, fun j => ?_⟩, fun hp => ?_,
      fun _ => (h.sweeping hph).work h.sound.worker.only k c, fun hp => ?_⟩
    · simp only [step]
      rw [work_published]
      exact hsh.counted j
    all_goals
      simp only [step, hph] at hp
      cases hp

theorem Inv.step (h : Inv w) {e : Event} (hok : BacklogFits w e) : Inv (w.step e) := by
  cases e with
  | backend i e => exact h.backend i e
  | work k c => exact h.work k c
  | start acceptsWrites maxBatch =>
    simp only [World.step]
    split
    · rename_i hph
      refine ⟨h.sound.start acceptsWrites maxBatch, fun hp => absurd hph hp, fun hp => ?_,
        fun hp => ?_, fun hp => ?_⟩
      all_goals
        simp only [hph] at hp
        cases hp
    · exact h
  | stopAccepting =>
    simp only [World.step]
    split
    · rename_i hnow
      exact ⟨⟨h.sound.cells, h.sound.worker⟩, fun _ => ⟨rfl, fun _ => Nat.le_refl _⟩,
        fun _ => hnow.2, by simp, by simp⟩
    · exact h
  | sweep acceptsWrites maxBatch =>
    simp only [World.step]
    split
    · rename_i hph
      have hs := h.shut (by simp [hph])
      have hi := (h.closed hph).1
      have hst : w.sys.step (.start acceptsWrites maxBatch) = { w.sys with
          worker := ⟨w.sys.worker.ops, .scanning 0 ⟨[], [], []⟩, acceptsWrites, maxBatch⟩ } := by
        simp [System.step, hi]
      have hso := h.sound.start acceptsWrites maxBatch
      rw [hst] at hso ⊢
      refine ⟨⟨hso.cells, hso.worker⟩, fun _ => ⟨hs.accepting, hs.counted⟩, by simp,
        fun _ => ⟨by simp, ?_⟩, by simp⟩
      simpa [BacklogFits, backlog, backlogFrom] using hok
    · exact h
  | finish =>
    simp only [World.step]
    split
    · rename_i hnow
      obtain ⟨hph, hr⟩ := hnow
      have hs := h.shut (by simp [hph])
      refine ⟨⟨h.sound.cells, h.sound.worker⟩, fun _ => ⟨hs.accepting, hs.counted⟩, by simp,
        by simp, fun _ => ⟨hr, ?_⟩⟩
      have hsc := h.sweeping hph
      unfold ScanOk at hsc
      rw [hr.1] at hsc
      exact hsc
    · exact h

theorem Inv.swept (h : Inv w) : Swept w := by
  intro hph i hi n hn
  obtain ⟨⟨hid, hops⟩, hno⟩ := h.finished hph
  have hs := h.shut (by simp [hph])
  rcases (h.sound.cells i).each n (Nat.lt_of_lt_of_le hn (hs.counted i)) with
    ha | ha | ⟨hl, hpe | hp⟩
  · exact .inl ha
  · exact .inr ha
  · exact absurd ⟨hpe, by omega⟩ (hno i hi)
  · -- a worker that rests has answered everything it has promoted
    rcases h.sound.worker.each (by simp [hid]) i hp with ⟨st, hend⟩ | hmem
    · rw [hops] at hend
      cases hend
    · rw [hid] at hmem
      cases hmem

/-- When the sweep begins with no more slots in line than its batch takes, every request published
before the intake closed is answered or taken back. -/
theorem a_drain_serves_what_was_published (maxSlots : Nat) {es : List Event}
    (h : EachStep step BacklogFits (init maxSlots) es) : EachState step Swept (init maxSlots) es :=
  eachState_invariant Inv (fun _ _ hw hok => hw.step hok) (fun _ hw => hw.swept)
    (inv_init maxSlots) h

/-! ## Runs -/

def publishes (i : Nat) : List Event :=
  .backend i (.submit (.warmup 7)) :: replicate 6 (.backend i (.advance true true))

/-- Two backends publish, the intake closes, and the sweep runs with a batch of `maxBatch`. -/
def shutdown (maxBatch : Nat) : List Event :=
  publishes 0 ++ publishes 1 ++ [.stopAccepting, .sweep true maxBatch] ++
    replicate 20 (.work quietBatch quietWriteSlot) ++ [.finish]

theorem two_requests_are_served :
    EachStep step BacklogFits (init 2) (shutdown 2) ∧
      (run step (init 2) (shutdown 2)).phase = .finished ∧
      (run step (init 2) (shutdown 2)).closedAt 1 = 1 ∧
      EachState step Swept (init 2) (shutdown 2) := by
  have hf : EachStep step BacklogFits (init 2) (shutdown 2) := by decide +kernel
  exact ⟨hf, by decide +kernel, by decide +kernel, a_drain_serves_what_was_published 2 hf⟩

/-- With a batch of one the sweep answers the first and leaves the second PENDING. -/
theorem a_small_batch_leaves_a_request :
    (run step (init 2) (shutdown 1)).phase = .finished ∧
      (run step (init 2) (shutdown 1)).closedAt 1 = 1 ∧
      ¬ Over (run step (init 2) (shutdown 1)) 1 0 ∧
      ((run step (init 2) (shutdown 1)).sys.slots 1).status = .pending ∧
      ¬ Swept (run step (init 2) (shutdown 1)) := by
  have hp : (run step (init 2) (shutdown 1)).phase = .finished := by
    decide +kernel
  have hc : (run step (init 2) (shutdown 1)).closedAt 1 = 1 := by decide +kernel
  have ho : ¬ Over (run step (init 2) (shutdown 1)) 1 0 := by
    rw [Over, not_or]
    decide +kernel
  refine ⟨hp, hc, ho, by decide +kernel, fun hs => ho ?_⟩
  exact hs hp 1 (by decide +kernel) 0 (by rw [hc]; exact Nat.one_pos)

end svs_vamana.final_sweep
