-- The law of the slot latch: a backend owns it from its claim to the end of its wait. A process
-- that is terminated in its wait leaves it owned.
import SvsVamana.SlotCustody

namespace svs_vamana.slot_latch

open index_cache request_slot request_pass slot_protocol slot_custody transition_runs
open System Cell List

/-! ## Who owns the latch -/

/-- The backend is between its `OwnLatch` and its `DisownLatch`. -/
def owns : Backend → Bool
  | .filling _ _ => true
  | .publishing _ => true
  | .waiting _ => true
  | .leaving _ _ => true
  | .cancelling _ => true
  | .cancelled _ => true
  | _ => false

/-- The latch is owned while its backend is there to give it back. -/
def LatchOk (c : Cell) : Prop := c.slot.latch.owned = owns c.backend

theorem abandon_latch (c : Cell) (n : Nat) : (c.abandon n).slot.latch = c.slot.latch := by
  unfold abandon
  split <;> rfl

theorem fieldWrite_latch (s : Slot) (w : FieldWrite) : (w.apply s).latch = s.latch := by
  cases w <;> rfl

variable {c : Cell}

theorem latchOk_advance (h : LatchOk c) (workerFound accepting : Bool) :
    LatchOk (c.advance workerFound accepting) := by
  unfold LatchOk at h ⊢
  unfold advance
  cases hp : c.backend with
  | claiming r =>
    rw [hp] at h
    dsimp only
    split
    · exact h
    · split <;> exact h
  | owning r =>
    dsimp only
    split <;> rfl
  | filling r todo =>
    rw [hp] at h
    cases todo with
    | nil =>
      dsimp only
      split
      · exact h
      · rfl
    | cons w rest =>
      dsimp only
      rw [fieldWrite_latch]
      exact h
  | checking n waitedMs =>
    rw [hp] at h
    dsimp only
    split <;> exact h
  | cancelling n | expiring n waitedMs =>
    rw [hp] at h
    dsimp only
    rw [abandon_latch]
    exact h
  | leaving n waitedMs => rfl
  | cancelled n => rfl
  | _ =>
    rw [hp] at h
    simpa [owns, setStatus, hp] using h

/-- A backend keeps it so, unless its process is terminated in its wait. -/
theorem latchOk_backendStep (h : LatchOk c) {e : BackendEvent}
    (hex : e = .exit → ∀ n, c.backend ≠ .waiting n) : LatchOk (c.backendStep e) := by
  cases e with
  | submit r =>
    simp only [backendStep]
    split
    · rename_i hi
      rw [LatchOk, hi.1] at h
      exact h
    · exact h
  | advance workerFound accepting => exact latchOk_advance h workerFound accepting
  | leave waitedMs | cancel =>
    simp only [backendStep]
    split
    · rename_i n hp
      rw [LatchOk, hp] at h
      exact h
    · exact h
  | exit =>
    simp only [backendStep]
    split
    · rename_i n hp
      exact absurd hp (hex rfl n)
    · exact h

theorem latchOk_workerOp (h : LatchOk c) (op : SlotOp) : LatchOk (c.workerOp op) := by
  cases op with
  | execute i => exact h
  | write i w => cases w <;> exact h

theorem latchOk_setCell {s : System} {i : Nat} (h : ∀ j, LatchOk (s.cells j))
    (hc : LatchOk c) (j : Nat) : LatchOk ((s.setCell i c).cells j) := by
  by_cases hj : j = i
  · subst hj
    simpa [setCell] using hc
  · simpa [setCell, Function.update_of_ne hj] using h j

theorem latchOk_nextPhase {s : System} (h : ∀ j, LatchOk (s.cells j)) (k : BatchCalls)
    (w : WriteSlotCalls) (j : Nat) : LatchOk ((s.nextPhase k w).cells j) := by
  rcases (s.nextPhase_does k w).2 j with heq | ⟨-, heq⟩ | heq
  · rw [heq]
    exact h j
  · rw [heq]
    exact h j
  · rw [heq]
    exact h j

/-! ## The law -/

/-- No process is terminated while it waits for its slot. -/
def NoExitInWait (s : System) : Event → Prop
  | .backend i .exit => ∀ n, (s.cells i).backend ≠ .waiting n
  | _ => True

/-- A backend that is about to call `OwnLatch` finds the latch without an owner. -/
def OwnsFree (s : System) : Prop :=
  ∀ i r, (s.cells i).backend = .owning r → (s.cells i).slot.latch.owned = false

theorem latchOk_step (s : System) (e : Event) (h : ∀ j, LatchOk (s.cells j))
    (hok : NoExitInWait s e) : ∀ j, LatchOk ((s.step e).cells j) := by
  cases e with
  | backend i e =>
    apply latchOk_setCell h
    apply latchOk_backendStep (h i)
    rintro rfl
    exact hok
  | start acceptsWrites maxBatch =>
    simp only [step]
    split <;> exact h
  | work k w =>
    simp only [step]
    split
    · exact latchOk_nextPhase h k w
    · exact latchOk_setCell h (latchOk_workerOp (h _) _)

/-- As long as no process is terminated in its wait, whatever else ends the submits of the
processes that use a slot, its latch is free whenever one of them comes to own it. -/
theorem own_latch_finds_it_free (maxSlots : Nat) {es : List Event}
    (h : EachStep step NoExitInWait (init maxSlots) es) :
    EachState step OwnsFree (init maxSlots) es := by
  have hinit : ∀ j, LatchOk ((init maxSlots).cells j) := fun _ => rfl
  apply eachState_invariant (fun s => ∀ j, LatchOk (s.cells j)) latchOk_step _ hinit h
  intro s hs i r hp
  have hi := hs i
  rw [LatchOk, hp] at hi
  exact hi

/-- A search that times out, and the next submit up to its `OwnLatch`. -/
def submitAgain : List Event :=
  submitSearch 0 1 ++ [.backend 0 (.leave 1000)] ++
    replicate 4 (.backend 0 (.advance true true)) ++
    [.backend 0 (.submit (.warmup 7))] ++ replicate 2 (.backend 0 (.advance true true))

theorem a_timed_out_submit_leaves_the_latch_free :
    ((run step (init 1) submitAgain).cells 0).backend = .owning (.warmup 7) ∧
      EachState step OwnsFree (init 1) submitAgain := by
  refine ⟨by decide, own_latch_finds_it_free 1 (eachStep_of_forall ?_ _)⟩
  intro e he s
  simp only [submitAgain, submitSearch, mem_append, mem_cons, mem_replicate,
    not_mem_nil, or_false] at he
  rcases he with ((((rfl | ⟨_, rfl⟩) | rfl) | ⟨_, rfl⟩) | rfl) | ⟨_, rfl⟩ <;> trivial

/-- A process is terminated while it waits. The worker ends its search, and the next process with
its proc number submits a request. -/
def terminatedInWait : List Event :=
  submitSearch 0 1 ++ [.backend 0 .exit, .start true 100] ++
    replicate 9 (.work quietBatch quietWriteSlot) ++
    [.backend 0 (.submit (.warmup 7))] ++ replicate 3 (.backend 0 (.advance true true))

/-- It is about to own a latch that the process before it has never disowned. -/
theorem a_terminated_wait_leaves_the_latch_owned :
    ¬ OwnsFree (run step (init 1) terminatedInWait) ∧
    ((run step (init 1) terminatedInWait).cells 0).backend = .owning (.warmup 7) ∧
    ((run step (init 1) terminatedInWait).cells 0).slot.latch.owned = true := by
  have hp : ((run step (init 1) terminatedInWait).cells 0).backend =
      .owning (.warmup 7) := by decide
  have ho : ((run step (init 1) terminatedInWait).cells 0).slot.latch.owned = true := by decide
  refine ⟨fun h => ?_, hp, ho⟩
  rw [h 0 _ hp] at ho
  cases ho

end svs_vamana.slot_latch
