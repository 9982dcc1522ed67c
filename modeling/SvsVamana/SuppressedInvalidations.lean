-- Relcache invalidations that reach the worker while evictions are suppressed: the callback returns
-- without queueing anything.
import SvsVamana.ReloadQueue

namespace svs_vamana.suppressed_invalidations

open transition_runs reload_queue World

/-! ## What is not lost -/

/-- Outside of the spans that suppress evictions, a cached copy that is older than an invalidation
of its index is bound to be evicted. -/
def NotLost (w : World) : Prop :=
  w.suppressed = false → ∀ c ∈ w.cache, c.known < w.invalidations c.relid → Marked w c.relid

/-- The pass has taken an index that it has not evicted yet. -/
def evicts : Phase → Bool
  | .starting _ _ => true
  | .evicting todo => !todo.isEmpty
  | _ => false

theorem not_taken {phase : Phase} (h : evicts phase = false) (r : Nat) : ¬ Taken phase r := by
  cases phase with
  | evicting todo =>
    cases todo with
    | nil => simp [Taken]
    | cons r' todo => simp [evicts] at h
  | starting i r' => simp [evicts] at h
  | _ => simp [Taken]

/-- An invalidation that finds evictions suppressed finds its index bound to be evicted already,
and a shutdown does not break into an eviction. -/
def Heeded (w : World) : Event → Prop
  | .invalidate r => w.Cached r → w.suppressed = true → Marked w r
  | .invalidateAll => w.suppressed = true → ∀ c ∈ w.cache, Marked w c.relid
  | .cancel => evicts w.phase = false
  | _ => True

instance (phase : Phase) (r : Nat) : Decidable (Taken phase r) :=
  match phase with
  | .starting _ r' => inferInstanceAs (Decidable (r = r'))
  | .evicting todo => inferInstanceAs (Decidable (r ∈ todo))
  | .idle | .scanning _ | .clearing _ _ | .evicted _ _ | .loading _ _ | .down => isFalse id

instance (w : World) (r : Nat) : Decidable (Marked w r) :=
  inferInstanceAs (Decidable (w.evictAll = true ∨ (∃ i < maxReloadQueue, w.cells i = r) ∨
    Taken w.phase r))

instance (w : World) : (e : Event) → Decidable (Heeded w e)
  | .invalidate r => inferInstanceAs (Decidable (w.Cached r → w.suppressed = true → Marked w r))
  | .invalidateAll =>
    inferInstanceAs (Decidable (w.suppressed = true → ∀ c ∈ w.cache, Marked w c.relid))
  | .cancel => inferInstanceAs (Decidable (evicts w.phase = false))
  | .call _ _ | .attempt _ | .load _ | .evict _ | .beginPass | .work _ | .suppress | .restore
  | .die | .release | .restart => isTrue trivial

/-! ## What an invalidation leaves -/

variable {w : World}

theorem named_of_cached (hw : Wf w) {r : Nat} (h : w.Cached r) : r ≠ 0 := by
  obtain ⟨c, hc, rfl⟩ := List.mem_map.mp h
  exact hw.named c (mem_copies_of_cache hc)

theorem invalidations_attempt (w : World) (p : Nat) :
    (w.attempt p).invalidations = w.invalidations := by
  unfold attempt
  split
  · rfl
  · split
    · split <;> rfl
    · rfl

theorem invalidate_marks (hw : Wf w) {r : Nat} (h : Heeded w (.invalidate r)) (r' : Nat) :
    (w.invalidate r).invalidations r' = w.invalidations r' ∨ Marked (w.invalidate r) r' := by
  by_cases hr : r' = r
  · subst hr
    by_cases hc : w.Cached r'
    · right
      cases hs : w.suppressed with
      | true => exact (sends_invalidate w r').marked (named_of_cached hw hc) (h hc hs)
      | false =>
        simp only [invalidate, if_pos hc, hs, Bool.false_eq_true, if_false]
        exact marked_signalReload _ r'
    · simp [invalidate, hc]
  · left
    unfold invalidate
    split
    · dsimp only
      split
      · simp [hr]
      · simp [(signalReload_keeps _ r).2, hr]
    · rfl

theorem invalidateAll_marks (hw : Wf w) (h : Heeded w .invalidateAll) (r : Nat) :
    w.invalidateAll.invalidations r = w.invalidations r ∨ Marked w.invalidateAll r := by
  by_cases hca : w.Cached r
  · right
    cases hs : w.suppressed with
    | true =>
      obtain ⟨c, hc, rfl⟩ := List.mem_map.mp hca
      exact (sends_invalidateAll w).marked (named_of_cached hw hca) (h hs c hc)
    | false => exact .inl (by simp [invalidateAll, hs])
  · exact .inl (by simp [invalidateAll, hca])

theorem step_invalidations (hw : Wf w) {e : Event} (h : Heeded w e) (r : Nat) :
    (w.step e).invalidations r = w.invalidations r ∨ Marked (w.step e) r := by
  refine step_of
    (P := fun w' => w'.invalidations r = w.invalidations r ∨ Marked w' r) (.inl rfl) fun _ => ?_
  cases e with
  | invalidate r' => exact invalidate_marks hw h r
  | invalidateAll => exact invalidateAll_marks hw h r
  | attempt p => exact .inl (congrFun (invalidations_attempt w p) r)
  | work ok => exact .inl (congrFun (work_keeps w ok).2.2 r)
  | restore => exact .inl (congrFun (restore_keeps w).2.2.2.2.2.2.2.1 r)
  | beginPass =>
    left
    simp only [effect, beginPass]
    split <;> rfl
  | _ => exact .inl rfl

theorem invalidations_step (w : World) (e : Event) (r : Nat) :
    w.invalidations r ≤ (w.step e).invalidations r := by
  refine step_of (P := fun w' => w.invalidations r ≤ w'.invalidations r) (Nat.le_refl _) fun _ => ?_
  cases e with
  | invalidate r' =>
    simp only [effect, invalidate]
    split
    · have hm : w.invalidations r ≤
          Function.update w.invalidations r' (w.invalidations r' + 1) r := by
        have hbu := bump_cases w.invalidations r' r
        omega
      split
      · exact hm
      · rw [(signalReload_keeps _ r').2]
        exact hm
    · exact Nat.le_refl _
  | invalidateAll =>
    simp only [effect, invalidateAll]
    split <;> omega
  | attempt p => exact Nat.le_of_eq (congrFun (invalidations_attempt w p) r).symm
  | work ok => exact Nat.le_of_eq (congrFun (work_keeps w ok).2.2 r).symm
  | restore => exact Nat.le_of_eq (congrFun (restore_keeps w).2.2.2.2.2.2.2.1 r).symm
  | beginPass =>
    simp only [effect, beginPass]
    split <;> exact Nat.le_refl _
  | _ => exact Nat.le_refl _

/-! ## Runs -/

/-- Every copy that is older than an invalidation is bound to be evicted. -/
structure InvalidationsMarked (w : World) : Prop where
  wf : Wf w
  marked : ∀ c ∈ copies w, c.known < w.invalidations c.relid → Marked w c.relid

theorem invalidationsMarked_init : InvalidationsMarked init :=
  ⟨wf_init, by simp [copies, init]⟩

theorem InvalidationsMarked.step (h : InvalidationsMarked w) {e : Event} (hok : Heeded w e) :
    InvalidationsMarked (w.step e) := by
  refine ⟨wf_step h.wf e, fun c hc hl => ?_⟩
  have hm : Moves w (w.step e) := by
    refine step_moves h.wf fun hca => ?_
    subst hca
    exact not_taken hok
  rcases step_invalidations h.wf hok c.relid with hs | hma
  · rw [hs] at hl
    rcases hm.origin c hc with hold | ⟨hnew, -⟩
    · exact hm.marks c hc hold (h.marked c hold hl)
    · rw [hnew] at hl
      exact absurd hl (Nat.lt_irrefl _)
  · exact hma

theorem InvalidationsMarked.notLost (h : InvalidationsMarked w) : NotLost w :=
  fun _ c hc => h.marked c (mem_copies_of_cache hc)

/-- The copies of an index that were loaded before its invalidation number `level`. -/
def LoadedBefore (r level : Nat) (c : Copy) : Prop := c.relid = r ∧ c.known < level

/-- A signal for the index is queued when the suppressed invalidation comes, and a second
invalidation comes after the span. -/
def queuedBefore : Nat → List Event
  | 0 => [.load 5, .work true, .call 1 5, .attempt 1, .suppress, .invalidate 5, .restore,
      .invalidate 5]
  | 1 => wholePass 25
  | _ + 2 => wholePass 17

theorem heeded_wholePass (steps : Nat) (w : World) : EachStep step Heeded w (wholePass steps) := by
  refine eachStep_of_forall (fun e he w' => ?_) w
  simp only [wholePass, List.mem_cons, List.mem_replicate] at he
  rcases he with rfl | ⟨-, rfl⟩ <;> trivial

/-- A checkpoint is under way when the index is invalidated; then the worker makes a pass. -/
def checkpointed : List Event :=
  [.load 5, .work true, .suppress, .invalidate 5, .restore] ++ wholePass 17

end svs_vamana.suppressed_invalidations
