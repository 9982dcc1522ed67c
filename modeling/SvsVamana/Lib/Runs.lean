-- Runs of a transition function: invariants that each step keeps, and properties of the states that
-- hold exactly when each step meets a condition.
import Mathlib.Data.List.Basic
import Mathlib.Data.Nat.Init

namespace transition_runs

variable {σ ε : Type}

def run (step : σ → ε → σ) (s : σ) (es : List ε) : σ := es.foldl step s

/-- `ok` holds of each step in the state the step starts from. -/
def EachStep (step : σ → ε → σ) (ok : σ → ε → Prop) : σ → List ε → Prop
  | _, [] => True
  | s, e :: es => ok s e ∧ EachStep step ok (step s e) es

/-- `P` holds of the first state and of the state after each step. -/
def EachState (step : σ → ε → σ) (P : σ → Prop) : σ → List ε → Prop
  | s, [] => P s
  | s, e :: es => P s ∧ EachState step P (step s e) es

/-- A run can be tested for a condition on its steps. -/
instance EachStep.decidable (step : σ → ε → σ) (ok : σ → ε → Prop) [∀ s e, Decidable (ok s e)] :
    ∀ s es, Decidable (EachStep step ok s es)
  | _, [] => isTrue trivial
  | s, e :: es =>
    have := EachStep.decidable step ok (step s e) es
    inferInstanceAs (Decidable (ok s e ∧ EachStep step ok (step s e) es))

variable (step : σ → ε → σ) (s : σ)

@[simp] theorem run_nil : run step s [] = s := rfl

@[simp] theorem run_cons (e : ε) (es : List ε) :
    run step s (e :: es) = run step (step s e) es := rfl

theorem run_append (es es' : List ε) :
    run step s (es ++ es') = run step (run step s es) es' := List.foldl_append

variable {step : σ → ε → σ} {ok ok' : σ → ε → Prop} {P : σ → Prop} {s : σ} {es es' : List ε}

theorem eachStep_append : EachStep step ok s (es ++ es') ↔
    EachStep step ok s es ∧ EachStep step ok (run step s es) es' := by
  induction es generalizing s with
  | nil => simp [EachStep]
  | cons e es ih => simp [EachStep, ih, and_assoc]

theorem EachState.first (h : EachState step P s es) : P s := by
  cases es with
  | nil => exact h
  | cons e es => exact h.1

theorem eachState_append : EachState step P s (es ++ es') ↔
    EachState step P s es ∧ EachState step P (run step s es) es' := by
  induction es generalizing s with
  | nil => exact ⟨fun h => ⟨h.first, h⟩, fun h => h.2⟩
  | cons e es ih => simp [EachState, ih, and_assoc]

theorem run_invariant (Inv : σ → Prop) (hst : ∀ s e, Inv s → ok s e → Inv (step s e))
    (hs : Inv s) (h : EachStep step ok s es) : Inv (run step s es) := by
  induction es generalizing s with
  | nil => exact hs
  | cons e es ih => exact ih (hst s e hs h.1) h.2

/-- Where each step that meets `ok` keeps `Inv` and then does what `ok'` says, each step of a
run does so. -/
theorem eachStep_invariant (Inv : σ → Prop) (hst : ∀ s e, Inv s → ok s e → Inv (step s e))
    (hok : ∀ s e, Inv s → ok s e → ok' s e) (hs : Inv s) (h : EachStep step ok s es) :
    EachStep step ok' s es := by
  induction es generalizing s with
  | nil => trivial
  | cons e es ih => exact ⟨hok s e hs h.1, ih (hst s e hs h.1) h.2⟩

/-- What holds of each step from any state holds all along a run. -/
theorem eachStep_of_forall (h : ∀ e ∈ es, ∀ s, ok s e) (s : σ) : EachStep step ok s es := by
  induction es generalizing s with
  | nil => trivial
  | cons e es ih =>
    exact ⟨h e List.mem_cons_self s, ih (fun x hx => h x (List.mem_cons_of_mem e hx)) (step s e)⟩

/-- What an invariant says of a state holds all along a run whose steps keep it. -/
theorem eachState_invariant (Inv : σ → Prop) (hst : ∀ s e, Inv s → ok s e → Inv (step s e))
    (hP : ∀ s, Inv s → P s) (hs : Inv s) (h : EachStep step ok s es) : EachState step P s es := by
  induction es generalizing s with
  | nil => exact hP s hs
  | cons e es ih => exact ⟨hP s hs, ih (hst s e hs h.1) h.2⟩

theorem eachStep_true (step : σ → ε → σ) (s : σ) (es : List ε) :
    EachStep step (fun _ _ => True) s es := eachStep_of_forall (fun _ _ _ => trivial) s

theorem run_keeps (Inv : σ → Prop) (hst : ∀ s e, Inv s → Inv (step s e)) (hs : Inv s)
    (es : List ε) : Inv (run step s es) :=
  run_invariant Inv (fun s e h _ => hst s e h) hs (eachStep_true step s es)

theorem eachStep_and (h : EachStep step ok s es) (h' : EachStep step ok' s es) :
    EachStep step (fun s e => ok s e ∧ ok' s e) s es := by
  induction es generalizing s with
  | nil => trivial
  | cons e es ih => exact ⟨⟨h.1, h'.1⟩, ih h.2 h'.2⟩

/-- What an invariant says of a step holds of each step of a run. -/
theorem eachStep_keeps (Inv : σ → Prop) (hst : ∀ s e, Inv s → Inv (step s e))
    (hok : ∀ s e, Inv s → ok s e) (hs : Inv s) (es : List ε) : EachStep step ok s es :=
  eachStep_invariant Inv (fun s e h _ => hst s e h) (fun s e h _ => hok s e h) hs
    (eachStep_true step s es)

theorem eachState_keeps (Inv : σ → Prop) (hst : ∀ s e, Inv s → Inv (step s e))
    (hP : ∀ s, Inv s → P s) (hs : Inv s) (es : List ε) : EachState step P s es :=
  eachState_invariant Inv (fun s e h _ => hst s e h) hP hs (eachStep_true step s es)

variable {Inv : σ → Prop}

/-- Where a step that meets `rule` keeps `Inv` and makes `P` true exactly when it meets `ok`, `P`
holds in every state exactly when every step meets `ok`. -/
theorem eachState_iff_eachStep_under {rule : σ → ε → Prop}
    (hinv : ∀ s e, Inv s → rule s e → Inv (step s e))
    (hP : ∀ s e, Inv s → P s → rule s e → (P (step s e) ↔ ok s e))
    (hs : Inv s) (hPs : P s) (hr : EachStep step rule s es) :
    EachState step P s es ↔ EachStep step ok s es := by
  induction es generalizing s with
  | nil => simp [EachState, EachStep, hPs]
  | cons e es ih =>
    have hn := hinv s e hs hr.1
    simp only [EachState, EachStep, hPs, true_and]
    constructor
    · intro h
      have hf : P (step s e) := h.first
      exact ⟨(hP s e hs hPs hr.1).mp hf, (ih hn hf hr.2).mp h⟩
    · rintro ⟨hok, h⟩
      exact (ih hn ((hP s e hs hPs hr.1).mpr hok) hr.2).mpr h

/-- Where each step keeps `Inv` and makes `P` true exactly when it meets `ok`, `P` holds
all along a run exactly when every step of the run meets `ok`. -/
theorem eachState_iff_eachStep (hinv : ∀ s e, Inv s → Inv (step s e))
    (hP : ∀ s e, Inv s → P s → (P (step s e) ↔ ok s e)) (es : List ε) (hs : Inv s) (hPs : P s) :
    EachState step P s es ↔ EachStep step ok s es :=
  eachState_iff_eachStep_under (fun s e h _ => hinv s e h) (fun s e h h' _ => hP s e h h')
    hs hPs (eachStep_true step s es)

variable {R : σ → σ → Prop}

theorem run_related (Inv : σ → Prop) (hr : ∀ s, R s s)
    (ht : ∀ {s s' s''}, R s s' → R s' s'' → R s s'') (hinv : ∀ s e, Inv s → ok s e → Inv (step s e))
    (hst : ∀ s e, Inv s → ok s e → R s (step s e)) (hs : Inv s)
    (h : EachStep step ok s es) : R s (run step s es) := by
  induction es generalizing s with
  | nil => exact hr s
  | cons e es ih => exact ht (hst s e hs h.1) (ih (hinv s e hs h.1) h.2)

/-! ## Endless runs -/

/-- The state after the first rounds of an endless run. -/
def rounds (step : σ → ε → σ) (s : σ) (es : Nat → List ε) : Nat → σ
  | 0 => s
  | n + 1 => run step (rounds step s es n) (es n)

variable {k n : Nat}

/-- What each step keeps from some round on holds in all later rounds. -/
theorem rounds_invariant {start : σ} {es : Nat → List ε} (Inv : σ → Prop)
    (hst : ∀ s e, Inv s → ok s e → Inv (step s e)) (hs : Inv (rounds step start es k))
    (h : ∀ n, k ≤ n → EachStep step ok (rounds step start es n) (es n)) (hn : k ≤ n) :
    Inv (rounds step start es n) := by
  induction n, hn using Nat.le_induction with
  | base => exact hs
  | succ n hn ih => exact run_invariant Inv hst ih (h n hn)

/-- What each round relates from some round on, later rounds relate. -/
theorem rounds_related {start : σ} {es : Nat → List ε}
    (hr : ∀ s, R s s) (ht : ∀ {s s' s''}, R s s' → R s' s'' → R s s'')
    (h : ∀ n, k ≤ n → R (rounds step start es n) (rounds step start es (n + 1))) {m : Nat}
    (hn : k ≤ n) (hm : n ≤ m) : R (rounds step start es n) (rounds step start es m) := by
  induction m, hm using Nat.le_induction with
  | base => exact hr _
  | succ m hm ih => exact ht ih (h m (Nat.le_trans hn hm))

/-- A rank that never rises, and falls again and again as long as it is not 0, is 0 in the end. -/
theorem eventually_zero (rank : Nat → Nat) (hk : ∀ n, k ≤ n → rank (n + 1) ≤ rank n)
    (hf : ∀ n, k ≤ n → rank n ≠ 0 → ∃ m, n ≤ m ∧ rank m < rank n) :
    ∃ n, k ≤ n ∧ ∀ m, n ≤ m → rank m = 0 := by
  have hre : ∀ r n, k ≤ n → rank n = r → ∃ m, n ≤ m ∧ rank m = 0 := by
    intro r
    induction r using Nat.strong_induction_on with
    | _ r ih =>
      intro n hn hr
      by_cases hz : rank n = 0
      · exact ⟨n, Nat.le_refl n, hz⟩
      · obtain ⟨m, hm, hlt⟩ := hf n hn hz
        obtain ⟨m', hm', hz'⟩ := ih (rank m) (hr ▸ hlt) m (Nat.le_trans hn hm) rfl
        exact ⟨m', Nat.le_trans hm hm', hz'⟩
  obtain ⟨n, hn, hz⟩ := hre (rank k) k (Nat.le_refl k) rfl
  refine ⟨n, hn, fun m hm => ?_⟩
  induction m, hm using Nat.le_induction with
  | base => exact hz
  | succ m hm ih => exact Nat.le_zero.mp (ih ▸ hk m (Nat.le_trans hn hm))

end transition_runs
