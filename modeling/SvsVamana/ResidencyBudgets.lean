-- The residency roll-up law: the header's residency total is the sum of the budgets of all control
-- blocks.
import SvsVamana.MemorySteps

namespace svs_vamana.residency_budgets

open transition_runs slot_table svs_memory System

def budgets (s : System) : Nat := total (fun e => e.residencyBudget) s.blocks

/-- The header total is the sum of the budgets and no subtraction of one has warned. -/
structure RolledUp (s : System) : Prop where
  total : s.totalResidencyCommittedGlobal = budgets s
  quiet : s.budgetUnderflows = []

variable {s : System} {i : Nat} {e : Entry}

theorem RolledUp.budget_le (h : RolledUp s) (hi : s.blocks[i]? = some e) :
    e.residencyBudget ≤ s.totalResidencyCommittedGlobal := by
  rw [h.total]
  exact le_total (fun e => e.residencyBudget) hi

theorem budgets_set (e' : Entry) (hi : s.blocks[i]? = some e) :
    total (fun e => e.residencyBudget) (s.blocks.set i e') + e.residencyBudget =
      budgets s + e'.residencyBudget :=
  total_set (fun e => e.residencyBudget) e' hi

/-! ## Operations -/

theorem moves_budget {op : Op} {l l' : Ledger} (h : Moves e op l l') :
    l'.residencyBudget = l.residencyBudget := by
  induction h with
  | done => rfl
  | checked _ hc _ ih => exact ih.trans hc.budget
  | post hp _ _ _ ih => exact ih.trans hp.budget

theorem store_rolledUp (h : RolledUp s) (hi : s.blocks[i]? = some e) (pending : List Section)
    (op : Op) : RolledUp ({ s with pending }.store i (op.apply (s.ledger e)).1) := by
  have hbu : (op.apply (s.ledger e)).1.residencyBudget = e.residencyBudget :=
    moves_budget (apply_moves (s.ledger e) op)
  have hset := budgets_set (op.apply (s.ledger e)).1.toEntry hi
  refine ⟨?_, h.quiet⟩
  have ht := h.total
  simp only [store, budgets] at *
  omega

/-! ## Header sections -/

theorem checkBudget_quiet (h : RolledUp s) (hi : s.blocks[i]? = some e) (what : String) :
    s.budgetUnderflows ++ underflow s.totalResidencyCommittedGlobal e.residencyBudget what = [] := by
  rw [h.quiet, underflow_of_le what (h.budget_le hi), List.append_nil]

theorem other_rolledUp {s' : System} (h : RolledUp s) (ho : Other s s') : RolledUp s' := by
  have ht := h.total
  cases ho with
  | idle pending => exact ⟨h.total, h.quiet⟩
  | refused pending what hi => exact ⟨h.total, checkBudget_quiet h hi what⟩
  | @budget pending i e what residencyBudget hi =>
    refine ⟨?_, checkBudget_quiet h hi what⟩
    have hset := budgets_set { e with residencyBudget } hi
    have hle := h.budget_le hi
    simp only [setBudget, checkBudget, budgets] at *
    omega
  | @reserved i e dbOid hi =>
    refine ⟨?_, h.quiet⟩
    have hset := budgets_set { e with dbOid } hi
    simp only [budgets] at *
    omega
  | @released i e hi =>
    refine ⟨?_, checkBudget_quiet h hi _⟩
    have hset := budgets_set { dbOid := 0, nextResidentGeneration := e.nextResidentGeneration } hi
    have hle := h.budget_le hi
    simp only [resetDatabaseAccounting, budgets] at *
    omega

/-! ## The law -/

theorem step_rolledUp (s : System) (ev : Event) (h : RolledUp s) : RolledUp (step s ev) := by
  obtain ⟨i, e, op, pending, hw, hs⟩ | ⟨-, ho⟩ := step_cases s ev
  · rw [hs]
    exact store_rolledUp h (work_some hw) pending op
  · exact other_rolledUp h ho

theorem init_rolledUp (maxDatabases : Nat) : RolledUp (init maxDatabases) := by
  refine ⟨?_, rfl⟩
  simp [init, budgets, total_replicate]

/-- If the event is an admission that succeeds, it leaves the total within the ceiling. -/
def WithinCeiling (s : System) (ev : Event) : Prop :=
  ∀ i residencyBudget now ceiling, ev = .finish (.admission i residencyBudget) now ceiling →
    .admission i residencyBudget ∈ s.pending →
    (s.admitSection i residencyBudget ceiling).2 = true →
    (step s ev).totalResidencyCommittedGlobal ≤ ceiling

theorem step_withinCeiling (s : System) (ev : Event) : WithinCeiling s ev := by
  rintro i residencyBudget now ceiling rfl hp ha
  simp only [step, finish, hp, if_true]
  unfold admitSection at ha ⊢
  cases hi : s.blocks[i]? with
  | none => simp [hi] at ha
  | some e =>
    simp only [hi] at ha ⊢
    split at ha
    · cases ha
    next hf =>
    split
    · next ho => exact absurd ho hf
    · exact Nat.le_of_not_gt hf

/-- In every run, the header total is the sum of the budgets of all blocks, no subtraction of a
budget floors, and each admission that succeeds stays within `svs.max_residency_memory`. -/
theorem the_residency_total_is_the_sum_of_the_budgets (maxDatabases : Nat) (es : List Event) :
    EachState step
      (fun s => s.totalResidencyCommittedGlobal = total (fun e => e.residencyBudget) s.blocks ∧
        s.budgetUnderflows = []) (init maxDatabases) es ∧
    EachStep step WithinCeiling (init maxDatabases) es := by
  constructor
  · exact eachState_keeps RolledUp step_rolledUp (fun s h => ⟨h.total, h.quiet⟩)
      (init_rolledUp maxDatabases) es
  · exact eachStep_of_forall (fun ev _ s => step_withinCeiling s ev) (init maxDatabases)

/-- An admission whose block changes hands before its header section budgets the block's new
database, and the total goes along. -/
example :
    let s := run step (init 1)
      [.reserveSlot 5, .beginAdmit 0 100 0, .releaseSlot 5, .reserveSlot 6,
        .finish (.admission 0 100) 0 1000]
    s.totalResidencyCommittedGlobal = 100 ∧
      s.blocks.map (fun e => (e.dbOid, e.residencyBudget)) = [(6, 100)] := by
  decide

end svs_vamana.residency_budgets
