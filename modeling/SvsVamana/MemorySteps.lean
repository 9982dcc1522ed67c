-- What one critical section does to the memory books: it runs an operation on one control
-- block, or it moves a budget, or it takes or gives back a block.
import SvsVamana.MemoryMoves

namespace svs_vamana.svs_memory

open transition_runs slot_table Option

def opOf (s : System) : Event → Option (Nat × Op)
  | .call i op => some (i, op)
  | .finish (.seedLoad i relid durableBytes) now _ =>
    if .seedLoad i relid durableBytes ∈ s.pending then
      some (i, .reconcileLoad now relid durableBytes 0)
    else none
  | _ => none

/-- The operation that an event runs, with the block as it finds it. -/
def work (s : System) (ev : Event) : Option (Nat × Entry × Op) :=
  (opOf s ev).bind fun x => (s.blocks[x.1]?).map fun e => (x.1, e, x.2)

/-- `C` holds of the operation that an event runs and of the record that it works on. -/
def OnWork (C : Op → Reservation → Prop) (s : System) (ev : Event) : Prop :=
  ∀ w ∈ work s ev, OnTarget C w.2.1 w.2.2

instance (C : Op → Reservation → Prop) [∀ op r, Decidable (C op r)] (s : System) (ev : Event) :
    Decidable (OnWork C s ev) :=
  inferInstanceAs (Decidable (∀ w ∈ work s ev, OnTarget C w.2.1 w.2.2))

variable {s : System} {ev : Event} {i : Nat} {e : Entry} {op : Op}

theorem work_some
    (h : work s ev = some (i, e, op)) : s.blocks[i]? = some e := by
  obtain ⟨⟨j, op'⟩, -, hbl⟩ := bind_eq_some_iff.mp h
  obtain ⟨e', he, heq⟩ := map_eq_some_iff.mp hbl
  cases heq
  exact he

/-- What a critical section that runs no operation leaves. -/
inductive Other (s : System) : System → Prop
  /-- Calls come and go. -/
  | idle (pending : List Section) : Other s { s with pending }
  /-- A section has looked at block `i` and refused. -/
  | refused (pending : List Section) {i : Nat} {e : Entry} (what : String)
      (hi : s.blocks[i]? = some e) : Other s ({ s with pending }.checkBudget e what)
  /-- Block `i` has got another budget. -/
  | budget (pending : List Section) {i : Nat} {e : Entry} (what : String) (residencyBudget : Nat)
      (hi : s.blocks[i]? = some e) :
      Other s (({ s with pending }.checkBudget e what).setBudget i e residencyBudget)
  /-- Block `i` has been reserved. -/
  | reserved {i : Nat} {e : Entry} (dbOid : Nat) (hi : s.blocks[i]? = some e) :
      Other s { s with blocks := s.blocks.set i { e with dbOid } }
  /-- Block `i` has been released. -/
  | released {i : Nat} {e : Entry} (hi : s.blocks[i]? = some e) :
      Other s (s.resetDatabaseAccounting i { e with dbOid := 0 })

theorem findSlot_some {dbOid : Nat}
    (h : s.findSlot dbOid = some (i, e)) : s.blocks[i]? = some e := by
  obtain ⟨j, -, hj⟩ := bind_eq_some_iff.mp h
  obtain ⟨e', he, heq⟩ := map_eq_some_iff.mp hj
  cases heq
  exact he

theorem defer_other (s : System) (sec : Section) : Other s (s.defer sec) := .idle _

theorem admitSection_other (s : System) (pending : List Section) (i budget ceiling : Nat) :
    Other s ({ s with pending }.admitSection i budget ceiling).1 := by
  unfold System.admitSection
  split
  · exact .idle pending
  next e hi =>
  dsimp only
  split
  · exact .refused pending _ hi
  · exact .budget pending _ budget hi

theorem restoreSection_other (s : System) (pending : List Section) (i budget : Nat) :
    Other s ({ s with pending }.restoreSection i budget) := by
  unfold System.restoreSection
  split
  · exact .idle pending
  · next e hi => exact .budget pending _ budget hi

theorem reserveSlot_other (s : System) (dbOid : Nat) : Other s (s.reserveSlot dbOid) := by
  unfold System.reserveSlot
  split
  · exact .idle s.pending
  · split
    · exact .idle s.pending
    · next i e hf => exact .reserved dbOid (findSlot_some hf)

theorem releaseSlot_other (s : System) (dbOid : Nat) : Other s (s.releaseSlot dbOid) := by
  unfold System.releaseSlot
  split
  · exact .idle s.pending
  · next i e hf => exact .released (findSlot_some hf)

/-- An event runs an operation on a block and stores it, or it does something else. -/
def Stepped (s : System) (ev : Event) : Prop :=
  (∃ i e op pending, work s ev = some (i, e, op) ∧
    step s ev = { s with pending }.store i (op.apply (s.ledger e)).1) ∨
  (work s ev = none ∧ Other s (step s ev))

theorem stepped_call (pending : List Section)
    (hop : opOf s ev = some (i, op)) (hs : step s ev = { s with pending }.call i op) :
    Stepped s ev := by
  unfold System.call at hs
  cases hi : s.blocks[i]? with
  | none =>
    simp only [hi] at hs
    refine .inr ⟨by simp [work, hop, hi], ?_⟩
    rw [hs]
    exact .idle pending
  | some e =>
    simp only [hi] at hs
    exact .inl ⟨i, e, op, pending, by simp [work, hop, hi], hs⟩

theorem step_cases (s : System) (ev : Event) : Stepped s ev := by
  cases ev with
  | call i op => exact stepped_call s.pending rfl rfl
  | beginSeed i relid durableBytes =>
    refine .inr ⟨rfl, ?_⟩
    simp only [step, System.beginSeed]
    split
    · exact .idle s.pending
    · split
      · exact .idle s.pending
      · exact defer_other s _
  | beginAdmit i residencyBudget floor =>
    refine .inr ⟨rfl, ?_⟩
    simp only [step, System.beginAdmit]
    split
    · exact .idle s.pending
    · split
      · exact .idle s.pending
      · exact defer_other s _
  | beginRestore i priorBudget =>
    refine .inr ⟨rfl, ?_⟩
    simp only [step, System.beginRestore]
    split
    · exact .idle s.pending
    · exact defer_other s _
  | finish sec now ceiling =>
    by_cases hsec : sec ∈ s.pending
    · cases sec with
      | seedLoad i relid durableBytes =>
        apply stepped_call (s.pending.erase (.seedLoad i relid durableBytes))
        · exact if_pos hsec
        · simp only [step, System.finish, hsec, if_true]
      | admission i residencyBudget =>
        refine .inr ⟨rfl, ?_⟩
        simp only [step, System.finish, hsec, if_true]
        exact admitSection_other s _ i residencyBudget ceiling
      | restore i restoredBudget =>
        refine .inr ⟨rfl, ?_⟩
        simp only [step, System.finish, hsec, if_true]
        exact restoreSection_other s _ i restoredBudget
    · refine .inr ⟨?_, ?_⟩
      · cases sec <;> simp [work, opOf, hsec]
      · simp only [step, System.finish, hsec, if_false]
        exact .idle s.pending
  | reserveSlot dbOid => exact .inr ⟨rfl, reserveSlot_other s dbOid⟩
  | releaseSlot dbOid => exact .inr ⟨rfl, releaseSlot_other s dbOid⟩

end svs_vamana.svs_memory
