-- Failed enrolments: what an abort gives back of what the pre-commit callback has written, and the
-- memory overrides, which it does not.
import SvsVamana.Enrollment

namespace svs_vamana.failed_enrollment

open transition_runs slot_table residency_budgets enrollment Shared List Option
open svs_memory hiding Event step init

/-! ## Transactions -/

/-- The build counters of all blocks and of the header. -/
def buildCounters (s : Shared) : Nat × List Nat :=
  (s.memory.totalBuildCommittedGlobal, s.memory.blocks.map fun e => e.buildBytesCommitted)

/-- The callback gets to its next row, or another process moves bytes meanwhile. -/
inductive Event
  | row (r : Row)
  | call (db : Database) (op : Op)

def step (cfg : Settings) (t : Txn) : Event → Txn
  | .row r => t.reserveEntry cfg r
  | .call db op =>
    let shared := t.shared.call db op
    { t with
      shared
      builds := t.builds || decide (buildCounters shared ≠ buildCounters t.shared) }

/-- `after` is `before` but for budgets that have been raised to what is committed under them. The
header total moves along with the budgets only. -/
structure Traceless (before after : Shared) : Prop where
  length : after.memory.blocks.length = before.memory.blocks.length
  dbOid : ∀ (i : Nat) (e e' : Entry), before.memory.blocks[i]? = some e →
    after.memory.blocks[i]? = some e' → e'.dbOid = e.dbOid
  budget : ∀ (i : Nat) (e e' : Entry), before.memory.blocks[i]? = some e →
    after.memory.blocks[i]? = some e' → e'.residencyBudget = e.residencyBudget ∨
      e.residencyBudget < realUsage e' ∧ e'.residencyBudget = realUsage e'
  overrides : ∀ i < before.memory.blocks.length, after.overrides i = before.overrides i
  total : after.memory.totalResidencyCommittedGlobal + budgets before.memory =
    before.memory.totalResidencyCommittedGlobal + budgets after.memory
  active : after.numActive = before.numActive

/-- An abort at this point leaves no trace; nor in the build counters, unless a build has moved
them meanwhile. -/
def LeavesNoTrace (before : Shared) (t : Txn) : Prop :=
  Traceless before t.abort ∧
  (t.builds = false → t.abort.memory.totalBuildCommittedGlobal =
    before.memory.totalBuildCommittedGlobal)

/-! ## What the transaction has done so far -/

def owned (t : Txn) : List Nat := t.reservedThisXact.map Subtype.val

def noted (t : Txn) : List Nat := t.budgetSnapshots.map fun x => x.1.1

/-- A block that was `e₀` when the transaction began: reserved by it, or still of its database and
with its budget noted if that may have changed. -/
inductive Held (t : Txn) (e₀ e : Entry) : Prop
  | own (hzero : e₀.dbOid = 0) (hmem : e.dbOid ∈ owned t)
  | kept (hoid : e.dbOid = e₀.dbOid) (hmem : e.dbOid ∉ owned t)
      (hbudget : e.dbOid ∉ noted t → e.residencyBudget = e₀.residencyBudget)
      (hnoted : ∀ x ∈ t.budgetSnapshots, x.1.1 = e.dbOid →
        x.2 = e₀.residencyBudget ∧ e.residencyBudget ≠ 0)

structure Inv (s : Shared) (t : Txn) : Prop where
  tidy : Tidy t.shared
  length : t.shared.memory.blocks.length = s.memory.blocks.length
  block : ∀ (i : Nat) (e₀ e : Entry), s.memory.blocks[i]? = some e₀ →
    t.shared.memory.blocks[i]? = some e → Held t e₀ e
  owns : ∀ db ∈ t.reservedThisXact, t.shared.memory.findSlot db ≠ none
  nodup : t.reservedThisXact.Nodup
  active : t.shared.numActive = s.numActive + t.reservedThisXact.length
  builds : t.builds = false → buildCounters t.shared = buildCounters s

/-! ## Aborting -/

def blockAt (s : Shared) (i : Nat) : Option (Entry × Overrides) :=
  (s.memory.blocks[i]?).map fun e => (e, s.overrides i)

variable {s : Shared} {i : Nat} {e : Entry} {o : Overrides}

theorem blockAt_eq_some :
    blockAt s i = some (e, o) ↔ s.memory.blocks[i]? = some e ∧ s.overrides i = o := by
  simp [blockAt]

variable {s' : Shared} {e' : Entry}

theorem blockAt_wrote (h : Wrote s s' i e e' o) (j : Nat) :
    blockAt s' j = if j = i then some (e', o) else blockAt s j := by
  split
  · next hj =>
    subst hj
    exact blockAt_eq_some.mpr ⟨h.here, h.overrides_here⟩
  · next hj =>
    obtain ⟨hbl, ho⟩ := h.elsewhere (Ne.symm hj)
    rw [blockAt, blockAt, hbl, ho]

theorem blockAt_onDatabase (hs : Tidy s) (db : Database) (f : Entry × Overrides → Entry × Overrides)
    (hn : s.memory.findSlot db = none → s' = s)
    (hso : ∀ (i : Nat) (e : Entry), s.memory.findSlot db = some (i, e) →
      Wrote s s' i e (f (e, s.overrides i)).1 (f (e, s.overrides i)).2) (j : Nat) :
    blockAt s' j = (blockAt s j).map fun b => if b.1.dbOid = db.1 then f b else b := by
  cases hf : s.memory.findSlot db with
  | none =>
    rw [hn hf]
    cases hj : blockAt s j with
    | none => rfl
    | some b =>
      have hb := blockAt_eq_some.mp hj
      simp [findSlot_eq_none.mp hf j b.1 hb.1]
  | some x =>
    obtain ⟨i, e⟩ := x
    obtain ⟨hi, hoid⟩ := hs.findSlot_eq_some.mp hf
    rw [blockAt_wrote (hso i e hf)]
    split
    · next hj =>
      subst hj
      simp [blockAt, hi, hoid]
    · next hj =>
      cases hb : blockAt s j with
      | none => rfl
      | some b =>
        have hbl := (blockAt_eq_some.mp hb).1
        have hne : b.1.dbOid ≠ db.1 := fun heq =>
          hj (hs.distinct j i b.1 e hbl hi (heq.trans hoid.symm) (heq ▸ db.2))
        simp [hne]

/-- What releasing a list of databases makes of a block. -/
def clearIn (oids : List Nat) (b : Entry × Overrides) : Entry × Overrides :=
  if b.1.dbOid ∈ oids then (cleared b.1, {}) else b

theorem blockAt_releaseSlot (hs : Tidy s) (db : Database) (i : Nat) :
    blockAt (s.releaseSlot db) i =
      (blockAt s i).map fun b => if b.1.dbOid = db.1 then (cleared b.1, {}) else b := by
  apply blockAt_onDatabase hs db fun b => (cleared b.1, {})
  · intro hf
    simp [releaseSlot, hf]
  · exact fun j e hf => releaseSlot_wrote hf

theorem blockAt_releases (hs : Tidy s) (ds : List Database) (i : Nat) :
    blockAt (run releaseSlot s ds) i = (blockAt s i).map (clearIn (ds.map Subtype.val)) := by
  induction ds generalizing s with
  | nil => cases h : blockAt s i <;> simp [clearIn, h]
  | cons db ds ih =>
    rw [run_cons, ih (releaseSlot_tidy hs db), blockAt_releaseSlot hs db i, Option.map_map]
    congr 1
    funext b
    by_cases hb : b.1.dbOid = db.1
    · simp [clearIn, hb, cleared]
    · simp [clearIn, hb]

def restored (e : Entry) (priorBudget : Nat) : Entry :=
  { e with residencyBudget := max priorBudget (realUsage e) }

/-- What restoring one noted budget makes of a block. -/
def restoreOne (b : Entry × Overrides) (x : Database × Nat) : Entry × Overrides :=
  if b.1.dbOid = x.1.1 then (restored b.1 x.2, b.2) else b

theorem blockAt_restores (hs : Tidy s) (xs : List (Database × Nat)) (i : Nat) :
    blockAt (run (fun s x => s.restoreResidencyBudget x.1 x.2) s xs) i =
      (blockAt s i).map fun b => run restoreOne b xs := by
  induction xs generalizing s with
  | nil => cases h : blockAt s i <;> simp [h]
  | cons x xs ih =>
    have hone : blockAt (s.restoreResidencyBudget x.1 x.2) i =
        (blockAt s i).map fun b => restoreOne b x := by
      apply blockAt_onDatabase hs x.1 fun b => (restored b.1 x.2, b.2)
      · intro hf
        simp [restoreResidencyBudget, hf]
      · exact fun j e hf => restoreResidencyBudget_wrote x.2 hf
    rw [run_cons, ih (restoreResidencyBudget_tidy hs x.1 x.2), hone, Option.map_map]
    rfl

theorem run_restoreOne {b : Entry × Overrides} {xs : List (Database × Nat)} {prior : Nat}
    (h : ∀ x ∈ xs, x.1.1 = b.1.dbOid → x.2 = prior) :
    run restoreOne b xs =
      (if b.1.dbOid ∈ xs.map (fun x => x.1.1) then
        restored b.1 prior else b.1, b.2) := by
  induction xs generalizing b with
  | nil => simp
  | cons x xs ih =>
    have hxs : ∀ y ∈ xs, y.1.1 = b.1.dbOid → y.2 = prior :=
      fun y hy => h y (mem_cons_of_mem x hy)
    by_cases hx : b.1.dbOid = x.1.1
    · have hp := h x mem_cons_self hx.symm
      have hone : restoreOne b x = (restored b.1 prior, b.2) := by
        simp [restoreOne, hx, hp]
      rw [run_cons, hone, ih (b := (restored b.1 prior, b.2)) hxs]
      simp only [map_cons, mem_cons, hx, true_or, if_true]
      split <;> rfl
    · have hone : restoreOne b x = b := by simp [restoreOne, hx]
      rw [run_cons, hone, ih hxs]
      simp only [map_cons, mem_cons, hx, false_or]

theorem releases_tidy (hs : Tidy s) (ds : List Database) : Tidy (run releaseSlot s ds) :=
  run_keeps Tidy (fun _ db h => releaseSlot_tidy h db) hs ds

variable {t : Txn}

section

variable (h : Tidy t.shared)
include h

theorem abort_tidy : Tidy t.abort :=
  run_keeps Tidy (fun _ x h => restoreResidencyBudget_tidy h x.1 x.2)
    (releases_tidy h t.reservedThisXact) t.budgetSnapshots

theorem blockAt_abort (i : Nat) :
    blockAt t.abort i =
      (blockAt t.shared i).map fun b => run restoreOne (clearIn (owned t) b) t.budgetSnapshots := by
  unfold Txn.abort
  rw [blockAt_restores (releases_tidy h t.reservedThisXact), blockAt_releases h, Option.map_map]
  rfl

theorem blockAt_abort_own (hi : blockAt t.shared i = some (e, o))
    (hown : e.dbOid ∈ owned t) : blockAt t.abort i = some (cleared e, {}) := by
  have hn : ∀ x ∈ t.budgetSnapshots, x.1.1 = (cleared e).dbOid → x.2 = 0 :=
    fun x _ hx => absurd hx x.1.2
  have hr := run_restoreOne (b := (cleared e, ({} : Overrides))) hn
  have hf : (cleared e).dbOid ∉ t.budgetSnapshots.map fun x => x.1.1 := by simp [cleared]
  rw [if_neg hf] at hr
  rw [blockAt_abort h, hi, map_some, clearIn, if_pos hown, hr]

theorem blockAt_abort_kept (hi : blockAt t.shared i = some (e, o))
    (hown : e.dbOid ∉ owned t) {prior : Nat}
    (hp : ∀ x ∈ t.budgetSnapshots, x.1.1 = e.dbOid → x.2 = prior) :
    blockAt t.abort i = some (if e.dbOid ∈ noted t then restored e prior else e, o) := by
  have hr := run_restoreOne (b := (e, o)) hp
  rw [blockAt_abort h, hi, map_some, clearIn, if_neg hown, hr]
  rfl

end

theorem find_ne_none {s : System} {dbOid : Nat} :
    s.findSlot dbOid ≠ none ↔ ∃ (i : Nat) (e : Entry), s.blocks[i]? = some e ∧ e.dbOid = dbOid := by
  rw [Ne, findSlot_eq_none]
  push Not
  rfl

variable {db : Database}

theorem releaseSlot_find (hs : Tidy s) {db' : Database} (hne : db' ≠ db)
    (hf : s.memory.findSlot db' ≠ none) : (s.releaseSlot db).memory.findSlot db' ≠ none := by
  obtain ⟨i, e, hi, hoid⟩ := find_ne_none.mp hf
  have ho : e.dbOid ≠ db.1 := fun heq => hne (Subtype.ext (hoid.symm.trans heq))
  have hbl := blockAt_releaseSlot hs db i
  rw [blockAt_eq_some.mpr ⟨hi, rfl⟩, map_some, if_neg ho, blockAt_eq_some] at hbl
  exact find_ne_none.mpr ⟨i, e, hbl.1, hoid⟩

theorem releases_active (hs : Tidy s) {ds : List Database} (hn : ds.Nodup)
    (hf : ∀ db ∈ ds, s.memory.findSlot db ≠ none) :
    (run releaseSlot s ds).numActive = s.numActive - ds.length := by
  induction ds generalizing s with
  | nil => rfl
  | cons db ds ih =>
    obtain ⟨hdb, hn⟩ := nodup_cons.mp hn
    have hone : (s.releaseSlot db).numActive = s.numActive - 1 := by
      cases h : s.memory.findSlot db with
      | none => exact absurd h (hf db mem_cons_self)
      | some x => simp [releaseSlot, h]
    have hr : ∀ d ∈ ds, (s.releaseSlot db).memory.findSlot d ≠ none := by
      intro d hd
      apply releaseSlot_find hs _ (hf d (mem_cons_of_mem db hd))
      exact fun heq => hdb (heq ▸ hd)
    rw [run_cons, ih (releaseSlot_tidy hs db) hn hr, hone, length_cons]
    omega

theorem releases_build (hs : Tidy s) {ds : List Database}
    (hid : ∀ (i : Nat) (e : Entry), s.memory.blocks[i]? = some e →
      e.dbOid ∈ ds.map Subtype.val → e.buildBytesCommitted = 0) :
    (run releaseSlot s ds).memory.totalBuildCommittedGlobal =
      s.memory.totalBuildCommittedGlobal := by
  induction ds generalizing s with
  | nil => rfl
  | cons db ds ih =>
    have hone : (s.releaseSlot db).memory.totalBuildCommittedGlobal =
        s.memory.totalBuildCommittedGlobal := by
      cases h : s.memory.findSlot db with
      | none => simp [releaseSlot, h]
      | some x =>
        have hz := hid x.1 x.2 (findSlot_some h) (by simp [findSlot_oid h])
        simp [releaseSlot, h, System.releaseSlot, System.resetDatabaseAccounting, hz]
    rw [run_cons, ih (releaseSlot_tidy hs db), hone]
    intro i e hi hmem
    have hbl := blockAt_releaseSlot hs db i
    rw [blockAt_eq_some.mpr ⟨hi, rfl⟩] at hbl
    obtain ⟨b, hb, heq⟩ := map_eq_some_iff.mp hbl.symm
    split at heq
    · obtain rfl : cleared b.1 = e := congrArg Prod.fst heq
      rfl
    · subst heq
      exact hid i e (blockAt_eq_some.mp hb).1 (mem_cons_of_mem _ hmem)

theorem restore_header (s : Shared) (x : Database × Nat) :
    (s.restoreResidencyBudget x.1 x.2).numActive = s.numActive ∧
    (s.restoreResidencyBudget x.1 x.2).memory.totalBuildCommittedGlobal =
      s.memory.totalBuildCommittedGlobal := by
  unfold restoreResidencyBudget System.restoreSection
  split
  · exact ⟨rfl, rfl⟩
  · dsimp only
    split <;> exact ⟨rfl, rfl⟩

theorem abort_header (t : Txn) :
    t.abort.numActive = (run releaseSlot t.shared t.reservedThisXact).numActive ∧
    t.abort.memory.totalBuildCommittedGlobal =
      (run releaseSlot t.shared t.reservedThisXact).memory.totalBuildCommittedGlobal := by
  unfold Txn.abort
  generalize run releaseSlot t.shared t.reservedThisXact = u
  refine run_keeps (fun s : Shared => s.numActive = u.numActive ∧
    s.memory.totalBuildCommittedGlobal = u.memory.totalBuildCommittedGlobal) ?_ ⟨rfl, rfl⟩ _
  intro s x h
  obtain ⟨ha, hbu⟩ := restore_header s x
  exact ⟨ha.trans h.1, hbu.trans h.2⟩

/-! ## An abort undoes everything but the overrides -/

def SameOverrides (s : Shared) (t : Txn) : Prop :=
  ∀ (i : Nat) (e : Entry), t.shared.memory.blocks[i]? = some e → e.dbOid ∉ owned t →
    t.shared.overrides i = s.overrides i

variable {e₀ : Entry}

theorem Inv.ends (h : Inv s t) (hi : s.memory.blocks[i]? = some e₀) :
    ∃ (e : Entry), t.shared.memory.blocks[i]? = some e ∧ Held t e₀ e := by
  obtain ⟨hlt, -⟩ := List.getElem?_eq_some_iff.mp hi
  have hlt' : i < t.shared.memory.blocks.length := h.length ▸ hlt
  have hbl := getElem?_eq_getElem hlt'
  exact ⟨_, hbl, h.block i e₀ _ hi hbl⟩

theorem Inv.abort_block (h : Inv s t) (hs : Tidy s) (hi : s.memory.blocks[i]? = some e₀)
    (hi' : t.abort.memory.blocks[i]? = some e') :
    e'.dbOid = e₀.dbOid ∧ (e'.residencyBudget = e₀.residencyBudget ∨
      e₀.residencyBudget < realUsage e' ∧ e'.residencyBudget = realUsage e') := by
  obtain ⟨e, hbl, hh⟩ := h.ends hi
  have hat := blockAt_eq_some.mpr ⟨hbl, rfl⟩
  cases hh with
  | own hz hmem =>
    have ha := (blockAt_eq_some.mp (blockAt_abort_own h.tidy hat hmem)).1
    rw [hi'] at ha
    cases ha
    exact ⟨hz.symm, .inl (hs.free i e₀ hi hz).budget.symm⟩
  | kept hoid hmem hbu hn =>
    have ha := (blockAt_eq_some.mp
      (blockAt_abort_kept h.tidy hat hmem fun x hx heq => (hn x hx heq).1)).1
    rw [hi'] at ha
    cases ha
    split
    · refine ⟨hoid, ?_⟩
      change max e₀.residencyBudget (realUsage e) = e₀.residencyBudget ∨
        e₀.residencyBudget < realUsage e ∧ max e₀.residencyBudget (realUsage e) = realUsage e
      omega
    · next hnot => exact ⟨hoid, .inl (hbu hnot)⟩

theorem abort_length (h : Tidy t.shared) :
    t.abort.memory.blocks.length = t.shared.memory.blocks.length := by
  have hs : ∀ i, (blockAt t.abort i).isSome = (blockAt t.shared i).isSome := by
    intro i
    rw [blockAt_abort h, isSome_map]
  simp only [blockAt, isSome_map] at hs
  have hle := hs t.abort.memory.blocks.length
  have hge := hs t.shared.memory.blocks.length
  simp at hle hge
  omega

theorem Inv.starts (h : Inv s t) (hi : t.shared.memory.blocks[i]? = some e) :
    ∃ (e₀ : Entry), s.memory.blocks[i]? = some e₀ ∧ Held t e₀ e := by
  obtain ⟨hlt, -⟩ := List.getElem?_eq_some_iff.mp hi
  have hlt' : i < s.memory.blocks.length := h.length ▸ hlt
  have hbl := getElem?_eq_getElem hlt'
  exact ⟨_, hbl, h.block i _ e hbl hi⟩

theorem Inv.abort_overrides (h : Inv s t) (hs : Tidy s) :
    (∀ i < s.memory.blocks.length, t.abort.overrides i = s.overrides i) ↔ SameOverrides s t := by
  have hk : ∀ {i : Nat} {e₀ e : Entry}, t.shared.memory.blocks[i]? = some e → Held t e₀ e →
      e.dbOid ∉ owned t → t.abort.overrides i = t.shared.overrides i := by
    intro i e₀ e hi hh hmem
    cases hh with
    | own _ hown => exact absurd hown hmem
    | kept _ _ _ hn =>
      exact (blockAt_eq_some.mp (blockAt_abort_kept h.tidy (blockAt_eq_some.mpr ⟨hi, rfl⟩) hmem
        fun x hx heq => (hn x hx heq).1)).2
  constructor
  · intro hall i e hi hmem
    obtain ⟨e₀, hi₀, hh⟩ := h.starts hi
    obtain ⟨hlt, -⟩ := List.getElem?_eq_some_iff.mp hi₀
    rw [← hall i hlt, hk hi hh hmem]
  · intro hsa i hlt
    have hi₀ := getElem?_eq_getElem hlt
    obtain ⟨e, hi, hh⟩ := h.ends hi₀
    by_cases hmem : e.dbOid ∈ owned t
    · have ha := (blockAt_eq_some.mp
        (blockAt_abort_own h.tidy (blockAt_eq_some.mpr ⟨hi, rfl⟩) hmem)).2
      cases hh with
      | own hz _ => rw [ha, (hs.free i _ hi₀ hz).overrides]
      | kept _ hnot => exact absurd hmem hnot
    · rw [hk hi hh hmem, hsa i e hi hmem]

/-- While no build has moved the counters, the blocks that the transaction has reserved have no
build bytes. -/
theorem Inv.idle (h : Inv s t) (hs : Tidy s) (hq : t.builds = false)
    (hi : t.shared.memory.blocks[i]? = some e) (hmem : e.dbOid ∈ owned t) :
    e.buildBytesCommitted = 0 := by
  obtain ⟨e₀, hi₀, hh⟩ := h.starts hi
  have hbu := congrArg (fun c => c.2[i]?) (h.builds hq)
  simp only [buildCounters, getElem?_map, hi, hi₀, map_some, some.injEq] at hbu
  cases hh with
  | own hz _ => rw [hbu, (hs.free i e₀ hi₀ hz).build]
  | kept _ hnot => exact absurd hmem hnot

/-- Given what the transaction has noted, an abort leaves no trace exactly if the overrides of the
blocks it found are as they were. -/
theorem Inv.leavesNoTrace_iff (h : Inv s t) (hs : Tidy s) :
    LeavesNoTrace s t ↔ SameOverrides s t := by
  have ho := h.abort_overrides hs
  constructor
  · exact fun ht => ho.mp ht.1.overrides
  · intro hsa
    obtain ⟨ha, hbu⟩ := abort_header t
    refine ⟨⟨?_, ?_, ?_, ho.mpr hsa, ?_, ?_⟩, ?_⟩
    · exact (abort_length h.tidy).trans h.length
    · exact fun i e e' hi hi' => (h.abort_block hs hi hi').1
    · exact fun i e e' hi hi' => (h.abort_block hs hi hi').2
    · rw [(abort_tidy h.tidy).rolledUp.total, hs.rolledUp.total, Nat.add_comm]
    · rw [ha, releases_active h.tidy h.nodup h.owns, h.active]
      omega
    · intro hq
      rw [hbu, releases_build h.tidy fun i e hi hmem => h.idle hs hq hi hmem]
      exact congrArg Prod.fst (h.builds hq)

/-! ## What a row does -/

/-- The transaction notes what it will have to undo for the row's block: nothing if it has the
block in one of its lists already, the budget it finds, or the reservation. -/
inductive Noted (t : Txn) (db : Database) : Txn → Nat → Entry → Prop
  | again {i : Nat} {e : Entry} (hfind : t.shared.memory.findSlot db = some (i, e))
      (hlisted : db.1 ∈ owned t ∨ db.1 ∈ noted t) : Noted t db t i e
  | budget {i : Nat} {e : Entry} (hfind : t.shared.memory.findSlot db = some (i, e))
      (howned : db.1 ∉ owned t) (hnoted : db.1 ∉ noted t) (hbudget : e.residencyBudget ≠ 0) :
      Noted t db { t with budgetSnapshots := t.budgetSnapshots ++ [(db, e.residencyBudget)] } i e
  | created {s' : Shared} {i : Nat} {e : Entry} (hfind : t.shared.memory.findSlot db = none)
      (hzero : e.dbOid = 0)
      (hwrote : Wrote t.shared s' i e { e with dbOid := db } (t.shared.overrides i))
      (hmemory : s'.memory = { t.shared.memory with blocks := s'.memory.blocks })
      (hactive : s'.numActive = t.shared.numActive + 1) (htidy : Tidy s') :
      Noted t db { t with shared := s', reservedThisXact := t.reservedThisXact ++ [db] } i
        { e with dbOid := db }

/-- The row's overrides are written, and its budget if it is admitted. -/
structure Written (t t' : Txn) (o : Overrides) (i : Nat) (e : Entry) : Prop where
  reserved : t'.reservedThisXact = t.reservedThisXact
  snapshots : t'.budgetSnapshots = t.budgetSnapshots
  builds : t'.builds = t.builds
  wrote : ∃ (e' : Entry), Wrote t.shared t'.shared i e e' o ∧
    (e' = e ∨ ∃ (b : Nat), b ≠ 0 ∧ e' = { e with residencyBudget := b })
  tidy : Tidy t'.shared
  active : t'.shared.numActive = t.shared.numActive
  build : t'.shared.memory.totalBuildCommittedGlobal = t.shared.memory.totalBuildCommittedGlobal

/-- One turn of the callback's loop. -/
inductive Turned (t : Txn) (r : Row) : Txn → Prop
  | skipped (hskip : t.failed ≠ none ∨ r.enabled = false ∨ r.live = false) : Turned t r t
  | full (err : EnrollError) (hfind : t.shared.memory.findSlot r.db = none) :
      Turned t r { t with failed := some err }
  | unadmitted (err : EnrollError) {i : Nat} {e : Entry}
      (hfind : t.shared.memory.findSlot r.db = some (i, e)) (hbudget : e.residencyBudget = 0) :
      Turned t r { t with failed := some err }
  | written {t₁ t' : Txn} {i : Nat} {e : Entry}
      (hgo : t.failed = none ∧ r.enabled = true ∧ r.live = true) (hnoted : Noted t r.db t₁ i e)
      (hwritten : Written t₁ t' r.overrides i e) : Turned t r t'

theorem admitDatabase_build (s : Shared) (db : Database) (residencyBudget floor ceiling : Nat) :
    (s.admitDatabase db residencyBudget floor ceiling).1.memory.totalBuildCommittedGlobal =
      s.memory.totalBuildCommittedGlobal := by
  unfold admitDatabase System.admitSection
  dsimp only
  repeat' split
  all_goals rfl

theorem admitRow_written (cfg : Settings) (ht : Tidy t.shared) (r : Row)
    (hf : t.shared.memory.findSlot r.db = some (i, e)) :
    Written t (t.admitRow cfg r i) r.overrides i e := by
  have hset := setMemoryOverrides_wrote r.overrides hf
  have hm := setMemoryOverrides_memory t.shared r.db r.overrides
  have hf' := (setMemoryOverrides_find t.shared r.db r.overrides).trans hf
  have hti := setMemoryOverrides_tidy ht r.db r.overrides
  have ha : (t.shared.setMemoryOverrides r.db r.overrides).numActive = t.shared.numActive := by
    simp [setMemoryOverrides, hf]
  simp only [Txn.admitRow, setMemoryOverrides_here r.overrides hf]
  generalize t.shared.setMemoryOverrides r.db r.overrides = s₁ at *
  have had := admitDatabase_tidy hti r.db (resolveResidencyBudget cfg r.overrides)
    r.durableResidencyFloorBytes cfg.residencyMemoryCeilingBytes
  have hbu := admitDatabase_build s₁ r.db (resolveResidencyBudget cfg r.overrides)
    r.durableResidencyFloorBytes cfg.residencyMemoryCeilingBytes
  have hc := admitDatabase_admitted s₁ r.db (resolveResidencyBudget cfg r.overrides)
    r.durableResidencyFloorBytes cfg.residencyMemoryCeilingBytes
  generalize s₁.admitDatabase r.db (resolveResidencyBudget cfg r.overrides)
    r.durableResidencyFloorBytes cfg.residencyMemoryCeilingBytes = x at *
  rw [hm] at hbu
  cases hc with
  | unreserved hn =>
    rw [hf'] at hn
    cases hn
  | refused err hs _ hsa ha' =>
    refine ⟨rfl, rfl, rfl, ⟨e, ⟨hset.found, ?_, ?_⟩, .inl rfl⟩, had, ha'.trans ha, hbu⟩
    · exact hsa.blocks.trans hset.blocks
    · exact hsa.overrides.trans hset.overrides
  | admitted hs hz _ _ hw ha' =>
    rw [hf'] at hs
    cases hs
    rw [hset.overrides_here] at hw
    exact ⟨rfl, rfl, rfl, ⟨_, hset.trans hw, .inr ⟨_, hz, rfl⟩⟩, had, ha'.trans ha, hbu⟩

theorem mem_owned : db ∈ t.reservedThisXact ↔ db.1 ∈ owned t := by
  constructor
  · exact fun h => mem_map_of_mem h
  · intro h
    obtain ⟨d, hd, heq⟩ := mem_map.mp h
    exact Subtype.ext heq ▸ hd

theorem mem_noted : db ∈ t.budgetSnapshots.map Prod.fst ↔ db.1 ∈ noted t := by
  constructor
  · intro h
    obtain ⟨x, hx, rfl⟩ := mem_map.mp h
    exact mem_map_of_mem hx
  · intro h
    obtain ⟨x, hx, heq⟩ := mem_map.mp h
    exact mem_map.mpr ⟨x, hx, Subtype.ext heq⟩

theorem note_noted (hf : t.shared.memory.findSlot db = some (i, e)) :
    (∃ t₁, t.note db false = .ok t₁ ∧ Noted t db t₁ i e) ∨
    (e.residencyBudget = 0 ∧ ∃ err, t.note db false = .error err) := by
  by_cases hl : db ∈ t.reservedThisXact ∨ db ∈ t.budgetSnapshots.map Prod.fst
  · refine .inl ⟨t, ?_, .again hf ?_⟩
    · simp only [Txn.note, Bool.false_eq_true, if_false, hl, if_true]
    · rwa [mem_owned, mem_noted] at hl
  · have hnot := hl
    rw [not_or, mem_owned, mem_noted] at hnot
    by_cases hbu : e.residencyBudget = 0
    · refine .inr ⟨hbu, .notAdmitted, ?_⟩
      simp only [Txn.note, Bool.false_eq_true, if_false, hl, residencyBudget, hf,
        hbu, if_true, Except.map]
    · refine .inl ⟨_, ?_, .budget hf hnot.1 hnot.2 hbu⟩
      simp only [Txn.note, Bool.false_eq_true, if_false, hl, residencyBudget, hf, hbu, Except.map]

theorem reserveEntry_turned (cfg : Settings) (ht : Tidy t.shared) (r : Row) :
    Turned t r (t.reserveEntry cfg r) := by
  by_cases hgo : t.failed = none ∧ r.enabled = true ∧ r.live = true
  · have hfa : t.failed.isSome = false := by simp [hgo.1]
    have hl : (!r.enabled || !r.live) = false := by simp [hgo.2]
    have hti := reserveSlot_tidy ht r.db
    have hc := reserveSlot_reserved t.shared r.db
    simp only [Txn.reserveEntry, hfa, hl, Bool.false_eq_true, if_false]
    generalize t.shared.reserveSlot r.db = x at *
    cases hc with
    | full hf => exact .full _ hf
    | @found i e hf =>
      obtain ⟨t₁, hok, hn⟩ | ⟨hbu, err, herr⟩ := note_noted hf
      · simp only [hok]
        have hs : t₁.shared = t.shared := by
          cases hn with
          | again => rfl
          | budget => rfl
          | created hno =>
            rw [hf] at hno
            cases hno
        refine .written hgo hn (admitRow_written cfg (hs ▸ ht) r ?_)
        rw [hs]
        exact hf
      · simp only [herr]
        exact .unadmitted err hf hbu
    | @created s' i e hf hz hw hm ha =>
      have hn : Noted t r.db
          { t with shared := s', reservedThisXact := t.reservedThisXact ++ [r.db] } i
          { e with dbOid := r.db } := .created hf hz hw hm ha hti
      refine .written hgo hn (admitRow_written cfg hti r ?_)
      exact hti.findSlot_eq_some.mpr ⟨hw.here, rfl⟩
  · have hsk : t.failed ≠ none ∨ r.enabled = false ∨ r.live = false := by
      cases hfa : t.failed <;> cases hen : r.enabled <;> cases hl : r.live <;>
        simp_all
    have hsa : t.reserveEntry cfg r = t := by
      unfold Txn.reserveEntry
      obtain h | h | h := hsk
      · simp [isSome_iff_ne_none.mpr h]
      · simp [h]
      · simp [h]
    rw [hsa]
    exact .skipped hsk

/-! ## What every step keeps -/

theorem buildCounters_wrote (h : Wrote s s' i e e' o)
    (hbu : e'.buildBytesCommitted = e.buildBytesCommitted)
    (ht : s'.memory.totalBuildCommittedGlobal = s.memory.totalBuildCommittedGlobal) :
    buildCounters s' = buildCounters s := by
  have hbl : s'.memory.blocks.map (fun e => e.buildBytesCommitted) =
      s.memory.blocks.map fun e => e.buildBytesCommitted := by
    apply ext_getElem?
    intro j
    rw [getElem?_map, getElem?_map]
    by_cases hj : i = j
    · subst hj
      rw [h.here, h.found, map_some, map_some, hbu]
    · rw [(h.elsewhere hj).1]
  rw [buildCounters, buildCounters, hbl, ht]

theorem find_wrote (h : Wrote s s' i e e' o) (hoid : e.dbOid = 0 ∨ e'.dbOid = e.dbOid)
    (hfi : s.memory.findSlot db ≠ none) : s'.memory.findSlot db ≠ none := by
  obtain ⟨j, f, hj, hf⟩ := find_ne_none.mp hfi
  apply find_ne_none.mpr
  by_cases hji : i = j
  · subst hji
    rw [h.found] at hj
    cases hj
    obtain hz | hs := hoid
    · exact absurd (hf.symm.trans hz) db.2
    · exact ⟨i, e', h.here, hs.trans hf⟩
  · exact ⟨j, f, (h.elsewhere hji).1.trans hj, hf⟩

variable {t' : Txn}

theorem Held.of_lists (h : Held t e₀ e) (hr : t'.reservedThisXact = t.reservedThisXact)
    (hs : t'.budgetSnapshots = t.budgetSnapshots) : Held t' e₀ e := by
  have ho : owned t' = owned t := by rw [owned, owned, hr]
  have hn : noted t' = noted t := by rw [noted, noted, hs]
  cases h with
  | own hz hmem => exact .own hz (ho ▸ hmem)
  | kept hoid hmem hbu hsn =>
    exact .kept hoid (ho ▸ hmem) (hn ▸ hbu) (hs ▸ hsn)

theorem Inv.wrote (h : Inv s t) (hw : Wrote t.shared t'.shared i e e' o)
    (hoid : e'.dbOid = e.dbOid) (hh : ∀ e₀, Held t e₀ e → Held t e₀ e') (ht : Tidy t'.shared)
    (hr : t'.reservedThisXact = t.reservedThisXact) (hs : t'.budgetSnapshots = t.budgetSnapshots)
    (ha : t'.shared.numActive = t.shared.numActive)
    (hbu : t'.builds = false → buildCounters t'.shared = buildCounters s) : Inv s t' where
  tidy := ht
  length := hw.length.trans h.length
  block := by
    intro j e₀ f hj hf
    refine Held.of_lists ?_ hr hs
    obtain ⟨rfl, rfl, -⟩ | ⟨-, hf, -⟩ := hw.cases hf
    · exact hh e₀ (h.block j e₀ e hj hw.found)
    · exact h.block j e₀ f hj hf
  owns := by
    intro db hdb
    exact find_wrote hw (.inr hoid) (h.owns db (hr ▸ hdb))
  nodup := hr ▸ h.nodup
  active := by rw [ha, h.active, hr]
  builds := hbu

theorem Inv.created (h : Inv s t) (hfi : t.shared.memory.findSlot db = none) (hz : e.dbOid = 0)
    (hw : Wrote t.shared s' i e { e with dbOid := db } (t.shared.overrides i))
    (hm : s'.memory = { t.shared.memory with blocks := s'.memory.blocks })
    (hac : s'.numActive = t.shared.numActive + 1) (ht : Tidy s') :
    Inv s { t with shared := s', reservedThisXact := t.reservedThisXact ++ [db] } where
  tidy := ht
  length := hw.length.trans h.length
  block := by
    intro j e₀ f hj hf
    obtain ⟨rfl, rfl, -⟩ | ⟨-, hf, -⟩ := hw.cases hf
    · refine .own ?_ (by simp [owned])
      cases h.block j e₀ e hj hw.found with
      | own hfr _ => exact hfr
      | kept hoid _ => exact hoid ▸ hz
    · have hne : f.dbOid ≠ db := findSlot_eq_none.mp hfi j f hf
      cases h.block j e₀ f hj hf with
      | own hfr hmem => exact .own hfr (by simpa [owned] using .inl (by simpa [owned] using hmem))
      | kept hoid hmem hbu hs =>
        refine .kept hoid ?_ hbu hs
        rw [owned, map_append, mem_append, not_or]
        exact ⟨hmem, by simpa using hne⟩
  owns := by
    intro d hd
    obtain hd | hd := mem_append.mp hd
    · exact find_wrote hw (.inl hz) (h.owns d hd)
    · obtain rfl := mem_singleton.mp hd
      exact find_ne_none.mpr ⟨i, _, hw.here, rfl⟩
  nodup := by
    have hnew : db ∉ t.reservedThisXact := fun hmem => h.owns db hmem hfi
    exact nodup_append.mpr ⟨h.nodup, by simp, by
      intro a ha b hb heq
      obtain rfl := mem_singleton.mp hb
      exact hnew (heq ▸ ha)⟩
  active := by
    rw [hac, h.active, length_append, length_singleton]
    omega
  builds := by
    intro hq
    rw [buildCounters_wrote hw rfl (by rw [hm])]
    exact h.builds hq

theorem Inv.noteBudget (h : Inv s t) (hfi : t.shared.memory.findSlot db = some (i, e))
    (hn : db.1 ∉ noted t) (hbu : e.residencyBudget ≠ 0) :
    Inv s { t with budgetSnapshots := t.budgetSnapshots ++ [(db, e.residencyBudget)] } where
  tidy := h.tidy
  length := h.length
  block := by
    intro j e₀ f hj hf
    cases h.block j e₀ f hj hf with
    | own hfr hmem => exact .own hfr hmem
    | kept hoid hmem hs hsn =>
      refine .kept hoid hmem ?_ ?_
      · intro hnot
        apply hs
        intro hmem'
        apply hnot
        rw [noted, map_append, mem_append]
        exact .inl hmem'
      · intro x hx heq
        obtain hx | hx := mem_append.mp hx
        · exact hsn x hx heq
        -- the block is the one whose budget has just been noted
        obtain rfl := mem_singleton.mp hx
        have hoid : f.dbOid = db.1 := heq.symm
        have hp := hs (hoid ▸ hn)
        have hbl := h.tidy.findSlot_eq_some.mpr ⟨hf, hoid⟩
        rw [hfi] at hbl
        cases hbl
        exact ⟨hp, hbu⟩
  owns := h.owns
  nodup := h.nodup
  active := h.active
  builds := h.builds

variable {t₁ : Txn}

theorem Noted.listed (h : Noted t db t₁ i e) :
    e.dbOid = db ∧ (db.1 ∈ owned t₁ ∨ db.1 ∈ noted t₁) := by
  cases h with
  | again hf hl => exact ⟨findSlot_oid hf, hl⟩
  | budget hf => exact ⟨findSlot_oid hf, .inr (by simp [noted])⟩
  | created => exact ⟨rfl, .inl (by simp [owned])⟩

theorem Noted.inv (h : Inv s t) (hn : Noted t db t₁ i e) : Inv s t₁ := by
  cases hn with
  | again => exact h
  | budget hf _ hnot hbu => exact h.noteBudget hf hnot hbu
  | created hf hz hw hm ha ht =>
    exact h.created hf hz hw hm ha ht

theorem Written.inv (h : Inv s t) (hl : e.dbOid ∈ owned t ∨ e.dbOid ∈ noted t)
    (hw : Written t t' o i e) : Inv s t' := by
  obtain ⟨e', hwr, hc⟩ := hw.wrote
  have hoid : e'.dbOid = e.dbOid := by
    obtain rfl | ⟨b, -, rfl⟩ := hc <;> rfl
  have hbu : e'.buildBytesCommitted = e.buildBytesCommitted := by
    obtain rfl | ⟨b, -, rfl⟩ := hc <;> rfl
  refine h.wrote hwr hoid ?_ hw.tidy hw.reserved hw.snapshots hw.active ?_
  · intro e₀ hh
    obtain rfl | ⟨b, hb, rfl⟩ := hc
    · exact hh
    cases hh with
    | own hz hmem => exact .own hz hmem
    | kept hs hmem _ hsn =>
      refine .kept hs hmem ?_ fun x hx heq => ⟨(hsn x hx heq).1, hb⟩
      exact fun hnot => absurd (hl.resolve_left hmem) hnot
  · intro hq
    rw [buildCounters_wrote hwr hbu hw.build]
    exact h.builds (hw.builds ▸ hq)

theorem begin_inv (hs : Tidy s) : Inv s { shared := s } where
  tidy := hs
  length := rfl
  block := by
    intro i e₀ e hi hi'
    rw [hi] at hi'
    cases hi'
    exact .kept rfl (by simp [owned]) (fun _ => rfl) (by simp)
  owns := by simp
  nodup := nodup_nil
  active := rfl
  builds := fun _ => rfl

theorem Inv.fails (h : Inv s t) (err : EnrollError) :
    Inv s { t with failed := some err } where
  tidy := h.tidy
  length := h.length
  block := fun i e₀ e hi hi' => (h.block i e₀ e hi hi').of_lists rfl rfl
  owns := h.owns
  nodup := h.nodup
  active := h.active
  builds := h.builds

variable (cfg : Settings)

theorem row_inv (h : Inv s t) (r : Row) : Inv s (t.reserveEntry cfg r) := by
  have ht := reserveEntry_turned cfg h.tidy r
  generalize t.reserveEntry cfg r = t' at *
  cases ht with
  | skipped => exact h
  | full err => exact h.fails err
  | unadmitted err => exact h.fails err
  | written _ hn hw =>
    obtain ⟨hoid, hl⟩ := hn.listed
    exact hw.inv (hn.inv h) (hoid ▸ hl)

/-- Another process's call moves neither the budget nor the database of a block. -/
theorem call_inv (h : Inv s t) (db : Database) (op : Op) : Inv s (step cfg t (.call db op)) := by
  have hbui : (step cfg t (.call db op)).builds = false →
      buildCounters (t.shared.call db op) = buildCounters s := by
    intro hq
    simp only [step, Bool.or_eq_false_iff, decide_eq_false_iff_not, not_not] at hq
    rw [hq.2, h.builds hq.1]
  cases hf : t.shared.memory.findSlot db with
  | none =>
    have hs : t.shared.call db op = t.shared := by simp [call, hf]
    simp only [step, hs, ne_eq, not_true_eq_false, decide_false, Bool.or_false]
    exact h
  | some x =>
    have ha : (t.shared.call db op).numActive = t.shared.numActive := by
      simp [call, hf]
    have hoid := apply_dbOid (t.shared.memory.ledger x.2) op
    have hbu := moves_budget (apply_moves (t.shared.memory.ledger x.2) op)
    refine h.wrote (call_wrote op hf) hoid ?_ (call_tidy h.tidy db op) rfl rfl ha hbui
    intro e₀ hh
    cases hh with
    | own hz hmem => exact .own hz (hoid ▸ hmem)
    | kept hs hmem hp hsn =>
      refine .kept (hoid.trans hs) (hoid ▸ hmem) ?_ ?_
      · exact fun hnot => hbu.trans (hp (hoid ▸ hnot))
      · intro x hx heq
        obtain ⟨hx₂, hne⟩ := hsn x hx (heq.trans hoid)
        exact ⟨hx₂, hbu ▸ hne⟩

theorem step_inv (s : Shared) (t : Txn) (ev : Event) (h : Inv s t) : Inv s (step cfg t ev) := by
  cases ev with
  | row r => exact row_inv cfg h r
  | call db op => exact call_inv cfg h db op

/-! ## Overrides -/

/-- A row that is handled for an admitted database whose block the transaction has not reserved
carries the overrides which that block has. -/
def Careful (t : Txn) : Event → Prop
  | .row r => t.failed = none → r.enabled = true → r.live = true → r.db ∉ t.reservedThisXact →
      ∀ x ∈ t.shared.memory.findSlot r.db, x.2.residencyBudget ≠ 0 →
        r.overrides = t.shared.overrides x.1
  | .call _ _ => True

theorem Noted.sameOverrides (hn : Noted t db t₁ i e) (h : SameOverrides s t) :
    SameOverrides s t₁ := by
  cases hn with
  | again => exact h
  | budget => exact h
  | created hf hz hw =>
    intro j f hj hmem
    rw [owned, map_append, mem_append, not_or] at hmem
    obtain ⟨rfl, rfl, -⟩ | ⟨-, hj, ho⟩ := hw.cases hj
    · exact absurd (by simp) hmem.2
    · exact ho.trans (h j f hj hmem.1)

theorem Written.sameOverrides (hw : Written t t' o i e) (h : SameOverrides s t) :
    SameOverrides s t' ↔ (e.dbOid ∉ owned t → o = s.overrides i) := by
  have how : owned t' = owned t := by rw [owned, owned, hw.reserved]
  obtain ⟨e', hwr, hc⟩ := hw.wrote
  have hoid : e'.dbOid = e.dbOid := by
    obtain rfl | ⟨b, -, rfl⟩ := hc <;> rfl
  constructor
  · intro hs hmem
    rw [← hwr.overrides_here]
    apply hs i e' hwr.here
    rw [how, hoid]
    exact hmem
  · intro hs j f hj hmem
    rw [how] at hmem
    obtain ⟨rfl, rfl, ho⟩ | ⟨-, hj, ho⟩ := hwr.cases hj
    · exact ho.trans (hs (hoid ▸ hmem))
    · exact ho.trans (h j f hj hmem)

theorem Noted.not_owned_iff (h : Inv s t) (hn : Noted t db t₁ i e) :
    e.dbOid ∉ owned t₁ ↔
      db ∉ t.reservedThisXact ∧ t.shared.memory.findSlot db = some (i, e) ∧
        e.residencyBudget ≠ 0 := by
  rw [mem_owned]
  cases hn with
  | again hf hl =>
    have hoid := findSlot_oid hf
    constructor
    · intro hmem
      rw [hoid] at hmem
      refine ⟨hmem, hf, ?_⟩
      obtain ⟨e₀, -, hh⟩ := h.starts (findSlot_some hf)
      cases hh with
      | own _ hown => exact absurd (hoid ▸ hown) hmem
      | kept _ _ _ hsn =>
        obtain ⟨x, hx, hkey⟩ := mem_map.mp (hl.resolve_left hmem)
        exact (hsn x hx (hkey.trans hoid.symm)).2
    · exact fun hmem => hoid ▸ hmem.1
  | budget hf ho _ hbu =>
    have hoid := findSlot_oid hf
    exact iff_of_true (hoid ▸ ho) ⟨ho, hf, hbu⟩
  | created hf =>
    apply iff_of_false
    · simp [owned]
    · rintro ⟨-, hs, -⟩
      rw [hf] at hs
      cases hs

theorem Noted.found (hn : Noted t db t₁ i e) {x : Nat × Entry}
    (hx : t.shared.memory.findSlot db = some x) : x = (i, e) := by
  cases hn with
  | again hf | budget hf => exact some.inj (hx.symm.trans hf)
  | created hf =>
    rw [hf] at hx
    cases hx

theorem row_sameOverrides (cfg : Settings) (h : Inv s t) (hs : SameOverrides s t) (r : Row) :
    SameOverrides s (t.reserveEntry cfg r) ↔ Careful t (.row r) := by
  have ht := reserveEntry_turned cfg h.tidy r
  generalize t.reserveEntry cfg r = t' at *
  cases ht with
  | skipped hsk =>
    apply iff_of_true hs
    intro hfa hen hl
    simp [hfa, hen, hl] at hsk
  | full err hfi =>
    apply iff_of_true hs
    intro _ _ _ _ x hx
    rw [hfi] at hx
    cases hx
  | unadmitted err hfi hbu =>
    apply iff_of_true hs
    intro _ _ _ _ x hx hne
    rw [hfi] at hx
    cases hx
    exact absurd hbu hne
  | @written t₁ _ i e hgo hn hw =>
    rw [hw.sameOverrides (hn.sameOverrides hs), hn.not_owned_iff h]
    have hst : r.db ∉ t.reservedThisXact → t.shared.memory.findSlot r.db = some (i, e) →
        t.shared.overrides i = s.overrides i := by
      intro hmem hfi
      rw [mem_owned, ← findSlot_oid hfi] at hmem
      exact hs i e (findSlot_some hfi) hmem
    constructor
    · intro ho _ _ _ hmem x hx hne
      obtain rfl := hn.found hx
      rw [ho ⟨hmem, hx, hne⟩, hst hmem hx]
    · intro hc hf
      rw [hc hgo.1 hgo.2.1 hgo.2.2 hf.1 (i, e) hf.2.1 hf.2.2]
      exact hst hf.1 hf.2.1

theorem call_sameOverrides (cfg : Settings) (hs : SameOverrides s t) (db : Database) (op : Op) :
    SameOverrides s (step cfg t (.call db op)) := by
  cases hf : t.shared.memory.findSlot db with
  | none =>
    have hc : t.shared.call db op = t.shared := by simp [call, hf]
    intro i e hi hmem
    simp only [step, hc] at hi ⊢
    exact hs i e hi hmem
  | some x =>
    intro i e hi hmem
    obtain ⟨rfl, rfl, ho⟩ | ⟨-, hi, ho⟩ := (call_wrote op hf).cases hi
    · refine ho.trans (hs x.1 x.2 (findSlot_some hf) ?_)
      exact apply_dbOid (t.shared.memory.ledger x.2) op ▸ hmem
    · exact ho.trans (hs i e hi hmem)

/-- Whatever has happened before: an abort at every point of the transaction leaves no trace
exactly if each row that is handled carries the overrides its block has. -/
theorem an_aborted_enrolment_leaves_no_trace_iff_the_overrides_stay (cfg : Settings)
    (maxDatabases : Nat) (as : List Access) (es : List Event) :
    EachState (step cfg) (LeavesNoTrace (reached maxDatabases as))
        { shared := reached maxDatabases as } es ↔
      EachStep (step cfg) Careful { shared := reached maxDatabases as } es := by
  have hs := reached_tidy maxDatabases as
  generalize reached maxDatabases as = s at *
  have hst : ∀ t ev, Inv s t → LeavesNoTrace s t →
      (LeavesNoTrace s (step cfg t ev) ↔ Careful t ev) := by
    intro t ev h ht
    have hsa := (h.leavesNoTrace_iff hs).mp ht
    rw [(step_inv cfg s t ev h).leavesNoTrace_iff hs]
    cases ev with
    | row r => exact row_sameOverrides cfg h hsa r
    | call db op => exact iff_of_true (call_sameOverrides cfg hsa db op) trivial
  exact eachState_iff_eachStep (step_inv cfg s) hst es (begin_inv hs)
    (((begin_inv hs).leavesNoTrace_iff hs).mpr fun _ _ _ _ => rfl)

def enrolled : List Access :=
  [.reserve db5, .setOverrides db5 { residencyMemoryMb := 50 },
    .admission db5 (50 * 1024 * 1024) 0 settings.residencyMemoryCeilingBytes]

/-- A transaction raises database 5 to 60 MB. -/
def sixtyMb : Row := { db := db5, overrides := { residencyMemoryMb := 60 } }

/-- The transaction fails later on: the abort gives back the budget of 50 MB, and the block keeps
the override of 60 MB that no row of the table has. -/
theorem an_aborted_row_leaves_its_overrides :
    (step settings { shared := reached 1 enrolled } (.row sixtyMb)).failed = none ∧
    ¬ LeavesNoTrace (reached 1 enrolled)
      (step settings { shared := reached 1 enrolled } (.row sixtyMb)) ∧
    (step settings { shared := reached 1 enrolled } (.row sixtyMb)).abort.memory.blocks.map
      (fun e => e.residencyBudget) = [50 * 1024 * 1024] ∧
    (reached 1 enrolled).overrides 0 = { residencyMemoryMb := 50 } ∧
    (step settings { shared := reached 1 enrolled } (.row sixtyMb)).abort.overrides 0 =
      { residencyMemoryMb := 60 } := by
  refine ⟨by decide, fun h => ?_, by decide, by decide, by decide⟩
  have ho := h.1.overrides 0 (by decide)
  revert ho
  decide

end svs_vamana.failed_enrollment
