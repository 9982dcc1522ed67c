-- The ceiling on `search_work_mem`: a statement is checked under a lock against the sum of all
-- rows, which it reads through the snapshot of its transaction.
import SvsVamana.Lib.Runs
import SvsVamana.Lib.SlotTable

namespace svs_vamana.search_work_mem_ceiling

open transition_runs slot_table Function List

/-! ## Transactions on the table -/

/-- A row of `vamana_databases`; without a `search_work_mem` the default counts. -/
structure Row where
  datname : Nat
  searchWorkMem : Option Nat
deriving DecidableEq, Repr

inductive Isolation
  | readCommitted
  | repeatableRead
  | serializable
deriving DecidableEq, Repr

/-- What some commands write: the rows as they leave them, and the names that an UPDATE has
taken from its rows. -/
structure Writes where
  rows : List Row := []
  renamed : List Nat := []
deriving DecidableEq, Repr

/-- `snapshot` are the rows that were committed when the snapshot was taken, and `written` are
the writes of the transaction's own earlier commands. -/
structure Transaction where
  isolation : Isolation
  snapshot : List Row
  written : Writes
deriving DecidableEq, Repr

/-- The committed rows, the open transactions, and the one that holds the table's
`ShareRowExclusiveLock`. -/
structure Table where
  rows : List Row
  open_ : Nat → Option Transaction
  holder : Option Nat

def named (new : List Row) (r : Row) : Bool := new.any (·.datname = r.datname)

def Writes.touches (w : Writes) (r : Row) : Bool := named w.rows r || w.renamed.contains r.datname

def put (rows : List Row) (w : Writes) : List Row := rows.filter (!w.touches ·) ++ w.rows

def Writes.followedBy (w new : Writes) : Writes := ⟨put w.rows new, w.renamed ++ new.renamed⟩

variable (default max : Nat)

def resolved (r : Row) : Nat := r.searchWorkMem.getD default

/-- The sum that `vamana_databases_check_search_work_mem_ceiling` reads, and its verdict. -/
def passes (view newRows : List Row) : Bool :=
  total (resolved default) (view.filter (!named newRows ·)) + total (resolved default) newRows ≤ max

/-- The rows that the statement sees: a read committed one has a snapshot of its own. -/
def Transaction.current (x : Transaction) (rows : List Row) : List Row :=
  if x.isolation = .readCommitted then rows else x.snapshot

/-- A row that the statement writes was committed by another transaction since the snapshot. -/
def conflict (rows snapshot : List Row) (w : Writes) : Bool :=
  rows.filter w.touches ≠ snapshot.filter w.touches

def endTransaction (s : Table) (t : Nat) (rows : List Row) : Table :=
  ⟨rows, update s.open_ t none, if s.holder = some t then none else s.holder⟩

/-- One INSERT or UPDATE. `parts` are its transition tables: an INSERT with ON CONFLICT DO UPDATE
fires the trigger once for each half. An error aborts the transaction. -/
def statement (s : Table) (t : Nat) (x : Transaction) (parts : List (List Row))
    (renamed : List Nat) : Table :=
  if s.holder.any (· ≠ t) then s
  else
    let snapshot := x.current s.rows
    let new : Writes := ⟨parts.flatten, renamed⟩
    if conflict s.rows snapshot new ||
        !parts.all (passes default max (put snapshot x.written)) then endTransaction s t s.rows
    else
      { s with
        open_ := update s.open_ t
          (some { x with snapshot := snapshot, written := x.written.followedBy new })
        holder := some t }

inductive Event
  | begin (t : Nat) (isolation : Isolation)
  | statement (t : Nat) (parts : List (List Row)) (renamed : List Nat)
  | commit (t : Nat)
  | abort (t : Nat)
deriving DecidableEq, Repr

def step (s : Table) : Event → Table
  | .begin t isolation =>
    match s.open_ t with
    | some _ => s
    | none => { s with open_ := update s.open_ t (some ⟨isolation, s.rows, {}⟩) }
  | .statement t parts renamed =>
    match s.open_ t with
    | none => s
    | some x => statement default max s t x parts renamed
  | .commit t =>
    match s.open_ t with
    | none => s
    | some x => endTransaction s t (put s.rows x.written)
  | .abort t => endTransaction s t s.rows

/-! ## The law -/

/-- The snapshot that a statement reads through has every row that is committed, and one of its
transition tables has all the rows that it writes. -/
def UpToDate (s : Table) : Event → Prop
  | .statement t parts _ =>
    parts.flatten ∈ parts ∧ ∀ x ∈ s.open_ t, x.current s.rows = s.rows
  | _ => True

instance UpToDate.decidable (s : Table) : ∀ e, Decidable (UpToDate s e) := by
  intro e
  cases e <;> unfold UpToDate <;> infer_instance

def WithinCeiling (s : Table) : Prop := total (resolved default) s.rows ≤ max

/-- Only the holder of the lock has written anything, and with its rows the sum is within the
ceiling as well. -/
structure Inv (s : Table) : Prop where
  within : WithinCeiling default max s
  pending : ∀ t x, s.open_ t = some x → x.written ≠ {} →
    s.holder = some t ∧ total (resolved default) (put s.rows x.written) ≤ max

theorem touches_followedBy (w new : Writes) (r : Row) :
    (w.followedBy new).touches r = (new.touches r || w.touches r) := by
  simp only [Writes.followedBy, Writes.touches, put, named, any_append, any_filter, contains_append]
  by_cases hn : (new.rows.any (·.datname = r.datname) || new.renamed.contains r.datname) = true
  · rw [hn, Bool.true_or]
    simp only [Bool.or_eq_true] at hn
    obtain hn | hn := hn
    · rw [hn, Bool.or_true, Bool.true_or]
    · rw [hn, Bool.or_true, Bool.or_true]
  · -- a row of the first command that has the name of `r` is touched by the second iff `r` is
    have hs (a : Row) : (!(new.rows.any (·.datname = a.datname) ||
        new.renamed.contains a.datname) && decide (a.datname = r.datname)) =
        decide (a.datname = r.datname) := by
      by_cases ha : a.datname = r.datname
      · simpa [ha] using hn
      · simp [ha]
    simp only [Bool.or_eq_true, not_or, Bool.not_eq_true] at hn
    simp only [hs, hn.1, hn.2, Bool.or_false, Bool.false_or]

theorem put_followedBy (rows : List Row) (w new : Writes) :
    put rows (w.followedBy new) = put (put rows w) new := by
  have hf : ∀ r, (!(w.followedBy new).touches r) = (!new.touches r && !w.touches r) := by
    intro r
    rw [touches_followedBy, Bool.not_or]
  unfold put
  simp only [hf, filter_append, filter_filter, append_assoc]
  rfl

theorem put_nothing (rows : List Row) : put rows {} = rows := by
  simp [put, named, Writes.touches]

variable {default max} {s : Table} {t : Nat}

theorem Inv.ended (h : Inv default max s) {rows : List Row}
    (hr : total (resolved default) rows ≤ max) (hs : rows = s.rows ∨ s.holder = some t) :
    Inv default max (endTransaction s t rows) := by
  refine ⟨hr, fun t' x hx hne => ?_⟩
  by_cases ht : t' = t
  · simp [endTransaction, ht] at hx
  have hx' : s.open_ t' = some x := by simpa [endTransaction, ht] using hx
  obtain ⟨hh, hp⟩ := h.pending t' x hx' hne
  rcases hs with rfl | hhe
  · refine ⟨?_, hp⟩
    simp [endTransaction, hh, ht]
  · rw [hh] at hhe
    exact absurd (Option.some.inj hhe) ht

theorem Inv.statement (h : Inv default max s) {x : Transaction} (hx : s.open_ t = some x)
    {parts : List (List Row)} {renamed : List Nat} (hok : UpToDate s (.statement t parts renamed)) :
    Inv default max (statement default max s t x parts renamed) := by
  obtain ⟨hw, hc⟩ := hok
  unfold search_work_mem_ceiling.statement
  split
  · exact h
  rename_i hh
  simp only [hc x hx]
  split
  · exact h.ended h.within (.inl rfl)
  rename_i hp
  refine ⟨h.within, fun t' x' hx' hne => ?_⟩
  by_cases ht : t' = t
  · obtain rfl := ht
    simp only [update_self, Option.some.injEq] at hx'
    subst hx'
    refine ⟨rfl, ?_⟩
    simp only [Bool.or_eq_true, Bool.not_eq_true', not_or, Bool.not_eq_false, all_eq_true] at hp
    have hsum := of_decide_eq_true (hp.2 _ hw)
    rw [put_followedBy, put, total_append]
    -- the rows that lose their names count in the check, but not in the table
    have hk := total_filter_add (resolved default) (!renamed.contains ·.datname)
      ((put s.rows x.written).filter (!named parts.flatten ·))
    simp only [filter_filter] at hk
    simp only [Writes.touches, Bool.not_or, Bool.and_comm]
    omega
  · simp only [update_of_ne ht] at hx'
    obtain ⟨hhe, -⟩ := h.pending t' x' hx' hne
    simp [hhe, ht] at hh

theorem Inv.step (s : Table) (e : Event) (h : Inv default max s) (hok : UpToDate s e) :
    Inv default max (step default max s e) := by
  cases e with
  | begin t isolation =>
    simp only [search_work_mem_ceiling.step]
    split
    · exact h
    refine ⟨h.within, fun t' x hx hne => ?_⟩
    by_cases ht : t' = t
    · simp only [ht, update_self, Option.some.injEq] at hx
      exact absurd (hx ▸ rfl) hne
    · simp only [update_of_ne ht] at hx
      exact h.pending t' x hx hne
  | statement t parts renamed =>
    simp only [search_work_mem_ceiling.step]
    split
    · exact h
    · rename_i x hx
      exact h.statement hx hok
  | commit t =>
    simp only [search_work_mem_ceiling.step]
    split
    · exact h
    rename_i x hx
    by_cases hn : x.written = {}
    · rw [hn, put_nothing]
      exact h.ended h.within (.inl rfl)
    · obtain ⟨hh, hsum⟩ := h.pending t x hx hn
      exact h.ended hsum (.inr hh)
  | abort t => exact h.ended h.within (.inl rfl)

/-- In every run whose statements read through an up to date snapshot, the committed rows are
within the ceiling in every state. -/
theorem up_to_date_statements_respect_the_ceiling (default max : Nat) (es : List Event)
    {rows : List Row} (hr : WithinCeiling default max ⟨rows, fun _ => none, none⟩)
    (hok : EachStep (step default max) UpToDate ⟨rows, fun _ => none, none⟩ es) :
    EachState (step default max) (WithinCeiling default max) ⟨rows, fun _ => none, none⟩ es := by
  refine eachState_invariant (Inv default max) Inv.step (fun _ h => h.within) ⟨hr, ?_⟩ hok
  intro t x hx
  cases hx

def row (datname mb : Nat) : Row := ⟨datname, some mb⟩

/-- Two read committed transactions; the second waits for the first, and is then refused. -/
theorem concurrent_inserts_respect_the_ceiling :
    EachState (step 10 100) (WithinCeiling 10 100) ⟨[], fun _ => none, none⟩
      [.begin 1 .readCommitted, .begin 2 .readCommitted, .statement 1 [[row 1 60]] [],
        .statement 2 [[row 2 60]] [], .commit 1, .statement 2 [[row 2 60]] [], .commit 2] :=
  up_to_date_statements_respect_the_ceiling 10 100 _ (Nat.zero_le _) (by decide)

/-- A repeatable read transaction does not count a row that was committed since. And an INSERT with
ON CONFLICT DO UPDATE is checked twice, each time without the other half. -/
theorem an_old_snapshot_passes_the_ceiling :
    ¬ WithinCeiling 10 100 (run (step 10 100) ⟨[], fun _ => none, none⟩
        [.begin 1 .readCommitted, .begin 2 .repeatableRead, .statement 1 [[row 1 60]] [], .commit 1,
          .statement 2 [[row 2 60]] [], .commit 2]) ∧
      ¬ WithinCeiling 10 100 (run (step 10 100) ⟨[row 1 20], fun _ => none, none⟩
        [.begin 1 .readCommitted, .statement 1 [[row 2 60], [row 1 60]] [], .commit 1]) := by
  unfold WithinCeiling
  decide

end svs_vamana.search_work_mem_ceiling
