-- The answer to a search: the TIDs of the ids that the library returns, but not of deleted rows.
import SvsVamana.ServerOk
import SvsVamana.TidMaps

namespace svs_vamana.search_results

open transition_runs index_cache database replay server tid_maps List

variable {V D : Type}

/-- The loop over the ids of one query and their distances, with room for `k` results. It ends
with an error at an id that the TID map has no slot for. -/
def resolve (c : IndexCache V) : Nat → List (Nat × D) → Option (List (Tid × D))
  | 0, _ => some []
  | _, [] => some []
  | k + 1, (id, distance) :: row =>
    if id ≥ c.tidMapping.length then none
    else
      match c.tidOf id with
      | none => resolve c (k + 1) row
      | some t => (resolve c k row).map ((t, distance) :: ·)

/-- `SVSSearch` on what the library returns. -/
def svsSearch (c : IndexCache V) (k : Nat) (row : List (Nat × D)) : Option (List (Tid × D)) :=
  resolve c k (row.take c.numVectors)

/-- `SVSBatchSearch` on what the library returns for each query. -/
def svsBatchSearch (c : IndexCache V) (k : Nat) (rows : List (List (Nat × D))) :
    Option (List (List (Tid × D))) :=
  rows.mapM fun row => resolve c k (row.take c.numVectors)

/-- The rows that the ids stand for, without deleted ones. -/
def live (c : IndexCache V) (row : List (Nat × D)) : List (Tid × D) :=
  row.filterMap fun p => (c.tidOf p.1).map (·, p.2)

def InRange (c : IndexCache V) (row : List (Nat × D)) : Prop :=
  ∀ p ∈ row, p.1 < c.tidMapping.length

/-- The first ids, as many as there are live rows, have `k` live ones among them, or no other id
is live. -/
def CutSpares (c : IndexCache V) (k : Nat) (row : List (Nat × D)) : Prop :=
  k ≤ (live c (row.take c.numVectors)).length ∨ live c (row.drop c.numVectors) = []

variable {c : IndexCache V} {k : Nat} {row : List (Nat × D)}

theorem resolve_eq (h : InRange c row) : resolve c k row = some ((live c row).take k) := by
  induction row generalizing k with
  | nil => cases k <;> simp [resolve, live]
  | cons p row ih =>
    obtain ⟨id, distance⟩ := p
    have hid : ¬ id ≥ c.tidMapping.length := Nat.not_le.mpr (h _ mem_cons_self)
    have hrow : InRange c row := fun q hq => h q (mem_cons_of_mem _ hq)
    cases k with
    | zero => simp [resolve]
    | succ k =>
      rw [resolve, if_neg hid]
      cases ht : c.tidOf id with
      | none => simp [ih hrow, live, ht]
      | some t => simp [ih hrow, live, ht]

theorem search_returns_iff (h : InRange c row) :
    resolve c k (row.take c.numVectors) = some ((live c row).take k) ↔ CutSpares c k row := by
  rw [resolve_eq fun p hp => h p (mem_of_mem_take hp), Option.some.injEq]
  have hl : live c row = live c (row.take c.numVectors) ++ live c (row.drop c.numVectors) := by
    rw [live, live, live, ← filterMap_append, take_append_drop]
  rw [hl, take_append, CutSpares, self_eq_append_right, take_eq_nil_iff, Nat.sub_eq_zero_iff_le]

/-- A search returns the first `k` live rows that the library names, in its order and with its
distances, exactly when the cut to the number of live rows leaves them in. -/
theorem searches_return_the_live_candidates_iff (c : IndexCache V) (k : Nat)
    (rows : List (List (Nat × D))) (h : ∀ row ∈ rows, InRange c row) :
    (∀ row ∈ rows, svsSearch c k row = some ((live c row).take k) ↔ CutSpares c k row) ∧
    (svsBatchSearch c k rows = some (rows.map fun row => (live c row).take k) ↔
      ∀ row ∈ rows, CutSpares c k row) := by
  refine ⟨fun row hrow => search_returns_iff (h row hrow), ?_⟩
  induction rows with
  | nil => simp [svsBatchSearch]
  | cons row rows ih =>
    have hr := search_returns_iff (k := k) (h row mem_cons_self)
    have hrs := ih fun r hmem => h r (mem_cons_of_mem _ hmem)
    rw [forall_mem_cons, ← hr, ← hrs]
    simp [svsBatchSearch, Option.bind_eq_some_iff]

theorem resolve_spec :
    ∀ answer ∈ resolve c k row, answer.length ≤ k ∧ ∀ x ∈ answer, ∃ id, c.tidOf id = some x.1 := by
  fun_induction resolve c k row <;> grind [Option.mem_map]

/-- Two rows, the first one deleted. -/
def oneDeleted : Resident Nat :=
  run step ⟨vamanaCacheIndex none [] 0 0 0, noMeta⟩ [.insert .built insertOk rowA 10,
    .insert .built insertOk rowB 20, .delete .written [0]]

/-- A live row that is nearest is found. -/
theorem nearest_live_row_is_returned :
    svsSearch oneDeleted.cache 1 [(1, 5), (0, 7)] =
      some ((live oneDeleted.cache [(1, 5), (0, 7)]).take 1) := by
  refine ((searches_return_the_live_candidates_iff oneDeleted.cache 1 [_] ?_).1 _
    (mem_singleton.mpr rfl)).mpr (.inl ?_)
  · unfold InRange
    decide +kernel
  decide +kernel

/-- The deleted row is nearer to the query, and the search returns nothing. -/
theorem live_row_behind_a_deleted_one_is_lost :
    (∀ p ∈ [(0, 5), (1, 7)], p.1 < oneDeleted.cache.tidMapping.length) ∧
    (live oneDeleted.cache [(0, 5), (1, 7)]).take 1 = [(rowB, 7)] ∧
    svsSearch oneDeleted.cache 1 [(0, 5), (1, 7)] = some [] ∧
    svsBatchSearch oneDeleted.cache 1 [[(0, 5), (1, 7)]] = some [[]] := by
  decide +kernel

end svs_vamana.search_results
