-- Who owns the SVS handle of an index, along the four paths that load one and with an error at any
-- of their calls.
import SvsVamana.Lib.Runs

namespace svs_vamana.handle_ownership

open transition_runs

/-! ## The pure model -/

/-- The calls of the four paths that can raise an error or be refused. -/
inductive Call
  | validateMetaCounts
  | obtainIndex
  | setIndexSearchThreads
  | allocTidMap
  | loadTidMap
  | injectionPoint
  | startTransaction
  | confirmBuild
  | handoffBuild
  | allocCacheSlot
  | reconcileLoad
  | residencyRefusal
  | closeInsertReservation
  | recordLoad
  | seedSearchScratchCost
  | createTidHash
  | commitTransaction
  | openReplicationSlot
deriving DecidableEq, Repr

/-- A statement of a path: a call, with `freesOnError` where its error path calls `SVSFreeIndex`;
the library's return of a handle; the entry that takes it over; `svsIndex = NULL`. -/
inductive Act
  | call (c : Call) (freesOnError : Bool)
  | obtained
  | owned
  | forgotten
deriving DecidableEq, Repr

inductive LoadPath
  | disk
  | heapRebuild
  | loadSlot
  | firstInsert
deriving DecidableEq, Repr

/-- The function has a handler that frees a handle which is still in `svsIndex`. -/
def LoadPath.catches : LoadPath → Bool
  | .loadSlot => true
  | _ => false

/-- `VamanaCacheIndex`. -/
def cacheIndex : List Act :=
  [.call .allocCacheSlot false, .call .reconcileLoad false, .call .recordLoad false,
    .call .injectionPoint false, .call .allocTidMap false, .owned, .call .createTidHash false]

def LoadPath.acts : LoadPath → List Act
  | .disk =>
    [.call .validateMetaCounts false, .call .obtainIndex false, .obtained,
      .call .allocTidMap false, .call .loadTidMap true] ++ cacheIndex
  | .heapRebuild =>
    [.call .obtainIndex false, .obtained, .call .setIndexSearchThreads false,
      .call .injectionPoint false, .call .confirmBuild true, .call .handoffBuild false,
      .call .injectionPoint false] ++ cacheIndex
  | .loadSlot =>
    [.call .validateMetaCounts false, .call .obtainIndex false, .obtained,
      .call .allocTidMap false, .call .loadTidMap false, .call .injectionPoint false,
      .call .startTransaction false] ++ cacheIndex ++
    [.call .commitTransaction false, .forgotten, .call .openReplicationSlot false,
      .call .seedSearchScratchCost false]
  | .firstInsert =>
    [.call .startTransaction false, .call .commitTransaction false, .call .obtainIndex false,
      .obtained, .call .reconcileLoad false, .call .residencyRefusal true,
      .call .closeInsertReservation false, .call .recordLoad false,
      .call .seedSearchScratchCost false, .owned, .call .allocTidMap false,
      .call .createTidHash false]

/-- Whether the library has given a handle, `svsIndex` holds it, and the entry holds it, and how
often it has been freed. -/
structure Handle where
  obtained : Bool := false
  svsIndex : Bool := false
  entry : Bool := false
  freed : Nat := 0
deriving DecidableEq, Repr

def perform (h : Handle) : Act → Handle
  | .call _ _ => h
  | .obtained => { h with obtained := true, svsIndex := true }
  | .owned => { h with entry := true }
  | .forgotten => { h with svsIndex := false }

def freesOnError : Act → Bool
  | .call _ frees => frees
  | _ => false

/-- The path ends with an error at `a`: its error path and the handler of the function run. -/
def failAt (p : LoadPath) (h : Handle) (a : Act) : Handle :=
  { h with freed := h.freed + (if h.svsIndex && freesOnError a then 1 else 0) +
      (if h.svsIndex && p.catches then 1 else 0) }

/-- The valid entry owns a handle that has not been freed, or there is no owner and the handle has
been freed once. -/
def Owned (h : Handle) : Prop := h.obtained → h.freed = if h.entry then 0 else 1

/-- With a handler, the error does not come between the entry's taking the handle and `svsIndex =
NULL`; without one, not between the library's return and the entry's, but for a call that frees the
handle. -/
def Covered (p : LoadPath) (h : Handle) (a : Act) : Prop :=
  h.svsIndex → if p.catches then h.entry = false else h.entry ∨ freesOnError a

/-! ## Handles along a path -/

/-- The statements come in the order in which a handle goes from hand to hand, and a call frees
only what the handler does not. -/
def InOrder (p : LoadPath) (h : Handle) : Act → Prop
  | .call _ frees => frees → p.catches = false ∧ h.entry = false
  | .obtained => h.obtained = false
  | .owned => h.svsIndex ∧ h.entry = false
  | .forgotten => h.entry

instance (p : LoadPath) (h : Handle) : ∀ a, Decidable (InOrder p h a) := by
  intro a
  cases a <;> unfold InOrder <;> infer_instance

theorem acts_inOrder (p : LoadPath) : EachStep perform (InOrder p) {} p.acts := by
  cases p <;> decide

/-- Until an error comes, a handle is in `svsIndex` or with the entry and has not been freed. -/
structure Held (h : Handle) : Prop where
  kept : h.obtained = (h.svsIndex || h.entry)
  unfreed : h.freed = 0

variable {p : LoadPath} {h : Handle} {a : Act}

theorem held_perform (hh : Held h) (ha : InOrder p h a) : Held (perform h a) := by
  obtain ⟨hk, hf⟩ := hh
  cases a with
  | call c frees => exact ⟨hk, hf⟩
  | obtained => exact ⟨rfl, hf⟩
  | owned =>
    obtain ⟨hl, -⟩ := ha
    exact ⟨by simp [perform, hk, hl], hf⟩
  | forgotten =>
    have hen : h.entry = true := ha
    exact ⟨by simp [perform, hk, hen], hf⟩

theorem owned_failAt (hh : Held h) (ha : InOrder p h a) : Owned (failAt p h a) ↔ Covered p h a := by
  obtain ⟨hk, hfr⟩ := hh
  have hfre : freesOnError a → p.catches = false ∧ h.entry = false := by
    cases a with
    | call c frees => exact ha
    | _ => exact fun hf => absurd hf (by simp [freesOnError])
  unfold Owned Covered failAt
  cases hl : h.svsIndex <;> cases hen : h.entry <;> cases hc : p.catches <;>
    cases hf : freesOnError a <;> simp_all

end svs_vamana.handle_ownership
