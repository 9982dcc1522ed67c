-- Inserts that fail after the library has done its part: the errors after `SVSAddPoints`, and those
-- of the first insert, which builds the graph.
import SvsVamana.TidMaps

namespace svs_vamana.failed_inserts

open index_cache saved_index write_slot tid_maps

variable {V : Type}

/-! ## An insert into a graph -/

/-- The calls that can raise an error once the point is in the graph. -/
inductive LateError
  | reanchor
  | mapGrowth
  | hashInsert
  | persist
deriving DecidableEq, Repr

variable (t : Tid) (v : V) (g : SvsIndex V) (c : IndexCache V)

/-- The entry that the INSERT case of `VamanaWorkerExecuteWriteSlot` leaves: what comes before
the error is done, and the handler takes nothing of it back. -/
def entryAfter : LateError → IndexCache V
  | .reanchor => { c with svsIndex := some (withPoint g c.nextExternalId v) }
  | .mapGrowth => { c with svsIndex := some (withPoint g c.nextExternalId v) }
  | .hashInsert =>
    { c with
      svsIndex := some (withPoint g c.nextExternalId v)
      tidMapping :=
        (growTidMapping c.tidMapping c.nextExternalId).set c.nextExternalId (some t) }
  | .persist => mapNewPoint c (withPoint g c.nextExternalId v) t c.nextExternalId

theorem executeInsertSlot_late (p : MetaPersist) (m : MetaPage) :
    executeInsertSlot ⟨true, false, p⟩ t v g c m = (entryAfter t v g c .reanchor, m, .error) ∧
      executeInsertSlot ⟨true, true, .failed⟩ t v g c m = (entryAfter t v g c .persist, m, .error) :=
  ⟨rfl, rfl⟩

/-- The ids from `nextExternalId` on are still to be given out. -/
def IdsFree (c : IndexCache V) : Prop := ∀ e, c.nextExternalId ≤ e → c.point e = none

/-- The entry is as it was or has the new point everywhere, and the next id is a new one. -/
def AllOrNothing (c' : IndexCache V) : Prop :=
  (Alike c c' ∨ Alike (mapNewPoint c (withPoint g c.nextExternalId v) t c.nextExternalId) c') ∧
    (IdsFree c → IdsFree c')

variable {g c}

theorem point_withPoint {c' : IndexCache V}
    (hg' : c'.svsIndex = some (withPoint g c.nextExternalId v)) (e : Nat) :
    c'.point e = if e = c.nextExternalId then some v else g.point e := by
  rw [IndexCache.point, hg']
  exact Function.update_apply g.point c.nextExternalId (some v) e

theorem not_allOrNothing {c' : IndexCache V} (ha : c.point c.nextExternalId = none)
    (hg' : c'.svsIndex = some (withPoint g c.nextExternalId v))
    (hn : c'.nextExternalId = c.nextExternalId) : ¬ AllOrNothing t v g c c' := by
  rintro ⟨hs | hnew, -⟩
  · have hp := point_withPoint v hg' c.nextExternalId
    rw [hs.point, ha, if_pos rfl] at hp
    cases hp
  · have := hnew.nextExternalId
    simp only [mapNewPoint] at this
    omega

theorem idsFree_recorded (hg : c.svsIndex = some g) (h : IdsFree c) :
    IdsFree (entryAfter t v g c .persist) := by
  intro e he
  have hlt : c.nextExternalId + 1 ≤ e := he
  have hold : g.point e = none := by
    have := h e (by omega)
    rwa [IndexCache.point, hg] at this
  rw [point_withPoint (g := g) (c := c) v rfl, if_neg (by omega), hold]

/-- An insert whose point the library has taken is undone or recorded as a whole exactly when
the error comes from the last call, the one that writes the metapage. -/
theorem an_error_spares_the_insert_iff (hg : c.svsIndex = some g)
    (ha : c.point c.nextExternalId = none) (err : LateError) :
    AllOrNothing t v g c (entryAfter t v g c err) ↔ err = .persist := by
  cases err with
  | reanchor | mapGrowth | hashInsert =>
    exact iff_of_false (not_allOrNothing t v ha rfl rfl) LateError.noConfusion
  | persist => exact iff_of_true ⟨.inr (.refl _), idsFree_recorded t v hg⟩ rfl

def oneRowGraph : SvsIndex Nat := ⟨fun e => if e = 0 then some 10 else none⟩

def oneRow : IndexCache Nat := vamanaCacheIndex (some oneRowGraph) [some ⟨0, 1⟩] 1 1 0

theorem a_failed_metapage_write_is_recorded :
    AllOrNothing ⟨0, 2⟩ 20 oneRowGraph oneRow (entryAfter ⟨0, 2⟩ 20 oneRowGraph oneRow .persist) :=
  (an_error_spares_the_insert_iff ⟨0, 2⟩ 20 rfl rfl .persist).mpr rfl

/-- An INSERT slot on a library that refuses an id it has. -/
def insertNext (t : Tid) (v : V) (c : IndexCache V) (m : MetaPage) :
    IndexCache V × MetaPage × SlotEnd :=
  match c.svsIndex with
  | none => (c, m, .error)
  | some g => executeInsertSlot ⟨(g.point c.nextExternalId).isNone, true, .written⟩ t v g c m

/-- The reservation is not found, and the point of the second row is in the graph under id 1;
no insert gets through any more, since each of them asks for id 1. -/
theorem an_insert_without_a_reservation_blocks_the_index :
    let c' := entryAfter ⟨0, 2⟩ 20 oneRowGraph oneRow .reanchor
    ¬ AllOrNothing ⟨0, 2⟩ 20 oneRowGraph oneRow c' ∧
      ∀ t v m, insertNext t v c' m = (c', m, .error) := by
  refine ⟨not_allOrNothing _ _ rfl rfl rfl, fun t v m => ?_⟩
  rfl

/-! ## The first insert -/

/-- The errors of a first insert, in the order of `VamanaWorkerBuildEmptyTableIndex`. -/
inductive FirstError
  | library
  | refused
  | residency
  | maps
  | slotCreation
  | persist
deriving DecidableEq, Repr

/-- The entry, and the bytes that the reservation of the index stands for. -/
structure Accounted (V : Type) where
  cache : IndexCache V
  bytes : Nat

/-- What the error leaves. `numVectors` is 1 from before the admission on. -/
def afterFirst (measuredBytes : Nat) (t : Tid) (v : V) (s : Accounted V) : FirstError → Accounted V
  | .library => s
  | .refused => { s with cache := { s.cache with numVectors := 1 } }
  | .residency => ⟨{ s.cache with numVectors := 1 }, measuredBytes⟩
  | .maps =>
    ⟨{ s.cache with
      svsIndex := (buildFirstInsert t v s.cache).svsIndex
      numVectors := 1
      nextExternalId := 1 }, measuredBytes⟩
  | .slotCreation => ⟨buildFirstInsert t v s.cache, measuredBytes⟩
  | .persist => ⟨buildFirstInsert t v s.cache, measuredBytes⟩

theorem buildEmptyTableIndex_fails (measuredBytes : Nat) (p : MetaPersist) (s : Accounted V)
    (m : MetaPage) :
    (buildEmptyTableIndex .failed p t v ⟨s.cache, m⟩).cache =
        (afterFirst measuredBytes t v s .library).cache ∧
      (buildEmptyTableIndex .refused p t v ⟨s.cache, m⟩).cache =
        (afterFirst measuredBytes t v s .refused).cache ∧
      (buildEmptyTableIndex .built .failed t v ⟨s.cache, m⟩).cache =
        (afterFirst measuredBytes t v s .persist).cache :=
  ⟨rfl, rfl, rfl⟩

/-- How `VamanaWorkerRunBatch` answers from the entry. -/
inductive BatchEnd
  | searched
  | noRows
  | notLoaded
deriving DecidableEq, Repr

def runBatch (c : IndexCache V) : BatchEnd :=
  if c.svsIndex.isSome then .searched else if c.numVectors = 0 then .noRows else .notLoaded

/-- Searches find no rows, the next insert is a first one, and no bytes are held without a
graph. -/
structure Usable (s : Accounted V) : Prop where
  search : runBatch s.cache = .noRows
  first : s.cache.svsIndex = none
  bytes : s.cache.svsIndex = none → s.bytes = 0

/-- An index without rows is as usable after a failed first insert as before it exactly when
the library was what failed. -/
theorem an_empty_index_stays_usable_iff (measuredBytes : Nat) {s : Accounted V} (h : Usable s)
    (err : FirstError) : Usable (afterFirst measuredBytes t v s err) ↔ err = .library := by
  have hnot : ∀ s' : Accounted V, s'.cache.numVectors = 1 → ¬ Usable s' := by
    intro s' hone hu
    have := hu.search
    simp [runBatch, hu.first, hone] at this
  cases err with
  | library => exact iff_of_true h rfl
  | refused | residency | maps | slotCreation | persist =>
    exact iff_of_false (hnot _ rfl) FirstError.noConfusion

def emptyEntry : Accounted Nat := ⟨vamanaCacheIndex none [] 0 0 0, 0⟩

theorem a_failed_build_leaves_the_index_empty :
    Usable (afterFirst 100 ⟨0, 1⟩ 10 emptyEntry .library) :=
  (an_empty_index_stays_usable_iff ⟨0, 1⟩ 10 100 (s := emptyEntry) ⟨rfl, rfl, fun _ => rfl⟩ _).mpr rfl

/-- The budget refuses the first graph: searches fail from then on. And an error right after
the admission leaves the bytes of a graph that no entry has. -/
theorem a_refused_first_insert_breaks_searches :
    runBatch emptyEntry.cache = .noRows ∧
      runBatch (afterFirst 100 ⟨0, 1⟩ 10 emptyEntry .refused).cache = .notLoaded ∧
      (afterFirst 100 ⟨0, 1⟩ 10 emptyEntry .residency).bytes = 100 ∧
      (afterFirst 100 ⟨0, 1⟩ 10 emptyEntry .residency).cache.svsIndex = none :=
  ⟨rfl, rfl, rfl, rfl⟩

end svs_vamana.failed_inserts
