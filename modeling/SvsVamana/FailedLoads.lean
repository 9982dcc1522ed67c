-- Loads that fail (vamanacache.c, svs_memory.c): as long as no error comes between the
-- reconciliation of a load and the validation of its entry, an eviction leaves no memory record.
import SvsVamana.VamanaCache

namespace svs_vamana.failed_loads

open transition_runs slot_table residency_books vamana_cache Database List
open svs_memory hiding Event step

/-! ## The pure model -/

/-- Attempts to load the index. Each may be refused or end in an error, but not in one after
`SvsMemoryReconcileLoad` and before the entry is valid. -/
def FailsOutside (relid : Nat) (_ : Database) : Event → Prop
  | .beginLoad load => load.indexRelid = relid
  | .endLoad _ populated => populated = true
  | _ => False

instance (relid : Nat) (s : Database) : ∀ e, Decidable (FailsOutside relid s e)
  | .beginLoad load => inferInstanceAs (Decidable (load.indexRelid = relid))
  | .endLoad _ populated => inferInstanceAs (Decidable (populated = true))
  | .reserveBuild .. | .confirmBuild _ | .handoffBuild | .abortBuild | .endBuild | .evict _
  | .restart | .other _ => isFalse id

/-- The index has no memory record, and the residency counter counts the other records and the
pending inserts only. -/
def NoResidue (relid : Nat) (s : Database) : Prop :=
  findReservation s.ledger.toEntry relid = none ∧ Balanced s.ledger.toEntry

deriving instance Decidable for NoResidue

/-! ## The record of an index -/

/-- Every record of the index is a resident one, and there is one only if `P`. -/
def ResidentIf (P : Prop) (relid : Nat) (l : Ledger) : Prop :=
  ∀ r, some r ∈ l.reservations → r.relid = relid → r.state = .resident ∧ P

variable {relid : Nat} {P : Prop} {l : Ledger}

theorem residentIf_absent (h : findReservation l.toEntry relid = none) : ResidentIf P relid l := by
  intro r hr hre
  obtain ⟨j, hj⟩ := mem_iff_getElem?.mp hr
  have ho : (r.relid == relid) = false := find_none h hj
  simp [hre] at ho

theorem accountUnload_absent (h : OnePerIndex l.toEntry) :
    ResidentIf P relid (accountUnload l relid).1 := by
  unfold accountUnload
  split
  · next hf => exact residentIf_absent hf
  next i r hf =>
  intro r' hr' hre'
  obtain ⟨hi, hre⟩ := findReservation_some hf
  obtain ⟨j, hj⟩ := mem_iff_getElem?.mp hr'
  have hs := congrArg (·.set i none) (memory_records.rebuildPeak_reservations l r "a build peak")
  replace hj : (l.reservations.set i none)[j]? = some (some r') := hs ▸ hj
  by_cases hij : j = i
  · have hlt := (List.getElem?_eq_some_iff.mp hi).1
    simp [hij, hlt] at hj
  · rw [getElem?_set_ne (Ne.symm hij)] at hj
    exact absurd (h j i r' r hj hi (hre'.trans hre.symm)) hij

theorem load_resident {e : Entry} {l' : Ledger} {now index bytes headroom : Nat}
    (h : Moves e (.reconcileLoad now index bytes headroom) l l') (hl : ResidentIf True relid l) :
    ResidentIf True relid l' := by
  generalize hop : Op.reconcileLoad now index bytes headroom = op at h
  induction h with
  | done => exact hl
  | checked hi hc _ ih =>
    apply ih
    unfold ResidentIf
    rw [hc.reservations]
    exact hl
  | post hp turn target _ ih =>
    refine ih fun r' hr' => hp.reservations.forall (P := fun r => r.relid = relid → _) hl ?_ hr'
    rintro r' rfl hr
    subst hop
    cases turn with
    | loaded | loadedFresh | restored => exact ⟨rfl, trivial⟩
    | headroom _ r => exact hl r hp.reservations.mem hr

theorem reconcileLoad_refused {now bytes headroom : Nat}
    (h : succeeded (reconcileLoad l now relid bytes headroom).2 = false) :
    (reconcileLoad l now relid bytes headroom).1.reservations = l.reservations := by
  unfold reconcileLoad at h ⊢
  grind [succeeded, Ledger.checkResidency]

/-! ## The law -/

/-- The books are in order, a load that is under way is one of the index, and the index has a
record only while its entry is valid. -/
structure Accounted (relid : Nat) (s : Database) : Prop where
  books : Books s.ledger
  balanced : Balanced s.ledger.toEntry
  loading : ∀ load ∈ s.loading, load.indexRelid = relid
  record : ResidentIf (s.entries relid = some true) relid s.ledger

variable {s : Database} {e : Event}

section

variable (h : Accounted relid s)
include h

theorem destroyCacheEntry_absent :
    Balanced (s.destroyCacheEntry relid).ledger.toEntry ∧
      ResidentIf False relid (s.destroyCacheEntry relid).ledger := by
  unfold destroyCacheEntry
  split
  · next hen =>
    refine ⟨h.balanced, ?_⟩
    simpa [hen] using h.record
  · have hm := moves_kept (apply_moves s.ledger (.accountUnload relid)) h.books.covered
      h.books.distinct
    refine ⟨hm.balanced ?_ h.balanced, accountUnload_absent h.books.distinct⟩
    rintro index ⟨⟩ x hx
    obtain ⟨hi, hr⟩ := findReservation_some hx
    have hst := (h.record x.2 (mem_of_getElem? hi) hr).1
    exact ⟨by simp [reanchoredAt], fun _ => by simp [hst]⟩

theorem accounted_beginLoad {load : Load} (hl : load.indexRelid = relid) :
    Accounted relid (s.beginCacheIndex load) := by
  subst hl
  obtain ⟨hbal, hg⟩ := destroyCacheEntry_absent h
  have hbo := (booksAfter_books h.books (if s.entries load.indexRelid = none then none
    else some (.accountUnload load.indexRelid))).1
  rw [← destroyCacheEntry_ledger] at hbo
  refine ⟨hbo, hbal, by simp [beginCacheIndex], fun r hr hre => ?_⟩
  exact (hg r hr hre).2.elim

theorem accounted_endLoad (now : Nat) : Accounted relid (s.endCacheIndex relid now true) := by
  unfold endCacheIndex
  cases hl : s.loading with
  | none => exact h
  | some load =>
    obtain rfl : load.indexRelid = relid := h.loading load hl
    let op := Op.reconcileLoad now load.indexRelid load.measuredBytes load.capacityHeadroomVectors
    have hbo := (booksAfter_books h.books (some op)).1
    have hbal : Balanced (op.apply s.ledger).1.toEntry := by
      have hm := moves_kept (apply_moves s.ledger op) h.books.covered h.books.distinct
      exact hm.balanced (fun _ _ _ _ => ⟨by simp [op, reanchoredAt], by simp [op, unloads]⟩)
        h.balanced
    have hrec : ResidentIf True load.indexRelid (op.apply s.ledger).1 :=
      load_resident (apply_moves s.ledger op) fun r hr hre =>
        ⟨(h.record r hr hre).1, trivial⟩
    -- the entry is valid once the load has succeeded
    have hv (s' : Database) (hen : s'.entries load.indexRelid = some true)
        (hle : s'.ledger = (op.apply s.ledger).1) :
        ResidentIf (s'.entries load.indexRelid = some true) load.indexRelid s'.ledger := by
      simpa [hen, hle] using hrec
    dsimp only
    split
    · split
      · exact ⟨hbo, hbal, by simp [setEntry], hv _ (by simp [setEntry]) rfl⟩
      · exact ⟨hbo, hbal, by simp [setEntry], hv _ (by simp [setEntry]) rfl⟩
    · next hf =>
      refine ⟨hbo, hbal, by simp, ?_⟩
      have hs := reconcileLoad_refused (Bool.eq_false_iff.mpr hf)
      intro r hr
      exact h.record r (hs ▸ hr)

theorem step_accounted (he : FailsOutside relid s e) : Accounted relid (step relid s e) := by
  cases e with
  | beginLoad load =>
    simp only [step]
    split
    · exact accounted_beginLoad h he
    · exact h
  | endLoad now populated =>
    obtain rfl : populated = true := he
    exact accounted_endLoad h now
  | reserveBuild | confirmBuild | handoffBuild | abortBuild | endBuild | evict | restart
  | other => exact he.elim

end

theorem evict_noResidue (h : Accounted relid s) : NoResidue relid (s.evictCacheEntry relid) := by
  have hf {s : Database} (hs : ResidentIf False relid s.ledger) :
      findReservation s.ledger.toEntry relid = none := by
    rw [Option.eq_none_iff_forall_not_mem]
    intro x hx
    obtain ⟨hi, hr⟩ := findReservation_some hx
    exact (hs x.2 (mem_of_getElem? hi) hr).2
  unfold evictCacheEntry
  split
  · obtain ⟨hbal, hg⟩ := destroyCacheEntry_absent h
    exact ⟨hf hg, hbal⟩
  · next hv =>
    refine ⟨hf ?_, h.balanced⟩
    simpa [hv] using h.record

/-- In every run of load attempts without an error between `SvsMemoryReconcileLoad` and the
validation of the entry, an eviction leaves no reservation of the index in any state. -/
theorem an_eviction_leaves_no_residue (relid : Nat) {s : Database} (hs : Accounted relid s)
    (es : List Event) (h : EachStep (step relid) (FailsOutside relid) s es) :
    EachState (step relid) (fun s => NoResidue relid (s.evictCacheEntry relid)) s es :=
  eachState_invariant (Accounted relid) (fun _ _ hs he => step_accounted hs he)
    (fun _ hs => evict_noResidue hs) hs h

theorem start_accounted (relid residencyBudget total : Nat) :
    Accounted relid (start residencyBudget total) := by
  obtain ⟨-, -, hbal⟩ := empty_books (e := { residencyBudget }) rfl rfl rfl
  refine ⟨start_books residencyBudget total, hbal, by simp [start], fun r hr => ?_⟩
  exact absurd (eq_of_mem_replicate hr) (by simp)

/-- A load that the budget refuses, and then one that succeeds. -/
theorem refused_loads_leave_no_residue :
    EachState (step 7) (fun s => NoResidue 7 (s.evictCacheEntry 7)) (start 100 0)
      [.beginLoad ⟨7, 120, 0⟩, .endLoad 3 true, .beginLoad ⟨7, 60, 0⟩, .endLoad 4 true] :=
  an_eviction_leaves_no_residue 7 (start_accounted 7 100 0) _ (by decide +kernel)

/-- An error comes after the load has been reconciled and before its entry is valid: the eviction
passes over the entry, and the record stays with its bytes. -/
theorem a_failed_load_leaves_a_reservation :
    ¬ NoResidue 7 ((run (step 7) (start 100 0)
      [.beginLoad ⟨7, 60, 0⟩, .endLoad 1 false]).evictCacheEntry 7) ∧
    ((run (step 7) (start 100 0)
      [.beginLoad ⟨7, 60, 0⟩, .endLoad 1 false]).evictCacheEntry
        7).ledger.residencyBytesCommitted = 60 := by
  decide +kernel

end svs_vamana.failed_loads
