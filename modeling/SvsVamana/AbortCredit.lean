-- The credit for aborted inserts (vamana_undo.c, svs_memory.c): wherever its batches are cut, an
-- abort moves the same bytes from what an index counts to what it can reclaim.
import SvsVamana.ResidencyBooks
import SvsVamana.UndoExactness

namespace svs_vamana.abort_credit

open transition_runs slot_table residency_books undo_exactness ConsolidatingUndoBatch List
open svs_memory hiding Event step

/-! ## What is moved -/

/-- The growth of the entries of one generation of an index. -/
def growthAt (relid generation : Nat) (entries : List VamanaUndoEntry) : Nat :=
  total (fun e => if e.indexRelid = relid ∧ e.generation.toNat = generation then
    e.growthBytes.toNat else 0) entries

/-- The bytes that entries move for a record. -/
def credited (entries : List VamanaUndoEntry) (r : Reservation) : Nat :=
  if r.state = .resident then
    min (growthAt r.relid r.residentGeneration entries) r.measuredBytes
  else 0

def settle (entries : List VamanaUndoEntry) (r : Reservation) : Reservation :=
  { r with
    measuredBytes := r.measuredBytes - credited entries r
    reclaimableBytes := r.reclaimableBytes + credited entries r }

/-- Only the credits among the requests of an abort reach the memory accounting. -/
def applyRequest (compactThresholdPct : Nat) (l : Ledger) : Request → Ledger
  | .credit relid generation growth =>
    (creditAbortedInserts l relid generation.toNat growth.toNat compactThresholdPct).1
  | _ => l

/-! ## The closed form -/

theorem growthAt_append (relid generation : Nat) (l l' : List VamanaUndoEntry) :
    growthAt relid generation (l ++ l') =
      growthAt relid generation l + growthAt relid generation l' :=
  total_append _ l l'

theorem credited_le (entries : List VamanaUndoEntry) (r : Reservation) :
    credited entries r ≤ r.measuredBytes := by
  unfold credited
  split <;> omega

variable {entries chunk : List VamanaUndoEntry} {r : Reservation}

theorem settle_append (h : r.state = .resident → growthAt r.relid r.residentGeneration chunk = 0) :
    settle (entries ++ chunk) r = settle entries r := by
  have hsa : credited (entries ++ chunk) r = credited entries r := by
    unfold credited
    split
    · next hs => rw [growthAt_append, h hs, Nat.add_zero]
    · rfl
  simp only [settle, hsa]

theorem settle_credit (hs : r.state = .resident) {c : Nat}
    (hc : c = min (growthAt r.relid r.residentGeneration chunk) (settle entries r).measuredBytes) :
    settle (entries ++ chunk) r =
      { settle entries r with
        measuredBytes := (settle entries r).measuredBytes - c
        reclaimableBytes := (settle entries r).reclaimableBytes + c } := by
  have hsum : credited (entries ++ chunk) r = credited entries r + c := by
    simp only [credited, hs, if_true, growthAt_append, settle] at hc ⊢
    omega
  simp only [settle, hsum]
  congr 1 <;> omega

theorem settle_nil (r : Reservation) : settle [] r = r := by
  have hz : credited [] r = 0 := by simp [credited, growthAt]
  simp [settle, hz]

/-- What the block has come to, from `l`, when the credits of some entries are through. -/
structure Settled (l : Ledger) (entries : List VamanaUndoEntry) (l' : Ledger) : Prop where
  reservations : l'.reservations = l.reservations.map (Option.map (settle entries))
  moved : l'.residencyBytesCommitted + sumReclaimableBytes l'.toEntry =
    l.residencyBytesCommitted + sumReclaimableBytes l.toEntry
  covered : Covered l'.toEntry
  distinct : OnePerIndex l'.toEntry

variable {l : Ledger}

theorem settled_refl (hc : Covered l.toEntry) (hd : OnePerIndex l.toEntry) : Settled l [] l := by
  refine ⟨?_, rfl, hc, hd⟩
  have hid : (Option.map (settle []) : Option Reservation → Option Reservation) = id := by
    funext x
    cases x <;> simp [settle_nil]
  rw [hid, map_id]

variable {l' : Ledger}

theorem Settled.find (h : Settled l entries l') (relid : Nat) :
    findReservation l'.toEntry relid =
      (findReservation l.toEntry relid).map fun x => (x.1, settle entries x.2) := by
  unfold findReservation
  rw [h.reservations]
  apply find_map
  intro r
  rfl

theorem Settled.unmoved (h : Settled l entries l')
    (hn : ∀ r, some r ∈ l.reservations → r.state = .resident →
      growthAt r.relid r.residentGeneration chunk = 0) : Settled l (entries ++ chunk) l' := by
  refine ⟨?_, h.moved, h.covered, h.distinct⟩
  rw [h.reservations]
  apply map_congr_left
  intro x hx
  cases x with
  | none => rfl
  | some r => rw [Option.map_some, Option.map_some, settle_append (hn r hx)]

variable {relid : Nat}

theorem growthAt_other {relid' : Nat} (hr : ∀ e ∈ chunk, e.indexRelid = relid)
    (hne : relid' ≠ relid) (generation : Nat) : growthAt relid' generation chunk = 0 := by
  unfold growthAt
  rw [total_eq_zero]
  intro e he
  rw [if_neg]
  rintro ⟨hs, -⟩
  exact hne (hs.symm.trans (hr e he))

variable {i : Nat}

theorem growthAt_elsewhere (hre : ∀ e ∈ chunk, e.indexRelid = relid)
    (hd : OnePerIndex l.toEntry) (hf : findReservation l.toEntry relid = some (i, r))
    (j : Nat) (r' : Reservation) (hj : l.reservations[j]? = some (some r')) (hji : j ≠ i) :
    growthAt r'.relid r'.residentGeneration chunk = 0 := by
  obtain ⟨hi, hr⟩ := findReservation_some hf
  apply growthAt_other hre
  intro hs
  exact hji (hd j i r' r hj hi (hs.trans hr.symm))

theorem measuredBytes_le_committed (hc : Covered l.toEntry)
    (hs : l.reservations[i]? = some (some r)) : r.measuredBytes ≤ l.residencyBytesCommitted := by
  have hbo := measuredBytes_le_booked r
  have ht : booked r ≤ bookedBytes l.toEntry := le_total (weight booked) hs
  unfold Covered at hc
  omega

theorem map_settle_set (h : Settled l entries l') (hi : l.reservations[i]? = some (some r))
    (hs : l'.reservations[i]? = some (some (settle entries r)))
    (ho : ∀ (j : Nat) (r' : Reservation), l.reservations[j]? = some (some r') → j ≠ i →
      growthAt r'.relid r'.residentGeneration chunk = 0) :
    l'.reservations.set i (some (settle (entries ++ chunk) r)) =
      l.reservations.map (Option.map (settle (entries ++ chunk))) := by
  have hlt : i < l'.reservations.length := (List.getElem?_eq_some_iff.mp hs).1
  apply ext_getElem?
  intro j
  by_cases hji : j = i
  · subst hji
    simp [hlt, hi]
  rw [getElem?_set_ne (Ne.symm hji), h.reservations, getElem?_map, getElem?_map]
  cases hj : l.reservations[j]? with
  | none => rfl
  | some x =>
    cases x with
    | none => rfl
    | some r' => simp [settle_append fun _ => ho j r' hj hji]

/-- One credit. The growth of the chunk is for the index alone, and the credit names it if the
chunk reaches the generation of its record. -/
theorem Settled.credit (h : Settled l entries l') {generation growth pct : Nat} (hpct : pct < 100)
    (hre : ∀ e ∈ chunk, e.indexRelid = relid) (hd : OnePerIndex l.toEntry)
    (hgr : ∀ r, some r ∈ l.reservations → r.relid = relid → r.state = .resident →
      if r.residentGeneration = generation then
        growth = growthAt relid generation chunk
      else growthAt relid r.residentGeneration chunk = 0) :
    Settled l (entries ++ chunk) (creditAbortedInserts l' relid generation growth pct).1 := by
  have hk := moves_kept
    (apply_moves l' (.creditAbortedInserts relid generation growth pct)) h.covered h.distinct
  simp only [Op.apply] at hk
  revert hk
  unfold creditAbortedInserts
  rw [h.find]
  cases hf : findReservation l.toEntry relid with
  | none =>
    intro _
    refine h.unmoved fun r hr _ => growthAt_other hre (fun hsa => ?_) _
    obtain ⟨i, hi⟩ := getElem?_of_mem hr
    have := find_none hf hi
    simp [hsa] at this
  | some x =>
    obtain ⟨i, r⟩ := x
    obtain ⟨hi, hr⟩ := findReservation_some hf
    have ho := growthAt_elsewhere hre hd hf
    have hmem := mem_of_getElem? hi
    dsimp only [Option.map_some]
    split
    · next hco =>
      intro hk
      obtain ⟨hs, hgen, -⟩ : r.state = .resident ∧ r.residentGeneration = generation ∧ _ := hco
      have hg : growth = growthAt r.relid r.residentGeneration chunk := by
        have := hgr r hmem hr hs
        rw [if_pos hgen] at this
        rw [this, hr, hgen]
      generalize hc : min growth (settle entries r).measuredBytes = c at hk ⊢
      have hse : settle (entries ++ chunk) r =
          { settle entries r with
            measuredBytes := (settle entries r).measuredBytes - c
            reclaimableBytes := (settle entries r).reclaimableBytes + c } :=
        settle_credit hs (hg ▸ hc.symm)
      have hsl : l'.reservations[i]? = some (some (settle entries r)) := by
        simp [h.reservations, hi]
      refine ⟨?_, ?_, hk.covered, hk.distinct⟩
      · simp only [Ledger.release, Ledger.post, Ledger.checkResidency, ← hse]
        exact map_settle_set h hi hsl ho
      · have hle : c ≤ l'.residencyBytesCommitted := by
          have hme := measuredBytes_le_committed h.covered hsl
          omega
        have hsum := total_set (weight fun r : Reservation => r.reclaimableBytes)
          (some (settle (entries ++ chunk) r)) hsl
        have hm := h.moved
        simp only [hse, weight] at hsum
        simp only [sumReclaimableBytes, Ledger.release, Ledger.post, Ledger.checkResidency] at hm ⊢
        omega
    · next hco =>
      intro _
      refine h.unmoved fun r' hr' hs' => ?_
      obtain ⟨j, hj⟩ := getElem?_of_mem hr'
      by_cases hji : j = i
      · subst hji
        obtain rfl : r' = r := by simpa [hj] using hi
        have := hgr r' hr' hr hs'
        rw [if_neg, ← hr] at this
        · exact this
        · intro hgen
          exact hco ⟨hs', hgen, hpct⟩
      · exact ho j r' hj hji

/-! ## The batcher -/

/-- The entries in the current batch. -/
structure Chunked (b : ConsolidatingUndoBatch) (chunk : List VamanaUndoEntry) : Prop where
  ids : b.batchIds = chunk.map (·.externalId)
  relid : ∀ e ∈ chunk, e.indexRelid = b.currentRelid
  highest : ∀ e ∈ chunk, e.generation.toNat ≤ b.batchGeneration.toNat
  reached : b.batchGeneration = 0 ∨ ∃ e ∈ chunk, e.generation = b.batchGeneration
  growth : b.batchGrowth.toNat =
    growthAt b.currentRelid b.batchGeneration.toNat chunk % UInt64.size

theorem growthAt_higher {generation : Nat} (h : ∀ e ∈ entries, e.generation.toNat < generation) :
    growthAt relid generation entries = 0 := by
  unfold growthAt
  rw [total_eq_zero]
  intro e he
  rw [if_neg]
  rintro ⟨-, hgen⟩
  have := h e he
  omega

variable {e : VamanaUndoEntry}

theorem growthAt_concat (hr : e.indexRelid = relid) (generation : Nat)
    (chunk : List VamanaUndoEntry) :
    growthAt relid generation (chunk ++ [e]) =
      growthAt relid generation chunk +
        if e.generation.toNat = generation then e.growthBytes.toNat else 0 := by
  rw [growthAt_append]
  simp [growthAt, hr]

variable {b : ConsolidatingUndoBatch}

theorem Chunked.add (h : Chunked b chunk) (hrel : e.indexRelid = b.currentRelid) :
    Chunked
      (if e.generation > b.batchGeneration then
        { b with
          batchIds := b.batchIds ++ [e.externalId]
          batchGeneration := e.generation
          batchGrowth := e.growthBytes }
      else if e.generation = b.batchGeneration then
        { b with
          batchIds := b.batchIds ++ [e.externalId]
          batchGrowth := b.batchGrowth + e.growthBytes }
      else { b with batchIds := b.batchIds ++ [e.externalId] }) (chunk ++ [e]) := by
  have hmem : ∀ e' ∈ chunk ++ [e], e' ∈ chunk ∨ e' = e := by simp
  have hids : b.batchIds ++ [e.externalId] = (chunk ++ [e]).map (·.externalId) := by simp [h.ids]
  have hr : ∀ e' ∈ chunk ++ [e], e'.indexRelid = b.currentRelid := by
    intro e' he'
    obtain he' | rfl := hmem e' he'
    · exact h.relid e' he'
    · exact hrel
  have hl := fun generation => growthAt_concat hrel generation chunk
  split
  · next hgt =>
    have hgt : b.batchGeneration.toNat < e.generation.toNat := hgt
    refine ⟨hids, hr, ?_, .inr ⟨e, by simp, rfl⟩, ?_⟩
    · intro e' he'
      obtain he' | rfl := hmem e' he'
      · have := h.highest e' he'
        dsimp only
        omega
      · exact Nat.le_refl _
    · -- what was summed up so far is of older generations
      have hold : growthAt b.currentRelid e.generation.toNat chunk = 0 := by
        apply growthAt_higher
        intro e' he'
        have := h.highest e' he'
        omega
      simp only [hl, hold, if_true, Nat.zero_add]
      exact (Nat.mod_eq_of_lt e.growthBytes.toNat_lt).symm
  · next hle =>
    have hle : e.generation.toNat ≤ b.batchGeneration.toNat := Nat.le_of_not_lt hle
    have hh : ∀ e' ∈ chunk ++ [e], e'.generation.toNat ≤ b.batchGeneration.toNat := by
      intro e' he'
      obtain he' | rfl := hmem e' he'
      · exact h.highest e' he'
      · exact hle
    have hre : b.batchGeneration = 0 ∨
        ∃ e' ∈ chunk ++ [e], e'.generation = b.batchGeneration := by
      obtain hz | ⟨e', he', hgen⟩ := h.reached
      · exact .inl hz
      · exact .inr ⟨e', mem_append_left _ he', hgen⟩
    split
    · next heq =>
      refine ⟨hids, hr, hh, hre, ?_⟩
      simp only [hl, heq, if_true, UInt64.toNat_add, h.growth]
      rw [Nat.mod_add_mod]
    · next hne =>
      refine ⟨hids, hr, hh, hre, ?_⟩
      have ho : e.generation.toNat ≠ b.batchGeneration.toNat :=
        fun heq => hne (UInt32.toNat_inj.mp heq)
      simp only [hl, ho, if_false, Nat.add_zero, h.growth]

/-- The aborted inserts that one may meet: none is of a later generation than the record of its
index, and the growth at that generation is a number of bytes. -/
structure Fits (l : Ledger) (entries : List VamanaUndoEntry) : Prop where
  generation : ∀ r, some r ∈ l.reservations → r.state = .resident → ∀ e ∈ entries,
    e.indexRelid = r.relid → e.generation.toNat ≤ r.residentGeneration
  bytes : ∀ r, some r ∈ l.reservations → r.state = .resident →
    growthAt r.relid r.residentGeneration entries < UInt64.size

instance (l : Ledger) (entries : List VamanaUndoEntry) : Decidable (Fits l entries) :=
  decidable_of_iff
    (∀ x ∈ l.reservations, ∀ r ∈ x, r.state = .resident →
      (∀ e ∈ entries, e.indexRelid = r.relid → e.generation.toNat ≤ r.residentGeneration) ∧
        growthAt r.relid r.residentGeneration entries < UInt64.size)
    ⟨fun h => ⟨fun r hr hs => (h _ hr r rfl hs).1, fun r hr hs => (h _ hr r rfl hs).2⟩,
      fun h x hx r hr hs => by
        cases hr
        exact ⟨h.generation r hx hs, h.bytes r hx hs⟩⟩

theorem Fits.mono {rest : List VamanaUndoEntry} (h : Fits l (entries ++ rest)) :
    Fits l entries := by
  refine ⟨fun r hr hs e he => h.generation r hr hs e (mem_append_left _ he), ?_⟩
  intro r hr hs
  have := h.bytes r hr hs
  rw [growthAt_append] at this
  omega

/-- What the batch holds for a record: all of the chunk's growth at the record's generation, or
the chunk does not reach that generation. -/
theorem Chunked.growth_for (h : Chunked b chunk)
    (hf : Fits l (entries ++ chunk)) (hr : some r ∈ l.reservations)
    (hre : r.relid = b.currentRelid) (hs : r.state = .resident) :
    if r.residentGeneration = b.batchGeneration.toNat then
      b.batchGrowth.toNat = growthAt b.currentRelid b.batchGeneration.toNat chunk
    else growthAt b.currentRelid r.residentGeneration chunk = 0 := by
  have hgen : ∀ e ∈ chunk, e.generation.toNat ≤ r.residentGeneration := by
    intro e he
    exact hf.generation r hr hs e (mem_append_right _ he) ((h.relid e he).trans hre.symm)
  split
  · next heq =>
    have hby := hf.bytes r hr hs
    rw [growthAt_append, hre, heq] at hby
    rw [h.growth]
    exact Nat.mod_eq_of_lt (by omega)
  · next hne =>
    apply growthAt_higher
    intro e he
    have hle := h.highest e he
    have hmax : b.batchGeneration.toNat ≤ r.residentGeneration := by
      obtain hz | ⟨e', he', hgen'⟩ := h.reached
      · simp [hz]
      · rw [← hgen']
        exact hgen e' he'
    omega

/-- What a batcher that was started on the block `l₁` has done with the entries so far: the credits
of all but the current batch are through. -/
structure Fed (pct : Nat) (l l₁ : Ledger) (b : ConsolidatingUndoBatch)
    (flushed chunk : List VamanaUndoEntry) : Prop where
  chunked : Chunked b chunk
  settled : Settled l flushed (run (applyRequest pct) l₁ b.requests)

section Batcher

variable {env : Env} {pct : Nat} {l l₁ : Ledger}

variable {b : ConsolidatingUndoBatch} {chunk : List VamanaUndoEntry}

section

variable (hde : ∀ relid ids, env.submitDelete relid ids = true) (hpct : pct < 100)
  (hd : OnePerIndex l.toEntry)
include hde hpct hd

theorem Fed.flushed {flushed : List VamanaUndoEntry}
    (h : Fed pct l l₁ b flushed chunk) (hf : Fits l (flushed ++ chunk)) :
    Settled l (flushed ++ chunk) (run (applyRequest pct) l₁ (b.flushCurrent env).requests) := by
  unfold flushCurrent
  split
  · next hem =>
    have hnil : chunk = [] := by simpa [h.chunked.ids] using hem
    subst hnil
    simpa using h.settled
  · unfold creditBatch
    dsimp only
    rw [hde]
    by_cases hpos : b.batchGrowth > 0
    · have hc := h.settled.credit hpct h.chunked.relid hd
        fun r hr hre hs => h.chunked.growth_for hf hr hre hs
      simpa [hpos, run_append, applyRequest] using hc
    · -- nothing to credit: the chunk has no growth for a record
      have hz : b.batchGrowth.toNat = 0 := by
        have : ¬ 0 < b.batchGrowth.toNat := hpos
        omega
      have hn : ∀ r, some r ∈ l.reservations → r.state = .resident →
          growthAt r.relid r.residentGeneration chunk = 0 := by
        intro r hr hs
        by_cases hre : r.relid = b.currentRelid
        · have hg := h.chunked.growth_for hf hr hre hs
          rw [hre]
          split at hg
          · next hgen => rw [hgen, ← hg, hz]
          · exact hg
        · exact growthAt_other h.chunked.relid hre _
      have hsa := h.settled.unmoved hn
      simpa [hpos, run_append, applyRequest] using hsa

theorem Fed.add {flushed : List VamanaUndoEntry}
    (h : Fed pct l l₁ b flushed chunk) (e : VamanaUndoEntry) (hf : Fits l (flushed ++ chunk)) :
    ∃ flushed' chunk', flushed' ++ chunk' = flushed ++ chunk ++ [e] ∧
      Fed pct l l₁ (b.add env e) flushed' chunk' := by
  -- the batch that the entry joins is the old one or an empty one
  have hro : ∃ flushed' chunk', flushed' ++ chunk' = flushed ++ chunk ∧
      (b.makeRoom env e).currentRelid = e.indexRelid ∧
      Fed pct l l₁ (b.makeRoom env e) flushed' chunk' := by
    unfold makeRoom
    split
    · refine ⟨flushed ++ chunk, [], append_nil _, rfl, ?_, ?_⟩
      · exact ⟨rfl, by simp, by simp, .inl rfl, by simp [growthAt]⟩
      · exact h.flushed hde hpct hd hf
    · next hj =>
      rw [not_or, not_not] at hj
      exact ⟨flushed, chunk, rfl, hj.1.symm, h⟩
  obtain ⟨flushed', chunk', hs, hr, hfed⟩ := hro
  refine ⟨flushed', chunk' ++ [e], by rw [← append_assoc, hs], ?_, ?_⟩
  · exact hfed.chunked.add hr.symm
  · unfold ConsolidatingUndoBatch.add
    dsimp only
    split
    · exact hfed.settled
    · split <;> exact hfed.settled

variable {flushed : List VamanaUndoEntry}

theorem fed_foldl (entries : List VamanaUndoEntry) (h : Fed pct l l₁ b flushed chunk)
    (hf : Fits l (flushed ++ chunk ++ entries)) :
    ∃ flushed' chunk', flushed' ++ chunk' = flushed ++ chunk ++ entries ∧
      Fed pct l l₁ (entries.foldl (add env) b) flushed' chunk' := by
  induction entries generalizing b flushed chunk with
  | nil => exact ⟨flushed, chunk, (append_nil _).symm, h⟩
  | cons e entries ih =>
    obtain ⟨flushed', chunk', hs, hfed⟩ := h.add hde hpct hd e hf.mono
    have hsa : flushed' ++ chunk' ++ entries = flushed ++ chunk ++ e :: entries := by
      rw [hs]
      simp
    rw [← hsa] at hf ⊢
    exact ih hfed hf

end

theorem run_maintenance (l : Ledger) {requests : List Request}
    (h : ∀ q ∈ requests, (∃ relid, q = .consolidate relid) ∨ ∃ relid, q = .compact relid) :
    run (applyRequest pct) l requests = l := by
  induction requests with
  | nil => rfl
  | cons q requests ih =>
    have hq : applyRequest pct l q = l := by
      obtain ⟨_, rfl⟩ | ⟨_, rfl⟩ := h q mem_cons_self <;> rfl
    rw [run_cons, hq]
    exact ih fun q' hq' => h q' (mem_cons_of_mem q hq')

variable {done : List VamanaUndoEntry}

section

variable (hde : ∀ relid ids, env.submitDelete relid ids = true) (hpct : pct < 100)
  (hd : OnePerIndex l.toEntry)
include hde hpct hd

theorem Settled.undo {entries : List VamanaUndoEntry} (h : Settled l done l₁)
    (hf : Fits l (done ++ entries)) :
    Settled l (done ++ entries) (run (applyRequest pct) l₁ (undo env entries)) := by
  have hst : Fed pct l l₁ {} done [] :=
    ⟨⟨rfl, by simp, by simp, .inl rfl, by simp [growthAt]⟩, h⟩
  obtain ⟨flushed, chunk, hs, hfed⟩ := fed_foldl hde hpct hd entries hst (by simpa using hf)
  rw [append_nil] at hs
  rw [← hs] at hf ⊢
  unfold undo_exactness.undo ConsolidatingUndoBatch.finish
  rw [append_assoc, run_append, run_maintenance]
  · exact hfed.flushed hde hpct hd hf
  · intro q hq
    obtain hq | hq := mem_append.mp hq
    · obtain ⟨relid, -, rfl⟩ := mem_map.mp hq
      exact .inl ⟨relid, rfl⟩
    · obtain ⟨relid, -, rfl⟩ := mem_map.mp hq
      exact .inr ⟨relid, rfl⟩

theorem settled_callbacks (callbacks : List (List VamanaUndoEntry))
    (h : Settled l done l₁) (hf : Fits l (done ++ callbacks.flatten)) :
    Settled l (done ++ callbacks.flatten)
      (run (applyRequest pct) l₁ (callbacks.flatMap (undo env))) := by
  induction callbacks generalizing done l₁ with
  | nil => simpa using h
  | cons entries callbacks ih =>
    rw [flatten_cons, ← append_assoc] at hf ⊢
    rw [flatMap_cons, run_append]
    exact ih (h.undo hde hpct hd hf.mono) hf

end

end Batcher

/-! ## Any abort of any reachable block -/

theorem total_reclaimable_settled (entries : List VamanaUndoEntry) (t : List (Option Reservation)) :
    total (weight fun r => r.reclaimableBytes) (t.map (Option.map (settle entries))) =
      total (weight fun r => r.reclaimableBytes) t + total (weight (credited entries)) t := by
  rw [total_map, ← total_add]
  apply total_congr
  intro x _
  cases x <;> simp [weight, settle]

/-- However the aborted inserts are ordered and cut into batches, each resident index has moved the
growth at its generation, up to what it counted. -/
theorem the_credit_of_an_abort_is_the_same_in_any_order {maxDatabases : Nat}
    {es : List svs_memory.Event} {e : Entry} {env : Env} {compactThresholdPct : Nat}
    {callbacks : List (List VamanaUndoEntry)}
    (he : e ∈ (run svs_memory.step (init maxDatabases) es).blocks)
    (hdeletes : ∀ relid ids, env.submitDelete relid ids = true) (hpct : compactThresholdPct < 100)
    (hfits : Fits ((run svs_memory.step (init maxDatabases) es).ledger e) callbacks.flatten) :
    (run (applyRequest compactThresholdPct) ((run svs_memory.step (init maxDatabases) es).ledger e)
        (callbacks.flatMap (undo env))).reservations =
        e.reservations.map (Option.map (settle callbacks.flatten)) ∧
      (∀ r, (settle callbacks.flatten r).measuredBytes +
        (settle callbacks.flatten r).reclaimableBytes = r.measuredBytes + r.reclaimableBytes) ∧
      (run (applyRequest compactThresholdPct)
          ((run svs_memory.step (init maxDatabases) es).ledger e)
          (callbacks.flatMap (undo env))).residencyBytesCommitted +
        total (weight (credited callbacks.flatten)) e.reservations = e.residencyBytesCommitted := by
  have hbo : Booked (run svs_memory.step (init maxDatabases) es) :=
    run_keeps Booked (fun s ev hs => (step_booked s ev hs).1) (init_booked maxDatabases).1 es
  generalize run svs_memory.step (init maxDatabases) es = s at he hfits hbo ⊢
  have hse := settled_callbacks hdeletes hpct (hbo.distinct e he) callbacks
    (settled_refl (l := s.ledger e) (hbo.covered e he) (hbo.distinct e he)) hfits
  rw [nil_append] at hse
  refine ⟨hse.reservations, ?_, ?_⟩
  · intro r
    have := credited_le callbacks.flatten r
    simp only [settle]
    omega
  · have hm := hse.moved
    simp only [sumReclaimableBytes, hse.reservations] at hm
    rw [total_reclaimable_settled] at hm
    simp only [System.ledger] at hm ⊢
    omega

/-- Index 7 is resident with 100 bytes at generation 1. -/
def seededIndex : List svs_memory.Event :=
  build_memory.admitted ++ [.beginSeed 0 7 100, .finish (.seedLoad 0 7 100) 1 0]

def seededBlock : Entry := (run svs_memory.step (init 1) seededIndex).blocks.headD {}

/-- Two callbacks undo inserts into index 7, one of them of an older graph, and one into index 9. -/
def twoCallbacks : List (List VamanaUndoEntry) :=
  [[⟨7, 1, 30, 1⟩, ⟨9, 5, 11, 1⟩, ⟨7, 2, 99, 0⟩, ⟨7, 3, 20, 1⟩], [⟨7, 4, 40, 1⟩]]

theorem two_callbacks_credit_ninety_bytes :
    twoCallbacks.flatMap (undo plainEnv) =
        [.delete 7 [1], .credit 7 1 30, .delete 9 [5], .credit 9 1 11, .delete 7 [2, 3],
          .credit 7 1 20, .consolidate 7, .consolidate 9, .delete 7 [4], .credit 7 1 40,
          .consolidate 7] ∧
      (run (applyRequest 20) ((run svs_memory.step (init 1) seededIndex).ledger seededBlock)
          (twoCallbacks.flatMap (undo plainEnv))).residencyBytesCommitted + 90 =
        seededBlock.residencyBytesCommitted := by
  have he : seededBlock ∈ (run svs_memory.step (init 1) seededIndex).blocks := by decide +kernel
  have hd : ∀ relid ids, plainEnv.submitDelete relid ids = true := fun _ _ => rfl
  have hf : Fits ((run svs_memory.step (init 1) seededIndex).ledger seededBlock)
      twoCallbacks.flatten := by decide +kernel
  have hpct : 20 < 100 := by decide
  have hn : total (weight (credited twoCallbacks.flatten)) seededBlock.reservations = 90 := by
    decide +kernel
  refine ⟨by decide +kernel, ?_⟩
  rw [← (the_credit_of_an_abort_is_the_same_in_any_order he hd hpct hf).2.2, hn]

end svs_vamana.abort_credit
