-- The reload queue between the backends of a database and its worker. Every signal is answered by
-- the end of the first pass that begins after it.
import SvsVamana.Lib.Runs
import Mathlib.Logic.Function.Basic

namespace svs_vamana.reload_queue

open transition_runs Function List

/-! ## The model -/

/-- `VAMANA_MAX_RELOAD_QUEUE`. -/
def maxReloadQueue : Nat := 16

/-- A copy of an index in the worker's cache, with what had happened to the index when its load
began: the signals that had been sent, and the relcache invalidations. -/
structure Copy where
  relid : Nat
  since : Nat
  known : Nat
deriving DecidableEq, Repr

/-- Where the worker is in `VamanaWorkerProcessReloads`. A load is for a cell of the pass, or for a
request between two passes. -/
inductive Phase
  | idle
  | evicting (todo : List Nat)
  | scanning (i : Nat)
  | clearing (i relid : Nat)
  | starting (i relid : Nat)
  | evicted (i relid : Nat)
  | loading (cell : Option Nat) (copy : Copy)
  | down
deriving DecidableEq, Repr

/-- `saved` holds what each span that suppresses evictions has to restore. The history: signals and
invalidations for each index, and how many passes and processes have ended. -/
structure World where
  cells : Nat → Nat
  evictAll : Bool
  callers : Nat → Option (Nat × Nat)
  cache : List Copy
  phase : Phase
  stopping : Bool
  suppressed : Bool
  saved : List Bool
  signals : Nat → Nat
  invalidations : Nat → Nat
  passes : Nat

open World

inductive Event
  | call (p relid : Nat)
  | attempt (p : Nat)
  | load (relid : Nat)
  | evict (relid : Nat)
  | beginPass
  | work (ok : Bool)
  | suppress
  | restore
  | invalidate (relid : Nat)
  | invalidateAll
  | cancel
  | die
  | release
  | restart
deriving DecidableEq, Repr

namespace World

def init : World where
  cells := fun _ => 0
  evictAll := false
  callers := fun _ => none
  cache := []
  phase := .idle
  stopping := false
  suppressed := false
  saved := []
  signals := fun _ => 0
  invalidations := fun _ => 0
  passes := 0

def land (w : World) (i r : Nat) : World :=
  { w with
    cells := update w.cells i r
    signals := update w.signals r (w.signals r + 1) }

def overflow (w : World) (r : Nat) : World :=
  { w with evictAll := true, signals := update w.signals r (w.signals r + 1) }

/-- `SignalReloadCb`, one compare-and-swap at a time. -/
def attempt (w : World) (p : Nat) : World :=
  match w.callers p with
  | none => w
  | some (r, i) =>
    if i < maxReloadQueue then
      if w.cells i = 0 then { w.land i r with callers := update w.callers p none }
      else { w with callers := update w.callers p (some (r, i + 1)) }
    else { w.overflow r with callers := update w.callers p none }

/-- `VamanaWorkerSignalReload` in the worker itself: which of the free cells it gets is up to the
others. -/
def signalReload (w : World) (r : Nat) : World :=
  match (range maxReloadQueue).find? fun i => w.cells i = 0 with
  | some i => w.land i r
  | none => w.overflow r

def Cached (w : World) (r : Nat) : Prop := r ∈ w.cache.map Copy.relid

deriving instance Decidable for World.Cached

/-- `VamanaEvictCacheEntry`. -/
def evict (w : World) (r : Nat) : World :=
  { w with cache := w.cache.filter fun c => c.relid ≠ r }

/-- `VamanaCacheIndex`: a new copy takes the place of the old one. -/
def install (w : World) (c : Copy) : World :=
  { w with cache := c :: w.cache.filter fun c' => c'.relid ≠ c.relid }

/-- The copy that a load that begins now comes to. -/
def fresh (w : World) (r : Nat) : Copy := ⟨r, w.signals r, w.invalidations r⟩

/-- A span in which the relcache callback evicts nothing; it ends with what was before. -/
def suppress (w : World) : World :=
  { w with suppressed := true, saved := w.suppressed :: w.saved }

def restore (w : World) : World :=
  match w.saved with
  | [] => w
  | before :: rest => { w with suppressed := before, saved := rest }

def endPass (w : World) : World :=
  { w with phase := .idle, passes := w.passes + 1 }

/-- The start of a pass: a full eviction, or the walk over the cells. -/
def beginPass (w : World) : World :=
  if w.evictAll then
    { w with evictAll := false, phase := .evicting (w.cache.map Copy.relid) }
  else { w.suppress with phase := .scanning 0 }

/-- The next step of the worker. An index that is locked, gone or fails to load is left out; `ok`
says that it is not. -/
def work (w : World) (ok : Bool) : World :=
  match w.phase with
  | .idle => w
  | .evicting [] => w.endPass
  | .evicting (r :: todo) => { w.evict r with phase := .evicting todo }
  | .scanning i =>
    if i < maxReloadQueue then
      if w.cells i = 0 then { w with phase := .scanning (i + 1) }
      else { w with phase := .clearing i (w.cells i) }
    else w.restore.endPass
  | .clearing i r => { w with cells := update w.cells i 0, phase := .starting i r }
  | .starting i r => { w.evict r with phase := .evicted i r }
  | .evicted i r =>
    if ok then { w with phase := .loading (some i) (w.fresh r) }
    else { w with phase := .scanning (i + 1) }
  | .loading (some i) c =>
    if ok then { w.install c with phase := .scanning (i + 1) }
    else { w with phase := .scanning (i + 1) }
  | .loading none c =>
    if ok then { w.install c with phase := .idle } else { w with phase := .idle }
  | .down => w

/-- `VamanaRelcacheCallback` for one index, which queues what is cached unless evictions are
suppressed. -/
def invalidate (w : World) (r : Nat) : World :=
  if w.Cached r then
    let w' := { w with
      invalidations := update w.invalidations r (w.invalidations r + 1) }
    if w.suppressed then w' else w'.signalReload r
  else w

/-- `VamanaRelcacheCallback` for all indexes at once. -/
def invalidateAll (w : World) : World :=
  { w with
    invalidations := fun r => if w.Cached r then w.invalidations r + 1 else w.invalidations r
    evictAll := w.evictAll || !w.suppressed }

/-- When an event can happen: requests are served, and passes begin, while the worker is between
two passes; no pass begins any more once a shutdown cancel was absorbed. -/
def Enabled (w : World) : Event → Prop
  | .call p r => w.callers p = none ∧ r ≠ 0
  | .attempt _ => True
  | .load r => w.phase = .idle ∧ r ≠ 0
  | .evict _ => w.phase = .idle
  | .beginPass => w.phase = .idle ∧ w.stopping = false
  | .work _ => True
  | .suppress => w.phase = .idle
  | .restore => w.phase = .idle
  | .invalidate _ => w.phase ≠ .down
  | .invalidateAll => w.phase ≠ .down
  | .cancel => w.phase ≠ .down
  | .die => w.phase ≠ .down
  | .release => w.phase = .down
  | .restart => w.phase = .down

instance (w : World) : (e : Event) → Decidable (w.Enabled e) := by
  intro e
  cases e <;> unfold Enabled <;> infer_instance

/-- What an event does. An error that leaves the pass ends the process, and its cache with it;
only a shutdown cancel is absorbed. The block is reset when it is given up. -/
def effect (w : World) : Event → World
  | .call p r => { w with callers := update w.callers p (some (r, 0)) }
  | .attempt p => w.attempt p
  | .load r => { w with phase := .loading none (w.fresh r) }
  | .evict r => w.evict r
  | .beginPass => w.beginPass
  | .work ok => w.work ok
  | .suppress => w.suppress
  | .restore => w.restore
  | .invalidate r => w.invalidate r
  | .invalidateAll => w.invalidateAll
  | .cancel =>
    { w with
      phase := .idle
      stopping := true
      suppressed := w.saved.getLast?.getD w.suppressed
      saved := [] }
  | .die =>
    { w with
      cache := []
      phase := .down
      stopping := false
      suppressed := false
      saved := []
      passes := w.passes + 1 }
  | .release => { w with cells := fun _ => 0, evictAll := false }
  | .restart => { w with phase := .idle }

def step (w : World) (e : Event) : World := if w.Enabled e then w.effect e else w

/-- What holds already and after each event that can happen holds after every step. -/
theorem step_of {P : World → Prop} {w : World} {e : Event} (hw : P w)
    (h : w.Enabled e → P (w.effect e)) : P (w.step e) := by
  unfold step
  split
  · rename_i hon
    exact h hon
  · exact hw

end World

/-! ## The copies and their marks -/

/-- The copies that are in use or on their way into the cache. -/
def copies (w : World) : List Copy :=
  match w.phase with
  | .loading _ c => c :: w.cache
  | _ => w.cache

variable {w : World} {c : Copy}

theorem mem_copies_of_cache (h : c ∈ w.cache) : c ∈ copies w := by
  unfold copies
  split
  · exact mem_cons_of_mem _ h
  · exact h

/-- The pass has taken the index and is about to evict it. -/
def Taken : Phase → Nat → Prop
  | .starting _ r', r => r = r'
  | .evicting todo, r => r ∈ todo
  | _, _ => False

/-- The worker is bound to evict the index: everything is to be evicted, or its oid is in the queue,
or the pass has taken it from there. -/
def Marked (w : World) (r : Nat) : Prop :=
  w.evictAll = true ∨ (∃ i < maxReloadQueue, w.cells i = r) ∨ Taken w.phase r

/-- No index has the oid 0, and a cell that the worker is about to clear still has what it read
there. -/
structure Wf (w : World) : Prop where
  callers : ∀ p r i, w.callers p = some (r, i) → r ≠ 0
  named : ∀ c ∈ copies w, c.relid ≠ 0
  clearing : ∀ i r, w.phase = .clearing i r → i < maxReloadQueue ∧ w.cells i = r ∧ r ≠ 0
  taken : ∀ i r, w.phase = .starting i r ∨ w.phase = .evicted i r → r ≠ 0
  down : w.phase = .down → w.cache = []

theorem wf_init : Wf init :=
  ⟨by simp [init], by simp [copies, init], by simp [init], by simp [init],
    fun _ => rfl⟩

/-- What the senders of signals do to the worker's world: they fill free cells or ask for a full
eviction. -/
structure Sends (w w' : World) : Prop where
  phase : w'.phase = w.phase
  cache : w'.cache = w.cache
  stopping : w'.stopping = w.stopping
  passes : w'.passes = w.passes
  cells : ∀ j, w.cells j ≠ 0 → w'.cells j = w.cells j
  evictAll : w.evictAll = true → w'.evictAll = true
  signals : ∀ r, w'.signals r = w.signals r ∨ (w'.signals r = w.signals r + 1 ∧ Marked w' r)

variable {w' : World}

theorem Sends.same_copies (h : Sends w w') : copies w' = copies w := by
  unfold copies
  rw [h.phase, h.cache]

theorem Sends.marked (h : Sends w w') {r : Nat} (hr : r ≠ 0) (hm : Marked w r) : Marked w' r := by
  rcases hm with hall | ⟨i, hi, hc⟩ | ht
  · exact .inl (h.evictAll hall)
  · exact .inr (.inl ⟨i, hi, by rw [h.cells i (by rwa [hc]), hc]⟩)
  · exact .inr (.inr (h.phase ▸ ht))

/-- What `Wf` says of the phase. -/
def Placed (w : World) : Prop :=
  (∀ i r, w.phase = .clearing i r → i < maxReloadQueue ∧ w.cells i = r ∧ r ≠ 0) ∧
    (∀ i r, w.phase = .starting i r ∨ w.phase = .evicted i r → r ≠ 0) ∧
    (w.phase = .down → w.cache = [])

theorem Wf.placed (hw : Wf w) : Placed w := ⟨hw.clearing, hw.taken, hw.down⟩

theorem Sends.placed (h : Sends w w') (hw : Wf w) : Placed w' := by
  unfold Placed
  rw [h.phase, h.cache]
  refine ⟨fun i r hp => ?_, hw.taken, hw.down⟩
  obtain ⟨hi, hce, hr⟩ := hw.clearing i r hp
  exact ⟨hi, by rw [h.cells i (by rwa [hce]), hce], hr⟩

theorem bump_cases (f : Nat → Nat) (r r' : Nat) :
    update f r (f r + 1) r' = f r' ∨
      (update f r (f r + 1) r' = f r' + 1 ∧ r' = r) := by
  by_cases h : r' = r
  · subst h
    exact .inr ⟨by simp, rfl⟩
  · exact .inl (by simp [h])

theorem sends_land {i r : Nat} (hi : i < maxReloadQueue) (hf : w.cells i = 0) :
    Sends w (w.land i r) := by
  refine ⟨rfl, rfl, rfl, rfl, fun j hj => ?_, id, fun r' => ?_⟩
  · have hji : j ≠ i := fun heq => hj (heq ▸ hf)
    simp [land, hji]
  · rcases bump_cases w.signals r r' with hs | ⟨hm, rfl⟩
    · exact .inl hs
    · exact .inr ⟨hm, .inr (.inl ⟨i, hi, by simp [land]⟩)⟩

section

variable (w : World) (r : Nat)

theorem sends_overflow : Sends w (w.overflow r) := by
  refine ⟨rfl, rfl, rfl, rfl, fun j _ => rfl, fun _ => rfl, fun r' => ?_⟩
  rcases bump_cases w.signals r r' with hs | ⟨hm, -⟩
  · exact .inl hs
  · exact .inr ⟨hm, .inl rfl⟩

theorem sends_signalReload : Sends w (w.signalReload r) := by
  unfold signalReload
  split
  · rename_i i hf
    have hmem := mem_of_find?_eq_some hf
    have hfr := find?_some hf
    exact sends_land (mem_range.mp hmem) (by simpa using hfr)
  · exact sends_overflow w r

theorem marked_signalReload : Marked (w.signalReload r) r := by
  rcases (sends_signalReload w r).signals r with hs | ⟨-, hm⟩
  · unfold signalReload at hs
    split at hs
    · simp [land] at hs
    · simp [overflow] at hs
  · exact hm

theorem signalReload_keeps :
    (w.signalReload r).callers = w.callers ∧
      (w.signalReload r).invalidations = w.invalidations := by
  unfold signalReload
  split <;> exact ⟨rfl, rfl⟩

end

theorem Sends.refl (w : World) : Sends w w :=
  ⟨rfl, rfl, rfl, rfl, fun _ _ => rfl, id, fun _ => .inl rfl⟩

theorem sends_attempt (w : World) (p : Nat) : Sends w (w.attempt p) := by
  unfold attempt
  split
  · exact .refl w
  rename_i r i hc
  split
  · rename_i hi
    split
    · rename_i hf
      have h := sends_land (r := r) hi hf
      exact ⟨rfl, rfl, rfl, rfl, h.cells, h.evictAll, h.signals⟩
    · exact ⟨rfl, rfl, rfl, rfl, fun _ _ => rfl, id, fun _ => .inl rfl⟩
  · have h := sends_overflow w r
    exact ⟨rfl, rfl, rfl, rfl, h.cells, h.evictAll, h.signals⟩

theorem callers_attempt (h : ∀ p r i, w.callers p = some (r, i) → r ≠ 0) (p : Nat) :
    ∀ q r i, (w.attempt p).callers q = some (r, i) → r ≠ 0 := by
  intro q r i hq
  unfold attempt at hq
  split at hq
  · exact h q r i hq
  rename_i r' i' hcaller
  by_cases hqp : q = p
  · subst hqp
    split at hq
    · split at hq
      · simp at hq
      · simp only [update_self, Option.some.injEq, Prod.mk.injEq] at hq
        exact hq.1 ▸ h q r' i' hcaller
    · simp at hq
  · split at hq
    · split at hq
      · exact h q r i (by simpa [land, hqp] using hq)
      · exact h q r i (by simpa [hqp] using hq)
    · exact h q r i (by simpa [overflow, hqp] using hq)

theorem sends_invalidate (w : World) (r : Nat) : Sends w (w.invalidate r) := by
  unfold invalidate
  split
  · dsimp only
    split
    · exact ⟨rfl, rfl, rfl, rfl, fun _ _ => rfl, id, fun _ => .inl rfl⟩
    have h := sends_signalReload { w with
      invalidations := update w.invalidations r (w.invalidations r + 1) } r
    exact ⟨h.phase, h.cache, h.stopping, h.passes, h.cells, h.evictAll, h.signals⟩
  · exact .refl w

theorem sends_invalidateAll (w : World) : Sends w w.invalidateAll :=
  ⟨rfl, rfl, rfl, rfl, fun _ _ => rfl, fun h => by simp [invalidateAll, h],
    fun _ => .inl rfl⟩

theorem callers_invalidate (w : World) (r : Nat) : (w.invalidate r).callers = w.callers := by
  unfold invalidate
  split
  · dsimp only
    split
    · rfl
    · exact (signalReload_keeps _ r).1
  · rfl

/-! ## What a step does to the copies -/

/-- A copy after a step was there before or is a new one; a copy that stays keeps its mark; and a
signal leaves one. -/
structure Moves (w w' : World) : Prop where
  origin : ∀ c ∈ copies w', c ∈ copies w ∨ (c = w.fresh c.relid ∧ c.relid ≠ 0)
  marks : ∀ c ∈ copies w', c ∈ copies w → Marked w c.relid → Marked w' c.relid
  signals : ∀ r, w'.signals r = w.signals r ∨ (w'.signals r = w.signals r + 1 ∧ Marked w' r)

theorem Moves.refl (w : World) : Moves w w :=
  ⟨fun _ h => .inl h, fun _ _ _ h => h, fun _ => .inl rfl⟩

theorem Sends.moves (h : Sends w w') (hw : Wf w) : Moves w w' where
  origin _ hc := .inl (h.same_copies ▸ hc)
  marks c _ hc hm := h.marked (hw.named c hc) hm
  signals := h.signals

section

variable (hce : w'.cells = w.cells) (hall : w'.evictAll = w.evictAll) (hs : w'.signals = w.signals)
include hce hall hs

/-- A step that leaves the queue alone, and what the pass has taken and not evicted. -/
theorem moves_quiet (hco : ∀ c ∈ copies w', c ∈ copies w ∨ (c = w.fresh c.relid ∧ c.relid ≠ 0))
    (ht : ∀ c ∈ copies w', Taken w.phase c.relid → Taken w'.phase c.relid) : Moves w w' := by
  refine ⟨hco, fun c hc _ hm => ?_, fun r => .inl (by rw [hs])⟩
  rcases hm with h | ⟨i, hi, hcell⟩ | h
  · exact .inl (hall.trans h)
  · exact .inr (.inl ⟨i, hi, by rw [hce, hcell]⟩)
  · exact .inr (.inr (ht c hc h))

/-- The same, with no new copy, in a phase where the pass has taken nothing. -/
theorem moves_within (ht : ∀ r, ¬ Taken w.phase r)
    (hco : ∀ c ∈ copies w', c ∈ copies w) : Moves w w' :=
  moves_quiet hce hall hs (fun c hc => .inl (hco c hc)) fun c _ h => absurd h (ht c.relid)

end

@[simp] theorem mem_evict {r : Nat} : c ∈ (w.evict r).cache ↔ c ∈ w.cache ∧ c.relid ≠ r := by
  simp [evict]

theorem mem_install {c' : Copy} (h : c' ∈ (w.install c).cache) : c' = c ∨ c' ∈ w.cache := by
  simp only [install, mem_cons, mem_filter] at h
  rcases h with rfl | ⟨hmem, -⟩
  · exact .inl rfl
  · exact .inr hmem

theorem restore_keeps (w : World) :
    w.restore.cells = w.cells ∧ w.restore.evictAll = w.evictAll ∧
      w.restore.signals = w.signals ∧ w.restore.cache = w.cache ∧
      w.restore.phase = w.phase ∧ w.restore.callers = w.callers ∧
      w.restore.stopping = w.stopping ∧ w.restore.invalidations = w.invalidations ∧
      w.restore.passes = w.passes := by
  unfold restore
  split <;> simp

theorem work_moves (hw : Wf w) (ok : Bool) : Moves w (w.work ok) := by
  unfold work
  cases hp : w.phase with
  | idle => exact .refl w
  | down => exact .refl w
  | evicting todo =>
    cases todo with
    | nil =>
      exact moves_within rfl rfl rfl (by simp [hp, Taken]) (by simp [copies, endPass, hp])
    | cons r todo =>
      refine moves_quiet rfl rfl rfl (fun c hc => .inl ?_) (fun c hc ht => ?_)
      · simp only [copies, mem_evict, hp] at hc ⊢
        exact hc.1
      · simp only [copies, mem_evict] at hc
        simp only [hp, Taken, mem_cons] at ht ⊢
        exact ht.resolve_left hc.2
  | scanning i =>
    dsimp only
    split
    · split <;>
        exact moves_within rfl rfl rfl (by simp [hp, Taken]) (by simp [copies, hp])
    · obtain ⟨hce, hall, hs, hca, -⟩ := restore_keeps w
      exact moves_within hce hall hs (by simp [hp, Taken]) (by simp [copies, endPass, hp, hca])
  | clearing i r =>
    obtain ⟨-, hcell, -⟩ := hw.clearing i r hp
    refine ⟨fun c hc => .inl (by simpa [copies, hp] using hc), fun c _ _ hm => ?_,
      fun _ => .inl rfl⟩
    rcases hm with h | ⟨j, hj, hjc⟩ | h
    · exact .inl h
    · by_cases hji : j = i
      · -- the cell that was cleared: from now on the pass has its index
        refine .inr (.inr ?_)
        rw [← hjc, hji, hcell]
        rfl
      · exact .inr (.inl ⟨j, hj, by simpa [hji] using hjc⟩)
    · simp [hp, Taken] at h
  | starting i r =>
    refine moves_quiet rfl rfl rfl (fun c hc => .inl ?_) (fun c hc ht => ?_)
    · simp only [copies, mem_evict, hp] at hc ⊢
      exact hc.1
    · simp only [copies, mem_evict] at hc
      simp only [hp, Taken] at ht
      exact absurd ht hc.2
  | evicted i r =>
    dsimp only
    split
    · refine moves_quiet rfl rfl rfl (fun c hc => ?_) (fun c _ ht => by simp [hp, Taken] at ht)
      simp only [copies, hp, mem_cons] at hc ⊢
      rcases hc with rfl | hc
      · exact .inr ⟨rfl, hw.taken i r (.inr hp)⟩
      · exact .inl hc
    · exact moves_within rfl rfl rfl (by simp [hp, Taken]) (by simp [copies, hp])
  | loading cell c =>
    have hk : ∀ c', c' ∈ (w.install c).cache ∨ c' ∈ w.cache → c' ∈ copies w := by
      intro c' hc'
      simp only [copies, hp, mem_cons]
      rcases hc' with hc' | hc'
      · exact mem_install hc'
      · exact .inr hc'
    cases cell with
    | some i | none =>
      dsimp only
      split
      · exact moves_within rfl rfl rfl (by simp [hp, Taken]) fun c' hc' => hk c' (.inl hc')
      · exact moves_within rfl rfl rfl (by simp [hp, Taken]) fun c' hc' => hk c' (.inr hc')

theorem beginPass_moves (hi : w.phase = .idle) : Moves w w.beginPass := by
  unfold beginPass
  split
  · refine ⟨fun c hc => .inl (by simpa [copies, hi] using hc), fun c hc _ _ => ?_,
      fun _ => .inl rfl⟩
    exact .inr (.inr (mem_map_of_mem hc))
  · exact moves_within rfl rfl rfl (by simp [hi, Taken]) (by simp [copies, suppress, hi])

/-- Every step but a shutdown cancel in the middle of an eviction. -/
theorem step_moves (hw : Wf w) {e : Event} (hca : e = .cancel → ∀ r, ¬ Taken w.phase r) :
    Moves w (w.step e) := by
  refine step_of (.refl w) fun hon => ?_
  cases e with
  | call p r | suppress => exact moves_quiet rfl rfl rfl (fun c hc => .inl hc) (fun _ _ ht => ht)
  | attempt p => exact (sends_attempt w p).moves hw
  | load r =>
    obtain ⟨hi, hr⟩ := hon
    refine moves_quiet rfl rfl rfl (fun c hc => ?_) (fun c _ ht => by simp [hi, Taken] at ht)
    simp only [copies, effect, hi, mem_cons] at hc ⊢
    rcases hc with rfl | hc
    · exact .inr ⟨rfl, hr⟩
    · exact .inl hc
  | evict r =>
    have hi : w.phase = .idle := hon
    refine moves_within rfl rfl rfl (by simp [hi, Taken]) fun c hc => ?_
    have hp : (w.evict r).phase = .idle := hi
    simp only [effect, copies, hp, hi, mem_evict] at hc ⊢
    exact hc.1
  | beginPass => exact beginPass_moves hon.1
  | work ok => exact work_moves hw ok
  | restore =>
    obtain ⟨hce, hall, hs, hcac, hp, -⟩ := restore_keeps w
    refine moves_quiet hce hall hs (fun c hc => .inl ?_) (fun _ _ ht => ?_)
    · simpa [effect, copies, hp, hcac] using hc
    · simpa [effect, hp] using ht
  | invalidate r => exact (sends_invalidate w r).moves hw
  | invalidateAll => exact (sends_invalidateAll w).moves hw
  | cancel =>
    exact moves_within rfl rfl rfl (hca rfl) fun c hc => mem_copies_of_cache hc
  | die => exact ⟨by simp [effect, copies], by simp [effect, copies], fun _ => .inl rfl⟩
  | release =>
    have hd : w.phase = .down := hon
    have hn : ∀ c : Copy, c ∉ copies w := by simp [copies, hd, hw.down hd]
    exact ⟨fun c hc => .inl hc, fun c _ hc => absurd hc (hn c), fun _ => .inl rfl⟩
  | restart =>
    have hd : w.phase = .down := hon
    exact moves_within rfl rfl rfl (by simp [hd, Taken]) (by simp [copies, hd, effect])

theorem step_origin (hw : Wf w) (e : Event) :
    ∀ c ∈ copies (w.step e), c ∈ copies w ∨ (c = w.fresh c.relid ∧ c.relid ≠ 0) := by
  by_cases hca : e = .cancel
  · -- the load that was under way is given up
    subst hca
    unfold step
    split
    · exact fun c hc => .inl (mem_copies_of_cache hc)
    · exact fun c hc => .inl hc
  · exact (step_moves hw fun h => absurd h hca).origin

theorem work_keeps (w : World) (ok : Bool) :
    (w.work ok).callers = w.callers ∧ (w.work ok).stopping = w.stopping ∧
      (w.work ok).invalidations = w.invalidations := by
  unfold work
  cases w.phase with
  | evicting todo => cases todo <;> exact ⟨rfl, rfl, rfl⟩
  | scanning i =>
    dsimp only
    split
    · split <;> exact ⟨rfl, rfl, rfl⟩
    · obtain ⟨-, -, -, -, -, hc, hs, hi, -⟩ := restore_keeps w
      exact ⟨hc, hs, hi⟩
  | evicted i r => cases ok <;> exact ⟨rfl, rfl, rfl⟩
  | loading cell c => cases cell <;> cases ok <;> exact ⟨rfl, rfl, rfl⟩
  | _ => exact ⟨rfl, rfl, rfl⟩

theorem callers_step (h : ∀ p r i, w.callers p = some (r, i) → r ≠ 0) (e : Event) :
    ∀ p r i, (w.step e).callers p = some (r, i) → r ≠ 0 := by
  refine step_of (P := fun w' => ∀ p r i, w'.callers p = some (r, i) → r ≠ 0) h fun hon => ?_
  cases e with
  | attempt p => exact callers_attempt h p
  | call p r =>
    intro q r' i hq
    by_cases hqp : q = p
    · subst hqp
      simp only [effect, update_self, Option.some.injEq, Prod.mk.injEq] at hq
      exact hq.1 ▸ hon.2
    · exact h q r' i (by simpa [effect, hqp] using hq)
  | work ok =>
    simp only [effect, (work_keeps w ok).1]
    exact h
  | beginPass =>
    simp only [effect, beginPass]
    split <;> exact h
  | restore =>
    simp only [effect, (restore_keeps w).2.2.2.2.2.1]
    exact h
  | invalidate r =>
    simp only [effect, callers_invalidate]
    exact h
  | _ => exact h

theorem work_placed (hw : Wf w) (ok : Bool) : Placed (w.work ok) := by
  unfold work
  cases hp : w.phase with
  | idle | down => exact hw.placed
  | evicting todo => cases todo <;> simp [Placed, endPass]
  | scanning i =>
    dsimp only
    split
    · rename_i hi
      split
      · simp [Placed]
      · rename_i hce
        refine ⟨?_, by simp, by simp⟩
        rintro j r ⟨⟩
        exact ⟨hi, rfl, hce⟩
    · simp [Placed, endPass]
  | clearing i r => simp [Placed, (hw.clearing i r hp).2.2]
  | starting i r => simp [Placed, hw.taken i r (.inl hp)]
  | evicted i r => cases ok <;> simp [Placed]
  | loading cell c => cases cell <;> cases ok <;> simp [Placed]

theorem step_placed (hw : Wf w) (e : Event) : Placed (w.step e) := by
  refine step_of hw.placed fun hon => ?_
  cases e with
  | attempt p => exact (sends_attempt w p).placed hw
  | invalidate r => exact (sends_invalidate w r).placed hw
  | invalidateAll => exact (sends_invalidateAll w).placed hw
  | call p r | suppress => exact hw.placed
  | evict r =>
    have hi : w.phase = .idle := hon
    simp [Placed, effect, evict, hi]
  | restore =>
    obtain ⟨hce, -, -, hcac, hp, -⟩ := restore_keeps w
    simp only [Placed, effect, hce, hcac, hp]
    exact hw.placed
  | beginPass =>
    simp only [effect, beginPass]
    split <;> simp [Placed]
  | release =>
    have hd : w.phase = .down := hon
    simp [Placed, effect, hd, hw.down hd]
  | load r | cancel | restart | die => simp [Placed, effect]
  | work ok => exact work_placed hw ok

theorem wf_step (hw : Wf w) (e : Event) : Wf (w.step e) := by
  obtain ⟨hc, ht, hd⟩ := step_placed hw e
  refine ⟨callers_step hw.callers e, fun c hmem => ?_, hc, ht, hd⟩
  rcases step_origin hw e c hmem with hold | ⟨-, hne⟩
  · exact hw.named c hold
  · exact hne

theorem signals_step (hw : Wf w) (e : Event) (r : Nat) : w.signals r ≤ (w.step e).signals r := by
  by_cases hc : e = .cancel
  · subst hc
    unfold step
    split <;> exact Nat.le_refl _
  · rcases (step_moves hw fun h => absurd h hc).signals r with h | ⟨h, -⟩ <;> omega

theorem stopping_step {e : Event} (hc : e ≠ .cancel) (hdie : e ≠ .die) :
    (w.step e).stopping = w.stopping := by
  refine step_of (P := fun w' => w'.stopping = w.stopping) rfl fun _ => ?_
  cases e with
  | cancel => exact absurd rfl hc
  | die => exact absurd rfl hdie
  | attempt p => exact (sends_attempt w p).stopping
  | invalidate r => exact (sends_invalidate w r).stopping
  | work ok => exact (work_keeps w ok).2.1
  | restore => exact (restore_keeps w).2.2.2.2.2.2.1
  | beginPass =>
    simp only [effect, beginPass]
    split <;> rfl
  | _ => rfl

/-! ## A pass -/

/-- The phases between the beginning and the end of a pass. -/
def inPass : Phase → Bool
  | .idle => false
  | .loading none _ => false
  | .down => false
  | _ => true

def Ends (w : World) : Prop :=
  w.phase = .evicting [] ∨ ∃ i, w.phase = .scanning i ∧ ¬ i < maxReloadQueue

/-- What a step does to the history of the passes: nothing, or it begins one, or ends one, or it
ends the process. -/
inductive Turn (w w' : World) : Prop
  | goes (passes : w'.passes = w.passes) (phase : inPass w'.phase = true → inPass w.phase = true)
  | begins (passes : w'.passes = w.passes) (now : w.phase = .idle ∧ w.stopping = false)
    (begun : w' = w.beginPass)
  | ends (now : Ends w) (passes : w'.passes = w.passes + 1) (phase : w'.phase = .idle)
    (cache : w'.cache = w.cache)
  | dies (passes : w'.passes = w.passes + 1) (phase : w'.phase = .down) (cache : w'.cache = [])

theorem Sends.turn (h : Sends w w') : Turn w w' :=
  .goes h.passes (by rw [h.phase]; exact id)

theorem work_turn (w : World) (ok : Bool) : Turn w (w.work ok) := by
  unfold work
  cases hp : w.phase with
  | idle => exact .goes rfl id
  | down => exact .goes rfl id
  | evicting todo =>
    cases todo with
    | nil => exact .ends (.inl hp) rfl rfl rfl
    | cons r todo => exact .goes rfl (by simp [hp, inPass])
  | scanning i =>
    dsimp only
    split
    · split <;> exact .goes rfl (by simp [hp, inPass])
    · rename_i hi
      obtain ⟨-, -, -, hc, -, -, -, -, hpa⟩ := restore_keeps w
      exact .ends (.inr ⟨i, hp, hi⟩) (congrArg (· + 1) hpa) rfl hc
  | clearing i r | starting i r => exact .goes rfl (by simp [hp, inPass])
  | evicted i r => cases ok <;> exact .goes rfl (by simp [hp, inPass])
  | loading cell c => cases cell <;> cases ok <;> exact .goes rfl (by simp [hp, inPass])

theorem step_turn (w : World) (e : Event) : Turn w (w.step e) := by
  refine step_of (.goes rfl id) fun hon => ?_
  cases e with
  | attempt p => exact (sends_attempt w p).turn
  | invalidate r => exact (sends_invalidate w r).turn
  | invalidateAll => exact (sends_invalidateAll w).turn
  | work ok => exact work_turn w ok
  | call p r | evict r | suppress | release => exact .goes rfl id
  | load r | cancel | restart => exact .goes rfl (by simp [effect, inPass])
  | restore =>
    obtain ⟨-, -, -, -, hph, -, -, -, hp⟩ := restore_keeps w
    exact .goes hp (by simp [effect, hph])
  | beginPass =>
    refine .begins ?_ hon rfl
    simp only [effect, beginPass]
    split <;> rfl
  | die => exact .dies rfl rfl rfl

theorem passes_step (w : World) (e : Event) : w.passes ≤ (w.step e).passes := by
  cases step_turn w e with
  | goes hp => omega
  | begins hp => omega
  | ends _ hp => omega
  | dies hp => omega

/-- A cell from number `i` on has the oid of the copy. -/
def Ahead (w : World) (i : Nat) (c : Copy) : Prop :=
  ∃ j, i ≤ j ∧ j < maxReloadQueue ∧ w.cells j = c.relid

/-- The pass comes to every cached copy that is due: a full eviction has it on its list, and
otherwise its oid is in a cell further on. -/
def Finds (due : Copy → Prop) (w : World) : Prop :=
  match w.phase with
  | .evicting todo => ∀ c ∈ w.cache, c.relid ∈ todo
  | .scanning i => ∀ c ∈ w.cache, due c → Ahead w i c
  | .clearing i _ => ∀ c ∈ w.cache, due c → Ahead w i c
  | .starting i r => ∀ c ∈ w.cache, due c → c.relid = r ∨ Ahead w (i + 1) c
  | .evicted i _ => ∀ c ∈ w.cache, due c → Ahead w (i + 1) c
  | .loading (some i) c' => ¬ due c' ∧ ∀ c ∈ w.cache, due c → Ahead w (i + 1) c
  | _ => True

section
variable {due : Copy → Prop} {w : World}

theorem Sends.ahead (h : Sends w w') {i : Nat} (hc : c.relid ≠ 0)
    (ha : Ahead w i c) : Ahead w' i c := by
  obtain ⟨j, hij, hj, hce⟩ := ha
  exact ⟨j, hij, hj, by rw [h.cells j (by rwa [hce]), hce]⟩

theorem Sends.finds (h : Sends w w') (hw : Wf w) (hf : Finds due w) : Finds due w' := by
  have hah : ∀ i, ∀ c ∈ w.cache, (due c → Ahead w i c) → due c → Ahead w' i c :=
    fun i c hc ha hdue => h.ahead (hw.named c (mem_copies_of_cache hc)) (ha hdue)
  unfold Finds at hf ⊢
  rw [h.phase, h.cache]
  generalize w.phase = phase at hf
  cases phase with
  | evicting todo =>
    exact hf
  | scanning i | clearing i r =>
    exact fun c hc => hah i c hc (hf c hc)
  | starting i r =>
    intro c hc hdue
    rcases hf c hc hdue with heq | ha
    · exact .inl heq
    · exact .inr (h.ahead (hw.named c (mem_copies_of_cache hc)) ha)
  | evicted i r =>
    exact fun c hc => hah (i + 1) c hc (hf c hc)
  | loading cell c' =>
    cases cell with
    | none => trivial
    | some i =>
      exact ⟨hf.1, fun c hc => hah (i + 1) c hc (hf.2 c hc)⟩
  | _ => trivial

theorem Ahead.next {i : Nat} (h : Ahead w i c) (hne : w.cells i ≠ c.relid) : Ahead w (i + 1) c := by
  obtain ⟨j, hij, hj, hc⟩ := h
  have hji : j ≠ i := fun heq => hne (heq ▸ hc)
  exact ⟨j, by omega, hj, hc⟩

theorem work_finds (hw : Wf w) (hfr : ∀ r, ¬ due (w.fresh r)) (hf : Finds due w) (ok : Bool) :
    Finds due (w.work ok) := by
  have hold := hf
  unfold Finds at hf
  unfold work
  cases hp : w.phase with
  | idle => exact hold
  | down => exact hold
  | evicting todo =>
    simp only [hp] at hf
    cases todo with
    | nil => trivial
    | cons r todo =>
      intro c hc
      obtain ⟨hmem, hne⟩ := mem_evict.mp hc
      exact (mem_cons.mp (hf c hmem)).resolve_left hne
  | scanning i =>
    simp only [hp] at hf
    dsimp only
    split
    · split
      · rename_i hce
        intro c hc hdue
        refine (hf c hc hdue).next ?_
        rw [hce]
        exact (hw.named c (mem_copies_of_cache hc)).symm
      · exact hf
    · trivial
  | clearing i r =>
    simp only [hp] at hf
    obtain ⟨-, hce, -⟩ := hw.clearing i r hp
    intro c hc hdue
    by_cases hr : c.relid = r
    · exact .inl hr
    · obtain ⟨j, hij, hj, hjc⟩ := (hf c hc hdue).next (by rw [hce]; exact Ne.symm hr)
      have hji : j ≠ i := by omega
      exact .inr ⟨j, hij, hj, by simpa [hji] using hjc⟩
  | starting i r =>
    simp only [hp] at hf
    intro c hc hdue
    obtain ⟨hmem, hne⟩ := mem_evict.mp hc
    exact (hf c hmem hdue).resolve_left hne
  | evicted i r =>
    simp only [hp] at hf
    cases ok with
    | true => exact ⟨hfr r, hf⟩
    | false => exact hf
  | loading cell c' =>
    cases cell with
    | none => cases ok <;> trivial
    | some i =>
      simp only [hp] at hf
      cases ok with
      | true =>
        intro c hc hdue
        rcases mem_install hc with rfl | hmem
        · exact absurd hdue hf.1
        · exact hf.2 c hmem hdue
      | false => exact hf.2

/-- Where all that is due is marked, a pass begins with finding it: without a full eviction the
mark is a cell. -/
theorem beginPass_finds (hi : w.phase = .idle)
    (hm : ∀ c ∈ copies w, due c → Marked w c.relid) : Finds due w.beginPass := by
  unfold beginPass
  split
  · exact fun c hc => mem_map_of_mem hc
  rename_i hall
  intro c hc hdue
  rcases hm c (mem_copies_of_cache hc) hdue with heq | ⟨j, hj, hce⟩ | ht
  · exact absurd heq hall
  · exact ⟨j, Nat.zero_le j, hj, hce⟩
  · rw [hi] at ht
    cases ht

theorem step_finds (hw : Wf w) (hfr : ∀ r, ¬ due (w.fresh r))
    (hm : w.stopping = false → ∀ c ∈ copies w, due c → Marked w c.relid) (hf : Finds due w)
    (e : Event) : Finds due (w.step e) := by
  refine step_of hf fun hon => ?_
  cases e with
  | beginPass => exact beginPass_finds hon.1 (hm hon.2)
  | attempt p => exact (sends_attempt w p).finds hw hf
  | invalidate r => exact (sends_invalidate w r).finds hw hf
  | invalidateAll => exact (sends_invalidateAll w).finds hw hf
  | work ok => exact work_finds hw hfr hf ok
  | call p r => exact hf
  | suppress => exact hf
  | evict r =>
    have hi : (w.evict r).phase = .idle := hon
    simp [effect, Finds, hi]
  | restore =>
    have hi : w.restore.phase = .idle := (restore_keeps w).2.2.2.2.1.trans hon
    simp [effect, Finds, hi]
  | release =>
    have hd : w.phase = .down := hon
    simp [effect, Finds, hd]
  | _ => trivial

theorem Finds.none_left (hf : Finds due w) (hen : Ends w) : ∀ c ∈ w.cache, ¬ due c := by
  intro c hc hdue
  unfold Finds at hf
  rcases hen with hp | ⟨i, hp, hi⟩
  · simp only [hp] at hf
    cases hf c hc
  · simp only [hp] at hf
    obtain ⟨j, hij, hj, -⟩ := hf c hc hdue
    omega

end

/-! ## What is due goes -/

/-- Since `start` passes had ended: a pass that began later finds what is due, and once it has ended
as well, nothing is due any more. -/
structure Leaves (due : Copy → Prop) (start : Nat) (w : World) : Prop where
  wf : Wf w
  passes : start ≤ w.passes
  finds : start + 1 ≤ w.passes → inPass w.phase = true → Finds due w
  gone : start + 2 ≤ w.passes → ∀ c ∈ copies w, ¬ due c

variable {due : Copy → Prop}

theorem Leaves.step {start : Nat} (h : Leaves due start w) (hf : ∀ r, ¬ due (w.fresh r))
    (hm : w.stopping = false → ∀ c ∈ copies w, due c → Marked w c.relid) (e : Event) :
    Leaves due start (w.step e) := by
  have hs := h.passes
  have hmo := passes_step w e
  have ho := step_origin h.wf e
  -- what is due after the step was so before
  have hbe : start + 2 ≤ w.passes → ∀ c ∈ copies (w.step e), ¬ due c := by
    intro hp c hc hdue
    rcases ho c hc with hold | ⟨hnew, -⟩
    · exact h.gone hp c hold hdue
    · rw [hnew] at hdue
      exact hf c.relid hdue
  refine ⟨wf_step h.wf e, by omega, fun hp hin => ?_, fun hp => ?_⟩
  · cases step_turn w e with
    | goes hpa hpha =>
      exact step_finds h.wf hf hm (h.finds (by omega) (hpha hin)) e
    | begins _ hnow hbeg =>
      rw [hbeg]
      exact beginPass_finds hnow.1 (hm hnow.2)
    | ends _ _ hpha => simp [hpha, inPass] at hin
    | dies _ hpha => simp [hpha, inPass] at hin
  · cases step_turn w e with
    | goes hpa => exact hbe (by omega)
    | begins hpa => exact hbe (by omega)
    | ends hnow hpa hpha hca =>
      have hin : inPass w.phase = true := by
        rcases hnow with hph | ⟨i, hph, -⟩ <;> simp [hph, inPass]
      intro c hc
      simp only [copies, hpha, hca] at hc
      exact (h.finds (by omega) hin).none_left hnow c hc
    | dies _ hpha hca => simp [copies, hpha, hca]

/-- An endless run from a fresh block, cut into rounds in any way. -/
def stateAt (es : Nat → List Event) : Nat → World := rounds step init es

/-- Passes, or worker processes, end again and again. -/
def KeepsPassing (es : Nat → List Event) : Prop := ∀ k, ∃ n, k ≤ (stateAt es n).passes

variable {es : Nat → List Event}

/-- Two more passes are enough, as the second begins after now: where what is due is marked in all
later rounds and no load brings it back, it is gone in the end. -/
theorem due_copies_go {ok : World → Event → Prop}
    (Inv : World → Prop) (hinv : ∀ w e, Inv w → ok w e → Inv (w.step e))
    (hwf : ∀ w, Inv w → Wf w) (hf : ∀ w, Inv w → ∀ r, ¬ due (w.fresh r))
    (hma : ∀ w, Inv w → w.stopping = false → ∀ c ∈ copies w, due c → Marked w c.relid)
    (hok : ∀ n, EachStep step ok (stateAt es n) (es n)) (hpa : KeepsPassing es) {n : Nat}
    (hnow : Inv (stateAt es n)) :
    ∃ m, n ≤ m ∧ ∀ m', m ≤ m' → ∀ c ∈ copies (stateAt es m'), ¬ due c := by
  have hs : Leaves due (stateAt es n).passes (stateAt es n) :=
    ⟨hwf _ hnow, Nat.le_refl _, fun h => by omega, fun h => by omega⟩
  have hl : ∀ m, n ≤ m →
      Inv (stateAt es m) ∧ Leaves due (stateAt es n).passes (stateAt es m) := by
    intro m hm
    have hbo : ∀ w e, Inv w ∧ Leaves due (stateAt es n).passes w → ok w e →
        Inv (w.step e) ∧ Leaves due (stateAt es n).passes (w.step e) :=
      fun w e hw hwe => ⟨hinv w e hw.1 hwe, hw.2.step (hf w hw.1) (hma w hw.1) e⟩
    exact rounds_invariant (fun w => Inv w ∧ Leaves due (stateAt es n).passes w) hbo
      ⟨hnow, hs⟩ (fun k _ => hok k) hm
  obtain ⟨k, hk⟩ := hpa ((stateAt es n).passes + 2)
  refine ⟨max n k, Nat.le_max_left n k, fun m hm => ?_⟩
  have hmo : ∀ w e, (stateAt es n).passes + 2 ≤ w.passes → ok w e →
      (stateAt es n).passes + 2 ≤ (w.step e).passes :=
    fun w e h _ => Nat.le_trans h (passes_step w e)
  have hp : (stateAt es n).passes + 2 ≤ (stateAt es m).passes :=
    rounds_invariant (fun w => (stateAt es n).passes + 2 ≤ w.passes) hmo hk (fun k _ => hok k)
      (Nat.le_trans (Nat.le_max_right n k) hm)
  exact (hl m (Nat.le_trans (Nat.le_max_left n k) hm)).2.gone hp

/-! ## Every signal is answered -/

/-- As long as passes begin, a copy that is older than a signal is marked. -/
structure SignalsMarked (w : World) : Prop where
  wf : Wf w
  marked : w.stopping = false → ∀ c ∈ copies w, c.since < w.signals c.relid → Marked w c.relid

theorem signalsMarked_init : SignalsMarked init :=
  ⟨wf_init, by simp [copies, init]⟩

theorem SignalsMarked.step (h : SignalsMarked w) (e : Event) : SignalsMarked (w.step e) := by
  refine ⟨wf_step h.wf e, fun hgo => ?_⟩
  by_cases hca : e = .cancel
  · subst hca
    unfold World.step at hgo ⊢
    split at hgo
    · cases hgo
    · rename_i hoff
      rw [if_neg hoff]
      exact h.marked hgo
  · by_cases hdie : e = .die
    · subst hdie
      unfold World.step at hgo ⊢
      split at hgo
      · rename_i hon
        rw [if_pos hon]
        simp [copies, effect]
      · rename_i hoff
        rw [if_neg hoff]
        exact h.marked hgo
    · have hm := step_moves h.wf fun heq => absurd heq hca
      rw [stopping_step hca hdie] at hgo
      intro c hc hl
      rcases hm.signals c.relid with hs | ⟨-, hma⟩
      · rw [hs] at hl
        rcases hm.origin c hc with hold | ⟨hnew, -⟩
        · exact hm.marks c hc hold (h.marked hgo c hold hl)
        · -- a copy whose load has just begun has seen every signal
          rw [hnew] at hl
          exact absurd hl (Nat.lt_irrefl _)
      · exact hma

theorem anyStep (es : Nat → List Event) (n : Nat) :
    EachStep step (fun _ _ => True) (stateAt es n) (es n) :=
  eachStep_of_forall (fun _ _ _ => trivial) _

/-- The copies of an index that were loaded before its signal number `level`. -/
def LoadedBefore (r level : Nat) (c : Copy) : Prop := c.relid = r ∧ c.since < level

def wholePass (steps : Nat) : List Event := .beginPass :: replicate steps (.work true)

/-- The worker is between two passes and nothing is queued. -/
structure Quiet (w : World) : Prop where
  phase : w.phase = .idle
  stopping : w.stopping = false
  evictAll : w.evictAll = false
  cells : ∀ i < maxReloadQueue, w.cells i = 0

theorem quiet_pass (h : Quiet w) :
    run step w (wholePass 17) = { w with passes := w.passes + 1 } := by
  obtain ⟨hp, hgo, hall, hc⟩ := h
  simp only [maxReloadQueue] at hc
  simp [wholePass, replicate, step, Enabled, effect, beginPass,
    suppress, work, restore, endPass, maxReloadQueue, hp, hgo, hall,
    hc]

theorem keepsPassing_of_quiet {k : Nat} (hk : Quiet (stateAt es k))
    (hes : ∀ n, k ≤ n → es n = wholePass 17) : KeepsPassing es := by
  have hr : ∀ n, Quiet (stateAt es (k + n)) ∧ n ≤ (stateAt es (k + n)).passes := by
    intro n
    induction n with
    | zero => exact ⟨hk, Nat.zero_le _⟩
    | succ n ih =>
      obtain ⟨hq, hp⟩ := ih
      have hro : stateAt es (k + (n + 1)) = run step (stateAt es (k + n)) (es (k + n)) := rfl
      rw [hro, hes (k + n) (Nat.le_add_right k n), quiet_pass hq]
      exact ⟨⟨hq.phase, hq.stopping, hq.evictAll, hq.cells⟩, Nat.succ_le_succ hp⟩
  exact fun n => ⟨k + n, (hr n).2⟩

/-- An index is loaded and used, two backends signal a reload of it, and the worker makes one pass
after the other. -/
def signalled : Nat → List Event
  | 0 => [.load 5, .work true, .call 1 5, .call 2 5, .attempt 1, .attempt 2, .attempt 2]
  | 1 => wholePass 25
  | _ + 2 => wholePass 17

end svs_vamana.reload_queue
