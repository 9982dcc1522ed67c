-- The law of a caught-up index: only a search and a write slot drain what they load from disk; a
-- warm-up, a reload and a LOAD slot leave the copy as it was saved.
import SvsVamana.InFlightInsert

namespace svs_vamana.caught_up

open index_cache saved_index replay delivery tid_fate database write_slot server transition_runs
open replay_position in_flight_insert
open Server Option
open Database hiding step

variable {V : Type}

/-! ## The pure model -/

/-- The requests on a primary. A write slot that finds no entry resolves one first; `other`
are the steps that load nothing or load as a step of their own. -/
inductive Request (V : Type)
  | search (k : EnsureCalls)
  | resolve (k : WriteCalls)
  | warmup (k retry : GetCalls)
  | reload (k retry : GetCalls)
  | other (e : Event V)

def serve (s : Server V) : Request V → Server V
  | .search k => (vamanaWorkerProcessSearchBatch k s).1
  | .resolve k => (resolveForWrite k s).1
  | .warmup k retry => vamanaWorkerProcessWarmupSlot k retry s
  | .reload k retry => vamanaWorkerProcessReload k retry s
  | .other e => s.step e

def startsLoad (s : Server V) : Request V → Bool
  | .reload _ _ => true
  | .other (.loadSlot k) => (loadSlotEntry k.load s.disk).isSome
  | _ => s.cache.isNone

/-- The server, and where the WAL ended when the load of its entry started. -/
structure Watched (V : Type) where
  server : Server V
  loadedAt : Nat

def watch (w : Watched V) (r : Request V) : Watched V :=
  ⟨serve w.server r, if startsLoad w.server r then w.server.db.wal.length else w.loadedAt⟩

def watchCreated (rel : Relation) (history : List (Op V)) : Watched V :=
  ⟨created rel history, (created rel history).db.wal.length⟩

/-- A search is answered from an entry that has a point for every live row committed before
the load of the entry started. -/
def AnswersCurrent (w : Watched V) (r : Request V) : Prop :=
  ∀ k, r = .search k → ∀ c, (vamanaWorkerProcessSearchBatch k w.server).2 = some c →
    ∀ x ∈ w.server.db.heap, w.server.db.live x = true →
      w.server.db.committedBy (watch w r).loadedAt x.xmin = true → c.Holds x.tid x.vec

def CopyCurrent (s : Server V) : Prop :=
  ∀ x ∈ s.db.heap, s.db.live x = true → CopyHolds x.tid x.vec s

/-- The drain brings the row into the entry or leaves it in. -/
def Brought (k : DrainFaults) (s : Server V) (c : IndexCache V) (x : HeapTuple V) : Prop :=
  (∀ X, s.confirmedFlush = some X → Applies k s c →
    (∃ e, c.HoldsAt e x.tid x.vec ∧ (c.eidOf x.tid = some e →
      ∀ y ∈ delivered s.db.rel X (recordsRead s.db.wal k.raiseAt), ¬ Removes x.tid y)) ∨
    c.svsIndex.isSome ∧ AddedAnew (k.calls s.db).apply x.tid (c.eidOf x.tid ≠ none)
      (delivered s.db.rel X (recordsRead s.db.wal k.raiseAt))) ∧
  (s.confirmedFlush = none ∨ ¬ Applies k s c → c.Holds x.tid x.vec)

/-- A drain that leaves an entry leaves one with every live row committed by `n`. -/
def DrainsCurrent (n : Nat) (k : DrainFaults) (s : Server V) : Prop :=
  ∀ c, s.cache = some c → ¬ GivesUp k s c → ∀ x ∈ s.db.heap, s.db.live x = true →
    s.db.committedBy n x.xmin = true → Brought k s c x

/-- A load that nothing drains: the heap is not locked, and a copy that is taken has every
live row. -/
structure LoadsCurrent (k retry : GetCalls) (s : Server V) : Prop where
  unlocked : k.heapLocked = false ∧ retry.heapLocked = false
  copy : k.load.Pass s.disk.metap →
    (s.vamanaReplicationSlotIsConsistent = true ∨ k.lateError ≠ .none) → CopyCurrent s

/-- A load that is drained if it took the copy: the drain gets the slot or has nothing to
bring. After an error in the load there is no drain. -/
structure EnsuresCurrent (k : EnsureCalls) (s : Server V) : Prop where
  unlocked : k.get.heapLocked = false ∧ k.retry.heapLocked = false
  late : k.get.load.Pass s.disk.metap → k.get.lateError ≠ .none → CopyCurrent s
  drained : k.get.load.Pass s.disk.metap → k.get.lateError = .none →
    s.vamanaReplicationSlotIsConsistent = true →
    DrainsCurrent s.db.wal.length k.drain s.withCopy

/-- The request makes no entry resident that lacks a row committed before, and takes no live
row from the one that is. -/
def KeepsCurrent (w : Watched V) : Request V → Prop
  | .search k => w.server.cache = none → EnsuresCurrent k w.server
  | .resolve k => w.server.cache = none →
      EnsuresCurrent k.first w.server ∧ EnsuresCurrent k.second w.server
  | .warmup k retry => w.server.cache = none → LoadsCurrent k retry w.server
  | .reload k retry => LoadsCurrent k retry w.server
  | .other (.load k retry) => w.server.cache = none → LoadsCurrent k retry w.server
  | .other (.loadSlot k) =>
      (loadSlotEntry k.load w.server.disk).isSome → CopyCurrent w.server
  | .other (.drain k) => DrainsCurrent w.loadedAt k w.server
  | .other (.deleteIds _ ids) => ∀ x ∈ w.server.db.heap, w.server.db.live x = true →
      w.server.db.committedBy w.loadedAt x.xmin = true →
      ∀ c, w.server.cache = some c → ∀ e ∈ ids, c.tidOf e ≠ some x.tid
  | .other _ => True

/-! ## What a load leaves -/

/-- Every live row has a point in the entry, if there is one. -/
def AllResident (s : Server V) : Prop :=
  ∀ x ∈ s.db.heap, s.db.live x = true → Resident x.tid x.vec s

/-- The same for the rows committed by a position. -/
def ResidentBy (n : Nat) (s : Server V) : Prop :=
  ∀ x ∈ s.db.heap, s.db.live x = true → s.db.committedBy n x.xmin = true →
    Resident x.tid x.vec s

variable {s : Server V}

theorem allResident_of_no_cache (h : s.cache = none) : AllResident s := by
  intro x _ _ c hc
  rw [h] at hc
  cases hc

variable {retry : GetCalls} {s' : Server V}

theorem allResident_of_outcome {k : GetCalls} {res : Option Bool} (hok : s.Ok)
    (hout : LoadOutcome k retry s s' res) (hlo : k.heapLocked = false ∧ retry.heapLocked = false)
    (hco : k.load.Pass s.disk.metap → (res = some true ∨ k.lateError ≠ .none) → CopyCurrent s) :
    AllResident s' := by
  cases hout with
  | nothing _ => exact allResident_of_no_cache rfl
  | copy hp h hres =>
    intro x hx hl c hc
    cases hc
    exact holds_entryOf hok h (hco hp hres x hx hl)
  | rebuilt hr hc _ _ _ =>
    intro x hx hl c' hc'
    cases hc'
    exact hc.holds (IndexCache.holds_rebuild hr (mem_visibleRows hx hl))
  | empty hr _ _ _ _ =>
    intro x hx hl
    have hmem := mem_visibleRows hx hl
    rcases hr with h | h | h
    · rw [hlo.1] at h
      cases h
    · rw [hlo.2] at h
      cases h
    · change (x.tid, x.vec) ∈ visibleRows s.db at hmem
      rw [h] at hmem
      cases hmem

theorem allResident_load {k : GetCalls} (hok : s.Ok) (hc : s.cache = none)
    (h : LoadsCurrent k retry s) : AllResident (vamanaWorkerGetOrLoadIndex k retry s).1 := by
  have hout := getOrLoadIndex_outcome k retry hc hok.flagged
  refine allResident_of_outcome hok hout h.unlocked fun hp hres => h.copy hp ?_
  rcases hres with hres | hl
  · exact .inl (getOrLoadIndex_fromDisk k retry hc hok.flagged hres).2.1.2.2
  · exact .inr hl

theorem residentBy_drain {n : Nat} {k : DrainFaults} (hok : s.Ok) (h : DrainsCurrent n k s) :
    ∀ x ∈ s.db.heap, s.db.live x = true →
      s.db.committedBy n x.xmin = true →
      Resident x.tid x.vec (vamanaReplicationDrainSlot k s).1 := by
  intro x hx hl hcom c' hc'
  obtain ⟨c, hc, hgi, hca⟩ := drain_cached hok hc'
  obtain ⟨ha, hi⟩ := h c hc hgi x hx hl hcom
  rcases hca with ⟨X, hX, happ, hsa⟩ | ⟨rfl, hno⟩
  · have hs := hok.cache c hc
    have hbr := ha X hX happ
    have hg : c.svsIndex.isSome := by
      rcases hbr with ⟨e, ⟨-, hp⟩, -⟩ | ⟨hg, -⟩
      · exact IndexCache.Sound.svsIndex_of_point (isSome_iff_exists.mpr ⟨_, hp⟩)
      · exact hg
    have haf := after_replayAll (k.calls s.db).apply hs hg 0
      (delivered s.db.rel X (recordsRead s.db.wal k.raiseAt))
    apply hsa.holds
    rw [replayed, haf.holds_iff hs]
    exact hbr.imp id fun hadd => ⟨hadd.2, hok.db.fetch hx⟩
  · exact hi hno

theorem committedBy_of_live {db : Database V} {x : HeapTuple V} (h : db.live x = true) :
    db.committedBy db.wal.length x.xmin = true := by
  unfold live at h
  rw [Bool.and_eq_true] at h
  unfold committedBy
  rw [List.take_length]
  exact h.1

/-! ## A load with its drain -/

variable {k : EnsureCalls}

theorem allResident_ensure (hok : s.Ok) (hc : s.cache = none) (h : EnsuresCurrent k s) :
    AllResident (vamanaWorkerEnsureIndexCurrent k s).1 := by
  rcases ensure_cases k hok hc with ⟨res, hout, hne⟩ | ⟨hla, ⟨hp, -, hco⟩, heq⟩
  · refine allResident_of_outcome hok hout h.unlocked fun hp hres => h.late hp ?_
    exact hres.resolve_left hne
  · rw [heq]
    intro x hx hl
    rw [db_drain] at hx hl
    exact residentBy_drain hok.withCopy (h.drained hp hla hco) x hx hl (committedBy_of_live hl)

theorem EnsuresCurrent.no_dir (h : EnsuresCurrent k s) (hdir : s'.disk.dir = none) :
    EnsuresCurrent k s' := by
  refine ⟨h.unlocked, fun _ _ x _ _ dir hd => ?_, fun _ _ _ c hc => ?_⟩
  · rw [hdir] at hd
    cases hd
  · unfold withCopy at hc
    rw [diskCopy_of_no_dir hdir] at hc
    cases hc

/-! ## The requests that load -/

/-- What a request that loads comes to: the heap is the same, and the entry is current. -/
structure Loaded (s s' : Server V) : Prop where
  ok : s'.Ok
  db : s'.db = s.db
  current : AllResident s'

theorem loaded_ensure (hok : s.Ok) (hc : s.cache = none) (h : EnsuresCurrent k s) :
    Loaded s (vamanaWorkerEnsureIndexCurrent k s).1 :=
  ⟨hok.ensure k hc, db_ensure k hok hc, allResident_ensure hok hc h⟩

theorem loaded_resolve {k : WriteCalls} (hok : s.Ok) (hca : s.cache = none)
    (h₁ : EnsuresCurrent k.first s) (h₂ : EnsuresCurrent k.second s) :
    Loaded s (resolveForWrite k s).1 := by
  have hf := loaded_ensure hok hca h₁
  rcases resolve_cases k hca with heq | heq
  · rw [heq]
    exact hf
  · rw [heq]
    rcases hc : (vamanaWorkerEnsureIndexCurrent k.first s).1.cache with _ | c
    · -- the second try starts from where the first one started, or without a directory
      have hs :
          EnsuresCurrent k.second (vamanaWorkerEnsureIndexCurrent k.first s).1 := by
        rcases ensure_nothing k.first hok hca hc with hsa | hdir
        · rw [hsa]
          exact h₂
        · exact h₂.no_dir hdir
      have hl := loaded_ensure hf.ok hc hs
      exact ⟨hl.ok, hl.db.trans hf.db, hl.current⟩
    · rw [ensure_cached k.second hc]
      exact hf

theorem loaded_load (k retry : GetCalls) (hok : s.Ok) (hc : s.cache = none)
    (h : LoadsCurrent k retry s) : Loaded s (vamanaWorkerGetOrLoadIndex k retry s).1 := by
  have hout := getOrLoadIndex_outcome k retry hc hok.flagged
  exact ⟨hok.load hout, hout.db_eq, allResident_load hok hc h⟩

variable {c : IndexCache V}

theorem search_cached (k : EnsureCalls) (hc : s.cache = some c) :
    (vamanaWorkerProcessSearchBatch k s).1 = s := by
  unfold vamanaWorkerProcessSearchBatch
  rw [hc]

theorem search_loads (k : EnsureCalls) (hc : s.cache = none) :
    (vamanaWorkerProcessSearchBatch k s).1 = (vamanaWorkerEnsureIndexCurrent k s).1 := by
  unfold vamanaWorkerProcessSearchBatch
  simp only [hc]
  generalize vamanaWorkerEnsureIndexCurrent k s = r
  obtain ⟨s', index | _⟩ := r
  · rfl
  · rfl

theorem answer_is_cached (h : (vamanaWorkerProcessSearchBatch k s).2 = some c) :
    (vamanaWorkerProcessSearchBatch k s).1.cache = some c := by
  unfold vamanaWorkerProcessSearchBatch at h ⊢
  rcases hc : s.cache with _ | c₀
  · simp only [hc] at h ⊢
    generalize vamanaWorkerEnsureIndexCurrent k s = r at h ⊢
    obtain ⟨s', index | _⟩ := r
    · rcases index with _ | g
      · exact (filter_eq_some_iff.mp h).1
      · exact h
    · cases h
  · rcases hg : c₀.svsIndex with _ | g
    · simp only [hc, hg] at h ⊢
      exact (filter_eq_some_iff.mp h).1
    · simp only [hc, hg] at h ⊢
      exact h

/-! ## The steps -/

theorem db_step (s : Server V) (hok : s.Ok) (e : Event V) :
    ∃ ops, (s.step e).db = run Database.step s.db ops := by
  cases e with
  | begin => exact ⟨[.begin], rfl⟩
  | insert k xid t v =>
    simp only [step]
    split
    · rename_i hc
      obtain ⟨c, hc⟩ := isSome_iff_exists.mp hc
      obtain ⟨c', m, r, heq, -⟩ := executeInsert_outcome k t v
        (s := { s with db := s.db.step (.insert xid t v) }) hc
      unfold insertRow
      split
      · generalize vamanaWorkerExecuteInsert k t v _ = res at heq ⊢
        obtain ⟨s', e | _⟩ := res
        · obtain rfl : s' = _ := heq
          exact ⟨[.insert xid t v], rfl⟩
        · obtain rfl : s' = _ := heq
          exact ⟨[.insert xid t v, .abort xid], rfl⟩
      · exact ⟨[], rfl⟩
    · exact ⟨[], rfl⟩
  | delete xid t => exact ⟨[.delete xid t], rfl⟩
  | commit xid => exact ⟨[.commit xid], rfl⟩
  | abort xid => exact ⟨[.abort xid], rfl⟩
  | prune t => exact ⟨[.prune t], rfl⟩
  | deleteIds k ids =>
    refine ⟨[], ?_⟩
    simp only [step]
    split
    · rename_i hc
      obtain ⟨c, hc⟩ := isSome_iff_exists.mp hc
      rcases executeDelete_outcome k ids hc with ⟨heq, -⟩ | ⟨c', m, heq, -⟩
      · rw [heq]
        rfl
      · rw [heq]
        rfl
    · rfl
  | load k retry =>
    refine ⟨[], ?_⟩
    change (vamanaWorkerGetOrLoadIndex k retry s).1.db = s.db
    rcases hc : s.cache with _ | c
    · exact (getOrLoadIndex_outcome k retry hc hok.flagged).db_eq
    · rw [getOrLoadIndex_cached k retry (by rw [hc]; rfl)]
  | loadSlot k =>
    refine ⟨[], ?_⟩
    change (vamanaWorkerProcessLoadSlot k s).db = s.db
    rcases loadSlot_outcome hok k with ⟨-, heq⟩ | ⟨g, m, b, r, -, -, -, heq⟩
    · rw [heq]
    · rw [heq]
  | drain k => exact ⟨[], db_drain k s⟩
  | checkpoint saveFails slotBusy =>
    refine ⟨[], ?_⟩
    change (performCheckpoint saveFails slotBusy s).db = s.db
    have hout := checkpoint_outcome saveFails slotBusy s
    generalize performCheckpoint saveFails slotBusy s = s' at hout ⊢
    cases hout <;> rfl
  | evict => exact ⟨[], rfl⟩
  | walBudget slotHeld => exact ⟨[], rfl⟩
  | crash flushed => exact ⟨[.crash], rfl⟩

theorem committed_row_run {n : Nat} (ops : List (Op V)) : ∀ {db : Database V}, db.Ok →
    n ≤ db.wal.length → ∀ x ∈ (run Database.step db ops).heap,
      (run Database.step db ops).live x = true →
      (run Database.step db ops).committedBy n x.xmin = true →
      ∃ y ∈ db.heap, y.tid = x.tid ∧ y.vec = x.vec ∧ db.live y = true ∧
        db.committedBy n y.xmin = true := by
  induction ops with
  | nil => exact fun _ _ x hx hl hc => ⟨x, hx, rfl, rfl, hl, hc⟩
  | cons op ops ih =>
    intro db hok hn x hx hl hc
    obtain ⟨y, hy, htid, hvec, hyl, hyc⟩ := ih (ok_step hok op)
      (Nat.le_trans hn (length_wal_le_step db op)) x hx hl hc
    obtain ⟨z, hz, hrow, hzl, hzc⟩ := committed_row_step hok hn hy hyl hyc
    exact ⟨z, hz, hrow.tid.trans htid, hrow.vec.trans hvec, hzl, hzc⟩

theorem length_wal_le_run (ops : List (Op V)) : ∀ db : Database V,
    db.wal.length ≤ (run Database.step db ops).wal.length := by
  induction ops with
  | nil => exact fun _ => Nat.le_refl _
  | cons op ops ih => exact fun db => Nat.le_trans (length_wal_le_step db op) (ih _)

theorem residentBy_step {n : Nat} (hok : s.Ok) (hn : n ≤ s.db.wal.length) {e : Event V}
    (h : ∀ x ∈ s.db.heap, s.db.live x = true → s.db.committedBy n x.xmin = true →
      Resident x.tid x.vec (s.step e)) : ResidentBy n (s.step e) := by
  intro x hx hl hc
  obtain ⟨ops, hops⟩ := db_step s hok e
  rw [hops] at hx hl hc
  obtain ⟨y, hy, htid, hvec, hyl, hyc⟩ := committed_row_run ops hok.db hn x hx hl hc
  rw [← htid, ← hvec]
  exact h y hy hyl hyc

/-- What every request keeps. -/
structure Current (w : Watched V) : Prop where
  ok : w.server.Ok
  behind : w.loadedAt ≤ w.server.db.wal.length
  resident : ResidentBy w.loadedAt w.server

theorem current_of_loaded (h : Loaded s s') : Current (⟨s', s.db.wal.length⟩ : Watched V) := by
  refine ⟨h.ok, ?_, fun x hx hl _ => h.current x hx hl⟩
  exact Nat.le_of_eq (congrArg (fun db => db.wal.length) h.db.symm)

variable {w : Watched V} {r : Request V}

theorem current_of_cached (h : Current w) (hs : serve w.server r = w.server)
    (hc : w.server.cache = some c) (hr : startsLoad w.server r = w.server.cache.isNone) :
    Current (watch w r) := by
  unfold watch
  rw [hs, hr, hc]
  exact h

theorem current_of_loads (h : Loaded w.server (serve w.server r))
    (hr : startsLoad w.server r = true) : Current (watch w r) := by
  unfold watch
  rw [if_pos hr]
  exact current_of_loaded h

theorem current_event (h : Current w) (e : Event V)
    (hs : startsLoad w.server (.other e) = w.server.cache.isNone)
    (hk : ∀ n, ResidentBy n w.server → (∀ c, w.server.cache = some c → n = w.loadedAt) →
      ∀ x ∈ w.server.db.heap, w.server.db.live x = true →
      w.server.db.committedBy n x.xmin = true → Resident x.tid x.vec (w.server.step e)) :
    Current (watch w (.other e)) := by
  obtain ⟨ops, hops⟩ := db_step w.server h.ok e
  have hg : w.server.db.wal.length ≤ (w.server.step e).db.wal.length := by
    rw [hops]
    exact length_wal_le_run ops _
  unfold watch
  rw [hs]
  rcases hc : w.server.cache with _ | c
  · refine ⟨ok_step h.ok e, hg, residentBy_step h.ok (Nat.le_refl _) ?_⟩
    refine hk _ (fun x hx hl _ => allResident_of_no_cache hc x hx hl) fun c hc' => ?_
    rw [hc] at hc'
    cases hc'
  · exact ⟨ok_step h.ok e, Nat.le_trans h.behind hg,
      residentBy_step h.ok h.behind (hk _ h.resident fun _ _ => rfl)⟩

theorem current_other (h : Current w) (e : Event V) (hk : KeepsCurrent w (.other e)) :
    Current (watch w (.other e)) := by
  have hp : startsLoad w.server (.other e) = w.server.cache.isNone →
      (∀ t v, KeepsRow t v w.server e) → Current (watch w (.other e)) := fun hs hke =>
    current_event h e hs fun n hres _ x hx hl hc =>
      resident_step h.ok (hres x hx hl hc) e (hke x.tid x.vec)
  cases e with
  | begin | insert k xid t v | delete xid t | commit xid | abort xid | prune t
  | checkpoint saveFails slotBusy | evict | walBudget slotHeld | crash flushed =>
    exact hp rfl fun _ _ => trivial
  | deleteIds k ids =>
    refine current_event h _ rfl fun n hres hn x hx hl hc =>
      resident_step h.ok (hres x hx hl hc) _ fun c hca e he => ?_
    rw [hn c hca] at hc
    exact hk x hx hl hc c hca e he
  | load k retry =>
    rcases hc : w.server.cache with _ | c
    · exact current_of_loads (loaded_load k retry h.ok hc (hk hc)) (by simp [startsLoad, hc])
    · exact current_of_cached h (congrArg Prod.fst
        (getOrLoadIndex_cached k retry (s := w.server) (by rw [hc]; rfl))) hc rfl
  | loadSlot k =>
    rcases loadSlot_outcome h.ok k with ⟨hno, heq⟩ | ⟨g, m, b, r, hlo, hco, -, heq⟩
    · unfold watch
      have hsa : serve w.server (.other (.loadSlot k)) = w.server := heq
      simp only [startsLoad, hsa, hno, isSome_none, Bool.false_eq_true, if_false]
      exact h
    · have hall := hk (by rw [hlo]; rfl)
      refine current_of_loads ⟨ok_step h.ok (.loadSlot k), ?_, ?_⟩ (by simp [startsLoad, hlo])
      · change (vamanaWorkerProcessLoadSlot k w.server).db = w.server.db
        rw [heq]
      · change AllResident (vamanaWorkerProcessLoadSlot k w.server)
        rw [heq]
        intro x hx hl c hc
        cases hc
        exact holds_entryOf h.ok hco (hall x hx hl)
  | drain k =>
    refine current_event h _ rfl fun n _ hn x hx hl hc => ?_
    refine residentBy_drain (n := n) h.ok (fun c hca => ?_) x hx hl hc
    rw [hn c hca]
    exact hk c hca

theorem current_watch (h : Current w) (r : Request V) (hk : KeepsCurrent w r) :
    Current (watch w r) := by
  cases r with
  | search k =>
    rcases hc : w.server.cache with _ | c
    · refine current_of_loads ?_ (by simp [startsLoad, hc])
      change Loaded w.server (vamanaWorkerProcessSearchBatch k w.server).1
      rw [search_loads k hc]
      exact loaded_ensure h.ok hc (hk hc)
    · exact current_of_cached h (search_cached k hc) hc rfl
  | resolve k =>
    rcases hc : w.server.cache with _ | c
    · obtain ⟨h₁, h₂⟩ := hk hc
      exact current_of_loads (loaded_resolve h.ok hc h₁ h₂) (by simp [startsLoad, hc])
    · exact current_of_cached h (congrArg Prod.fst (resolveForWrite_cached k hc)) hc rfl
  | warmup k retry =>
    rcases hc : w.server.cache with _ | c
    · exact current_of_loads (loaded_load k retry h.ok hc (hk hc)) (by simp [startsLoad, hc])
    · exact current_of_cached h (congrArg Prod.fst
        (getOrLoadIndex_cached k retry (s := w.server) (by rw [hc]; rfl))) hc rfl
  | reload k retry =>
    have hl := loaded_load k retry h.ok.evict rfl ⟨hk.unlocked, hk.copy⟩
    exact current_of_loads ⟨hl.ok, hl.db, hl.current⟩ rfl
  | other e => exact current_other h e hk

/-! ## The law -/

theorem db_search (k : EnsureCalls) (hok : s.Ok) :
    (vamanaWorkerProcessSearchBatch k s).1.db = s.db := by
  rcases hc : s.cache with _ | c
  · rw [search_loads k hc]
    exact db_ensure k hok hc
  · rw [search_cached k hc]

theorem answersCurrent (hw : Current w) (h : Current (watch w r)) : AnswersCurrent w r := by
  rintro k rfl c ha x hx hl hc
  have hdb : (watch w (.search k)).server.db = w.server.db := db_search k hw.ok
  have hres := h.resident
  unfold ResidentBy at hres
  rw [hdb] at hres
  exact hres x hx hl hc c (answer_is_cached ha)

theorem current_created (rel : Relation) (history : List (Op V)) :
    Current (watchCreated rel history) := by
  refine ⟨ok_created rel history, Nat.le_refl _, ?_⟩
  unfold watchCreated created
  dsimp only
  generalize run Database.step (start rel) history = db
  rcases hr : vamanaRebuildFromTable (visibleRows db) with _ | c
  · intro x hx hl
    have hmem := mem_visibleRows hx hl
    rw [rows_of_rebuild hr] at hmem
    cases hmem
  · intro x hx hl _ c' hc'
    cases hc'
    exact IndexCache.holds_rebuild hr (mem_visibleRows hx hl)

/-- Every search is answered from an entry with all rows committed before the load of the entry
started, as long as each request keeps the entry current. -/
theorem every_search_is_caught_up (rel : Relation) (history : List (Op V))
    (rs : List (Request V)) (h : EachStep watch KeepsCurrent (watchCreated rel history) rs) :
    EachStep watch AnswersCurrent (watchCreated rel history) rs :=
  eachStep_invariant Current (fun _ r hw hk => current_watch hw r hk)
    (fun _ r hw hk => answersCurrent hw (current_watch hw r hk)) (current_created rel history) h

def quietEnsure : EnsureCalls := ⟨quietGet, quietGet, quietDrain⟩

/-- A second row is inserted and committed, and the server crashes. -/
def insertAndCrash : List (Request Nat) :=
  [.other .begin, .other (.insert quietWrite 2 ⟨0, 2⟩ 20), .other (.commit 2), .other (.crash 100)]

theorem every_search_is_caught_up_here :
    (vamanaWorkerProcessSearchBatch quietEnsure
      (run watch (watchCreated ⟨1, 100⟩ oneRow) insertAndCrash).server).2.isSome = true ∧
    EachStep watch AnswersCurrent (watchCreated ⟨1, 100⟩ oneRow)
      (insertAndCrash ++ [.search quietEnsure]) := by
  refine ⟨rfl, ?_⟩
  refine every_search_is_caught_up ⟨1, 100⟩ oneRow _ ⟨trivial, trivial, trivial, trivial, ?_, trivial⟩
  intro _
  refine ⟨⟨rfl, rfl⟩, fun _ h => absurd rfl h, fun _ _ _ c hc _ x hx _ _ => ?_⟩
  cases hc
  have hro : x = ⟨⟨0, 1⟩, 10, 1, none⟩ ∨ x = ⟨⟨0, 2⟩, 20, 2, none⟩ := by
    simpa using (show x ∈ [⟨⟨0, 1⟩, 10, 1, none⟩, ⟨⟨0, 2⟩, 20, 2, none⟩] from hx)
  refine ⟨fun X hX _ => ?_, fun hno => ?_⟩
  · cases hX
    rcases hro with rfl | rfl
    · refine .inl ⟨0, ⟨rfl, rfl⟩, fun _ y hy hr => ?_⟩
      obtain rfl := List.mem_singleton.mp hy
      exact hr.1 rfl
    · exact .inr ⟨rfl, [], _, [], rfl, ⟨rfl, rfl, rfl⟩, by simp, fun h => absurd rfl h⟩
  · rcases hno with hno | hno
    · cases hno
    · exact absurd ⟨rfl, ⟨by decide, rfl⟩, .inl rfl⟩ hno

/-- The same, and then the index is made resident by a warm-up, by a reload, or by a search
while another process holds the slot. The search that comes after it misses the row. -/
theorem a_warm_index_is_not_caught_up :
    (¬ EachStep watch AnswersCurrent (watchCreated ⟨1, 100⟩ oneRow)
        (insertAndCrash ++ [.warmup quietGet quietGet, .search quietEnsure])) ∧
      (¬ EachStep watch AnswersCurrent (watchCreated ⟨1, 100⟩ oneRow)
        (insertAndCrash ++ [.reload quietGet quietGet, .search quietEnsure])) ∧
      ¬ EachStep watch AnswersCurrent (watchCreated ⟨1, 100⟩ oneRow)
        (insertAndCrash ++
          [.search ⟨quietGet, quietGet, { quietDrain with slotFree := false }⟩,
            .search quietEnsure]) := by
  have hrow : (⟨⟨0, 2⟩, 20, 2, none⟩ : HeapTuple Nat) ∈
      [⟨⟨0, 1⟩, 10, 1, none⟩, ⟨⟨0, 2⟩, 20, 2, none⟩] := by simp
  refine ⟨fun h => ?_, fun h => ?_, fun h => ?_⟩
  all_goals
    obtain ⟨-, -, -, -, -, hs, -⟩ := h
    obtain ⟨e, htid, -⟩ := hs quietEnsure rfl _ rfl ⟨⟨0, 2⟩, 20, 2, none⟩ hrow rfl rfl
    rcases e with _ | _ | e
    · cases htid
    · cases htid
    · cases htid

end svs_vamana.caught_up
