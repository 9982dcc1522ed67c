-- The law of a delete by external id: between the capture of an id and its delete, a rebuild or a
-- lagging copy may have given the id to another row.
import SvsVamana.Vacuum
import SvsVamana.UndoLog

namespace svs_vamana.delete_targets

open index_cache saved_index replay delivery tid_fate database write_slot server transition_runs
open replay_position vacuum undo_log IndexCache Function List Option
open Server hiding step Event

variable {V : Type}

/-! ## The pure model -/

/-- What a delete of an id is issued for: the row, and the numbering that gave it the id. -/
structure Row (V : Type) where
  epoch : Nat
  tid : Tid
  vec : Option V

/-- The server, with the numbering its ids are of and a bound on the ids given out in it, the
undo logs of the backends, and the DELETE slots that are still to be executed. -/
structure System (V : Type) where
  server : Server V
  epoch : Nat
  assigned : Nat
  logs : Nat → List (VamanaUndoEntry (Row V))
  requests : List (List (Nat × Row V))

def nextId (s : Server V) : Nat := (s.cache.map (·.nextExternalId)).getD 0

deriving instance Decidable for LoadCalls.Pass

/-- The load leaves the copy on disk in the cache. -/
def copyTaken (k : GetCalls) (s : Server V) : Bool :=
  !k.indexLocked && decide (k.load.Pass s.disk.metap) && (diskCopy s.disk).isSome &&
    (s.vamanaReplicationSlotIsConsistent || decide (k.lateError ≠ .none))

/-- The step goes on with the ids given out so far. A load does so when it takes the copy, and
when the counter on the metapage is past them all. -/
def keepsNumbering (assigned : Nat) (s : Server V) : Server.Event V → Bool
  | .load k _ => s.cache.isSome ||
      (copyTaken k s && decide (assigned ≤ s.disk.metap.nextExternalId))
  | .loadSlot k => (loadSlotEntry k.load s.disk).isNone ||
      decide (assigned ≤ s.disk.metap.nextExternalId)
  | _ => true

/-- A step of the server, with what it does to the numbering. -/
def serverStep (w : System V) (e : Server.Event V) : System V :=
  let s' := w.server.step e
  if keepsNumbering w.assigned w.server e || s'.cache.isNone then
    { w with server := s', assigned := max w.assigned (nextId s') }
  else { w with server := s', epoch := w.epoch + 1, assigned := nextId s' }

def insertedId (k : WriteCalls) (xid : Nat) (t : Tid) (v : V) (s : Server V) : Option Nat :=
  if s.cache.isSome ∧ xid ∈ s.db.active ∧ (s.db.tupleAt t).isNone then
    match (vamanaWorkerExecuteInsert k t v { s with db := s.db.step (.insert xid t v) }).2 with
    | .done e => some e
    | .error => none
  else none

/-- The ids VACUUM finds in the TID map on disk, with the rows the files have under them. -/
def scanned (dead : Tid → Bool) (w : System V) : List (Nat × Row V) :=
  (deadOnDisk dead w.server.disk).map fun e =>
    (e, ⟨w.epoch, (w.server.disk.dir.bind (·.tidAt e)).getD ⟨0, 0⟩,
      w.server.disk.dir.bind (·.pointAt e)⟩)

/-- The batches of `vamanabulkdelete`; the number of ids is fuel enough. -/
def deleteBatches : Nat → List (Nat × Row V) → List (List (Nat × Row V))
  | 0, _ => []
  | fuel + 1, ids =>
    if ids.isEmpty then []
    else ids.take maxDeleteIds :: deleteBatches fuel (ids.drop maxDeleteIds)

def requestOf (batch : List (VamanaUndoEntry (Row V))) : List (Nat × Row V) :=
  batch.map fun e => (e.externalId, e.row)

/-- Inserts of backends, the ends of their transactions, scans of VACUUM, DELETE slots that the
worker executes, and everything else. -/
inductive Event (V : Type)
  | insert (backend subxid : Nat) (k : WriteCalls) (xid : Nat) (t : Tid) (v : V)
  | release (backend subxid parent : Nat)
  | rollbackTo (workerAvailable : Bool) (backend subxid : Nat)
  | rollback (workerAvailable : Bool) (backend : Nat)
  | commit (backend : Nat)
  | vacuum (workerAvailable : Bool) (dead : Tid → Bool)
  | submit (k : WriteCalls) (i : Nat)
  | other (e : Server.Event V)

def isBackground : Server.Event V → Bool
  | .insert .. => false
  | .deleteIds .. => false
  | .crash _ => false
  | _ => true

/-- One step. A crash takes the logs and the requests with it. -/
def step (w : System V) : Event V → System V
  | .insert backend subxid k xid t v =>
    let w' := serverStep w (.insert k xid t v)
    match insertedId k xid t v w.server with
    | none => w'
    | some e =>
      { w' with
        logs := update w'.logs backend
          (vamanaUndoAppend 0 e subxid ⟨w'.epoch, t, some v⟩ (w'.logs backend)) }
  | .release backend subxid parent =>
    { w with
      logs := update w.logs backend
        (reparentSubxact subxid parent (w.logs backend)) }
  | .rollbackTo workerAvailable backend subxid =>
    let (batches, log) := vamanaSubXactAbort workerAvailable subxid (w.logs backend)
    { w with
      logs := update w.logs backend log
      requests := w.requests ++ batches.map requestOf }
  | .rollback workerAvailable backend =>
    { w with
      logs := update w.logs backend []
      requests := w.requests ++ (vamanaXactAbort workerAvailable (w.logs backend)).map requestOf }
  | .commit backend => { w with logs := update w.logs backend [] }
  | .vacuum workerAvailable dead =>
    if workerAvailable && vamanaValidateMetaCounts w.server.disk.metap none then
      { w with
        requests := w.requests ++ deleteBatches (scanned dead w).length (scanned dead w) }
    else w
  | .submit k i =>
    match w.requests[i]? with
    | none => w
    | some batch =>
      { serverStep w (.deleteIds k (batch.map Prod.fst)) with requests := w.requests.eraseIdx i }
  | .other (.crash flushed) =>
    { serverStep w (.crash flushed) with logs := fun _ => [], requests := [] }
  | .other e => if isBackground e then serverStep w e else w

def start (rel : Relation) (history : List (Op V)) : System V :=
  ⟨created rel history, 0, nextId (created rel history), fun _ => [], []⟩

/-- A DELETE slot that the worker executes removes no point of another row than the one it was
issued for. -/
def HitsOwnRows (w : System V) (ev : Event V) : Prop :=
  ∀ k i, ev = .submit k i → ∀ batch, w.requests[i]? = some batch →
    ∀ c c', w.server.cache = some c → (step w ev).server.cache = some c' →
      ∀ e row, (e, row) ∈ batch → ∀ t v, c.HoldsAt e t v → c'.point e = none →
        t = row.tid ∧ some v = row.vec

/-- The ids of the slot are of the numbering that the entry goes on with. -/
def InTime (w : System V) (ev : Event V) : Prop :=
  ∀ k i, ev = .submit k i → ∀ batch, w.requests[i]? = some batch →
    ∀ e row, (e, row) ∈ batch → row.epoch = w.epoch

/-! ## Entries that go on with the ids of another -/

/-- `c'` goes on with the ids of `c`: an id that `c` gave out has its row or none. -/
structure Extends (c c' : IndexCache V) : Prop where
  next : c.nextExternalId ≤ c'.nextExternalId
  rows : ∀ e, e < c.nextExternalId → ∀ t v, c'.HoldsAt e t v → c.HoldsAt e t v
  empty : c'.svsIndex = none → c.svsIndex = none ∧ c'.nextExternalId = c.nextExternalId

theorem Extends.refl (c : IndexCache V) : Extends c c :=
  ⟨Nat.le_refl _, fun _ _ _ _ h => h, fun h => ⟨h, rfl⟩⟩

variable {c c' : IndexCache V}

theorem Extends.same {c₁ : IndexCache V} (h : Extends c c₁) (hs : Same c₁ c') : Extends c c' := by
  refine ⟨by rw [hs.nextExternalId]; exact h.next, fun e he t v hh => ?_, fun hn => ?_⟩
  · apply h.rows e he t v
    unfold HoldsAt at hh ⊢
    rwa [hs.tidOf, hs.point] at hh
  · rw [hs.svsIndex] at hn
    rw [hs.nextExternalId]
    exact h.empty hn

variable {g : SvsIndex V}

theorem extends_mapNewPoint (hg : c.svsIndex = some g) (t : Tid) (v : V) :
    Extends c (mapNewPoint c ⟨update g.point c.nextExternalId (some v)⟩ t
      c.nextExternalId) := by
  refine ⟨Nat.le_succ _, fun e he t' v' hheld => ?_, fun hn => by cases hn⟩
  have hne : e ≠ c.nextExternalId := by omega
  obtain ⟨htid, hp⟩ := hheld
  rw [tidOf_mapNewPoint, if_neg hne] at htid
  rw [point_mapNewPoint] at hp
  refine ⟨htid, ?_⟩
  simpa [point, hg, update_of_ne hne] using hp

variable {t : Tid}

theorem extends_insertOutcome {v : V} {slotEnd : SlotEnd}
    (hz : c.svsIndex = none → c.nextExternalId = 0)
    (hout : InsertOutcome t v c c' slotEnd) : Extends c c' := by
  cases hout with
  | refused => exact .refl c
  | stray hg =>
    refine ⟨Nat.le_refl _, fun e he t' v' hheld => ?_, fun hn => by cases hn⟩
    have hne : e ≠ c.nextExternalId := by omega
    obtain ⟨htid, hp⟩ := hheld
    refine ⟨htid, ?_⟩
    simpa [point, hg, update_of_ne hne] using hp
  | mapped hg hc' _ => exact (extends_mapNewPoint hg t v).same hc'
  | first hg hc' _ =>
    have hf : Extends c (buildFirstInsert t v c) := by
      refine ⟨?_, fun e he => ?_, fun hn => by cases hn⟩
      · rw [hz hg]
        exact Nat.zero_le _
      · rw [hz hg] at he
        cases he
    exact hf.same hc'

theorem extends_deleted {ids : List Nat} (h : Deleted ids c c') : Extends c c' := by
  refine ⟨Nat.le_of_eq h.next.symm, fun e _ t v hh => ?_, fun hn => ?_⟩
  · obtain ⟨htid, hp⟩ := hh
    rw [h.tidOf] at htid
    rw [h.point] at hp
    split at htid
    · cases htid
    · rename_i hnot
      rw [if_neg hnot] at hp
      exact ⟨htid, hp⟩
  · have := h.graph
    rw [hn] at this
    cases this

theorem extends_replayed (k : ApplyCalls V) (rel : Relation) (wal : List WalRecord) (X : Nat)
    (hc : c.Sound) (hem : c.svsIndex = none → c.tidToExternalId = none) :
    Extends c (replayed k rel wal X c).1 := by
  rcases hg : c.svsIndex with _ | g
  · rw [replayed_of_no_graph k rel wal X hg (hem hg)]
    exact .refl c
  · have ha := after_replayAll k hc (by rw [hg]; rfl) 0 (delivered rel X wal)
    refine ⟨ha.next, fun e he t v hhe => ?_, fun hn => ?_⟩
    · obtain ⟨htid, hpo⟩ := hhe
      have hm : ¬ Hit c (delivered rel X wal) e := fun hh => by
        rw [replayed, ha.gone e he hh] at htid
        cases htid
      obtain ⟨ht, hp⟩ := ha.old e he hm
      exact ⟨ht.symm.trans htid, hp.symm.trans hpo⟩
    · have := ha.graph
      rw [replayed] at hn
      rw [hn] at this
      cases this

/-! ## What an id stands for -/

/-- The id stands for the row and for no other: in the entry, where it was given out, and in
the files. -/
structure StandsFor (assigned : Nat) (s : Server V) (e : Nat) (t : Tid) (v : Option V) : Prop where
  given : e < assigned
  entry : ∀ c, s.cache = some c → e < c.nextExternalId ∧
    ∀ t' v', c.HoldsAt e t' v' → t' = t ∧ some v' = v
  files : ∀ dir, s.disk.dir = some dir → ∀ t' v', dir.tidAt e = some t' →
    dir.pointAt e = some v' → t' = t ∧ some v' = v

/-- The ids of the entry and of the files are of one numbering. -/
structure Aligned (assigned : Nat) (s : Server V) : Prop where
  ok : s.Ok
  next : ∀ c, s.cache = some c → c.nextExternalId ≤ assigned
  empty : ∀ c, s.cache = some c → c.svsIndex = none → c.nextExternalId = 0
  files : ∀ dir, s.disk.dir = some dir → ∀ e t, dir.tidAt e = some t →
    StandsFor assigned s e t (dir.pointAt e)

variable {assigned e : Nat} {s : Server V}

theorem Aligned.standsFor (h : Aligned assigned s) (hc : s.cache = some c)
    (htid : c.tidOf e = some t) : StandsFor assigned s e t (c.point e) := by
  have hlt := (h.ok.cache c hc).lt_next htid
  refine ⟨Nat.lt_of_lt_of_le hlt (h.next c hc), fun c' hc' => ?_, fun dir hdir t' v' ht' hv' => ?_⟩
  · cases hc.symm.trans hc'
    refine ⟨hlt, fun t' v' hheld => ?_⟩
    obtain ⟨ht', hv'⟩ := hheld
    exact ⟨some.inj (ht'.symm.trans htid), hv'.symm⟩
  · obtain ⟨v, hv⟩ := isSome_iff_exists.mp ((h.ok.cache c hc).mapped_valid e t htid)
    obtain ⟨rfl, hp⟩ := ((h.files dir hdir e t' ht').entry c hc).2 t v ⟨htid, hv⟩
    rw [hv, hp, hv']
    exact ⟨rfl, rfl⟩

/-- `s'` goes on with the entry and the files of `s`, or with files made of the entry. -/
structure Continues (s s' : Server V) : Prop where
  entry : ∀ c', s'.cache = some c' → ∃ c, s.cache = some c ∧ Extends c c'
  files : ∀ dir, s'.disk.dir = some dir → s.disk.dir = some dir ∨
    ∃ c, s.cache = some c ∧ (∀ e, dir.tidAt e = c.tidOf e) ∧ ∀ e, dir.pointAt e = c.point e

variable {s' : Server V}

theorem Continues.standsFor (h : Continues s s') {v : Option V} (hfor : StandsFor assigned s e t v) :
    StandsFor (max assigned (nextId s')) s' e t v := by
  refine ⟨Nat.lt_of_lt_of_le hfor.given (Nat.le_max_left _ _), fun c' hc' => ?_,
    fun dir hdir t' v' ht' hv' => ?_⟩
  · obtain ⟨c, hc, hext⟩ := h.entry c' hc'
    obtain ⟨hlt, hr⟩ := hfor.entry c hc
    exact ⟨Nat.lt_of_lt_of_le hlt hext.next,
      fun t' v' hheld => hr t' v' (hext.rows e hlt t' v' hheld)⟩
  · rcases h.files dir hdir with hs | ⟨c, hc, htid, hp⟩
    · exact hfor.files dir hs t' v' ht' hv'
    · rw [htid] at ht'
      rw [hp] at hv'
      exact (hfor.entry c hc).2 t' v' ⟨ht', hv'⟩

theorem nextId_of_cache (hc : s.cache = some c) : nextId s = c.nextExternalId := by
  unfold nextId
  rw [hc]
  rfl

theorem Continues.aligned (h : Continues s s') (hs : Aligned assigned s) (hok : s'.Ok) :
    Aligned (max assigned (nextId s')) s' := by
  refine ⟨hok, fun c' hc' => ?_, fun c' hc' hno => ?_, fun dir hdir e t htid => ?_⟩
  · rw [nextId_of_cache hc']
    exact Nat.le_max_right _ _
  · obtain ⟨c, hc, hext⟩ := h.entry c' hc'
    obtain ⟨hg, hn⟩ := hext.empty hno
    rw [hn]
    exact hs.empty c hc hg
  · rcases h.files dir hdir with hsa | ⟨c, hc, ht, hp⟩
    · exact h.standsFor (hs.files dir hsa e t htid)
    · rw [ht] at htid
      rw [hp]
      exact h.standsFor (hs.standsFor hc htid)

/-! ## The steps of the server -/

theorem Continues.refl (s : Server V) : Continues s s :=
  ⟨fun c hc => ⟨c, hc, .refl c⟩, fun _ hdir => .inl hdir⟩

theorem Continues.of_entry (hc : s.cache = some c) (hc' : s'.cache = some c') (hext : Extends c c')
    (hdir : s'.disk.dir = s.disk.dir) : Continues s s' := by
  refine ⟨fun c₁ hc₁ => ⟨c, hc, ?_⟩, fun dir hd => .inl (hdir ▸ hd)⟩
  cases hc'.symm.trans hc₁
  exact hext

theorem Continues.of_none (hc' : s'.cache = none)
    (hdir : s'.disk.dir = s.disk.dir ∨ s'.disk.dir = none) : Continues s s' := by
  refine ⟨fun c hc => ?_, fun dir hd => ?_⟩
  · rw [hc'] at hc
    cases hc
  · rcases hdir with hs | hn
    · exact .inl (hs ▸ hd)
    · rw [hn] at hd
      cases hd

theorem continues_insertRow (h : Aligned assigned s) (k : WriteCalls) (xid : Nat) (t : Tid)
    (v : V) (hc : s.cache.isSome) : Continues s (insertRow k xid t v s) := by
  obtain ⟨c, hc⟩ := isSome_iff_exists.mp hc
  obtain ⟨c', m, r, heq, hout, -, -⟩ := executeInsert_outcome k t v
    (s := { s with db := s.db.step (.insert xid t v) }) hc
  have hext := extends_insertOutcome (h.empty c hc) hout
  unfold insertRow
  split
  · generalize vamanaWorkerExecuteInsert k t v _ = res at heq ⊢
    obtain ⟨s', e | _⟩ := res
    · obtain rfl : s' = _ := heq
      exact .of_entry hc rfl hext rfl
    · obtain rfl : s' = _ := heq
      exact .of_entry hc rfl hext rfl
  · exact .refl s

theorem continues_deleteIds (k : WriteCalls) (ids : List Nat) (hc : s.cache.isSome) :
    Continues s (vamanaWorkerExecuteDelete k ids s).1 := by
  obtain ⟨c, hc⟩ := isSome_iff_exists.mp hc
  rcases executeDelete_outcome k ids hc with ⟨heq, -⟩ | ⟨c', m, heq, -, hdel, -⟩
  · rw [heq]
    exact .refl s
  · rw [heq]
    exact .of_entry hc rfl (extends_deleted hdel) rfl

theorem continues_drain (hok : s.Ok) (k : DrainFaults) :
    Continues s (vamanaReplicationDrainSlot k s).1 := by
  have hout := drainSlot_outcome k s
  generalize (vamanaReplicationDrainSlot k s).1 = s' at hout ⊢
  cases hout with
  | idle => exact .refl s
  | finished hc hX ho hru hr =>
    rename_i c X
    have hext := extends_replayed (k.calls s.db).apply s.db.rel s.db.wal X (hok.cache c hc)
      (hok.empty c hc)
    exact .of_entry hc rfl (hext.same ⟨rfl, rfl, rfl, rfl⟩) rfl
  | cut hc _ _ =>
    exact .of_entry hc rfl (extends_replayed _ _ _ _ (hok.cache _ hc) (hok.empty _ hc)) rfl
  | dropped => exact .of_none rfl (.inr rfl)

theorem continues_checkpoint (hok : s.Ok) (saveFails slotBusy : Bool) :
    Continues s (performCheckpoint saveFails slotBusy s) := by
  have hout := checkpoint_outcome saveFails slotBusy s
  generalize performCheckpoint saveFails slotBusy s = s' at hout ⊢
  cases hout with
  | idle _ => exact .refl s
  | failed _ =>
    exact ⟨fun c hc => ⟨c, hc, .refl c⟩, fun dir hdir => by cases hdir⟩
  | saved hc hg hs hc' =>
    rename_i c c'
    obtain ⟨dir, hdir, -, hp, htid⟩ := checkpoint_files hok hc hg
    refine ⟨fun c₁ hc₁ => ⟨c, hc, ?_⟩, fun dir' hdir' => .inr ⟨c, hc, ?_⟩⟩
    · cases hc₁
      exact (Extends.refl c).same hc'
    · cases hdir.symm.trans hdir'
      exact ⟨htid, hp⟩

variable {r : Option ReplicationSlot} {m : List (Option Tid)}

theorem aligned_copy (hok : s.Ok) (hco : diskCopy s.disk = some (g, m))
    (hle : s.disk.metap.nextExternalId ≤ assigned) {b : Bool}
    (hok' : Ok (⟨s.db, s.disk, r,
      some { entryOf s.disk.metap g m with replicationSlot := b }⟩ : Server V)) :
    Aligned assigned (⟨s.db, s.disk, r,
      some { entryOf s.disk.metap g m with replicationSlot := b }⟩ : Server V) := by
  obtain ⟨dir, hdir, -, hp, htid⟩ := SavedOk.entry hco hok.saved
  refine ⟨hok', fun c hc => ?_, fun c hc hn => ?_, fun dir' hdir' e t ht => ?_⟩
  · cases hc
    exact hle
  · cases hc
    cases hn
  · cases hdir.symm.trans hdir'
    have hlt := ((hok.saved dir hdir).mapped e t ht).2
    refine ⟨Nat.lt_of_lt_of_le hlt hle, fun c hc => ⟨?_, fun t' v' hheld => ?_⟩,
      fun dir₁ hdir₁ t' v' ht' hv' => ?_⟩
    · cases hc
      exact hlt
    · cases hc
      obtain ⟨ht', hv'⟩ := hheld
      have ht'' := (htid e).symm.trans ht'
      have hv'' := (hp e).symm.trans hv'
      exact ⟨some.inj (ht''.symm.trans ht), hv''.symm⟩
    · cases hdir.symm.trans hdir₁
      exact ⟨some.inj (ht'.symm.trans ht), hv'.symm⟩

/-- An id keeps its row when the copy is loaded with a counter past all ids given out. -/
theorem standsFor_copy (hok : s.Ok) (hco : diskCopy s.disk = some (g, m))
    (hle : assigned ≤ s.disk.metap.nextExternalId) {v : Option V}
    (hfor : StandsFor assigned s e t v) (n : Nat) (b : Bool) (r : Option ReplicationSlot) :
    StandsFor (max assigned n) (⟨s.db, s.disk, r,
      some { entryOf s.disk.metap g m with replicationSlot := b }⟩ : Server V) e t v := by
  obtain ⟨dir, hdir, -, hp, htid⟩ := SavedOk.entry hco hok.saved
  refine ⟨Nat.lt_of_lt_of_le hfor.given (Nat.le_max_left _ _),
    fun c hc => ⟨?_, fun t' v' hheld => ?_⟩, hfor.files⟩
  · cases hc
    exact Nat.lt_of_lt_of_le hfor.given hle
  · cases hc
    obtain ⟨ht', hv'⟩ := hheld
    exact hfor.files dir hdir t' v' ((htid e).symm.trans ht') ((hp e).symm.trans hv')

variable {d : Disk V} {db : Database V}

theorem aligned_rebuilt (hok : Ok (⟨db, d, r, some c'⟩ : Server V))
    (hr : vamanaRebuildFromTable (visibleRows db) = some c) (hc : Same c c')
    (hd : d.dir = none ∨ ∃ d₀, d = vamanaSaveIndexToDisk c d₀) :
    Aligned c'.nextExternalId (⟨db, d, r, some c'⟩ : Server V) := by
  have hs := Sound.rebuild hr
  have hg := rebuild_graph hr
  refine ⟨hok, fun x hx => ?_, fun x hx hn => ?_, fun dir hdir e t ht => ?_⟩
  · cases hx
    exact Nat.le_refl _
  · cases hx
    rw [hc.svsIndex] at hn
    rw [hn] at hg
    cases hg
  · change d.dir = some dir at hdir
    rcases hd with hn | ⟨d₀, rfl⟩
    · rw [hn] at hdir
      cases hdir
    · obtain ⟨dir', hdir', -, hp, htid⟩ := save_files hs hg d₀
      cases hdir'.symm.trans hdir
      have hlt : e < c'.nextExternalId := by
        rw [hc.nextExternalId]
        exact hs.lt_next ((htid e).symm.trans ht)
      refine ⟨hlt, fun x hx => ⟨?_, fun t' v' hheld => ?_⟩, fun dir₁ hdir₁ t' v' ht' hv' => ?_⟩
      · cases hx
        exact hlt
      · cases hx
        obtain ⟨ht', hv'⟩ := hheld
        rw [hc.tidOf, ← htid, ht] at ht'
        rw [hc.point, ← hp] at hv'
        exact ⟨(some.inj ht').symm, hv'.symm⟩
      · cases hdir'.symm.trans hdir₁
        exact ⟨some.inj (ht'.symm.trans ht), hv'.symm⟩

theorem aligned_empty (hok : Ok (⟨db, d, r, some c⟩ : Server V))
    (hc : Same emptyTableIndex c) (hd : d.dir = none) :
    Aligned c.nextExternalId (⟨db, d, r, some c⟩ : Server V) := by
  refine ⟨hok, fun x hx => ?_, fun x hx _ => ?_, fun dir hdir => ?_⟩
  · cases hx
    exact Nat.le_refl _
  · cases hx
    rw [hc.nextExternalId]
    rfl
  · change d.dir = some dir at hdir
    rw [hd] at hdir
    cases hdir

theorem aligned_load {k retry : GetCalls} {res : Option Bool} (hok : s.Ok)
    (hout : LoadOutcome k retry s s' res) (hc' : s'.cache.isSome) : Aligned (nextId s') s' := by
  have hok' := hok.load hout
  cases hout with
  | nothing _ => cases hc'
  | copy _ hco _ => exact aligned_copy hok hco (Nat.le_refl _) hok'
  | rebuilt hr hc hd _ _ => exact aligned_rebuilt hok' hr hc hd
  | empty _ hc hd _ _ => exact aligned_empty hok' hc hd

/-- What a step does to the numbering: it goes on with the entry, it goes on with the copy on
disk, or it starts anew. -/
inductive StepKind (assigned : Nat) (s : Server V) (e : Server.Event V) : Prop
  | continued (hkeep : keepsNumbering assigned s e = true ∨ (s.step e).cache = none)
      (h : Continues s (s.step e))
  | copied {g : SvsIndex V} {m : List (Option Tid)} {b : Bool} {r : Option ReplicationSlot}
      (hkeep : keepsNumbering assigned s e = true) (hcopy : diskCopy s.disk = some (g, m))
      (hle : assigned ≤ s.disk.metap.nextExternalId)
      (h : s.step e =
        ⟨s.db, s.disk, r, some { entryOf s.disk.metap g m with replicationSlot := b }⟩)
  | anew (hnew : keepsNumbering assigned s e = false) (hc : (s.step e).cache.isSome)
      (h : Aligned (nextId (s.step e)) (s.step e))

theorem stepKind_load (hok : s.Ok) (k retry : GetCalls) : StepKind assigned s (.load k retry) := by
  rcases hc : s.cache with _ | c
  · have hout := getOrLoadIndex_outcome k retry hc hok.flagged
    rcases hc' : (vamanaWorkerGetOrLoadIndex k retry s).1.cache with _ | c'
    · refine .continued (.inr hc') (.of_none hc' ?_)
      change (vamanaWorkerGetOrLoadIndex k retry s).1.disk.dir = s.disk.dir ∨
        (vamanaWorkerGetOrLoadIndex k retry s).1.disk.dir = none
      generalize vamanaWorkerGetOrLoadIndex k retry s = res at hout hc' ⊢
      obtain ⟨s', result⟩ := res
      cases hout with
      | nothing hd =>
        rcases hd with ⟨rfl, -⟩ | ⟨hn, -⟩
        · exact .inl rfl
        · exact .inr hn
      | copy _ _ _ => cases hc'
      | rebuilt _ _ _ _ _ => cases hc'
      | empty _ _ _ _ _ => cases hc'
    · by_cases ht : copyTaken k s = true ∧ assigned ≤ s.disk.metap.nextExternalId
      · have hk : keepsNumbering assigned s (.load k retry) = true := by
          simp [keepsNumbering, ht]
        obtain ⟨ht, hle⟩ := ht
        simp only [copyTaken, Bool.and_eq_true, Bool.not_eq_true', decide_eq_true_eq,
          Bool.or_eq_true] at ht
        obtain ⟨⟨⟨hl, hp⟩, hcopy⟩, hco⟩ := ht
        obtain ⟨g, m, b, hdi, heq⟩ :=
          getOrLoadIndex_takesCopy retry hc hl hp hcopy hco
        exact .copied hk hdi hle (congrArg Prod.fst heq)
      · refine .anew ?_ (isSome_iff_exists.mpr ⟨c', hc'⟩)
          (aligned_load hok hout (isSome_iff_exists.mpr ⟨c', hc'⟩))
        simpa [keepsNumbering, hc] using ht
  · have hs : s.step (.load k retry) = s :=
      congrArg Prod.fst (getOrLoadIndex_cached k retry (s := s) (by rw [hc]; rfl))
    refine .continued (.inl (by simp [keepsNumbering, hc])) ?_
    rw [hs]
    exact .refl s

theorem stepKind_loadSlot (hok : s.Ok) (k : LoadSlotCalls) : StepKind assigned s (.loadSlot k) := by
  rcases loadSlot_outcome hok k with ⟨hn, heq⟩ | ⟨g, m, b, r, hl, hc, -, heq⟩
  · refine .continued (.inl (by simp [keepsNumbering, hn])) ?_
    change Continues s (vamanaWorkerProcessLoadSlot k s)
    rw [heq]
    exact .refl s
  · by_cases hle : assigned ≤ s.disk.metap.nextExternalId
    · exact .copied (by simp [keepsNumbering, hle]) hc hle heq
    have hok' := hok.loadSlot k
    have hs : s.step (.loadSlot k) = _ := heq
    rw [heq] at hok'
    refine .anew (by simp [keepsNumbering, hl, hle]) ?_ ?_
    · rw [hs]
      rfl
    · rw [hs]
      exact aligned_copy hok hc (Nat.le_refl _) hok'

theorem stepKind (h : Aligned assigned s) (e : Server.Event V) : StepKind assigned s e := by
  have hdb : ∀ op, Continues s { s with db := s.db.step op } := fun _ =>
    ⟨fun c hc => ⟨c, hc, .refl c⟩, fun _ hdir => .inl hdir⟩
  cases e with
  | begin => exact .continued (.inl rfl) (hdb .begin)
  | insert k xid t v =>
    refine .continued (.inl rfl) ?_
    simp only [Server.step]
    split
    · rename_i hc
      exact continues_insertRow h k xid t v hc
    · exact .refl s
  | delete xid t => exact .continued (.inl rfl) (hdb (.delete xid t))
  | commit xid => exact .continued (.inl rfl) (hdb (.commit xid))
  | abort xid => exact .continued (.inl rfl) (hdb (.abort xid))
  | prune t => exact .continued (.inl rfl) (hdb (.prune t))
  | deleteIds k ids =>
    refine .continued (.inl rfl) ?_
    simp only [Server.step]
    split
    · rename_i hc
      exact continues_deleteIds k ids hc
    · exact .refl s
  | load k retry => exact stepKind_load h.ok k retry
  | loadSlot k => exact stepKind_loadSlot h.ok k
  | drain k => exact .continued (.inl rfl) (continues_drain h.ok k)
  | checkpoint saveFails slotBusy =>
    exact .continued (.inl rfl) (continues_checkpoint h.ok saveFails slotBusy)
  | evict | crash flushed => exact .continued (.inl rfl) (.of_none rfl (.inl rfl))
  | walBudget slotHeld => exact .continued (.inl rfl) (.of_none rfl (.inr rfl))

/-! ## The steps of the system -/

variable {w : System V}

theorem serverStep_keeps {e : Server.Event V}
    (h : keepsNumbering w.assigned w.server e = true ∨ (w.server.step e).cache = none) :
    serverStep w e = { w with
      server := w.server.step e
      assigned := max w.assigned (nextId (w.server.step e)) } := by
  unfold serverStep
  rcases h with h | h
  · simp [h]
  · simp [h]

theorem aligned_serverStep (h : Aligned w.assigned w.server) (e : Server.Event V) :
    Aligned (serverStep w e).assigned (serverStep w e).server := by
  have hok := ok_step h.ok e
  cases stepKind h e with
  | continued hk hco =>
    rw [serverStep_keeps hk]
    exact hco.aligned h hok
  | copied hk hcopy hle heq =>
    rw [serverStep_keeps (.inl hk)]
    rw [heq] at hok ⊢
    exact aligned_copy h.ok hcopy (Nat.le_max_right _ _) hok
  | anew hnew hc ha =>
    have hs : (w.server.step e).cache.isNone = false := by simpa using hc
    unfold serverStep
    simp only [hnew, hs, Bool.or_self, Bool.false_eq_true, if_false]
    exact ha

/-- What an id of the present numbering, or of one before it, was captured for. -/
def Captured (w : System V) (e : Nat) (row : Row V) : Prop :=
  row.epoch ≤ w.epoch ∧
    (row.epoch = w.epoch → StandsFor w.assigned w.server e row.tid row.vec)

theorem captured_serverStep (h : Aligned w.assigned w.server) (ev : Server.Event V) {row : Row V}
    (hcap : Captured w e row) : Captured (serverStep w ev) e row := by
  obtain ⟨hle, hfor⟩ := hcap
  cases stepKind h ev with
  | continued hk hco =>
    rw [serverStep_keeps hk]
    exact ⟨hle, fun heq => hco.standsFor (hfor heq)⟩
  | copied hk hcopy hn heq =>
    rw [serverStep_keeps (.inl hk)]
    refine ⟨hle, fun hep => ?_⟩
    rw [heq]
    exact standsFor_copy h.ok hcopy hn (hfor hep) _ _ _
  | anew hnew hc ha =>
    have hs : (w.server.step ev).cache.isNone = false := by simpa using hc
    unfold serverStep
    simp only [hnew, hs, Bool.or_self, Bool.false_eq_true, if_false]
    refine ⟨Nat.le_succ_of_le hle, fun hep => ?_⟩
    change row.epoch = w.epoch + 1 at hep
    omega

theorem holdsAt_insertedId {k : WriteCalls} {xid : Nat} {v : V}
    (h : insertedId k xid t v s = some e) :
    ∃ c, (s.step (.insert k xid t v)).cache = some c ∧ c.HoldsAt e t v := by
  unfold insertedId at h
  split at h
  · rename_i hco
    obtain ⟨hc, ha, hf⟩ := hco
    obtain ⟨c, hc'⟩ := isSome_iff_exists.mp hc
    obtain ⟨c', m, r, heq, hout, -, -⟩ := executeInsert_outcome k t v
      (s := { s with db := s.db.step (.insert xid t v) }) hc'
    simp only [Server.step, hc, if_true, insertRow, ha, hf, and_self]
    generalize vamanaWorkerExecuteInsert k t v _ = res at heq hout h ⊢
    obtain ⟨s', e' | _⟩ := res
    · obtain rfl : e' = e := some.inj h
      obtain rfl : s' = _ := heq
      refine ⟨c', rfl, ?_⟩
      cases hout with
      | mapped hg hs hend =>
        obtain rfl : e' = c.nextExternalId := by simpa using hend
        exact ⟨by rw [hs.tidOf]; simp, by rw [hs.point]; simp⟩
      | first hg hs hend =>
        obtain rfl : e' = 0 := by simpa using hend
        exact ⟨by rw [hs.tidOf]; rfl, by rw [hs.point]; rfl⟩
    · cases h
  · cases h

theorem tidAt_of_mem_deadOnDisk {dead : Tid → Bool} (h : e ∈ deadOnDisk dead d) :
    ∃ dir t, d.dir = some dir ∧ dir.tidAt e = some t := by
  unfold deadOnDisk at h
  split at h
  · cases h
  rcases hm : vamanaLoadTidMap d.dir d.metap.tidMappingCapacity with _ | m
  · simp [hm] at h
  · simp only [hm, map_some, getD_some, deadIds, mem_filter] at h
    obtain ⟨t, ht, -⟩ := (any_eq_true _ _).mp h.2
    unfold vamanaLoadTidMap at hm
    rcases hd : d.dir with _ | dir
    · simp [hd] at hm
    · rcases hf : dir.tidmap with _ | file
      · simp [hd, hf] at hm
      · simp only [hd, bind_some, hf] at hm
        split at hm
        · cases hm
        · cases hm
          rw [append_holes_get] at ht
          exact ⟨dir, t, rfl, by simp [SaveDir.tidAt, hf, ht]⟩

theorem mem_of_mem_deleteBatches (fuel : Nat) : ∀ {ids batch : List (Nat × Row V)}
    {x : Nat × Row V}, batch ∈ deleteBatches fuel ids → x ∈ batch → x ∈ ids := by
  induction fuel with
  | zero => exact fun h => by cases h
  | succ fuel ih =>
    intro ids batch x hba hx
    unfold deleteBatches at hba
    split at hba
    · cases hba
    · rcases mem_cons.mp hba with rfl | hba
      · exact mem_of_mem_take hx
      · exact mem_of_mem_drop (ih hba hx)

/-- What every step keeps. -/
structure Inv (w : System V) : Prop where
  aligned : Aligned w.assigned w.server
  logs : ∀ backend, ∀ entry ∈ w.logs backend, Captured w entry.externalId entry.row
  requests : ∀ batch ∈ w.requests, ∀ e row, (e, row) ∈ batch → Captured w e row

theorem inv_serverStep (h : Inv w) (ev : Server.Event V) : Inv (serverStep w ev) := by
  have hl : (serverStep w ev).logs = w.logs := by
    unfold serverStep
    dsimp only
    split <;> rfl
  have hr : (serverStep w ev).requests = w.requests := by
    unfold serverStep
    dsimp only
    split <;> rfl
  refine ⟨aligned_serverStep h.aligned ev, fun backend entry hen => ?_,
    fun batch hba e row hrow => ?_⟩
  · rw [hl] at hen
    exact captured_serverStep h.aligned ev (h.logs backend entry hen)
  · rw [hr] at hba
    exact captured_serverStep h.aligned ev (h.requests batch hba e row hrow)

variable {log : List (VamanaUndoEntry (Row V))}

theorem Inv.set_log (h : Inv w) (backend : Nat)
    (hlog : ∀ entry ∈ log, Captured w entry.externalId entry.row) :
    Inv { w with logs := update w.logs backend log } := by
  refine ⟨h.aligned, fun backend' entry hen => ?_, h.requests⟩
  change entry ∈ update w.logs backend log backend' at hen
  by_cases hb : backend' = backend
  · subst hb
    rw [update_self] at hen
    exact hlog entry hen
  · rw [update_of_ne hb] at hen
    exact h.logs backend' entry hen

theorem Inv.add_requests (h : Inv w) {batches : List (List (Nat × Row V))}
    (hnew : ∀ batch ∈ batches, ∀ e row, (e, row) ∈ batch → Captured w e row) :
    Inv { w with requests := w.requests ++ batches } := by
  refine ⟨h.aligned, h.logs, fun batch hba => ?_⟩
  rcases mem_append.mp hba with hold | hba
  · exact h.requests batch hold
  · exact hnew batch hba

theorem captured_replaceMatching (h : ∀ entry ∈ log, Captured w entry.externalId entry.row)
    (subxid : Nat) (replacement : Option Nat) :
    ∀ entry ∈ replaceMatchingSubxid subxid replacement log,
      Captured w entry.externalId entry.row := by
  intro entry hen
  obtain ⟨old, hold, rfl⟩ := mem_map.mp hen
  have hcap := h old hold
  split
  · exact hcap
  · exact hcap

theorem captured_undoBatches {entries : List (VamanaUndoEntry (Row V))}
    (h : ∀ entry ∈ entries, Captured w entry.externalId entry.row) :
    ∀ batch ∈ (undoBatches entries).map requestOf, ∀ e row, (e, row) ∈ batch →
      Captured w e row := by
  intro batch hba e row hrow
  obtain ⟨ids, hids, rfl⟩ := mem_map.mp hba
  obtain ⟨entry, hen, heq⟩ := mem_map.mp hrow
  obtain ⟨rfl, rfl⟩ := Prod.mk.inj heq
  exact h entry (mem_of_mem_undoBatches hids hen)

theorem captured_scanned (h : Inv w) (dead : Tid → Bool) {row : Row V}
    (hmem : (e, row) ∈ scanned dead w) : Captured w e row := by
  obtain ⟨e', hd, heq⟩ := mem_map.mp hmem
  obtain ⟨rfl, rfl⟩ := Prod.mk.inj heq
  obtain ⟨dir, t, hdir, htid⟩ := tidAt_of_mem_deadOnDisk hd
  refine ⟨Nat.le_refl _, fun _ => ?_⟩
  simp only [hdir, bind_some, htid, getD_some]
  exact h.aligned.files dir hdir e' t htid

theorem inv_step (h : Inv w) (ev : Event V) : Inv (step w ev) := by
  cases ev with
  | insert backend subxid k xid t v =>
    have hw := inv_serverStep h (.insert k xid t v)
    unfold step
    dsimp only
    split
    · exact hw
    rename_i e he
    refine hw.set_log backend fun entry hen => ?_
    rcases mem_append.mp hen with hold | hnew
    · exact hw.logs backend entry hold
    · -- the row was just added under this id
      obtain rfl := mem_singleton.mp hnew
      obtain ⟨c, hc, htid, hpo⟩ := holdsAt_insertedId he
      have hca : (serverStep w (.insert k xid t v)).server.cache = some c := by
        unfold serverStep
        dsimp only
        split <;> exact hc
      refine ⟨Nat.le_refl _, fun _ => ?_⟩
      have hfor := hw.aligned.standsFor hca htid
      rw [hpo] at hfor
      exact hfor
  | release backend subxid parent =>
    exact h.set_log backend (captured_replaceMatching (h.logs backend) subxid (some parent))
  | rollbackTo workerAvailable backend subxid =>
    have hlog := captured_replaceMatching (h.logs backend) subxid none
    unfold step vamanaSubXactAbort
    cases workerAvailable with
    | false => exact (h.set_log backend (h.logs backend)).add_requests (by simp)
    | true =>
      refine (h.set_log backend hlog).add_requests
        (captured_undoBatches (w := w) fun entry hen => h.logs backend entry ?_)
      exact mem_of_mem_filter hen
  | rollback workerAvailable backend =>
    unfold step vamanaXactAbort
    cases workerAvailable with
    | false => exact (h.set_log backend (by simp)).add_requests (by simp)
    | true =>
      refine (h.set_log backend (by simp)).add_requests
        (captured_undoBatches (w := w) fun entry hen => h.logs backend entry ?_)
      exact (mem_insertionSort _).mp (mem_of_mem_filter hen)
  | commit backend => exact h.set_log backend (by simp)
  | vacuum workerAvailable dead =>
    unfold step
    dsimp only
    split
    · refine h.add_requests fun batch hba e row hrow => ?_
      exact captured_scanned h dead (mem_of_mem_deleteBatches _ hba hrow)
    · exact h
  | submit k i =>
    unfold step
    dsimp only
    split
    · exact h
    rename_i batch _
    have hw := inv_serverStep h (.deleteIds k (batch.map Prod.fst))
    refine ⟨hw.aligned, hw.logs, fun batch' hba' e row hrow => ?_⟩
    exact captured_serverStep h.aligned _ (h.requests batch' (mem_of_mem_eraseIdx hba') e row hrow)
  | other ev =>
    have hw := inv_serverStep h ev
    have hp : Inv (if isBackground ev then serverStep w ev else w) := by
      split
      · exact hw
      · exact h
    cases ev with
    | crash flushed => exact ⟨hw.aligned, by simp [step], by simp [step]⟩
    | _ => exact hp

theorem aligned_created (rel : Relation) (history : List (Op V)) :
    Aligned (nextId (created rel history)) (created rel history) := by
  have hok := ok_created rel history
  unfold created at hok ⊢
  dsimp only at hok ⊢
  generalize run Database.step (Database.start rel) history = db at hok ⊢
  rcases hr : vamanaRebuildFromTable (visibleRows db) with _ | c
  · rw [hr] at hok
    exact aligned_empty hok (.refl _) rfl
  · rw [hr] at hok
    exact aligned_rebuilt hok hr ⟨rfl, rfl, rfl, rfl⟩ (.inr ⟨_, rfl⟩)

/-! ## The law -/

/-- An insert whose write of the metapage is skipped. -/
def skippedWrite : WriteCalls := { quietWrite with insert := ⟨true, true, .skipped⟩ }

/-- A row's id is recorded, the entry is rebuilt or comes back with a counter that lags behind, the
next row gets the same id, and the first row is rolled back. -/
def lateUndo (k : WriteCalls) (gone : Server.Event Nat) : List (Event Nat) :=
  [.other .begin, .insert 1 1 k 2 ⟨0, 2⟩ 20, .other gone, .other (.load quietGet quietGet),
    .other .begin, .insert 2 1 quietWrite 3 ⟨0, 3⟩ 30, .other (.commit 3), .rollback true 1,
    .submit quietWrite 0]

end svs_vamana.delete_targets
