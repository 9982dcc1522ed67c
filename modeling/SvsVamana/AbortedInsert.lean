-- The law of an aborted insert: its id goes from the slot to the undo log, a batch and a DELETE
-- slot, and is lost when a wait is given up or the worker fails in between.
import SvsVamana.Session

namespace svs_vamana.aborted_insert

open index_cache server transition_runs replay_position undo_log session
open delete_targets (nextId)
open Function List

variable {V : Type}

/-! ## Where the ids of the points are -/

/-- The ids of a DELETE slot that the worker has still to finish. -/
def deletesOf (slot : SlotStatus V) : List Nat :=
  match slot.request with
  | some (.delete ids) => ids
  | _ => []

def undoIds : Phase → List Nat
  | .undoing batches _ => batches.flatten.map (·.externalId)
  | .deleting batches _ => batches.flatten.map (·.externalId)
  | _ => []

/-- The id in the slot that the backend is about to record. -/
def confirmedIds : Phase → SlotStatus V → List Nat
  | .inserting, .done e => [e]
  | _, _ => []

def liveIds (log : List (VamanaUndoEntry Unit)) : List Nat :=
  (log.filter fun x => x.subxid.isSome).map (·.externalId)

/-- The ids that are on their way to the worker, to be deleted. -/
def awaited (w : Session V) : List Nat := deletesOf w.slot ++ undoIds w.phase

def kept (w : Session V) : List Nat := confirmedIds w.phase w.slot ++ liveIds w.log

/-- The id is in the log for the subtransaction, or in the slot for the innermost one. -/
def Recorded (w : Session V) (e subxid : Nat) : Prop :=
  (∃ x ∈ w.log, x.externalId = e ∧ x.subxid = some subxid) ∨
    (e ∈ confirmedIds w.phase w.slot ∧ w.nest.head? = some subxid)

def Awaits (w : Session V) : Request V → Prop
  | .insert _ _ subxid => w.phase = .inserting ∧ w.nest.head? = some subxid
  | .delete _ => ∃ batches ends, w.phase = .deleting batches ends
  | .search => w.phase = .searching

/-- The open subtransactions: none of them has aborted, and neither has one that is still to
come. -/
structure Nested (w : Session V) : Prop where
  open_of : w.phase.isOpen = true → w.nest ≠ []
  nodup : w.nest.Nodup
  live : ∀ subxid ∈ w.nest, subxid < w.nextSubid ∧ w.aborted subxid = false
  fresh : w.nest ≠ [] → ∀ subxid, w.nextSubid ≤ subxid → w.aborted subxid = false

/-- Every valid point that the transaction has added is accounted for, once. -/
structure Custody (w : Session V) : Prop where
  graph : ∀ e, (w.owner e).isSome → hasGraph w.server = true ∧ e < nextId w.server
  nodup : (awaited w ++ kept w).Nodup
  valid : ∀ e ∈ awaited w ++ kept w, (w.owner e).isSome ∧ (pointOf w.server e).isSome
  owed : ∀ e subxid, w.owner e = some subxid → (pointOf w.server e).isSome →
    w.aborted subxid = true → e ∈ awaited w
  recorded : w.phase.isOpen = true → ∀ e subxid, w.owner e = some subxid →
    (pointOf w.server e).isSome → w.aborted subxid = false → Recorded w e subxid

structure Inv (w : Session V) : Prop where
  asked : ∀ r, w.slot.request = some r → Awaits w r
  nested : Nested w
  custody : Custody w

variable {w w' : Session V}

theorem Custody.frame (h : Custody w) (hs : SamePoints w.server w'.server)
    (how : w'.owner = w.owner) (habo : w'.aborted = w.aborted)
    (ha : awaited w' = awaited w) (hn : (kept w).Nodup → (kept w').Nodup)
    (hk : ∀ e ∈ kept w', e ∈ kept w)
    (hop : w'.phase.isOpen = true → w.phase.isOpen = true ∧
      ∀ e subxid, Recorded w e subxid → Recorded w' e subxid) : Custody w' := by
  obtain ⟨haw, hke, hd⟩ := nodup_append.mp h.nodup
  refine ⟨fun e he => ?_, ?_, fun e he => ?_, fun e subxid he hp hab => ?_,
    fun ho e subxid he hp hab => ?_⟩
  · rw [how] at he
    rw [hs.graph, hs.next]
    exact h.graph e he
  · rw [ha]
    exact nodup_append.mpr ⟨haw, hn hke, fun e he e' he' => hd e he e' (hk e' he')⟩
  · rw [how, hs.point]
    refine h.valid e (mem_append.mpr ?_)
    rcases mem_append.mp he with he | he
    · exact .inl (ha ▸ he)
    · exact .inr (hk e he)
  · rw [how] at he
    rw [hs.point] at hp
    rw [habo] at hab
    rw [ha]
    exact h.owed e subxid he hp hab
  · rw [how] at he
    rw [hs.point] at hp
    rw [habo] at hab
    exact (hop ho).2 e subxid (h.recorded (hop ho).1 e subxid he hp hab)

theorem Custody.of_no_owner (hn : ∀ e, w.owner e = none) (hids : awaited w ++ kept w = []) :
    Custody w := by
  refine ⟨fun e he => ?_, ?_, fun e he => ?_, fun e subxid he => ?_, fun _ e subxid he => ?_⟩
  · rw [hn] at he
    cases he
  · rw [hids]
    exact nodup_nil
  · rw [hids] at he
    cases he
  · rw [hn] at he
    cases he
  · rw [hn] at he
    cases he

theorem Inv.no_request (h : Inv w) (hp : w.phase.waits = false) : w.slot.request = none := by
  rcases hr : w.slot.request with _ | r
  · rfl
  · have ha := h.asked r hr
    cases r with
    | insert t v subxid =>
      rw [ha.1] at hp
      cases hp
    | delete ids =>
      obtain ⟨batches, ends, hdel⟩ := ha
      rw [hdel] at hp
      cases hp
    | search =>
      rw [ha] at hp
      cases hp

/-! ## The steps that only move the request -/

/-- A step that changes the slot and the phase, and no id is lost on the way. -/
structure Moves (w w' : Session V) : Prop where
  server : SamePoints w.server w'.server
  nest : w'.nest = w.nest
  nextSubid : w'.nextSubid = w.nextSubid
  log : w'.log = w.log
  owner : w'.owner = w.owner
  aborted : w'.aborted = w.aborted
  awaited : awaited w' = awaited w
  confirmed : confirmedIds w'.phase w'.slot = confirmedIds w.phase w.slot
  isOpen : w'.phase.isOpen = w.phase.isOpen
  asked : ∀ r, w'.slot.request = some r → Awaits w' r

theorem Inv.move (h : Inv w) (hm : Moves w w') : Inv w' := by
  have hk : kept w' = kept w := by
    unfold kept
    rw [hm.confirmed, hm.log]
  refine ⟨hm.asked, ⟨fun ho => ?_, ?_, fun subxid hs => ?_, fun hne subxid hs => ?_⟩, ?_⟩
  · rw [hm.isOpen] at ho
    rw [hm.nest]
    exact h.nested.open_of ho
  · rw [hm.nest]
    exact h.nested.nodup
  · rw [hm.nest] at hs
    rw [hm.nextSubid, hm.aborted]
    exact h.nested.live subxid hs
  · rw [hm.nest] at hne
    rw [hm.nextSubid] at hs
    rw [hm.aborted]
    exact h.nested.fresh hne subxid hs
  · refine h.custody.frame hm.server hm.owner hm.aborted hm.awaited
      (fun hn => hk ▸ hn) (fun e he => hk ▸ he) fun ho => ⟨hm.isOpen ▸ ho, ?_⟩
    intro e subxid hrec
    unfold Recorded at hrec ⊢
    rwa [hm.log, hm.confirmed, hm.nest]

variable {slot : SlotStatus V}

theorem deletesOf_of_no_request (h : slot.request = none) : deletesOf slot = [] := by
  unfold deletesOf
  rw [h]

variable (batches : List (List (VamanaUndoEntry Unit))) (ends : Bool)

theorem undoIds_afterBatch :
    undoIds (afterBatch batches ends) = batches.flatten.map (·.externalId) := by
  cases batches with
  | nil => cases ends <;> rfl
  | cons batch batches => rfl

theorem isOpen_afterBatch : (afterBatch batches ends).isOpen = !ends := by
  cases batches with
  | nil => cases ends <;> rfl
  | cons batch batches => rfl

theorem confirmedIds_afterBatch
    (slot : SlotStatus V) : confirmedIds (afterBatch batches ends) slot = [] := by
  cases batches with
  | nil => cases ends <;> rfl
  | cons batch batches => rfl

theorem claimSlot_cases (available : Bool) (r : Request V) (slot : SlotStatus V) :
    claimSlot available r slot = none ∨ claimSlot available r slot = some (.pending r) := by
  unfold claimSlot
  split
  · exact .inr rfl
  · exact .inl rfl

theorem Inv.fail (h : Inv w) (hp : w.phase = .running) : Inv { w with phase := .failed } := by
  have hs := h.no_request (by rw [hp]; rfl)
  refine h.move ⟨.refl _, rfl, rfl, rfl, rfl, rfl, ?_, ?_, ?_, fun r hr => ?_⟩
  · unfold awaited
    rw [hp]
    rfl
  · rw [hp]
    rfl
  · rw [hp]
    rfl
  · cases hs.symm.trans hr

variable {r : Request V}

theorem Inv.submit (h : Inv w) (hp : w.phase = .running) (available : Bool)
    {waits : Phase} (hids : deletesOf (SlotStatus.pending r) = []) (hu : undoIds waits = [])
    (ho : waits.isOpen = true) (ha : Awaits { w with slot := .pending r, phase := waits } r) :
    Inv (submit available r waits w) := by
  have hs := h.no_request (by rw [hp]; rfl)
  unfold session.submit
  rcases claimSlot_cases available r w.slot with hc | hc
  · rw [hc]
    exact h.fail hp
  · rw [hc]
    refine h.move ⟨.refl _, rfl, rfl, rfl, rfl, rfl, ?_, ?_, ?_, fun r' hr' => ?_⟩
    · unfold awaited
      rw [hids, hu, hp, deletesOf_of_no_request hs]
      rfl
    · rw [hp]
      cases waits <;> rfl
    · rw [hp]
      exact ho
    · cases hr'
      exact ha

theorem Inv.clear (h : Inv w) {phase : Phase} (hs : slot.request = none)
    (hids : deletesOf w.slot = []) (hu : undoIds phase = undoIds w.phase)
    (ho : phase.isOpen = w.phase.isOpen)
    (hc : confirmedIds phase slot = confirmedIds w.phase w.slot) :
    Inv { w with slot := slot, phase := phase } := by
  refine h.move ⟨.refl _, rfl, rfl, rfl, rfl, rfl, ?_, hc, ho, fun r hr => ?_⟩
  · unfold awaited
    rw [hids, hu, deletesOf_of_no_request hs]
  · cases hs.symm.trans hr

theorem liveIds_append (xs ys : List (VamanaUndoEntry Unit)) :
    liveIds (xs ++ ys) = liveIds xs ++ liveIds ys := by
  unfold liveIds
  rw [filter_append, map_append]

variable {e : Nat}

theorem Inv.append (h : Inv w) (hp : w.phase = .inserting) (hs : w.slot = .done e) :
    Inv { w with
      slot := .empty, phase := .running, log := vamanaUndoAppend 0 e w.current () w.log } := by
  have hc : confirmedIds w.phase w.slot = [e] := by
    rw [hp, hs]
    rfl
  have hlog : liveIds (vamanaUndoAppend 0 e w.current () w.log) = liveIds w.log ++ [e] := by
    rw [vamanaUndoAppend, liveIds_append]
    rfl
  refine ⟨fun _ hr => (nomatch hr), ⟨fun _ => h.nested.open_of (by rw [hp]; rfl),
    h.nested.nodup, h.nested.live, h.nested.fresh⟩, ?_⟩
  have hpe : (liveIds (vamanaUndoAppend 0 e w.current () w.log)).Perm (kept w) := by
    rw [hlog, kept, hc]
    exact perm_append_comm
  refine h.custody.frame (.refl _) rfl rfl ?_ hpe.nodup_iff.mpr (fun _ => hpe.mem_iff.mp)
    fun _ => ⟨by rw [hp]; rfl, ?_⟩
  · unfold awaited
    rw [hp, hs]
    rfl
  · rintro x subxid (⟨y, hy, hrec⟩ | ⟨hx, hh⟩)
    · exact .inl ⟨y, mem_append_left _ hy, hrec⟩
    · rw [hc, mem_singleton] at hx
      refine .inl ⟨_, mem_append_right _ (.head _), hx.symm, ?_⟩
      rw [Session.current, headD_eq_head?_getD, hh]
      rfl

theorem Inv.wake (h : Inv w) : Inv (wake w) := by
  obtain ⟨server, slot, phase, nest, nextSubid, log, owner, aborted⟩ := w
  unfold session.wake
  dsimp only
  split
  · exact h.append rfl rfl
  · exact h.clear rfl rfl rfl rfl rfl
  · exact h.clear rfl rfl rfl rfl rfl
  · exact h.clear rfl rfl rfl rfl rfl
  · exact h.clear rfl rfl (undoIds_afterBatch _ _) (isOpen_afterBatch _ _)
      (confirmedIds_afterBatch _ _ _)
  · exact h.clear rfl rfl (undoIds_afterBatch _ _) (isOpen_afterBatch _ _)
      (confirmedIds_afterBatch _ _ _)
  · exact h

theorem request_cancel (h : ∀ r, slot ≠ .processing r) : slot.cancel.request = none := by
  cases slot with
  | processing r => exact absurd rfl (h r)
  | _ => rfl

/-- A wait that may be given up: an INSERT or a search that is still PENDING, or a request that
has ended. -/
theorem Inv.giveUp (h : Inv w) (cancelled : Bool) (hw : mustWait w = false) :
    Inv (giveUp cancelled w) := by
  obtain ⟨server, slot, phase, nest, nextSubid, log, owner, aborted⟩ := w
  have hi : ∀ r, slot ≠ .processing r := by
    rintro r rfl
    cases phase <;> cases hw
  have hids : deletesOf slot = [] := by
    cases slot with
    | pending r =>
      cases r with
      | delete ids =>
        obtain ⟨batches, ends, rfl⟩ := h.asked (.delete ids) rfl
        cases hw
      | insert t v subxid => rfl
      | search => rfl
    | processing r => exact absurd rfl (hi r)
    | _ => rfl
  unfold session.giveUp
  dsimp only
  split
  · exact h
  split
  · refine h.clear (request_cancel hi) hids rfl rfl ?_
    cases slot with
    | done e => cases hw
    | _ => rfl
  · exact h.clear (request_cancel hi) hids rfl rfl rfl
  · exact h.clear (request_cancel hi) hids (undoIds_afterBatch _ _) (isOpen_afterBatch _ _)
      (confirmedIds_afterBatch _ _ _)
  · exact h

theorem Inv.submitUndo (h : Inv w) : Inv (submitUndo true w) := by
  obtain ⟨server, slot, phase, nest, nextSubid, log, owner, aborted⟩ := w
  unfold session.submitUndo
  dsimp only
  split
  · rename_i batch batches ends
    have hs : slot.request = none := h.no_request rfl
    have hc : claimSlot true (.delete (batch.map (·.externalId))) slot =
        some (.pending (.delete (batch.map (·.externalId)))) := by
      rw [claimSlot, hs]
      rfl
    rw [hc]
    refine h.move ⟨.refl _, rfl, rfl, rfl, rfl, rfl, ?_, rfl, rfl, fun r hr => ?_⟩
    · simp only [awaited, undoIds]
      rw [deletesOf_of_no_request hs, flatten_cons, map_append]
      rfl
    · cases hr
      exact ⟨batches, ends, rfl⟩
  · exact h

theorem Inv.promote (h : Inv w) : Inv (step w .promote) := by
  obtain ⟨server, slot, phase, nest, nextSubid, log, owner, aborted⟩ := w
  simp only [step]
  split
  · rename_i r
    refine h.move ⟨.refl _, rfl, rfl, rfl, rfl, rfl, rfl, ?_, rfl, fun r' hr' => ?_⟩
    · cases phase <;> rfl
    · cases hr'
      exact h.asked r rfl
  · exact h

variable {s : Server V}

theorem Inv.server (h : Inv w) (hs : SamePoints w.server s) : Inv { w with server := s } :=
  h.move ⟨hs, rfl, rfl, rfl, rfl, rfl, rfl, rfl, rfl, h.asked⟩

/-! ## The steps of the worker -/

theorem Inv.no_ids (h : Inv w) (hn : ∀ e, w.owner e = none) : awaited w ++ kept w = [] := by
  rw [eq_nil_iff_forall_not_mem]
  intro e he
  have ho := (h.custody.valid e he).1
  rw [hn] at ho
  cases ho

theorem Inv.no_owner (h : Inv w) (hg : hasGraph w.server = false) (e : Nat) : w.owner e = none := by
  rcases ho : w.owner e with _ | subxid
  · rfl
  · have := (h.custody.graph e (by rw [ho]; rfl)).1
    rw [hg] at this
    cases this

theorem hasGraph_of_no_cache (h : s.cache.isNone) : hasGraph s = false := by
  rw [hasGraph, Option.isNone_iff_eq_none.mp h]
  rfl

/-- The server may do anything as long as it has no point of the transaction. -/
theorem Inv.server_of_no_owner (h : Inv w) (hn : ∀ e, w.owner e = none) (s : Server V)
    {owner : Nat → Option Nat} (ho : ∀ e, owner e = none) :
    Inv { w with server := s, owner := owner } :=
  ⟨h.asked, ⟨h.nested.open_of, h.nested.nodup, h.nested.live, h.nested.fresh⟩,
    .of_no_owner ho (h.no_ids hn)⟩

theorem Inv.background (h : Inv w) (e : Server.Event V)
    (hok : (∀ x, w.owner x = none) ∨ keepsGraph e = true) : Inv (background e w) := by
  unfold session.background
  split
  · by_cases hn : ∀ x, w.owner x = none
    · refine h.server_of_no_owner hn _ fun x => ?_
      split
      · exact hn x
      · rfl
    · have hk : keepsGraph e = true := hok.resolve_left hn
      rw [if_pos hk]
      refine h.server (samePoints_step ?_ hk)
      rcases hc : w.server.cache with _ | c
      · exact absurd (h.no_owner (hasGraph_of_no_cache (by rw [hc]; rfl))) hn
      · rfl
  · exact h

variable {subxid : Nat}

theorem Inv.added (h : Inv w) {t : Tid} {v : V} (hs : w.slot = .processing (.insert t v subxid))
    (hnew : hasGraph w.server = true → e = nextId w.server) (hgr : hasGraph s = true)
    (hn : nextId s = e + 1) (hpo : pointOf s = update (pointOf w.server) e (some v)) :
    Inv { w with
      server := s, slot := .done e, owner := update w.owner e (some subxid) } := by
  obtain ⟨server, slot, phase, nest, nextSubid, log, owner, aborted⟩ := w
  obtain rfl : slot = .processing (.insert t v subxid) := hs
  obtain ⟨rfl, hh⟩ : phase = .inserting ∧ nest.head? = some subxid := h.asked _ rfl
  have hl : aborted subxid = false := (h.nested.live subxid (mem_of_mem_head? hh)).2
  -- the new id is past every id of the transaction
  have hot : ∀ x, (owner x).isSome → x < e := by
    intro x hx
    obtain ⟨hg, hlt⟩ := h.custody.graph x hx
    rw [hnew hg]
    exact hlt
  refine ⟨fun _ hr => (nomatch hr), ⟨h.nested.open_of, h.nested.nodup, h.nested.live,
    h.nested.fresh⟩, ⟨fun x hx => ⟨hgr, ?_⟩, ?_, fun x hx => ?_, fun x sub hx hp hab => ?_,
    fun ho x sub hx hp hab => ?_⟩⟩
  · dsimp only at hx ⊢
    rw [hn]
    rcases eq_or_ne x e with rfl | hne
    · exact Nat.lt_succ_self x
    · rw [update_of_ne hne] at hx
      exact Nat.lt_succ_of_lt (hot x hx)
  · refine nodup_cons.mpr ⟨fun hx => ?_, h.custody.nodup⟩
    exact absurd (hot e (h.custody.valid e hx).1) (Nat.lt_irrefl e)
  · dsimp only
    rw [hpo]
    rcases eq_or_ne x e with rfl | hne
    · rw [update_self, update_self]
      exact ⟨rfl, rfl⟩
    · rw [update_of_ne hne, update_of_ne hne]
      exact h.custody.valid x ((mem_cons.mp hx).resolve_left hne)
  · dsimp only at hx hp hab
    rcases eq_or_ne x e with rfl | hne
    · rw [update_self] at hx
      cases hx
      cases hl.symm.trans hab
    · rw [hpo, update_of_ne hne] at hp
      rw [update_of_ne hne] at hx
      exact h.custody.owed x sub hx hp hab
  · dsimp only at hx hp
    rcases eq_or_ne x e with rfl | hne
    · rw [update_self] at hx
      cases hx
      exact .inr ⟨.head _, hh⟩
    · rw [hpo, update_of_ne hne] at hp
      rw [update_of_ne hne] at hx
      rcases h.custody.recorded ho x sub hx hp hab with hlog | ⟨hx', -⟩
      · exact .inl hlog
      · cases hx'

theorem Inv.deleted (h : Inv w) {ids : List Nat} (hs : w.slot = .processing (.delete ids))
    (hd : slot.request = none)
    (hpo : ∀ e, pointOf s e = if e ∈ ids then none else pointOf w.server e)
    (hne : nextId s = nextId w.server) (hgr : hasGraph w.server = true → hasGraph s = true) :
    Inv { w with server := s, slot := slot } := by
  obtain ⟨server, _, phase, nest, nextSubid, log, owner, aborted⟩ := w
  obtain rfl := hs
  obtain ⟨batches, ends, rfl⟩ : ∃ batches ends, phase = .deleting batches ends := h.asked _ rfl
  have hn : (ids ++ (undoIds (.deleting batches ends) ++ liveIds log)).Nodup := by
    rw [← append_assoc]
    exact h.custody.nodup
  obtain ⟨-, hre, hdi⟩ := nodup_append.mp hn
  have hids : deletesOf slot = [] := deletesOf_of_no_request hd
  have hv : ∀ e, (pointOf s e).isSome → e ∉ ids ∧ (pointOf server e).isSome := by
    intro e he
    rw [hpo] at he
    split at he
    · cases he
    · rename_i hnot
      exact ⟨hnot, he⟩
  refine ⟨fun r hr => ?_, ⟨h.nested.open_of, h.nested.nodup, h.nested.live, h.nested.fresh⟩,
    ⟨fun x hx => ?_, ?_, fun x hx => ?_, fun x sub hx hp hab => ?_, fun ho x sub hx hp hab => ?_⟩⟩
  · cases hd.symm.trans hr
  · obtain ⟨hg, hlt⟩ := h.custody.graph x hx
    exact ⟨hgr hg, hne ▸ hlt⟩
  · simp only [awaited, hids]
    exact hre
  · simp only [awaited, hids] at hx
    have hnot : x ∉ ids := fun hmem => hdi x hmem x hx rfl
    have hx' := mem_append_right ids hx
    rw [nil_append, ← append_assoc] at hx'
    rw [hpo, if_neg hnot]
    exact h.custody.valid x hx'
  · obtain ⟨hnot, hp'⟩ := hv x hp
    simp only [awaited, hids]
    exact (mem_append.mp (h.custody.owed x sub hx hp' hab)).resolve_left hnot
  · rcases h.custody.recorded ho x sub hx (hv x hp).2 hab with hlog | ⟨hx', -⟩
    · exact .inl hlog
    · cases hx'

theorem Inv.finish (h : Inv w) (hs : w.slot = .processing r)
    {k : Server.WriteCalls} (hk : ∀ t v subxid, r = .insert t v subxid → GoesThrough k) :
    Inv (finish k r w) := by
  have hco : ∀ slot' : SlotStatus V, (∀ e, slot' ≠ .done e) →
      confirmedIds w.phase slot' = confirmedIds w.phase w.slot := by
    intro slot' hnot
    rw [hs]
    cases slot' with
    | done e => exact absurd rfl (hnot e)
    | _ => cases w.phase <;> rfl
  unfold session.finish
  split
  · rename_i hno
    have hids := h.no_ids (h.no_owner (hasGraph_of_no_cache hno))
    simp only [awaited, append_eq_nil_iff] at hids
    exact h.clear rfl hids.1.1 rfl rfl (hco _ (by simp))
  · rename_i hso
    have hc : w.server.cache.isSome := by simpa [Option.isSome_iff_ne_none] using hso
    cases r with
    | insert t v subxid =>
      have hout := executeInsert_points (hk t v subxid rfl) t v hc
      dsimp only
      generalize Server.vamanaWorkerExecuteInsert k t v w.server = res at hout ⊢
      obtain ⟨s, slotEnd⟩ := res
      cases hout with
      | refused ha hsa =>
        rw [ha]
        exact (h.clear rfl (by rw [hs]; rfl) rfl rfl (hco .error (by simp))).server hsa
      | added ha hnew hg hn hp =>
        rw [ha]
        exact h.added hs hnew hg hn hp
    | delete ids =>
      have hv : ∀ e ∈ ids, (pointOf w.server e).isSome := by
        intro e he
        refine (h.custody.valid e (mem_append_left _ (mem_append_left _ ?_))).2
        rw [hs]
        exact he
      obtain ⟨hp, hn, hg⟩ := executeDelete_points k hc hv
      refine h.deleted hs ?_ hp hn hg
      split <;> rfl
    | search =>
      refine h.clear rfl (by rw [hs]; rfl) rfl rfl ?_
      rw [hs, show w.phase = .searching from h.asked .search (by rw [hs]; rfl)]
      rfl

/-! ## The ends of subtransactions -/

theorem liveIds_reparent (subxid parent : Nat) (log : List (VamanaUndoEntry Unit)) :
    liveIds (reparentSubxact subxid parent log) = liveIds log := by
  induction log with
  | nil => rfl
  | cons x log ih =>
    rw [← singleton_append, reparentSubxact, replaceMatchingSubxid, map_append,
      liveIds_append, liveIds_append]
    refine congr (congrArg HAppend.hAppend ?_) ih
    by_cases hx : x.subxid = some subxid
    · simp [liveIds, hx]
    · simp [liveIds, hx]

/-- The ids an aborted subtransaction asks for, and those that stay in the log. -/
theorem perm_liveIds_prune (subxid : Nat) (log : List (VamanaUndoEntry Unit)) :
    ((log.filter fun x => x.subxid = some subxid).map (·.externalId) ++
      liveIds (pruneAbortedSubxact subxid log)).Perm (liveIds log) := by
  induction log with
  | nil => exact .refl _
  | cons x log ih =>
    unfold pruneAbortedSubxact replaceMatchingSubxid liveIds at ih ⊢
    rcases hx : x.subxid with _ | s
    · simpa [hx] using ih
    · by_cases hs : s = subxid
      · simpa [hx, hs] using ih
      · simpa [hx, hs] using perm_middle.trans (ih.cons x.externalId)

/-- A backend that can abort: nothing is on its way, and the transaction is open. -/
structure Idle (w : Session V) : Prop where
  slot : w.slot.request = none
  awaited : awaited w = []
  confirmed : confirmedIds w.phase w.slot = []
  isOpen : w.phase.isOpen = true

theorem Inv.idle (h : Inv w) (hp : w.phase = .running ∨ w.phase = .failed) : Idle w := by
  have hs : w.slot.request = none := by
    apply h.no_request
    rcases hp with hp | hp
    · rw [hp]
      rfl
    · rw [hp]
      rfl
  have hids := deletesOf_of_no_request hs
  rcases hp with hp | hp
  all_goals
    refine ⟨hs, ?_, ?_, ?_⟩
    · rw [awaited, hids, hp]
      rfl
    · rw [hp]
      rfl
    · rw [hp]
      rfl

theorem Inv.in_log (h : Inv w) (hi : Idle w) (ho : w.owner e = some subxid)
    (hp : (pointOf w.server e).isSome) :
    w.aborted subxid = false ∧ ∃ x ∈ w.log, x.externalId = e ∧ x.subxid = some subxid := by
  rcases hab : w.aborted subxid with _ | _
  · refine ⟨rfl, ?_⟩
    rcases h.custody.recorded hi.isOpen e subxid ho hp hab with hlog | ⟨he, -⟩
    · exact hlog
    · rw [hi.confirmed] at he
      cases he
  · have hmem := h.custody.owed e subxid ho hp hab
    rw [hi.awaited] at hmem
    cases hmem

theorem Inv.savepoint (h : Inv w) (hp : w.phase = .running) :
    Inv { w with nest := w.nextSubid :: w.nest, nextSubid := w.nextSubid + 1 } := by
  have hi := h.idle (.inl hp)
  have hne := h.nested.open_of hi.isOpen
  refine ⟨fun r hr => ?_, ⟨fun _ => cons_ne_nil _ _, ?_, fun s hs => ?_, fun _ s hs => ?_⟩, ?_⟩
  · cases hi.slot.symm.trans hr
  · refine nodup_cons.mpr ⟨fun hmem => ?_, h.nested.nodup⟩
    exact absurd (h.nested.live _ hmem).1 (Nat.lt_irrefl _)
  · rcases mem_cons.mp hs with rfl | hs
    · exact ⟨Nat.lt_succ_self _, h.nested.fresh hne _ (Nat.le_refl _)⟩
    · exact ⟨Nat.lt_succ_of_lt (h.nested.live s hs).1, (h.nested.live s hs).2⟩
  · exact h.nested.fresh hne s (Nat.le_of_succ_le hs)
  · refine h.custody.frame (.refl _) rfl rfl rfl id (fun _ => id) fun ho => ⟨ho, ?_⟩
    rintro e subxid (hlog | ⟨he, -⟩)
    · exact .inl hlog
    · rw [hi.confirmed] at he
      cases he

variable {parent : Nat} {rest : List Nat}

theorem Nested.pop (h : Nested w) (hne : w.nest = subxid :: parent :: rest) :
    (parent :: rest).Nodup ∧ subxid ∉ parent :: rest ∧
      (∀ s ∈ parent :: rest, s < w.nextSubid ∧ w.aborted s = false) ∧ subxid < w.nextSubid ∧
        w.aborted subxid = false := by
  have hn := h.nodup
  rw [hne, nodup_cons] at hn
  refine ⟨hn.2, hn.1, fun s hs => h.live s ?_, h.live subxid ?_⟩
  · rw [hne]
    exact mem_cons_of_mem _ hs
  · rw [hne]
    exact .head _

section

variable (h : Inv w)
include h

theorem Inv.releaseSub (hph : w.phase = .running) : Inv (releaseSub w) := by
  have hi := h.idle (.inl hph)
  unfold session.releaseSub
  split
  · rename_i subxid parent rest hn
    obtain ⟨hno, hnot, hl, -, hm⟩ := h.nested.pop hn
    have hk : kept { w with log := reparentSubxact subxid parent w.log } = kept w := by
      simp only [kept, liveIds_reparent]
    refine ⟨fun r hr => ?_, ⟨fun _ => cons_ne_nil _ _, hno, hl, fun _ => ?_⟩,
      ⟨fun x hx => h.custody.graph x ?_, ?_, fun x hx => ?_, fun x sub hx hp hab => ?_,
        fun ho x sub hx hp hab => ?_⟩⟩
    · cases hi.slot.symm.trans hr
    · exact h.nested.fresh (by rw [hn]; exact cons_ne_nil _ _)
    · dsimp only at hx
      split at hx
      · rename_i ho
        rw [ho]
        rfl
      · exact hx
    · exact hk ▸ h.custody.nodup
    · obtain ⟨ho, hp⟩ := h.custody.valid x (hk ▸ hx)
      refine ⟨?_, hp⟩
      dsimp only
      split
      · rfl
      · exact ho
    · dsimp only at hx
      split at hx
      · cases hx
        cases (hl parent (.head _)).2.symm.trans hab
      · exact h.custody.owed x sub hx hp hab
    · dsimp only at hx
      split at hx
      · rename_i ho
        cases hx
        obtain ⟨-, y, hy, hid, hsub⟩ := h.in_log hi ho hp
        refine .inl ⟨{ y with subxid := some parent }, mem_map.mpr ⟨y, hy, ?_⟩, hid, rfl⟩
        rw [if_pos hsub]
      · rename_i ho
        obtain ⟨-, y, hy, hid, hsub⟩ := h.in_log hi hx hp
        refine .inl ⟨y, mem_map.mpr ⟨y, hy, ?_⟩, hid, hsub⟩
        rw [if_neg]
        intro hs
        rw [hsub] at hs
        exact ho (hx.trans hs)
  · exact h

theorem Inv.abortSub_unavailable (hi : Idle w) (hn : w.nest = subxid :: parent :: rest) :
    Inv { w with nest := parent :: rest, phase := .running } := by
  obtain ⟨hno, -, hl, -, -⟩ := h.nested.pop hn
  have hids := deletesOf_of_no_request hi.slot
  refine ⟨fun r hr => ?_, ⟨fun _ => cons_ne_nil _ _, hno, hl, fun _ => ?_⟩, ?_⟩
  · cases hi.slot.symm.trans hr
  · exact h.nested.fresh (by rw [hn]; exact cons_ne_nil _ _)
  · have hk : kept { w with nest := parent :: rest, phase := .running } = kept w := by
      rw [kept, kept, hi.confirmed]
      rfl
    refine h.custody.frame (.refl _) rfl rfl ?_ (hk ▸ id) (hk ▸ fun _ => id)
      fun _ => ⟨hi.isOpen, ?_⟩
    · rw [hi.awaited, awaited, hids]
      rfl
    · rintro e s (hlog | ⟨he, -⟩)
      · exact .inl hlog
      · rw [hi.confirmed] at he
        cases he

/-- An abort that shares the entries of the log out between the batches and what is left. -/
theorem Inv.undo (hi : Idle w) (hs : w'.server = w.server)
    (how : w'.owner = w.owner) (hsl : w'.slot = w.slot) {es : List (VamanaUndoEntry Unit)}
    {ends : Bool} (hph : w'.phase = afterBatch (undoBatches es) ends)
    (hpe : (es.map (·.externalId) ++ liveIds w'.log).Perm (liveIds w.log))
    (hsh : ∀ x ∈ w.log, ∀ subxid, x.subxid = some subxid → w.aborted subxid = false →
      (w'.aborted subxid = true → x ∈ es) ∧
        (ends = false → w'.aborted subxid = false → x ∈ w'.log)) : Custody w' := by
  have ha : awaited w' = es.map (·.externalId) := by
    rw [awaited, hsl, deletesOf_of_no_request hi.slot, hph, undoIds_afterBatch, flatten_undoBatches]
    rfl
  have hk : kept w' = liveIds w'.log := by
    rw [kept, hph, confirmedIds_afterBatch]
    rfl
  have hids : awaited w ++ kept w = liveIds w.log := by
    rw [hi.awaited, kept, hi.confirmed]
    rfl
  rw [← ha, ← hk, ← hids] at hpe
  refine ⟨fun e he => ?_, ?_, fun e he => ?_, fun e subxid he hp hab => ?_,
    fun ho e subxid he hp hab => ?_⟩
  · rw [how] at he
    rw [hs]
    exact h.custody.graph e he
  · exact hpe.nodup_iff.mpr h.custody.nodup
  · rw [how, hs]
    exact h.custody.valid e (hpe.mem_iff.mp he)
  · rw [how] at he
    rw [hs] at hp
    obtain ⟨hl, x, hx, rfl, hsub⟩ := h.in_log hi he hp
    rw [ha]
    exact mem_map.mpr ⟨x, (hsh x hx subxid hsub hl).1 hab, rfl⟩
  · rw [how] at he
    rw [hs] at hp
    rw [hph, isOpen_afterBatch, Bool.not_eq_true'] at ho
    obtain ⟨hl, x, hx, hid, hsub⟩ := h.in_log hi he hp
    exact .inl ⟨x, (hsh x hx subxid hsub hl).2 ho hab, hid, hsub⟩

theorem Inv.abortSub_available (hi : Idle w) (hn : w.nest = subxid :: parent :: rest) :
    Inv { w with
      nest := parent :: rest
      log := pruneAbortedSubxact subxid w.log
      aborted := update w.aborted subxid true
      phase := afterBatch (undoBatches (w.log.filter fun x => x.subxid = some subxid)) false } := by
  obtain ⟨hno, hnot, hl, hlt, -⟩ := h.nested.pop hn
  refine ⟨fun r hr => ?_, ⟨fun _ => cons_ne_nil _ _, hno, fun s hs => ?_, fun _ s hs => ?_⟩,
    h.undo hi rfl rfl rfl rfl (perm_liveIds_prune subxid w.log) ?_⟩
  · cases hi.slot.symm.trans hr
  · have hne : s ≠ subxid := fun heq => hnot (heq ▸ hs)
    dsimp only
    rw [update_of_ne hne]
    exact hl s hs
  · dsimp only at hs ⊢
    rw [update_of_ne (by omega)]
    exact h.nested.fresh (by rw [hn]; exact cons_ne_nil _ _) s hs
  · intro x hx s hsub hs
    dsimp only
    rcases eq_or_ne s subxid with rfl | hne
    · rw [update_self]
      exact ⟨fun _ => mem_filter.mpr ⟨hx, decide_eq_true hsub⟩, fun _ hab => nomatch hab⟩
    · rw [update_of_ne hne]
      refine ⟨fun hab => (nomatch hs.symm.trans hab), fun _ _ => mem_map.mpr ⟨x, hx, ?_⟩⟩
      rw [hsub, if_neg (fun heq => hne (Option.some.inj heq))]

theorem Inv.abortSub (workerAvailable : Bool)
    (hp : w.phase = .running ∨ w.phase = .failed) : Inv (abortSub workerAvailable w) := by
  have hi := h.idle hp
  unfold session.abortSub
  split
  · rename_i subxid parent rest hn
    cases workerAvailable with
    | false => exact h.abortSub_unavailable hi hn
    | true => exact h.abortSub_available hi hn
  · exact h

theorem Inv.close (hi : Idle w) : Inv { w with phase := .ended, nest := [], log := [] } := by
  refine ⟨fun r hr => ?_, ⟨fun ho => (nomatch ho), nodup_nil, fun s hs => (nomatch hs),
    fun hne => absurd rfl hne⟩, ?_⟩
  · cases hi.slot.symm.trans hr
  · refine h.custody.frame (.refl _) rfl rfl ?_ (fun _ => nodup_nil) (fun _ he => nomatch he)
      fun ho => nomatch ho
    rw [hi.awaited, awaited, deletesOf_of_no_request hi.slot]
    rfl

theorem Inv.abortXact (workerAvailable : Bool)
    (hp : w.phase = .running ∨ w.phase = .failed) : Inv (abortXact workerAvailable w) := by
  have hi := h.idle hp
  cases workerAvailable with
  | false => exact h.close hi
  | true =>
    have hso := w.log.perm_insertionSort fun a b => a.indexRelid ≤ b.indexRelid
    refine ⟨fun r hr => ?_, ⟨fun ho => ?_, nodup_nil, fun s hs => (nomatch hs),
      fun hne => absurd rfl hne⟩, h.undo hi rfl rfl rfl rfl ?_ ?_⟩
    · cases hi.slot.symm.trans hr
    · simp only [session.abortXact, startUndo, isOpen_afterBatch] at ho
      cases ho
    · rw [show liveIds (session.abortXact true w).log = [] from rfl, append_nil]
      exact (hso.filter _).map _
    · intro x hx s hsub _
      refine ⟨fun _ => mem_filter.mpr ⟨hso.mem_iff.mpr hx, ?_⟩, fun hen => nomatch hen⟩
      rw [hsub]
      rfl

/-! ## The law -/

end

theorem Inv.start (s : Server V) : Inv (start s) := by
  refine ⟨fun r hr => (nomatch hr), ⟨fun _ => cons_ne_nil _ _, nodup_singleton 1,
    fun subxid hs => ?_, fun _ _ _ => rfl⟩, .of_no_owner (fun _ => rfl) rfl⟩
  obtain rfl := mem_singleton.mp hs
  exact ⟨Nat.lt_succ_self 1, rfl⟩

theorem Inv.step {ev : Event V} (h : Inv w) (hok : Undisturbed w ev) : Inv (step w ev) := by
  cases ev with
  | savepoint =>
    simp only [session.step]
    split
    · rename_i hp
      exact h.savepoint hp
    · exact h
  | release =>
    simp only [session.step]
    split
    · rename_i hp
      exact h.releaseSub hp
    · exact h
  | rollbackTo workerAvailable =>
    simp only [session.step]
    split
    · rename_i hp
      exact h.abortSub workerAvailable (.inl hp)
    · rename_i hp
      exact h.abortSub workerAvailable (.inr hp)
    · exact h
  | rollback workerAvailable =>
    simp only [session.step]
    split
    · rename_i hp
      exact h.abortXact workerAvailable (.inl hp)
    · rename_i hp
      exact h.abortXact workerAvailable (.inr hp)
    · exact h
  | commit =>
    simp only [session.step]
    split
    · rename_i hp
      exact h.close (h.idle (.inl hp))
    · exact h
  | insert maxEntries available t v =>
    simp only [session.step]
    split
    · rename_i hp
      split
      · refine h.submit hp available rfl rfl rfl ⟨rfl, ?_⟩
        obtain ⟨subxid, rest, hn⟩ :=
          exists_cons_of_ne_nil (h.nested.open_of (h.idle (.inl hp)).isOpen)
        simp [Session.current, hn]
      · exact h.fail hp
    · exact h
  | search available =>
    simp only [session.step]
    split
    · rename_i hp
      exact h.submit hp available rfl rfl rfl rfl
    · exact h
  | submitUndo available =>
    obtain rfl : available = true := hok
    exact h.submitUndo
  | wake => exact h.wake
  | giveUp cancelled => exact h.giveUp cancelled hok
  | promote => exact h.promote
  | finish k =>
    simp only [session.step]
    split
    · rename_i r hs
      refine h.finish hs fun t v subxid hr => ?_
      exact hok t v subxid (hr ▸ hs)
    · exact h
  | background e => exact h.background e hok
  | heap op => exact h.server (.of_cache rfl)

theorem Inv.noGhost (h : Inv w) : NoGhost w := by
  rintro ⟨hs, hu, hd⟩ e subxid ho hab
  have hun : undoIds w.phase = [] := by
    rcases hph : w.phase with _ | _ | _ | _ | ⟨batches, ends⟩ | ⟨batches, ends⟩ | _
    · rfl
    · rfl
    · rfl
    · rfl
    · exact absurd hph (hu batches ends)
    · exact absurd hph (hd batches ends)
    · rfl
  rcases hp : pointOf w.server e with _ | v
  · rfl
  · have hmem := h.custody.owed e subxid ho (by rw [hp]; rfl) hab
    rw [awaited, deletesOf_of_no_request hs, hun] at hmem
    cases hmem

/-- In every run in which nothing comes between an insert and its undo, no point of an aborted
insert is left once the worker has finished what it was asked for. -/
theorem an_undone_insert_leaves_no_point (s : Server V) (evs : List (Event V))
    (h : EachStep step Undisturbed (start s) evs) : EachState step NoGhost (start s) evs :=
  eachState_invariant Inv (fun _ _ hw hok => hw.step hok) (fun _ hw => hw.noGhost) (.start s) h

/-- A row, a second one under a savepoint that is rolled back, and then the first one is rolled
back as well. -/
def undoneInserts : List (Event Nat) :=
  let worker := [.promote, .finish quietWrite, .wake]
  [.insert 10 true ⟨0, 2⟩ 20] ++ worker ++ [.savepoint, .insert 10 true ⟨0, 3⟩ 30] ++ worker ++
    [.rollbackTo true, .submitUndo true] ++ worker ++ [.rollback true, .submitUndo true] ++ worker

theorem two_undone_inserts_leave_no_point :
    Quiet (run step (start (Server.created ⟨1, 100⟩ oneRow)) undoneInserts) ∧
      EachState step NoGhost (start (Server.created ⟨1, 100⟩ oneRow)) undoneInserts := by
  have ht : GoesThrough quietWrite := ⟨rfl, by decide, rfl, rfl⟩
  refine ⟨⟨rfl, fun _ _ hp => (nomatch hp), fun _ _ hp => (nomatch hp)⟩, ?_⟩
  apply an_undone_insert_leaves_no_point
  exact ⟨trivial, trivial, fun _ _ _ _ => ht, trivial, trivial, trivial, trivial,
    fun _ _ _ _ => ht, trivial, trivial, rfl, trivial, fun _ _ _ _ => ht, trivial,
    trivial, rfl, trivial, fun _ _ _ _ => ht, trivial, trivial⟩

/-- An insert whose reservation the worker does not find once the point is added. -/
def strayWrite : Server.WriteCalls := { quietWrite with insert := ⟨true, false, .written⟩ }

/-- An insert is cancelled while the worker is at it, or the worker fails after it has added the
point. The transaction aborts with the worker available, and the point stays. -/
theorem a_given_up_insert_leaves_its_point :
    (¬ EachState step NoGhost (start (Server.created ⟨1, 100⟩ oneRow))
        [.insert 10 true ⟨0, 2⟩ 20, .promote, .giveUp true, .rollback true,
          .finish quietWrite]) ∧
      ¬ EachState step NoGhost (start (Server.created ⟨1, 100⟩ oneRow))
        [.insert 10 true ⟨0, 2⟩ 20, .promote, .finish strayWrite, .wake, .rollback true] := by
  refine ⟨fun h => ?_, fun h => ?_⟩
  all_goals
    obtain ⟨-, -, -, -, -, hl⟩ := h
    have hg := hl ⟨rfl, fun _ _ hp => (nomatch hp), fun _ _ hp =>
      (nomatch hp)⟩ 1 1 rfl rfl
    cases hg

end svs_vamana.aborted_insert
