-- The laws of the request slots: the worker writes to a slot from its promotion to its DONE or
-- ERROR, and executes what was published once, unless a sequential batch raises late.
import SvsVamana.SlotScript

namespace svs_vamana.slot_custody

open index_cache request_slot request_pass slot_protocol slot_script transition_runs
open System Cell Function List

/-! ## What a backend reads -/

def kindOf : Request → SlotKind
  | .search .. => .search
  | .insert .. => .insert
  | .delete .. => .delete
  | .maintenance .. => .maintenance
  | .load .. => .load
  | .warmup .. => .warmup

theorem kindOf_request (s : Slot) : kindOf s.request = s.slotKind := by
  unfold Slot.request
  cases s.slotKind <;> rfl

def answerFields (s : Slot) : Nat × List (Tid × Nat) × Nat × Bool × Nat × Nat :=
  (s.numResults, s.results, s.writeExternalId, s.writeSlotCreated, s.writeGrowthBytes,
    s.writeResidentGeneration)

theorem answerFields_write {s s' : Slot} (h : answerFields s = answerFields s') (w : SlotWrite) :
    answerFields (w.apply s) = answerFields (w.apply s') := by
  simp only [answerFields, Prod.mk.injEq] at h ⊢
  obtain ⟨hnum, hres, hid, hc, hg, hgen⟩ := h
  cases w <;> simp [SlotWrite.apply, hnum, hres, hid, hc, hg, hgen]

theorem answerIn_congr {s s' : Slot} (h : answerFields s = answerFields s') (kind : SlotKind) :
    answerIn s kind = answerIn s' kind := by
  simp only [answerFields, Prod.mk.injEq] at h
  obtain ⟨hnum, hres, hid, hc, hg, hgen⟩ := h
  cases kind <;> simp [answerIn, hnum, hres, hid, hc, hg, hgen]

/-! ## One slot -/

def executedIds (c : Cell) : List Nat := c.executed.map Prod.fst

/-- The worker has promoted request `n`, which is the last that was published, and the answer
fields are what it has written since over what was there. -/
structure Promoted (c : Cell) (n : Nat) : Prop where
  current : c.published.length = n + 1
  promoted : c.promotedAs = some n
  kind : ∃ r, c.published[n]? = some r ∧ kindOf r = c.slot.slotKind
  follows : ∃ s, answerFields c.slot = answerFields (c.written.foldl SlotWrite.apply s)

/-- The worker has ended request `n`, with a whole answer if with DONE. -/
structure Ended (c : Cell) (n : Nat) (done : Bool) : Prop where
  promoted : Promoted c n
  ended : c.endedFor = some n
  whole : done = true → Determined c.slot.slotKind c.written

/-- What the status says of the last request. -/
structure StatusOk (c : Cell) : Prop where
  held : c.held = true ↔ c.slot.status = .processing
  pending : c.slot.status = .pending → ∃ n, c.published.length = n + 1 ∧
    c.published[n]? = some c.slot.request ∧ n ∉ executedIds c ∧ n ∉ c.abandoned
  processing : c.slot.status = .processing → ∃ n, Promoted c n ∧ n ∉ c.abandoned ∧
    (c.ran = false → n ∉ executedIds c) ∧
    (c.ran = false → c.written = [] → c.published[n]? = some c.slot.request)
  done : c.slot.status = .done → ∃ n, Ended c n true
  error : c.slot.status = .error → ∃ n, Ended c n false

/-- What was executed was published, and once, and was not taken back. -/
structure LogOk (c : Cell) : Prop where
  once : (executedIds c).Nodup
  content : ∀ x ∈ c.executed, c.published[x.1]? = some x.2
  kept : ∀ n ∈ c.abandoned, n < c.published.length ∧ n ∉ executedIds c

/-- What the backend may rely on. From its claim to its publishing the slot is EMPTY. -/
def BackendOk (c : Cell) : Prop :=
  match c.backend with
  | .idle => True
  | .claiming r => r.passes = true
  | .resetting r => r.passes = true ∧ (c.slot.status = .done ∨ c.slot.status = .error)
  | .claimed r => r.passes = true ∧ c.slot.status = .empty
  | .owning r => r.passes = true ∧ c.slot.status = .empty ∧ c.slot.indexRelid = r.indexRelid
  | .filling r todo => c.slot.status = .empty ∧ (todo.foldl FieldWrite.apply c.slot).request = r
  | .publishing r => c.slot.status = .empty ∧ c.slot.request = r
  | .waiting n => c.published.length = n + 1
  | .leaving n _ => c.published.length = n + 1
  | .checking n _ => c.published.length = n + 1
  | .cancelling n => c.published.length = n + 1
  | .cancelled _ => True
  | .expiring n _ => c.published.length = n + 1
  | .expired _ _ => True
  | .consuming n done =>
    c.published.length = n + 1 ∧ c.slot.status = if done then .done else .error
  | .reading n done => c.slot.status = .empty ∧ Ended c n done

structure CellOk (c : Cell) : Prop where
  status : StatusOk c
  log : LogOk c
  backend : BackendOk c

theorem cellOk_init : CellOk init where
  status := ⟨by simp [Cell.init, Slot.init], by simp [Cell.init, Slot.init],
    by simp [Cell.init, Slot.init], by simp [Cell.init, Slot.init], by simp [Cell.init, Slot.init]⟩
  log := ⟨nodup_nil, by simp [Cell.init], by simp [Cell.init]⟩
  backend := trivial

/-! ## Changes that do not touch what was promised -/

/-- Two cells with the same request, the same answer and the same history. -/
structure Same (c c' : Cell) : Prop where
  status : c'.slot.status = c.slot.status
  request : c'.slot.request = c.slot.request
  slotKind : c'.slot.slotKind = c.slot.slotKind
  answer : answerFields c'.slot = answerFields c.slot
  published : c'.published = c.published
  promotedAs : c'.promotedAs = c.promotedAs
  held : c'.held = c.held
  ran : c'.ran = c.ran
  written : c'.written = c.written
  endedFor : c'.endedFor = c.endedFor
  executed : c'.executed = c.executed
  abandoned : c'.abandoned = c.abandoned

variable {c c' : Cell} {n : Nat}

theorem Promoted.same (h : Promoted c n) (hs : Same c c') :
    Promoted c' n where
  current := by rw [hs.published]; exact h.current
  promoted := by rw [hs.promotedAs]; exact h.promoted
  kind := by rw [hs.published, hs.slotKind]; exact h.kind
  follows := by rw [hs.answer, hs.written]; exact h.follows

variable {done : Bool}

theorem Ended.same (h : Ended c n done) (hs : Same c c') :
    Ended c' n done where
  promoted := h.promoted.same hs
  ended := by rw [hs.endedFor]; exact h.ended
  whole := by rw [hs.slotKind, hs.written]; exact h.whole

theorem StatusOk.same (h : StatusOk c) (hs : Same c c') : StatusOk c' := by
  have hids : executedIds c' = executedIds c := by rw [executedIds, hs.executed, executedIds]
  refine ⟨?_, ?_, ?_, ?_, ?_⟩
  · rw [hs.held, hs.status]
    exact h.held
  · rw [hs.status, hs.published, hs.request, hids, hs.abandoned]
    exact h.pending
  · rw [hs.status, hs.published, hs.request, hids, hs.abandoned, hs.ran, hs.written]
    intro hst
    obtain ⟨n, hp, hr⟩ := h.processing hst
    exact ⟨n, hp.same hs, hr⟩
  · rw [hs.status]
    intro hst
    obtain ⟨n, he⟩ := h.done hst
    exact ⟨n, he.same hs⟩
  · rw [hs.status]
    intro hst
    obtain ⟨n, he⟩ := h.error hst
    exact ⟨n, he.same hs⟩

theorem LogOk.same (h : LogOk c) (hp : c'.published = c.published) (he : c'.executed = c.executed)
    (ha : c'.abandoned = c.abandoned) : LogOk c' := by
  have hids : executedIds c' = executedIds c := by rw [executedIds, he, executedIds]
  exact ⟨hids ▸ h.once, by rw [he, hp]; exact h.content, by rw [ha, hp, hids]; exact h.kept⟩

theorem statusOk_empty (hs : c.slot.status = .empty) (hh : c.held = false) : StatusOk c := by
  refine ⟨by simp [hs, hh], ?_, ?_, ?_, ?_⟩
  all_goals
    intro h
    rw [hs] at h
    cases h

theorem statusOk_processing (hs : c.slot.status = .processing) (hh : c.held = true)
    (h : ∃ n, Promoted c n ∧ n ∉ c.abandoned ∧ (c.ran = false → n ∉ executedIds c) ∧
      (c.ran = false → c.written = [] → c.published[n]? = some c.slot.request)) : StatusOk c :=
  ⟨by simp [hs, hh], by simp [hs], fun _ => h, by simp [hs], by simp [hs]⟩

theorem StatusOk.not_held (h : StatusOk c) (hs : c.slot.status ≠ .processing) : c.held = false := by
  cases hh : c.held with
  | true => exact absurd (h.held.mp hh) hs
  | false => rfl

theorem CellOk.goOn (h : CellOk c) (hs : Same c c') (hb : BackendOk c') : CellOk c' :=
  ⟨h.status.same hs, h.log.same hs.published hs.executed hs.abandoned, hb⟩

theorem same_backend (c : Cell) (b : Backend) : Same c { c with backend := b } :=
  ⟨rfl, rfl, rfl, rfl, rfl, rfl, rfl, rfl, rfl, rfl, rfl, rfl⟩

theorem same_latch (c : Cell) (l : Latch) (b : Backend) :
    Same c { c with slot := { c.slot with latch := l }, backend := b } :=
  ⟨rfl, rfl, rfl, rfl, rfl, rfl, rfl, rfl, rfl, rfl, rfl, rfl⟩

theorem same_errorMessage (c : Cell) (message : String) (b : Backend) :
    Same c { c with slot := { c.slot with errorMessage := message }, backend := b } :=
  ⟨rfl, rfl, rfl, rfl, rfl, rfl, rfl, rfl, rfl, rfl, rfl, rfl⟩

/-! ## The backend's steps -/

theorem CellOk.abandon (h : CellOk c) (hn : c.published.length = n + 1) {b : Backend}
    (hb : ∀ c' : Cell, c'.backend = b → BackendOk c') :
    CellOk { c.abandon n with backend := b } := by
  unfold Cell.abandon
  split
  · rename_i hst
    obtain ⟨m, hm, _, hf, _⟩ := h.status.pending hst
    have hmn : m = n := by omega
    subst hmn
    refine ⟨statusOk_empty rfl (h.status.not_held (by simp [hst])), ⟨h.log.once, h.log.content, ?_⟩,
      hb _ rfl⟩
    intro x hx
    rcases mem_cons.mp hx with rfl | hx
    · exact ⟨by simp [setStatus, hm], hf⟩
    · exact h.log.kept x hx
  · exact h.goOn (same_backend c b) (hb _ rfl)

theorem CellOk.publish (h : CellOk c) (hst : c.slot.status = .empty) :
    CellOk { c.setStatus .pending with
      published := c.published ++ [c.slot.request], backend := .waiting c.published.length } := by
  have hnew : c.published.length ∉ executedIds c := by
    intro hmem
    obtain ⟨x, hx, heq⟩ := mem_map.mp hmem
    have hc := h.log.content x hx
    rw [heq, getElem?_eq_none (Nat.le_refl _)] at hc
    cases hc
  refine ⟨⟨?_, fun _ => ⟨c.published.length, ?_, ?_, hnew, ?_⟩, nofun, nofun, nofun⟩,
    ⟨h.log.once, ?_, ?_⟩, ?_⟩
  · simp [setStatus, h.status.not_held (by simp [hst])]
  · simp
  · exact getElem?_concat_length
  · intro hmem
    exact Nat.lt_irrefl _ (h.log.kept _ hmem).1
  · intro x hx
    have hc := h.log.content x hx
    have hlt := (List.getElem?_eq_some_iff.mp hc).1
    exact (getElem?_append_left hlt).trans hc
  · intro n hn
    obtain ⟨hlt, hnot⟩ := h.log.kept n hn
    refine ⟨?_, hnot⟩
    simp only [length_append, length_singleton]
    omega
  · simp [BackendOk]

theorem CellOk.consume (h : CellOk c) (hn : c.published.length = n + 1)
    (hst : c.slot.status = if done then .done else .error) :
    CellOk { c.setStatus .empty with backend := .reading n done } := by
  have hen : Ended c n done := by
    cases done with
    | true =>
      obtain ⟨m, hm⟩ := h.status.done hst
      have hmn : m = n := by have := hm.promoted.current; omega
      exact hmn ▸ hm
    | false =>
      obtain ⟨m, hm⟩ := h.status.error hst
      have hmn : m = n := by have := hm.promoted.current; omega
      exact hmn ▸ hm
  have hh : c.held = false := h.status.not_held (by rw [hst]; cases done <;> simp)
  refine ⟨statusOk_empty rfl hh, h.log.same rfl rfl rfl, rfl, ?_⟩
  have hp := hen.promoted
  exact ⟨⟨hp.current, hp.promoted, hp.kind, hp.follows⟩, hen.ended, hen.whole⟩

theorem CellOk.advance (h : CellOk c) (workerFound accepting : Bool) :
    CellOk (c.advance workerFound accepting) := by
  have hb := h.backend
  unfold BackendOk at hb
  unfold Cell.advance
  generalize c.backend = b at hb
  cases b with
  | idle | waiting => exact h
  | claiming r =>
    cases workerFound with
    | false => exact h.goOn (same_backend c _) trivial
    | true =>
      cases hst : c.slot.status with
      | empty => exact h.goOn (same_backend c _) ⟨hb, hst⟩
      | pending | processing => exact h.goOn (same_backend c _) trivial
      | done => exact h.goOn (same_backend c _) ⟨hb, .inl hst⟩
      | error => exact h.goOn (same_backend c _) ⟨hb, .inr hst⟩
  | resetting r =>
    have hh : c.held = false :=
      h.status.not_held (by rcases hb.2 with hst | hst <;> simp [hst])
    exact ⟨statusOk_empty rfl hh, h.log.same rfl rfl rfl, hb.1, rfl⟩
  | claimed r =>
    have hh : c.held = false := h.status.not_held (by simp [hb.2])
    exact ⟨statusOk_empty hb.2 hh, h.log.same rfl rfl rfl, hb.1, hb.2, rfl⟩
  | owning r =>
    by_cases hpa : r.passesClaimed = true
    · simp only [hpa, if_true]
      refine h.goOn (same_latch c ⟨false, true⟩ _) ⟨hb.2.1, ?_⟩
      exact request_of_fieldWrites hb.1 hb.2.2
    · simp only [hpa, Bool.false_eq_true, if_false]
      exact h.goOn (same_latch c ⟨false, false⟩ _) trivial
  | filling r todo =>
    cases todo with
    | nil =>
      cases accepting with
      | true => exact h.goOn (same_backend c _) hb
      | false => exact h.goOn (same_latch c _ _) trivial
    | cons w rest =>
      have hs : (w.apply c.slot).status = .empty := by
        rw [← hb.1]
        cases w <;> rfl
      have hh : c.held = false := h.status.not_held (by simp [hb.1])
      exact ⟨statusOk_empty hs hh, h.log.same rfl rfl rfl, hs, hb.2⟩
  | publishing r =>
    obtain ⟨hst, rfl⟩ := hb
    exact h.publish hst
  | leaving n waitedMs =>
    exact h.goOn (same_latch c _ _) hb
  | checking n waitedMs =>
    cases hst : c.slot.status with
    | done | error => exact h.goOn (same_backend c _) ⟨hb, hst⟩
    | empty | pending | processing => exact h.goOn (same_backend c _) hb
  | cancelling n | expiring n waitedMs =>
    exact h.abandon hb fun c' hc' => by simp [BackendOk, hc']
  | cancelled n => exact h.goOn (same_latch c _ _) trivial
  | expired n waitedMs => exact h.goOn (same_errorMessage c _ _) trivial
  | consuming n done =>
    exact h.consume hb.1 hb.2
  | reading n done => exact h.goOn (same_backend c _) trivial

theorem CellOk.backendStep (h : CellOk c) (e : BackendEvent) : CellOk (c.backendStep e) := by
  have hb := h.backend
  unfold BackendOk at hb
  cases e with
  | submit r =>
    simp only [Cell.backendStep]
    split
    · rename_i hi
      exact h.goOn (same_backend c _) hi.2
    · exact h
  | advance workerFound accepting => exact h.advance workerFound accepting
  | leave waitedMs | cancel =>
    simp only [Cell.backendStep]
    split
    · rename_i n hp
      rw [hp] at hb
      exact h.goOn (same_backend c _) hb
    · exact h
  | exit =>
    simp only [Cell.backendStep]
    split
    · exact h.goOn (same_backend c _) trivial
    · exact h

/-! ## The worker's steps -/

/-- While the slot is PENDING or PROCESSING, the backend relies on nothing that the worker
changes. -/
theorem backendOk_busy (h : BackendOk c)
    (hst : c.slot.status = .pending ∨ c.slot.status = .processing) (hb : c'.backend = c.backend)
    (hp : c'.published = c.published) : BackendOk c' := by
  have hem : c.slot.status ≠ .empty := by rcases hst with hst | hst <;> simp [hst]
  have hd : c.slot.status ≠ .done := by rcases hst with hst | hst <;> simp [hst]
  have herr : c.slot.status ≠ .error := by rcases hst with hst | hst <;> simp [hst]
  unfold BackendOk at h ⊢
  rw [hb]
  generalize c.backend = b at h
  cases b with
  | resetting r =>
    exact (h.2.elim hd herr).elim
  | claimed r =>
    exact absurd h.2 hem
  | owning r =>
    exact absurd h.2.1 hem
  | filling r todo | publishing r | reading n done =>
    exact absurd h.1 hem
  | consuming n done =>
    cases done with
    | true => exact absurd h.2 hd
    | false => exact absurd h.2 herr
  | idle | cancelled | expired => trivial
  | _ => simpa [hp] using h

theorem CellOk.promote (h : CellOk c) (hst : c.slot.status = .pending) : CellOk c.promote := by
  obtain ⟨n, hn, hreq, hf, hk⟩ := h.status.pending hst
  have hp : Promoted c.promote n := by
    refine ⟨hn, ?_, ⟨c.slot.request, hreq, kindOf_request c.slot⟩, ⟨c.slot, rfl⟩⟩
    simp [Cell.promote, hn]
  exact ⟨statusOk_processing rfl rfl ⟨n, hp, hk, fun _ => hf, fun _ _ => hreq⟩,
    h.log.same rfl rfl rfl, backendOk_busy h.backend (.inl hst) rfl rfl⟩

/-- The accesses that are still to come to a slot: none to one that the worker does not hold, and
none yet or a script to one that it holds. -/
def OpsOk (c : Cell) (rest : List SlotOp) : Prop :=
  (rest = [] ∧ (c.held = true → c.ran = false ∧ c.written = [])) ∨
    (c.held = true ∧ Script c.slot.slotKind c.ran c.written rest)

theorem CellOk.execute (h : CellOk c) (hh : c.held = true) (hran : c.ran = false)
    (hw : c.written = []) (i : Nat) : CellOk (c.workerOp (.execute i)) := by
  have hst := h.status.held.mp hh
  obtain ⟨n, hp, hk, hf, hreq⟩ := h.status.processing hst
  have hids : executedIds (c.workerOp (.execute i)) = executedIds c ++ [n] := by
    simp [executedIds, workerOp, hp.promoted]
  refine ⟨statusOk_processing hst hh ?_, ⟨?_, ?_, ?_⟩, backendOk_busy h.backend (.inr hst) rfl rfl⟩
  · exact ⟨n, ⟨hp.current, hp.promoted, hp.kind, hp.follows⟩, hk, nofun, nofun⟩
  · rw [hids, nodup_append]
    refine ⟨h.log.once, by simp, ?_⟩
    intro m hm m' hm' heq
    rw [mem_singleton.mp hm'] at heq
    exact hf hran (heq ▸ hm)
  · intro x hx
    rcases mem_append.mp hx with hx | hx
    · exact h.log.content x hx
    · rw [mem_singleton.mp hx, hp.promoted]
      exact hreq hran hw
  · intro m hm
    obtain ⟨hlt, hnot⟩ := h.log.kept m hm
    refine ⟨hlt, ?_⟩
    rw [hids]
    intro hmem
    rcases mem_append.mp hmem with hmem | hmem
    · exact hnot hmem
    · rw [mem_singleton.mp hmem] at hm
      exact hk hm

theorem Promoted.write (h : Promoted c n) (w : SlotWrite) :
    Promoted { c with slot := w.apply c.slot, written := c.written ++ [w] } n := by
  refine ⟨h.current, h.promoted, ?_, ?_⟩
  · rw [(sameRequest_write c.slot w).slotKind]
    exact h.kind
  · obtain ⟨s, hs⟩ := h.follows
    refine ⟨s, ?_⟩
    rw [foldl_append]
    exact answerFields_write hs w

theorem CellOk.write (h : CellOk c) (hh : c.held = true) {w : SlotWrite}
    (hw : ∀ st, w ≠ .status st) :
    CellOk { c with slot := w.apply c.slot, written := c.written ++ [w] } := by
  have hst := h.status.held.mp hh
  have hst' : (w.apply c.slot).status = .processing := by
    cases w with
    | status st => exact absurd rfl (hw st)
    | _ => exact hst
  obtain ⟨n, hp, hk, hf, _⟩ := h.status.processing hst
  refine ⟨statusOk_processing hst' hh ?_, h.log.same rfl rfl rfl,
    backendOk_busy h.backend (.inr hst) rfl rfl⟩
  exact ⟨n, hp.write w, hk, hf, fun _ hnil => by simp at hnil⟩

theorem CellOk.finish (h : CellOk c) (hh : c.held = true) (i : Nat) {st : SlotStatus}
    (hend : st = .done ∧ Determined c.slot.slotKind c.written ∨ st = .error) :
    CellOk (c.workerOp (.write i (.status st))) := by
  have hst := h.status.held.mp hh
  obtain ⟨n, hp, _⟩ := h.status.processing hst
  have hpr : Promoted (c.workerOp (.write i (.status st))) n :=
    ⟨hp.current, hp.promoted, hp.kind, hp.follows⟩
  have hb : BackendOk (c.workerOp (.write i (.status st))) :=
    backendOk_busy h.backend (.inr hst) rfl rfl
  rcases hend with ⟨rfl, hw⟩ | rfl
  · refine ⟨⟨by simp [workerOp, SlotWrite.apply], ?_, ?_,
      fun _ => ⟨n, hpr, hp.promoted, fun _ => hw⟩, ?_⟩, h.log.same rfl rfl rfl, hb⟩
    all_goals
      intro hc
      cases hc
  · refine ⟨⟨by simp [workerOp, SlotWrite.apply], ?_, ?_, ?_,
      fun _ => ⟨n, hpr, hp.promoted, ?_⟩⟩, h.log.same rfl rfl rfl, hb⟩
    all_goals
      intro hc
      cases hc

variable {rest : List SlotOp}

theorem CellOk.workerOp {op : SlotOp} (h : CellOk c) (hops : OpsOk c (op :: rest)) :
    CellOk (c.workerOp op) ∧ OpsOk (c.workerOp op) rest := by
  obtain ⟨hh, hs⟩ := hops.resolve_left (by simp)
  cases op with
  | execute i =>
    obtain ⟨hran, hwr, hr⟩ := hs
    refine ⟨h.execute hh hran hwr i, .inr ⟨hh, ?_⟩⟩
    simp only [Cell.workerOp, hwr]
    exact hr
  | write i w =>
    by_cases hw : ∃ st, w = .status st
    · obtain ⟨st, rfl⟩ := hw
      obtain ⟨rfl, hend⟩ := hs
      exact ⟨h.finish hh i hend, .inl ⟨rfl, nofun⟩⟩
    · have hw' : ∀ st, w ≠ .status st := fun st heq => hw ⟨st, heq⟩
      have heq : c.workerOp (.write i w) =
          { c with slot := w.apply c.slot, written := c.written ++ [w] } := by
        cases w with
        | status st => exact absurd rfl (hw' st)
        | _ => rfl
      rw [heq]
      refine ⟨h.write hh hw', .inr ⟨hh, ?_⟩⟩
      dsimp only
      rw [(sameRequest_write c.slot w).slotKind]
      exact (script_write hw' rest).mp hs

theorem fieldWrites_latch (todo : List FieldWrite) (s : Slot) (l : Latch) :
    todo.foldl FieldWrite.apply { s with latch := l } =
      { todo.foldl FieldWrite.apply s with latch := l } := by
  induction todo generalizing s with
  | nil => rfl
  | cons w rest ih =>
    have hw : w.apply { s with latch := l } = { w.apply s with latch := l } := by cases w <;> rfl
    rw [foldl_cons, hw, ih, foldl_cons]

theorem CellOk.setLatch (h : CellOk c) : CellOk c.setLatch := by
  have hs : Same c c.setLatch := same_latch c { c.slot.latch with isSet := true } c.backend
  apply h.goOn hs
  have hb := h.backend
  unfold BackendOk at hb ⊢
  have hsa : c.setLatch.backend = c.backend := rfl
  rw [hsa]
  generalize c.backend = b at hb
  cases b with
  | filling r todo =>
    refine ⟨hb.1, ?_⟩
    simp only [Cell.setLatch, fieldWrites_latch]
    exact hb.2
  | reading n done =>
    exact ⟨hb.1, hb.2.same hs⟩
  | _ =>
    exact hb

/-! ## The whole system -/

/-- What the worker knows of a slot that it holds. -/
structure Kept (c c' : Cell) : Prop where
  held : c'.held = c.held
  ran : c'.ran = c.ran
  written : c'.written = c.written
  slotKind : c'.slot.slotKind = c.slot.slotKind

theorem kept_abandon (c : Cell) (n : Nat) : Kept c (c.abandon n) := by
  unfold abandon
  split <;> exact ⟨rfl, rfl, rfl, rfl⟩

theorem kept_advance (workerFound accepting : Bool)
    (h : ∀ r w todo, c.backend ≠ .filling r (w :: todo)) :
    Kept c (c.advance workerFound accepting) := by
  unfold advance
  cases hp : c.backend with
  | claiming r =>
    dsimp only
    split
    · exact ⟨rfl, rfl, rfl, rfl⟩
    · split <;> exact ⟨rfl, rfl, rfl, rfl⟩
  | checking n waitedMs | owning r =>
    dsimp only
    split <;> exact ⟨rfl, rfl, rfl, rfl⟩
  | filling r todo =>
    cases todo with
    | nil =>
      dsimp only
      split <;> exact ⟨rfl, rfl, rfl, rfl⟩
    | cons w rest => exact absurd hp (h r w rest)
  | cancelling n | expiring n waitedMs =>
    have hk := kept_abandon c n
    exact ⟨hk.held, hk.ran, hk.written, hk.slotKind⟩
  | _ => exact ⟨rfl, rfl, rfl, rfl⟩

theorem kept_backendStep (h : CellOk c) (hh : c.held = true) (e : BackendEvent) :
    Kept c (c.backendStep e) := by
  cases e with
  | advance workerFound accepting =>
    apply kept_advance
    intro r w todo hp
    have hb := h.backend
    unfold BackendOk at hb
    rw [hp, h.status.held.mp hh] at hb
    cases hb.1
  | submit r | leave waitedMs | cancel | exit =>
    simp only [backendStep]
    split <;> exact ⟨rfl, rfl, rfl, rfl⟩

theorem held_backendStep (c : Cell) (e : BackendEvent) : (c.backendStep e).held = c.held := by
  cases e with
  | advance workerFound accepting =>
    by_cases hf : ∃ r w todo, c.backend = .filling r (w :: todo)
    · obtain ⟨r, w, todo, hp⟩ := hf
      simp [backendStep, advance, hp]
    · apply (kept_advance workerFound accepting _).held
      intro r w todo hp
      exact hf ⟨r, w, todo, hp⟩
  | submit r | leave waitedMs | cancel | exit =>
    simp only [backendStep]
    split <;> rfl

theorem OpsOk.kept (h : OpsOk c rest) (hhe : c'.held = c.held) (hk : c.held = true → Kept c c') :
    OpsOk c' rest := by
  rcases h with ⟨hnil, hf⟩ | ⟨hh, hs⟩
  · refine .inl ⟨hnil, fun hh => ?_⟩
    rw [hhe] at hh
    rw [(hk hh).ran, (hk hh).written]
    exact hf hh
  · have hke := hk hh
    refine .inr ⟨hhe.trans hh, ?_⟩
    rw [hke.slotKind, hke.ran, hke.written]
    exact hs

/-- The slot is promoted, and nothing is planned for it yet. -/
def Undispatched (s : System) (i : Nat) : Prop :=
  (s.cells i).held = true ∧ opsOf i s.worker.ops = []

/-- The lists of the slots that are to be dispatched: searches, and other requests. -/
structure Queues (s : System) (search writes : List Nat) : Prop where
  nodup : (search ++ writes).Nodup
  search : ∀ i ∈ search, Undispatched s i ∧ (s.slots i).slotKind = .search
  writes : ∀ i ∈ writes, Undispatched s i ∧ (s.slots i).slotKind ≠ .search

/-- What a phase of the worker knows. -/
def PhaseOk (s : System) : Prop :=
  match s.worker.phase with
  | .idle => True
  | .scanning i t => Queues s t.search t.writes ∧ ∀ j ∈ t.search ++ t.writes, j < i
  | .promoting i t => Queues s t.search t.writes ∧ ∀ j ∈ t.search ++ t.writes, j < i
  | .sorting i t =>
    Queues s t.search t.writes ∧ (∀ j ∈ t.search ++ t.writes, j < i) ∧ Undispatched s i
  | .searches todo writes _ => Queues s todo writes
  | .writes todo _ => Queues s [] todo
  | .waking _ => True
  | .stopped => True

structure SystemOk (s : System) : Prop where
  cells : ∀ i, CellOk (s.cells i)
  ops : ∀ i, OpsOk (s.cells i) (opsOf i s.worker.ops)
  phase : PhaseOk s

theorem systemOk_init (maxSlots : Nat) : SystemOk (init maxSlots) where
  cells _ := cellOk_init
  ops _ := .inl ⟨rfl, nofun⟩
  phase := trivial

variable {s : System} {writes : List Nat}

theorem Queues.keep {s' : System} {search : List Nat} (h : Queues s search writes)
    (hke : ∀ i ∈ search ++ writes, Undispatched s i → Undispatched s' i ∧
      (s'.slots i).slotKind = (s.slots i).slotKind) : Queues s' search writes where
  nodup := h.nodup
  search i hi := by
    obtain ⟨hu, hk⟩ := h.search i hi
    obtain ⟨hu', hk'⟩ := hke i (mem_append_left _ hi) hu
    exact ⟨hu', hk'.trans hk⟩
  writes i hi := by
    obtain ⟨hu, hk⟩ := h.writes i hi
    obtain ⟨hu', hk'⟩ := hke i (mem_append_right _ hi) hu
    exact ⟨hu', by rwa [hk']⟩

theorem PhaseOk.keep {s' : System} (h : PhaseOk s) (hph : s'.worker.phase = s.worker.phase)
    (hk : ∀ i, Undispatched s i → Undispatched s' i ∧
      (s'.slots i).slotKind = (s.slots i).slotKind) : PhaseOk s' := by
  unfold PhaseOk at h ⊢
  rw [hph]
  generalize s.worker.phase = phase at h
  cases phase with
  | scanning i t | promoting i t =>
    exact ⟨h.1.keep fun j _ => hk j, h.2⟩
  | sorting i t =>
    exact ⟨h.1.keep fun j _ => hk j, h.2.1, (hk i h.2.2).1⟩
  | searches todo writes all | writes todo all =>
    exact h.keep fun j _ => hk j
  | _ => trivial

variable {i : Nat}

theorem SystemOk.fresh (h : SystemOk s) (hu : Undispatched s i) :
    (s.cells i).ran = false ∧ (s.cells i).written = [] := by
  rcases h.ops i with ⟨_, hf⟩ | ⟨_, hs⟩
  · exact hf hu.1
  · rw [hu.2] at hs
    exact hs.elim

theorem SystemOk.backend (h : SystemOk s) (i : Nat) (e : BackendEvent) :
    SystemOk (s.setCell i ((s.cells i).backendStep e)) := by
  have hhe : ∀ j, ((s.setCell i ((s.cells i).backendStep e)).cells j).held = (s.cells j).held :=
    (forall_update_iff _ fun j (c : Cell) => c.held = (s.cells j).held).mpr
      ⟨held_backendStep _ e, fun _ _ => rfl⟩
  have hk : ∀ j, (s.cells j).held = true →
      Kept (s.cells j) ((s.setCell i ((s.cells i).backendStep e)).cells j) :=
    (forall_update_iff _ fun j c => (s.cells j).held = true → Kept (s.cells j) c).mpr
      ⟨fun hh => kept_backendStep (h.cells i) hh e, fun _ _ _ => ⟨rfl, rfl, rfl, rfl⟩⟩
  refine ⟨?_, fun j => (h.ops j).kept (hhe j) (hk j),
    h.phase.keep rfl fun j hu => ⟨⟨(hhe j).trans hu.1, hu.2⟩, (hk j hu.1).slotKind⟩⟩
  exact (forall_update_iff _ fun _ => CellOk).mpr ⟨(h.cells i).backendStep e, fun j _ => h.cells j⟩

theorem SystemOk.op (h : SystemOk s) {op : SlotOp} (hops : s.worker.ops = op :: rest) :
    SystemOk { s.setCell (slotOf op) ((s.cells (slotOf op)).workerOp op) with
      worker := { s.worker with ops := rest } } := by
  have hn : OpsOk (s.cells (slotOf op)) (op :: opsOf (slotOf op) rest) := by
    have := h.ops (slotOf op)
    rwa [hops, opsOf_cons_self rfl] at this
  obtain ⟨hc, hr⟩ := (h.cells (slotOf op)).workerOp hn
  have ho : ∀ j, j ≠ slotOf op → opsOf j s.worker.ops = opsOf j rest := by
    intro j hj
    rw [hops]
    exact opsOf_cons_other (Ne.symm hj) rest
  refine ⟨?_, ?_, h.phase.keep rfl fun j hu => ?_⟩
  · exact (forall_update_iff _ fun _ => CellOk).mpr ⟨hc, fun j _ => h.cells j⟩
  · exact (forall_update_iff _ fun j c => OpsOk c (opsOf j rest)).mpr
      ⟨hr, fun j hj => ho j hj ▸ h.ops j⟩
  · have hj : j ≠ slotOf op := by
      rintro rfl
      have hnil := hu.2
      rw [hops, opsOf_cons_self rfl] at hnil
      cases hnil
    have hu' := hu
    unfold Undispatched at hu' ⊢
    rw [ho j hj] at hu'
    simpa [setCell, slots, update_of_ne hj] using hu'

theorem SystemOk.goTo (h : SystemOk s) {phase : WorkerPhase} (hp : PhaseOk (s.goTo phase)) :
    SystemOk (s.goTo phase) := ⟨h.cells, h.ops, hp⟩

theorem Queues.goTo {search : List Nat} (h : Queues s search writes) (phase : WorkerPhase) :
    Queues (s.goTo phase) search writes :=
  h.keep fun _ _ hu => ⟨hu, rfl⟩

theorem SystemOk.plan (h : SystemOk s) (hops : s.worker.ops = []) {ops : List SlotOp}
    (batch : List Nat) (hba : ∀ i ∈ batch, Undispatched s i) (hwi : ∀ op ∈ ops, slotOf op ∈ batch)
    (hs : ∀ i ∈ batch, Script (s.slots i).slotKind false [] (opsOf i ops))
    {phase : WorkerPhase} (hp : PhaseOk (s.plan ops phase)) : SystemOk (s.plan ops phase) := by
  refine ⟨h.cells, fun i => ?_, hp⟩
  by_cases hi : i ∈ batch
  · obtain ⟨hran, hw⟩ := h.fresh (hba i hi)
    refine .inr ⟨(hba i hi).1, ?_⟩
    change Script (s.cells i).slot.slotKind (s.cells i).ran (s.cells i).written (opsOf i ops)
    rw [hran, hw]
    exact hs i hi
  · have hn : opsOf i ops = [] := by
      apply opsOf_none
      rintro op hop rfl
      exact hi (hwi op hop)
    have := h.ops i
    rw [hops, opsOf_nil] at this
    change OpsOk (s.cells i) (opsOf i ops)
    rwa [hn]

theorem Queues.plan {search : List Nat} (h : Queues s search writes) {ops : List SlotOp}
    {batch : List Nat} (hw : ∀ op ∈ ops, slotOf op ∈ batch)
    (hnot : ∀ i ∈ search ++ writes, i ∉ batch) (phase : WorkerPhase) :
    Queues (s.plan ops phase) search writes := by
  refine h.keep fun i hi hu => ⟨⟨hu.1, ?_⟩, rfl⟩
  apply opsOf_none
  rintro op hop rfl
  exact hnot _ hi (hw op hop)

theorem SystemOk.promote (h : SystemOk s) (hops : s.worker.ops = []) {t : Taken}
    (hph : s.worker.phase = .promoting i t) (hst : (s.slots i).status = .pending) :
    SystemOk ((s.setCell i (s.cells i).promote).goTo (.sorting i { t with all := t.all ++ [i] })) := by
  have hp := h.phase
  unfold PhaseOk at hp
  rw [hph] at hp
  refine ⟨?_, fun j => ?_, hp.1.keep fun j hj hu => ?_, hp.2, ?_⟩
  · exact (forall_update_iff _ fun _ => CellOk).mpr ⟨(h.cells i).promote hst, fun j _ => h.cells j⟩
  · have hj' := h.ops j
    rw [hops, opsOf_nil] at hj'
    by_cases hj : j = i
    · subst hj
      left
      simp [System.setCell, System.goTo, hops, Cell.promote]
    · simpa [System.setCell, System.goTo, update_of_ne hj, hops] using hj'
  · have hj' : j ≠ i := Nat.ne_of_lt (hp.2 j hj)
    simpa [System.setCell, System.goTo, System.slots, Undispatched, update_of_ne hj'] using hu
  · simp [Undispatched, System.setCell, System.goTo, Cell.promote, hops]

theorem SystemOk.wake (h : SystemOk s) (i : Nat) (rest : List Nat) :
    SystemOk ((s.setCell i (s.cells i).setLatch).goTo (.waking rest)) := by
  refine ⟨?_, ?_, trivial⟩
  · exact (forall_update_iff _ fun _ => CellOk).mpr ⟨(h.cells i).setLatch, fun j _ => h.cells j⟩
  · exact (forall_update_iff _ fun j c => OpsOk c (opsOf j s.worker.ops)).mpr
      ⟨(h.ops i).kept rfl fun _ => ⟨rfl, rfl, rfl, rfl⟩, fun j _ => h.ops j⟩

theorem Queues.addSearch {search : List Nat} (h : Queues s search writes)
    (hi : i ∉ search ++ writes) (hu : Undispatched s i) (hk : (s.slots i).slotKind = .search) :
    Queues s (search ++ [i]) writes where
  nodup := by
    rw [append_assoc]
    exact perm_middle.nodup_iff.mpr (nodup_cons.mpr ⟨hi, h.nodup⟩)
  search j hj := by
    rcases mem_append.mp hj with hj | hj
    · exact h.search j hj
    · rw [mem_singleton.mp hj]
      exact ⟨hu, hk⟩
  writes := h.writes

theorem Queues.addWrite {search : List Nat} (h : Queues s search writes) (hi : i ∉ search ++ writes)
    (hu : Undispatched s i) (hk : (s.slots i).slotKind ≠ .search) :
    Queues s search (writes ++ [i]) where
  nodup := by
    rw [← append_assoc, nodup_append]
    refine ⟨h.nodup, by simp, fun j hj j' hj' heq => ?_⟩
    rw [mem_singleton.mp hj'] at heq
    exact hi (heq ▸ hj)
  search := h.search
  writes j hj := by
    rcases mem_append.mp hj with hj | hj
    · exact h.writes j hj
    · rw [mem_singleton.mp hj]
      exact ⟨hu, hk⟩

theorem SystemOk.sort (h : SystemOk s) (hops : s.worker.ops = []) {t : Taken}
    (hph : s.worker.phase = .sorting i t) (k : BatchCalls) (w : WriteSlotCalls) :
    SystemOk (s.nextPhase k w) := by
  have hp := h.phase
  unfold PhaseOk at hp
  rw [hph] at hp
  obtain ⟨hq, hlt, hu⟩ := hp
  have hi : i ∉ t.search ++ t.writes := fun hmem => Nat.lt_irrefl i (hlt i hmem)
  have hlt' : ∀ j ∈ t.search ++ t.writes, j < i + 1 := fun j hj => Nat.lt_succ_of_lt (hlt j hj)
  simp only [nextPhase, hph]
  split
  · rename_i hk
    refine h.goTo ⟨(hq.addSearch hi hu hk).goTo _, fun j hj => ?_⟩
    simp only [append_assoc, mem_append, mem_singleton] at hj
    rcases hj with hj | hj | hj
    · exact hlt' j (mem_append_left _ hj)
    · omega
    · exact hlt' j (mem_append_right _ hj)
  · rename_i hk
    split
    · refine h.goTo ⟨(hq.addWrite hi hu hk).goTo _, fun j hj => ?_⟩
      rw [← append_assoc] at hj
      rcases mem_append.mp hj with hj | hj
      · exact hlt' j hj
      · have := mem_singleton.mp hj
        omega
    · -- a write on a standby
      have hs : ∀ op ∈ vamanaWorkerFailSlot i "write requests are not accepted on a standby"
          .internal, slotOf op ∈ [i] := by
        intro op hop
        rw [mem_singleton]
        exact slotOf_endSlot i _ _ op hop
      refine h.plan hops [i] (fun j hj => ?_) hs (fun j hj => ?_) ⟨?_, hlt'⟩
      · rwa [mem_singleton.mp hj]
      · rw [mem_singleton.mp hj, vamanaWorkerFailSlot, opsOf_all (slotOf_endSlot i _ _)]
        exact failSlot_script _ i _ _
      · apply hq.plan hs
        intro j hj hmem
        rw [mem_singleton.mp hmem] at hj
        exact hi hj

variable {rest : List Nat}

theorem mem_batchOf {j : Nat} :
    j ∈ s.batchOf i rest ↔
      j ∈ i :: rest ∧ (s.slots j).indexRelid = (s.slots i).indexRelid := by
  rw [batchOf, mem_filter, decide_eq_true_eq]

theorem mem_otherBatches {j : Nat} :
    j ∈ s.otherBatches i rest ↔
      j ∈ i :: rest ∧ (s.slots j).indexRelid ≠ (s.slots i).indexRelid := by
  rw [otherBatches, mem_filter, decide_eq_true_eq]

section

variable (h : SystemOk s) (hops : s.worker.ops = [])
include h hops

theorem SystemOk.search {all : List Nat}
    (hp : s.worker.phase = .searches (i :: rest) writes all) {k : BatchCalls}
    (hl : ¬ RaisesLate k s.slots (s.batchOf i rest)) (w : WriteSlotCalls) :
    SystemOk (s.nextPhase k w) := by
  have hq := h.phase
  unfold PhaseOk at hq
  rw [hp] at hq
  have hnd := nodup_append.mp hq.nodup
  have hba : ∀ j ∈ s.batchOf i rest, Undispatched s j ∧ (s.slots j).slotKind = .search :=
    fun j hj => hq.search j (mem_batchOf.mp hj).1
  simp only [nextPhase, hp]
  rcases runBatch_scripts (s.slots i).indexRelid (hnd.1.filter _) hl with
    hes | ⟨hd, hs⟩
  · rw [batchOf, hes]
    exact h.plan hops [] (by simp) (by simp) (by simp) trivial
  · change (vamanaWorkerRunBatch k s.slots (s.slots i).indexRelid (s.batchOf i rest)).2 = false
      at hd
    change Scripts (s.batchOf i rest)
      (vamanaWorkerRunBatch k s.slots (s.slots i).indexRelid (s.batchOf i rest)).1 at hs
    rw [hd]
    refine h.plan hops _ (fun j hj => (hba j hj).1) hs.within (fun j hj => ?_) ?_
    · rw [(hba j hj).2]
      exact hs.each j hj
    · have ho : Queues s (s.otherBatches i rest) writes := by
        refine ⟨nodup_append.mpr ⟨hnd.1.filter _, hnd.2.1, ?_⟩, fun j hj => ?_, hq.writes⟩
        · exact fun j hj => hnd.2.2 j (mem_otherBatches.mp hj).1
        · exact hq.search j (mem_otherBatches.mp hj).1
      apply ho.plan hs.within
      intro j hj hmem
      rcases mem_append.mp hj with hj | hj
      · exact (mem_otherBatches.mp hj).2 (mem_batchOf.mp hmem).2
      · exact hnd.2.2 j (mem_batchOf.mp hmem).1 j hj rfl

theorem SystemOk.write {all : List Nat}
    (hp : s.worker.phase = .writes (i :: rest) all) (k : BatchCalls) (w : WriteSlotCalls) :
    SystemOk (s.nextPhase k w) := by
  have hq := h.phase
  unfold PhaseOk at hq
  rw [hp] at hq
  have hnd := nodup_cons.mp hq.nodup
  obtain ⟨hu, hk⟩ := hq.writes i mem_cons_self
  have hs : ∀ op ∈ vamanaWorkerDispatchWriteSlot w (s.slots i).slotKind i, slotOf op ∈ [i] := by
    intro op hop
    rw [mem_singleton]
    exact slotOf_writeSlot w _ i op hop
  simp only [nextPhase, hp]
  refine h.plan hops [i] (fun j hj => ?_) hs (fun j hj => ?_) ?_
  · rwa [mem_singleton.mp hj]
  · rw [mem_singleton.mp hj, opsOf_all (slotOf_writeSlot w _ i)]
    exact writeSlot_script w hk i
  · have hr : Queues s [] rest :=
      ⟨hnd.2, by simp, fun j hj => hq.writes j (mem_cons_of_mem _ hj)⟩
    apply hr.plan hs
    intro j hj hmem
    rw [mem_singleton.mp hmem] at hj
    exact hnd.1 hj

/-- No batch on the sequential path raises in a search after its first. -/
def NoLateRaise (s : System) : Event → Prop
  | .work k _ => s.worker.ops = [] → ∀ i rest writes all,
      s.worker.phase = .searches (i :: rest) writes all →
        ¬ RaisesLate k s.slots (s.batchOf i rest)
  | _ => True

theorem SystemOk.nextPhase {k : BatchCalls}
    {w : WriteSlotCalls} (hok : NoLateRaise s (.work k w)) : SystemOk (s.nextPhase k w) := by
  have hp := h.phase
  unfold PhaseOk at hp
  cases hph : s.worker.phase with
  | idle | stopped =>
    simp only [System.nextPhase, hph]
    exact h
  | scanning i t =>
    rw [hph] at hp
    simp only [System.nextPhase, hph]
    split
    · split
      · exact h.goTo ⟨hp.1.goTo _, hp.2⟩
      · exact h.goTo ⟨hp.1.goTo _, fun j hj => Nat.lt_succ_of_lt (hp.2 j hj)⟩
    · split
      · exact h.goTo trivial
      · exact h.goTo (hp.1.goTo _)
  | promoting i t =>
    by_cases hst : (s.slots i).status = .pending
    · simp only [System.nextPhase, hph, hst, if_true]
      exact h.promote hops hph hst
    · rw [hph] at hp
      simp only [System.nextPhase, hph, hst, if_false]
      exact h.goTo ⟨hp.1.goTo _, fun j hj => Nat.lt_succ_of_lt (hp.2 j hj)⟩
  | sorting i t => exact h.sort hops hph k w
  | searches todo writes all =>
    cases todo with
    | nil =>
      rw [hph] at hp
      simp only [System.nextPhase, hph]
      exact h.goTo (hp.goTo _)
    | cons i rest => exact h.search hops hph (hok hops i rest writes all hph) w
  | writes todo all =>
    cases todo with
    | nil =>
      simp only [System.nextPhase, hph]
      exact h.goTo trivial
    | cons i rest => exact h.write hops hph k w
  | waking todo =>
    cases todo with
    | nil =>
      simp only [System.nextPhase, hph]
      exact h.goTo trivial
    | cons i rest =>
      simp only [System.nextPhase, hph]
      exact h.wake i rest

end

theorem systemOk_step (s : System) (e : Event) (h : SystemOk s) (hok : NoLateRaise s e) :
    SystemOk (s.step e) := by
  cases e with
  | backend i e => exact h.backend i e
  | start acceptsWrites maxBatch =>
    simp only [step]
    split
    · exact ⟨h.cells, h.ops, ⟨by simp, by simp, by simp⟩, by simp⟩
    · exact h
  | work k w =>
    cases hops : s.worker.ops with
    | nil =>
      simp only [step, hops]
      exact h.nextPhase hops hok
    | cons op rest =>
      simp only [step, hops]
      exact h.op hops

/-! ## The laws -/

/-- The access that the worker makes next is to a slot that it has promoted, for the last request
in it, and has not ended; a status that it writes is DONE or ERROR. -/
def WritesHeld (s : System) : Prop :=
  ∀ op ∈ s.worker.ops.head?, (s.cells (slotOf op)).held = true ∧
    (∃ n, (s.cells (slotOf op)).promotedAs = some n ∧
      (s.cells (slotOf op)).published.length = n + 1) ∧
    ∀ i st, op = .write i (.status st) → st = .done ∨ st = .error

/-- A backend that has read DONE or ERROR finds the end of its own request, and with DONE an
answer that nothing but the writes for its request has gone into. -/
def ReadsOwn (c : Cell) : Prop :=
  ∀ n done, c.backend = .consuming n done ∨ c.backend = .reading n done →
    c.published.length = n + 1 ∧ c.endedFor = some n ∧ (done = true →
      ∃ r, c.published[n]? = some r ∧ ∀ s, answerIn c.slot (kindOf r) =
        answerIn (c.written.foldl SlotWrite.apply s) (kindOf r))

def SingleTerminal (s : System) : Prop := WritesHeld s ∧ ∀ i, ReadsOwn (s.cells i)

theorem SystemOk.writesHeld (h : SystemOk s) : WritesHeld s := by
  intro op hop
  cases hops : s.worker.ops with
  | nil =>
    rw [hops] at hop
    cases hop
  | cons op' rest =>
    rw [hops, head?_cons, Option.mem_def, Option.some.injEq] at hop
    subst hop
    have hn := h.ops (slotOf op')
    rw [hops, opsOf_cons_self rfl] at hn
    obtain ⟨hh, hs⟩ := hn.resolve_left (by simp)
    have hc := h.cells (slotOf op')
    obtain ⟨n, hp, _⟩ := hc.status.processing (hc.status.held.mp hh)
    refine ⟨hh, ⟨n, hp.promoted, hp.current⟩, ?_⟩
    rintro i st rfl
    exact hs.2.imp And.left id

theorem Ended.readsOwn (h : Ended c n done) :
    c.published.length = n + 1 ∧ c.endedFor = some n ∧ (done = true →
      ∃ r, c.published[n]? = some r ∧ ∀ s, answerIn c.slot (kindOf r) =
        answerIn (c.written.foldl SlotWrite.apply s) (kindOf r)) := by
  refine ⟨h.promoted.current, h.ended, fun hd => ?_⟩
  obtain ⟨r, hr, hk⟩ := h.promoted.kind
  obtain ⟨s, hs⟩ := h.promoted.follows
  refine ⟨r, hr, fun s' => ?_⟩
  rw [hk, answerIn_congr hs]
  exact h.whole hd s s'

theorem CellOk.readsOwn (h : CellOk c) : ReadsOwn c := by
  have hb := h.backend
  unfold BackendOk at hb
  rintro n done (hph | hph)
  · rw [hph] at hb
    have hen : Ended c n done := by
      have hc := (h.consume hb.1 hb.2).backend.2
      have hp := hc.promoted
      exact ⟨⟨hp.current, hp.promoted, hp.kind, hp.follows⟩, hc.ended, hc.whole⟩
    exact hen.readsOwn
  · rw [hph] at hb
    exact hb.2.readsOwn

/-- As long as no batch raises late, the worker writes to a slot only for the request it has
promoted there, up to its one DONE or ERROR. -/
theorem a_slot_is_written_for_its_promotion (maxSlots : Nat) {es : List Event}
    (h : EachStep step NoLateRaise (init maxSlots) es) :
    EachState step SingleTerminal (init maxSlots) es :=
  eachState_invariant SystemOk systemOk_step
    (fun _ hs => ⟨hs.writesHeld, fun i => (hs.cells i).readsOwn⟩) (systemOk_init maxSlots) h

/-- Nothing is executed twice, nothing that was taken back is executed, and what is executed is
what was published. -/
def AtMostOnce (s : System) : Prop :=
  ∀ i, (executedIds (s.cells i)).Nodup ∧
    (∀ n ∈ (s.cells i).abandoned, n ∉ executedIds (s.cells i)) ∧
    ∀ x ∈ (s.cells i).executed, (s.cells i).published[x.1]? = some x.2

/-- As long as no batch raises late, a request is executed at most once and as it was
published. -/
theorem a_request_is_executed_as_published (maxSlots : Nat) {es : List Event}
    (h : EachStep step NoLateRaise (init maxSlots) es) :
    EachState step AtMostOnce (init maxSlots) es := by
  apply eachState_invariant SystemOk systemOk_step _ (systemOk_init maxSlots) h
  intro s hs i
  have hlog := (hs.cells i).log
  exact ⟨hlog.once, fun n hn => (hlog.kept n hn).2, hlog.content⟩

/-! ## A search that raises after another -/

def submitSearch (i k : Nat) : List Event :=
  .backend i (.submit (.search 7 [1] k 10)) ::
    replicate 10 (.backend i (.advance true true))

/-- A backend ends its wait and comes as far as the copy of its answer. -/
def readAnswer (i : Nat) : List Event :=
  .backend i (.leave 0) :: replicate 3 (.backend i (.advance true true))

def oneSearch : List Event :=
  submitSearch 0 1 ++ [.start true 100] ++
    replicate 9 (.work quietBatch quietWriteSlot) ++ readAnswer 0

theorem noLateRaise_quiet (s : System) (w : WriteSlotCalls) :
    NoLateRaise s (.work quietBatch w) := by
  intro _ i rest writes all _ hl
  obtain ⟨_, _, _, _, _, _, j, _, hr⟩ := hl
  cases hr

theorem oneSearch_noLateRaise : EachStep step NoLateRaise (init 1) oneSearch := by
  apply eachStep_of_forall
  intro e he s
  simp only [oneSearch, submitSearch, readAnswer, mem_append, mem_cons,
    mem_replicate, not_mem_nil, or_false] at he
  rcases he with (((rfl | ⟨_, rfl⟩) | rfl) | ⟨_, rfl⟩) | rfl | ⟨_, rfl⟩
  · trivial
  · trivial
  · trivial
  · exact noLateRaise_quiet s _
  · trivial
  · trivial

theorem a_search_reads_its_own_answer :
    ((run step (init 1) oneSearch).cells 0).backend = .reading 0 true ∧
      EachState step SingleTerminal (init 1) oneSearch :=
  ⟨by decide, a_slot_is_written_for_its_promotion 1 oneSearch_noLateRaise⟩

theorem a_search_is_executed_once :
    ((run step (init 1) oneSearch).cells 0).executed =
        [(0, .search 7 [1] 1 10)] ∧
      EachState step AtMostOnce (init 1) oneSearch :=
  ⟨by decide, a_request_is_executed_as_published 1 oneSearch_noLateRaise⟩

/-- The first search comes back without rows, the second raises. -/
def secondRaises : BatchCalls :=
  { quietBatch with search := fun i => if i = 0 then .rows [] else .raised }

def work (n : Nat) : List Event := replicate n (.work secondRaises quietWriteSlot)

/-- Two searches with a different `k` on one index. The first is done and read, the other not
yet run. -/
def firstIsRead : List Event :=
  submitSearch 0 1 ++ submitSearch 1 2 ++ [.start true 100] ++ work 12 ++ readAnswer 0 ++
    [.backend 0 (.advance true true)]

/-- Then the first backend publishes its next search, the second search raises, and the first
backend looks at its slot. -/
def nextIsFailed : List Event :=
  firstIsRead ++ submitSearch 0 1 ++ work 5 ++
    [.backend 0 (.leave 0)] ++ replicate 2 (.backend 0 (.advance true true))

/-- The backend finds an ERROR for a request that the worker has not even promoted. -/
theorem a_late_raise_fails_the_next_request :
    ¬ SingleTerminal (run step (init 2) nextIsFailed) ∧
    ((run step (init 2) nextIsFailed).cells 0).backend = .consuming 1 false ∧
    ((run step (init 2) nextIsFailed).cells 0).published.length = 2 ∧
    ((run step (init 2) nextIsFailed).cells 0).promotedAs = some 0 ∧
    executedIds ((run step (init 2) nextIsFailed).cells 0) = [0] := by
  have hba : ((run step (init 2) nextIsFailed).cells 0).backend = .consuming 1 false := by decide
  refine ⟨fun h => ?_, hba, by decide, by decide, by decide⟩
  have hen := (h.2 0 1 false (.inl hba)).2.1
  revert hen
  decide

/-- Then the first backend fills in a DELETE, up to the number of its ids, when the second search
raises. It publishes after that, and the worker takes it in its next pass. -/
def deleteIsEmptied : List Event :=
  firstIsRead ++ [.backend 0 (.submit (.delete 7 [5]))] ++
    replicate 5 (.backend 0 (.advance true true)) ++ work 9 ++
    replicate 3 (.backend 0 (.advance true true)) ++ work 6 ++ [.start true 100] ++ work 9

/-- The worker executes a DELETE of nothing. -/
theorem a_late_raise_empties_a_delete :
    ¬ AtMostOnce (run step (init 2) deleteIsEmptied) ∧
    ((run step (init 2) deleteIsEmptied).cells 0).published =
      [.search 7 [1] 1 10, .delete 7 [5]] ∧
    ((run step (init 2) deleteIsEmptied).cells 0).executed =
      [(0, .search 7 [1] 1 10), (1, .delete 7 [])] := by
  have hp : ((run step (init 2) deleteIsEmptied).cells 0).published =
      [.search 7 [1] 1 10, .delete 7 [5]] := by decide +kernel
  have hex : ((run step (init 2) deleteIsEmptied).cells 0).executed =
      [(0, .search 7 [1] 1 10), (1, .delete 7 [])] := by decide +kernel
  refine ⟨fun h => ?_, hp, hex⟩
  have hc := (h 0).2.2
  rw [hp, hex] at hc
  simpa using hc (1, .delete 7 []) (by simp)

end svs_vamana.slot_custody
