-- What is left of the pending reservations once all inserts into an index have ended: the worker
-- releases the oldest one for each insert, a failing statement its own.
import SvsVamana.InsertStatements

namespace svs_vamana.insert_drain

open transition_runs slot_table residency_books insert_statements
open svs_memory hiding Event step

/-! ## The property -/

def Quiet (s : State) : Prop :=
  ∀ x ∈ s.inserts, x.running = false ∧ x.request ≠ .pending ∧ x.request ≠ .processing

deriving instance Decidable for Quiet

/-- No insert into the index is pending, and the committed bytes are those of the records and of
the inserts into other indexes. -/
structure Drained (relid : Nat) (l : Ledger) : Prop where
  none : ∀ r, some r ∈ l.insertReservations → r.relid ≠ relid
  balanced : Balanced l.toEntry

/-- A block whose books are in order and that has no pending insert into the index. -/
structure Settled (relid : Nat) (l : Ledger) : Prop where
  books : Books relid l
  none : ∀ r, some r ∈ l.insertReservations → r.relid ≠ relid

/-- The oldest reservation of the index is that of this insert's backend, if the statement is
running and the backend has one. -/
def AtHead (relid : Nat) (l : Ledger) (x : Insert) : Prop :=
  x.running = true →
    ((findOldestInsertReservation l.toEntry relid).map fun y => y.2.ownerPid) = some x.pid ∨
      findInsertReservationByOwner l.toEntry relid x.pid = none

deriving instance Decidable for AtHead

/-- The worker comes to the inserts in the order of their reservations. -/
def InOrder (relid : Nat) (s : State) : Event → Prop
  | .reanchor n measuredBytes =>
    ∀ x ∈ acting relid s (.reanchor n measuredBytes), AtHead relid s.ledger x
  | .close n => ∀ x ∈ acting relid s (.close n), AtHead relid s.ledger x
  | _ => True

instance (relid : Nat) (s : State) : ∀ ev, Decidable (InOrder relid s ev)
  | .reanchor n measuredBytes => inferInstanceAs
      (Decidable (∀ x ∈ acting relid s (.reanchor n measuredBytes), AtHead relid s.ledger x))
  | .close n =>
    inferInstanceAs (Decidable (∀ x ∈ acting relid s (.close n), AtHead relid s.ledger x))
  | .reserve _ _ _ | .submit _ | .take _ | .answer _ _ | .finish _ | .giveUp _ | .exit _
  | .load _ _ _ | .reconcile _ _ | .reap _ => inferInstanceAs (Decidable True)

def Connected : Event → Bool
  | .exit _ => false
  | _ => true

/-! ## The invariant -/

/-- Slot `j` of the table holds a pending insert into the index. -/
def PendingAt (relid : Nat) (l : Ledger) (j : Nat) (r : InsertReservation) : Prop :=
  l.insertReservations[j]? = some (some r) ∧ r.relid = relid

/-- Each pending reservation has a statement that is running and that the worker has not come to. -/
structure Inv (relid : Nat) (s : State) : Prop where
  books : Books relid s.ledger
  owned : ∀ j r, PendingAt relid s.ledger j r →
    ∃ (n : Nat) (x : Insert), s.inserts[n]? = some x ∧ x.pid = r.ownerPid ∧ x.running = true ∧ x.applied = false
  single : ∀ i j r r', PendingAt relid s.ledger i r → PendingAt relid s.ledger j r' →
    r.ownerPid = r'.ownerPid → i = j
  running : ∀ (m n : Nat) (x y : Insert), s.inserts[m]? = some x → s.inserts[n]? = some y →
    x.running = true → y.running = true → x.pid = y.pid → m = n
  answered : ∀ (n : Nat) (x : Insert), s.inserts[n]? = some x → x.request = .answered true → x.applied = true

variable {relid : Nat}

theorem start_inv {l : Ledger} (h : Settled relid l) : Inv relid (start l relid) := by
  have hn : ∀ j r, ¬ PendingAt relid l j r := by
    rintro j r ⟨hj, hr⟩
    exact h.none r (List.mem_of_getElem? hj) hr
  refine ⟨h.books, ?_, ?_, ?_, ?_⟩
  · intro j r hj
    exact absurd hj (hn j r)
  · intro i j r r' hi
    exact absurd hi (hn i r)
  · simp [start]
  · simp [start]

variable {s : State}

theorem inv_drained (h : Inv relid s) (hq : Quiet s) : Drained relid s.ledger := by
  refine ⟨?_, h.books.balanced⟩
  intro r hr hre
  obtain ⟨j, hj⟩ := List.getElem?_of_mem hr
  obtain ⟨n, x, hx, -, hrun, -⟩ := h.owned j r ⟨hj, hre⟩
  have := (hq x (List.mem_of_getElem? hx)).1
  simp [this] at hrun

/-! ## Steps -/

variable {n : Nat} {x y : Insert}

theorem getElem?_setInsert {m : Nat} {z : Insert} (hx : s.inserts[n]? = some x)
    (hm : (s.setInsert n y).inserts[m]? = some z) :
    m = n ∧ z = y ∨ m ≠ n ∧ s.inserts[m]? = some z := by
  have hlt : n < s.inserts.length := (List.getElem?_eq_some_iff.mp hx).1
  by_cases hmn : m = n
  · subst hmn
    left
    simpa [State.setInsert, hlt, eq_comm] using hm
  · right
    refine ⟨hmn, ?_⟩
    simpa [State.setInsert, Ne.symm hmn] using hm

theorem setInsert_self (hx : s.inserts[n]? = some x) : (s.setInsert n y).inserts[n]? = some y := by
  have hlt : n < s.inserts.length := (List.getElem?_eq_some_iff.mp hx).1
  simp [State.setInsert, hlt]

theorem setInsert_other {m : Nat} (hmn : m ≠ n) :
    (s.setInsert n y).inserts[m]? = s.inserts[m]? := by
  simp [State.setInsert, Ne.symm hmn]

variable {s' : State}

/-- One insert was changed and some reservations may be gone. The reservations that are left do
not need the insert, unless it runs on as it was. -/
theorem Inv.update (h : Inv relid s) (hx : s.inserts[n]? = some x)
    (hins : s'.inserts = (s.setInsert n y).inserts) (hbo : Books relid s'.ledger)
    (hf : ∀ j r, PendingAt relid s'.ledger j r → PendingAt relid s.ledger j r)
    (hpid : y.pid = x.pid) (hrun : y.running = true → x.running = true)
    (ha : y.request = .answered true → y.applied = true)
    (hl : ∀ j r, PendingAt relid s'.ledger j r → r.ownerPid = x.pid → x.running = true →
      x.applied = false → y.running = true ∧ y.applied = false) : Inv relid s' := by
  refine ⟨hbo, ?_, ?_, ?_, ?_⟩
  · intro j r hj
    obtain ⟨m, z, hm, hz, hzr, hzn⟩ := h.owned j r (hf j r hj)
    rw [hins]
    by_cases hmn : m = n
    · subst hmn
      obtain rfl : z = x := by simpa [hm] using hx
      obtain ⟨hyr, hy⟩ := hl j r hj hz.symm hzr hzn
      exact ⟨m, y, setInsert_self hx, hpid.trans hz, hyr, hy⟩
    · exact ⟨m, z, (setInsert_other hmn).trans hm, hz, hzr, hzn⟩
  · intro i j r r' hi hj
    exact h.single i j r r' (hf i r hi) (hf j r' hj)
  · -- an insert that runs did so before, under the same pid
    have hbe : ∀ (m : Nat) (z : Insert), s'.inserts[m]? = some z → z.running = true →
        ∃ w : Insert, s.inserts[m]? = some w ∧ w.running = true ∧ w.pid = z.pid := by
      intro m z hm hzr
      rw [hins] at hm
      obtain ⟨rfl, rfl⟩ | ⟨-, hm⟩ := getElem?_setInsert hx hm
      · exact ⟨x, hx, hrun hzr, hpid.symm⟩
      · exact ⟨z, hm, hzr, rfl⟩
    intro m k z w hm hk hzr hw hs
    obtain ⟨z', hm', hzr', hzp⟩ := hbe m z hm hzr
    obtain ⟨w', hk', hw', hwp⟩ := hbe k w hk hw
    exact h.running m k z' w' hm' hk' hzr' hw' (by rw [hzp, hwp, hs])
  · intro m z hm hz
    rw [hins] at hm
    obtain ⟨rfl, rfl⟩ | ⟨-, hm⟩ := getElem?_setInsert hx hm
    · exact ha hz
    · exact h.answered m z hm hz

theorem Inv.fewer (h : Inv relid s) (hins : s'.inserts = s.inserts) (hbo : Books relid s'.ledger)
    (hf : ∀ j r, PendingAt relid s'.ledger j r → PendingAt relid s.ledger j r) : Inv relid s' := by
  refine ⟨hbo, ?_, ?_, ?_, ?_⟩
  · intro j r hj
    rw [hins]
    exact h.owned j r (hf j r hj)
  · intro i j r r' hi hj
    exact h.single i j r r' (hf i r hi) (hf j r' hj)
  · rw [hins]
    exact h.running
  · rw [hins]
    exact h.answered

theorem Inv.granted {pid : Nat} (h : Inv relid s) {j : Nat}
    (hf : ∀ y ∈ s.inserts, y.pid = pid → y.running = false) (hbo : Books relid s'.ledger)
    (hg : Granted relid pid s.ledger s'.ledger j) (hins : s'.inserts = s.inserts ++ [x])
    (hpid : x.pid = pid) (hrun : x.running = true) (hnew : x.applied = false)
    (hu : x.request = .unsent) : Inv relid s' := by
  obtain ⟨now, charge, hset⟩ := hg.inserts
  have hc : ∀ k r, PendingAt relid s'.ledger k r →
      k = j ∧ r.ownerPid = pid ∨ k ≠ j ∧ PendingAt relid s.ledger k r := by
    rintro k r ⟨hk, hre⟩
    rw [hset] at hk
    obtain ⟨rfl, hr⟩ | ⟨hkj, hk⟩ := of_set hk
    · left
      cases hr
      exact ⟨rfl, rfl⟩
    · exact .inr ⟨Ne.symm hkj, hk, hre⟩
  -- the backend had no statement running, so it had no reservation
  have ho : ∀ k r, PendingAt relid s.ledger k r → r.ownerPid ≠ pid := by
    intro k r hk hown
    obtain ⟨n, y, hy, hyp, hyr, -⟩ := h.owned k r hk
    have := hf y (List.mem_of_getElem? hy) (hyp.trans hown)
    simp [this] at hyr
  have hmem : ∀ m z, s'.inserts[m]? = some z →
      s.inserts[m]? = some z ∨ m = s.inserts.length ∧ z = x := by
    intro m z hm
    rw [hins, List.getElem?_append] at hm
    split at hm
    · exact .inl hm
    right
    have := List.getElem?_eq_some_iff.mp hm
    simp at this
    exact ⟨by omega, this.2.symm⟩
  refine ⟨hbo, ?_, ?_, ?_, ?_⟩
  · intro k r hk
    obtain ⟨rfl, hown⟩ | ⟨-, hk⟩ := hc k r hk
    · exact ⟨s.inserts.length, x, by simp [hins], hpid.trans hown.symm, hrun, hnew⟩
    · obtain ⟨n, y, hy, hrest⟩ := h.owned k r hk
      have hlt : n < s.inserts.length := (List.getElem?_eq_some_iff.mp hy).1
      exact ⟨n, y, by rw [hins, List.getElem?_append_left hlt, hy], hrest⟩
  · intro i k r r' hi hk hs
    obtain ⟨rfl, hown⟩ | ⟨-, hi⟩ := hc i r hi <;>
      obtain ⟨rfl, hown'⟩ | ⟨-, hk⟩ := hc k r' hk
    · rfl
    · exact absurd (hs.symm.trans hown) (ho k r' hk)
    · exact absurd (hs.trans hown') (ho i r hi)
    · exact h.single i k r r' hi hk hs
  · intro m n z w hm hn hzr hw hs
    obtain hm | ⟨rfl, rfl⟩ := hmem m z hm <;> obtain hn | ⟨rfl, rfl⟩ := hmem n w hn
    · exact h.running m n z w hm hn hzr hw hs
    · have := hf z (List.mem_of_getElem? hm) (hs.trans hpid)
      simp [this] at hzr
    · have := hf w (List.mem_of_getElem? hn) (hs.symm.trans hpid)
      simp [this] at hw
    · rfl
  · intro m z hm hz
    obtain hm | ⟨rfl, rfl⟩ := hmem m z hm
    · exact h.answered m z hm hz
    · simp [hu] at hz

theorem pendingAt_strike {l l' : Ledger} {found : Option (Nat × InsertReservation)}
    (hl' : l'.insertReservations = strike l.insertReservations found) {j : Nat}
    {r : InsertReservation} (hj : PendingAt relid l' j r) :
    PendingAt relid l j r ∧ ∀ i b, found = some (i, b) → i ≠ j := by
  obtain ⟨hs, hr⟩ := hj
  rw [hl'] at hs
  obtain ⟨hs, hne⟩ := of_strike hs
  exact ⟨⟨hs, hr⟩, hne⟩

theorem Inv.released (h : Inv relid s) (hx : s.inserts[n]? = some x) (hh : AtHead relid s.ledger x)
    (hins : s'.inserts = (s.setInsert n { x with applied := true }).inserts)
    (hbo : Books relid s'.ledger)
    (hs : s'.ledger.insertReservations =
      strike s.ledger.insertReservations (findOldestInsertReservation s.ledger.toEntry relid)) :
    Inv relid s' := by
  refine h.update hx hins hbo (fun j r hj => (pendingAt_strike hs hj).1) rfl id (fun _ => rfl) ?_
  intro j r hj hown hrun _
  exfalso
  obtain ⟨hj, hne⟩ := pendingAt_strike hs hj
  obtain hfi | hn := hh hrun
  · obtain ⟨⟨i, r'⟩, hf, hpid⟩ := Option.map_eq_some_iff.mp hfi
    obtain ⟨hi, hr⟩ := oldest_some hf
    have hi : PendingAt relid s.ledger i r' := ⟨hi, by simpa using hr⟩
    exact hne i r' hf (h.single i j r' r hi hj (hpid.trans hown.symm))
  · have := find_none hn hj.1
    simp [hj.2, hown] at this

theorem Inv.aborted (h : Inv relid s) (hx : s.inserts[n]? = some x) {q : RequestState}
    (hq : q = .answered true → q = x.request)
    (hbo : Books relid (abortInsert s.ledger x.pid relid).1) :
    Inv relid (s.abort relid n { x with request := q }) := by
  have hs := (abortInsert_spec s.ledger x.pid relid).1
  refine h.update hx rfl hbo (fun j r hj => (pendingAt_strike hs hj).1) rfl nofun ?_ ?_
  · intro hd
    exact h.answered n x hx ((hq hd).symm.trans hd)
  · intro j r hj hown
    exfalso
    obtain ⟨hj, hne⟩ := pendingAt_strike hs hj
    cases hf : findInsertReservationByOwner s.ledger.toEntry relid x.pid with
    | none =>
      have := find_none hf hj.1
      simp [hj.2, hown] at this
    | some y =>
      obtain ⟨i, r'⟩ := y
      obtain ⟨hi, hp⟩ := find_some hf
      obtain ⟨hr, hpid⟩ : r'.relid = relid ∧ r'.ownerPid = x.pid := by simpa using hp
      exact hne i r' hf (h.single i j r' r ⟨hi, hr⟩ hj (hpid.trans hown.symm))

theorem step_inv {ev : Event} (h : Inv relid s) (hc : Connected ev = true)
    (ho : InOrder relid s ev) : Inv relid (step relid s ev) := by
  have hbo := step_books h.books ev
  have hef := step_effect relid s ev
  generalize step relid s ev = s' at hbo hef
  cases hef with
  | idle => exact h
  | granted pid now deltaBytes l j hf hg =>
    exact h.granted hf hbo hg rfl rfl rfl rfl rfl
  | noted _ n x q _ _ hx hq =>
    refine h.update hx rfl hbo (fun _ _ hj => hj) rfl id hq ?_
    intro _ _ _ _ hrun hnew
    exact ⟨hrun, hnew⟩
  | applied n measuredBytes x l hx hact hi =>
    exact h.released hx (ho x hact) rfl hbo hi
  | closed n x hx hact =>
    exact h.released hx (ho x hact) rfl hbo (releaseOldest_inserts s.ledger relid)
  | aborted _ n x q hx _ _ hq => exact h.aborted hx hq hbo
  | finished n x hx _ hd =>
    have ha := h.answered n x hx hd
    refine h.update hx rfl hbo (fun _ _ hj => hj) rfl nofun (fun _ => ha) ?_
    intro _ _ _ _ _ hnew
    simp [ha] at hnew
  | exited => simp [Connected] at hc
  | measured _ l n _ hi =>
    refine h.fewer rfl hbo fun j r hj => ?_
    simpa [PendingAt, State.measured, hi] using hj
  | kept _ l _ _ hi =>
    refine h.fewer rfl hbo fun j r hj => ?_
    simpa [PendingAt, hi] using hj
  | reaped dead =>
    refine h.fewer rfl hbo fun j r hj => ⟨?_, hj.2⟩
    have hs := hj.1
    simp only [reap_inserts dead h.books.slots] at hs
    obtain ⟨y, hy, hk⟩ := Option.map_eq_some_iff.mp hs
    rw [hy, (Option.filter_eq_some_iff.mp hk).1]

/-! ## Whole runs -/

/-- If the worker comes to the inserts in the order of their reservations, nothing of them is left
whenever no statement runs and the worker is idle. -/
theorem the_pending_inserts_of_ordered_statements_drain {relid : Nat} {l : Ledger} {es : List Event}
    (hsettled : Settled relid l) (hconnected : ∀ ev ∈ es, Connected ev = true)
    (horder : EachStep (step relid) (InOrder relid) (start l relid) es)
    (hquiet : Quiet (run (step relid) (start l relid) es)) :
    Drained relid (run (step relid) (start l relid) es).ledger := by
  have hok : EachStep (step relid) (fun s ev => Connected ev = true ∧ InOrder relid s ev)
      (start l relid) es :=
    eachStep_and (eachStep_of_forall (fun ev hev _ => hconnected ev hev) _) horder
  have hinv := run_invariant (Inv relid) (fun _ _ hs hev => step_inv hs hev.1 hev.2)
    (start_inv hsettled) hok
  exact inv_drained hinv hquiet

theorem emptyBlock_settled (relid : Nat) : Settled relid emptyBlock := by
  refine ⟨emptyBlock_books relid, ?_⟩
  intro r hr
  simp [emptyBlock] at hr

/-- Two backends insert into index 7, and the worker comes to them in turn. -/
def inTurn : List Event :=
  [.load 1 100 0, .reserve 11 2 10, .reserve 12 3 10, .submit 1, .submit 0, .take 0,
   .reanchor 0 110, .answer 0 true, .take 1, .reanchor 1 120, .finish 0, .answer 1 true, .finish 1]

theorem two_inserts_in_turn_drain :
    Settled 7 emptyBlock ∧ EachStep (step 7) (InOrder 7) (start emptyBlock 7) inTurn ∧
      Quiet (run (step 7) (start emptyBlock 7) inTurn) ∧
      Drained 7 (run (step 7) (start emptyBlock 7) inTurn).ledger := by
  have ho : EachStep (step 7) (InOrder 7) (start emptyBlock 7) inTurn := by decide +kernel
  have hq : Quiet (run (step 7) (start emptyBlock 7) inTurn) := by decide +kernel
  exact ⟨emptyBlock_settled 7, ho, hq,
    the_pending_inserts_of_ordered_statements_drain (emptyBlock_settled 7) (by decide) ho
      hq⟩

/-- The second backend's insert is applied before the first one is sent, and the first one is
cancelled. -/
def outOfTurn : List Event :=
  [.load 1 100 0, .reserve 11 2 10, .reserve 12 3 10, .submit 1, .take 1, .reanchor 1 110,
   .answer 1 true, .finish 1, .giveUp 0]

/-- The first backend's reservation was released for the second insert, and ten bytes stay with a
backend that was answered DONE. -/
theorem an_insert_that_is_applied_out_of_turn_strands_its_reservation :
    Settled 7 emptyBlock ∧ (∀ ev ∈ outOfTurn, Connected ev = true) ∧
      Quiet (run (step 7) (start emptyBlock 7) outOfTurn) ∧
      some ⟨7, 12, 3, 10, false⟩ ∈
        (run (step 7) (start emptyBlock 7) outOfTurn).ledger.insertReservations ∧
      (run (step 7) (start emptyBlock 7) outOfTurn).ledger.residencyBytesCommitted =
        contributions (run (step 7) (start emptyBlock 7) outOfTurn).ledger.toEntry + 10 ∧
      ¬ Drained 7 (run (step 7) (start emptyBlock 7) outOfTurn).ledger := by
  have hl : some ⟨7, 12, 3, 10, false⟩ ∈
      (run (step 7) (start emptyBlock 7) outOfTurn).ledger.insertReservations := by decide +kernel
  refine ⟨emptyBlock_settled 7, by decide, by decide +kernel, hl, by decide +kernel, ?_⟩
  intro hd
  exact hd.none _ hl rfl

end svs_vamana.insert_drain
