-- The array of the undo log as it is allocated: it grows before the worker applies an insert, so
-- that the append after it cannot fail (vamana_undo.c, vamana_subxid_pending_array.c).
import SvsVamana.Lib.NestedTransactions
import SvsVamana.Lib.Runs

namespace svs_vamana.undo_array

open transition_runs nested_transactions

variable {α : Type}

/-! ## The pure model -/

/-- `entries` are the slots that are allocated, each with its `subxid`; a slot that was never
written is `none`. -/
structure UndoArray (α : Type) where
  count : Nat
  capacity : Nat
  entries : List (Option (Nat × α))

def intMax : Nat := 2147483647

/-- `VamanaSubxidPendingArrayCreate` with the capacity of the undo log. -/
def created : UndoArray α := ⟨0, 16, List.replicate 16 none⟩

def repalloc (size : Nat) (entries : List (Option (Nat × α))) : List (Option (Nat × α)) :=
  entries.take size ++ List.replicate (size - entries.length) none

/-- `VamanaSubxidPendingArrayEnsureSpace`: whether it returns, and the array it leaves. The
capacity is recorded before the allocation. -/
def ensureSpace (maxCount : Nat) (allocOk : Bool) (array : UndoArray α) : Bool × UndoArray α :=
  if array.count < array.capacity then (true, array)
  else if array.capacity > intMax / 2 then (false, array)
  else
    let grown := { array with capacity := min (array.capacity * 2) maxCount }
    if allocOk then (true, { grown with entries := repalloc grown.capacity grown.entries })
    else (false, grown)

def UndoArray.write (array : UndoArray α) (mySubid : Nat) (elem : α) : UndoArray α :=
  { array with
    count := array.count + 1
    entries := array.entries.set array.count (some (mySubid, elem)) }

/-- `VamanaSubxidPendingArrayAppend`. -/
def vamanaUndoAppend (allocOk : Bool) (mySubid : Nat) (elem : α) (array : UndoArray α) :
    Bool × UndoArray α :=
  let (ok, array) := ensureSpace intMax allocOk array
  if ok then (true, array.write mySubid elem) else (false, array)

def vamanaUndoReserve (maxEntries : Nat) (allocOk : Bool) (array : UndoArray α) :
    Bool × UndoArray α :=
  if array.count ≥ maxEntries then (false, array) else ensureSpace maxEntries allocOk array

def replaceMatchingSubxid (mySubid replacement : Nat) (array : UndoArray α) : UndoArray α :=
  { array with
    entries := array.entries.map <| Option.map fun e =>
      if e.1 = mySubid then (replacement, e.2) else e }

/-- The transaction of a backend; `log` is what `GetOrCreateUndoLog` returns in it. -/
structure Session (α : Type) where
  nest : Nest := {}
  maxEntries : Nat := 1048576
  log : UndoArray α := created

/-- An error or a rollback takes the innermost subtransaction, or else the transaction. -/
def Session.abort (workerAvailable : Bool) (s : Session α) : Session α :=
  match s.nest.inner with
  | [] => { s with nest := {}, log := created }
  | mySubid :: _ =>
    { s with
      nest := s.nest.abort
      log := if workerAvailable then replaceMatchingSubxid mySubid 0 s.log else s.log }

/-- `applied` is whether the worker confirms the insert. -/
structure Insert (α : Type) where
  elem : α
  allocOk : Bool := true
  applied : Bool := true
  workerAvailable : Bool := true

def Session.insert (s : Session α) (c : Insert α) : Session α :=
  let (ok, log) := vamanaUndoReserve s.maxEntries c.allocOk s.log
  if ok && c.applied then
    let (ok, log) := vamanaUndoAppend c.allocOk s.nest.current c.elem log
    if ok then { s with log } else Session.abort c.workerAvailable { s with log }
  else Session.abort c.workerAvailable { s with log }

/-- `rollback` is also any error that comes before a reserve. -/
inductive Event (α : Type)
  | setMaxEntries (n : Nat)
  | savepoint
  | release
  | rollback (workerAvailable : Bool)
  | finish
  | insert (c : Insert α)

def step (s : Session α) : Event α → Session α
  | .setMaxEntries n => { s with maxEntries := n }
  | .savepoint => { s with nest := s.nest.start }
  | .release =>
    match s.nest.inner with
    | [] => s
    | mySubid :: outer =>
      { s with
        nest := s.nest.commit
        log := replaceMatchingSubxid mySubid (outer.headD top) s.log }
  | .rollback workerAvailable => s.abort workerAvailable
  | .finish => { s with nest := {}, log := created }
  | .insert c => s.insert c

def Allocated (array : UndoArray α) : Prop := array.capacity ≤ array.entries.length

/-- The recorded capacity is allocated. After a reserve that returns, the entries are as they were,
and the next append writes one slot of the allocation and does nothing else. -/
def Sound (s : Session α) : Prop :=
  Allocated s.log ∧ ∀ allocOk array, vamanaUndoReserve s.maxEntries allocOk s.log = (true, array) →
    array.count = s.log.count ∧
    array.entries.take s.log.count = s.log.entries.take s.log.count ∧
    array.count < array.entries.length ∧
    ∀ allocOk mySubid elem,
      vamanaUndoAppend allocOk mySubid elem array = (true, array.write mySubid elem)

/-- The next entry needs more room, and it is not to be had. -/
def GrowthFails (s : Session α) (allocOk : Bool) : Prop :=
  s.log.capacity ≤ s.log.count ∧ s.log.count < s.maxEntries ∧
    s.log.capacity ≤ intMax / 2 ∧ allocOk = false

/-- A growth fails, and a savepoint catches the error. -/
def Caught (s : Session α) : Event α → Prop
  | .insert c => GrowthFails s c.allocOk ∧ s.nest.inner ≠ []
  | _ => False

/-! ## The array -/

/-- Whether or not the capacity is allocated. -/
structure Wf (array : UndoArray α) : Prop where
  pos : 0 < array.capacity
  count_le : array.count ≤ array.capacity
  entries_le : array.entries.length ≤ array.capacity

theorem wf_created : Wf (created : UndoArray α) :=
  ⟨by simp [created], by simp [created], by simp [created]⟩

theorem length_repalloc (size : Nat) (entries : List (Option (Nat × α))) :
    (repalloc size entries).length = size := by
  simp [repalloc]
  omega

theorem take_repalloc {n size : Nat} {entries : List (Option (Nat × α))} (hn : n ≤ size)
    (he : n ≤ entries.length) : (repalloc size entries).take n = entries.take n := by
  unfold repalloc
  rw [List.take_append_of_le_length (by simp; omega), List.take_take, Nat.min_eq_left hn]

variable {array : UndoArray α}

theorem append_of_lt (h : array.count < array.capacity) (allocOk : Bool)
    (mySubid : Nat) (elem : α) :
    vamanaUndoAppend allocOk mySubid elem array = (true, array.write mySubid elem) := by
  simp [vamanaUndoAppend, ensureSpace, h]

variable {s : Session α}

/-- What a reserve does: nothing, a growth, or a growth that fails. -/
theorem reserve_cases (h : Wf s.log) {allocOk ok : Bool} {log : UndoArray α}
    (hr : vamanaUndoReserve s.maxEntries allocOk s.log = (ok, log)) :
    Wf log ∧ (ok = true → log.count < log.capacity) ∧
      (Allocated s.log → (Allocated log ↔ ¬ GrowthFails s allocOk) ∧
        (ok = true → Allocated log ∧ log.count = s.log.count ∧
          log.entries.take s.log.count = s.log.entries.take s.log.count)) := by
  obtain ⟨hpos, hc, he⟩ := id h
  unfold vamanaUndoReserve ensureSpace at hr
  unfold GrowthFails Allocated
  split at hr
  · cases hr
    exact ⟨h, by simp, fun ha => ⟨by omega, by simp⟩⟩
  split at hr
  · next hlt =>
    cases hr
    exact ⟨h, fun _ => hlt, fun ha => ⟨by omega, fun _ => ⟨ha, rfl, rfl⟩⟩⟩
  split at hr
  · cases hr
    exact ⟨h, by simp, fun ha => ⟨by omega, by simp⟩⟩
  cases allocOk with
  | true =>
    cases hr
    refine ⟨⟨by simp; omega, by simp; omega, by simp [length_repalloc]⟩, by simp; omega,
      fun ha => ?_⟩
    simp only [length_repalloc]
    exact ⟨by simp, fun _ => ⟨by simp, trivial, take_repalloc (by omega) (by omega)⟩⟩
  | false =>
    cases hr
    exact ⟨⟨by simp; omega, by simp; omega, by simp; omega⟩, by simp,
      fun ha => ⟨by simp; omega, by simp⟩⟩

theorem sound_iff (h : Wf s.log) : Sound s ↔ Allocated s.log := by
  refine ⟨And.left, fun ha => ⟨ha, ?_⟩⟩
  intro allocOk array hr
  obtain ⟨-, hroom, hkept⟩ := reserve_cases h hr
  obtain ⟨hal, hc, ht⟩ := (hkept ha).2 rfl
  exact ⟨hc, ht, Nat.lt_of_lt_of_le (hroom rfl) hal, append_of_lt (hroom rfl)⟩

/-! ## The transaction -/

theorem wf_replace {i r : Nat} (h : Wf array) : Wf (replaceMatchingSubxid i r array) :=
  ⟨h.pos, h.count_le, by simpa [replaceMatchingSubxid] using h.entries_le⟩

theorem allocated_replace {i r : Nat} :
    Allocated (replaceMatchingSubxid i r array) ↔ Allocated array := by
  simp [Allocated, replaceMatchingSubxid]

theorem wf_abort (h : Wf s.log) (workerAvailable : Bool) : Wf (s.abort workerAvailable).log := by
  unfold Session.abort
  split
  · exact wf_created
  · cases workerAvailable with
    | true => exact wf_replace h
    | false => exact h

theorem allocated_abort (workerAvailable : Bool) :
    Allocated (s.abort workerAvailable).log ↔ s.nest.inner = [] ∨ Allocated s.log := by
  unfold Session.abort
  split
  · next hi => simp [hi, Allocated, created]
  · next hi => cases workerAvailable <;> simp [hi, allocated_replace]

/-- An insert fails after the reserve, or appends where the reserve has made room. -/
theorem insert_cases (h : Wf s.log) (c : Insert α) :
    ∃ ok log, vamanaUndoReserve s.maxEntries c.allocOk s.log = (ok, log) ∧
      (s.insert c = Session.abort c.workerAvailable { s with log } ∨
        ok = true ∧ s.insert c = { s with log := log.write s.nest.current c.elem }) := by
  unfold Session.insert
  cases hr : vamanaUndoReserve s.maxEntries c.allocOk s.log with
  | mk ok log =>
    refine ⟨ok, log, rfl, ?_⟩
    by_cases ha : ok = true ∧ c.applied = true
    · exact .inr ⟨ha.1, by simp [ha, append_of_lt ((reserve_cases h hr).2.1 ha.1)]⟩
    · exact .inl (by simp [ha])

theorem step_keeps (s : Session α) (e : Event α) (h : Wf s.log) :
    Wf (step s e).log ∧ (Allocated s.log → (Allocated (step s e).log ↔ ¬ Caught s e)) := by
  cases e with
  | setMaxEntries | savepoint => exact ⟨h, fun ha => by simp [step, Caught, ha]⟩
  | release =>
    simp only [step]
    split
    · exact ⟨h, fun ha => by simp [Caught, ha]⟩
    · exact ⟨wf_replace h, fun ha => by simp [Caught, allocated_replace, ha]⟩
  | rollback workerAvailable =>
    exact ⟨wf_abort h workerAvailable, fun ha => by simp [step, Caught, allocated_abort, ha]⟩
  | finish => exact ⟨wf_created, fun _ => by simp [step, Caught, Allocated, created]⟩
  | insert c =>
    obtain ⟨ok, log, hr, hi | ⟨rfl, hi⟩⟩ := insert_cases h c
    · obtain ⟨hwf, -, hal⟩ := reserve_cases h hr
      simp only [step, hi, allocated_abort, Caught]
      refine ⟨wf_abort (s := { s with log }) hwf _, fun ha => ?_⟩
      rw [(hal ha).1]
      tauto
    · obtain ⟨hwf, hroom, hal⟩ := reserve_cases h hr
      simp only [step, hi, Caught]
      refine ⟨⟨hwf.pos, hroom rfl, by simpa [UndoArray.write] using hwf.entries_le⟩, fun ha => ?_⟩
      have hw : Allocated (log.write s.nest.current c.elem) := by
        simpa [Allocated, UndoArray.write] using ((hal ha).2 rfl).1
      simp [hw, (hal ha).1.mp ((hal ha).2 rfl).1]

/-- The undo array is sound in every state exactly when no savepoint catches a failed growth. -/
theorem undo_array_is_sound_iff_no_failed_growth_is_caught (events : List (Event α)) :
    EachState step Sound {} events ↔ EachStep step (fun s e => ¬ Caught s e) {} events := by
  apply eachState_iff_eachStep fun (s : Session α) e (h : Wf s.log) => (step_keeps s e h).1
  · intro s e h hs
    rw [sound_iff (step_keeps s e h).1]
    exact (step_keeps s e h).2 hs.1
  · exact wf_created
  · rw [sound_iff wf_created]
    simp [Allocated, created]

/-- Sixteen rows fill the array; in a savepoint the seventeenth gets no memory. The capacity is 32
from then on, so that the next insert reserves nothing and writes past the end. -/
theorem caught_growth_failure_leaves_the_array_unsound :
    ¬ Sound (run step ({} : Session Unit) (List.replicate 16 (.insert { elem := () }) ++
      [.savepoint, .insert { elem := (), allocOk := false }])) := by
  intro h
  have ha := h.1
  revert ha
  unfold Allocated
  decide

end svs_vamana.undo_array
