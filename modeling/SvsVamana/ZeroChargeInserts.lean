-- Inserts that are admitted at no charge because a row for them was measured above the graph. The
-- handle keeps the block size it was created with.
import SvsVamana.CapacityHeadroom
import SvsVamana.HeadroomUnits

namespace svs_vamana.zero_charge_inserts

open transition_runs slot_table insert_statements headroom_units capacity_headroom
open svs_memory hiding Event step

/-! ## The pure model -/

/-- The live SVS index. A deleted row stays in the graph until the next compaction. -/
structure Handle where
  blockSizeBytes : Nat
  numVectors : Nat
  numDeleted : Nat := 0
deriving DecidableEq, Repr

def Handle.rows (h : Handle) : Nat := h.numVectors + h.numDeleted

/-- The inserts into an index and the graph of it. The rows that the graph had when it was last
measured are history. -/
structure World where
  state : State
  handle : Option Handle := none
  measuredAt : Nat := 0

inductive Event
  | statement (ev : insert_statements.Event)
  | create (now numVectors : Nat)
  | firstInsert (now n : Nat)
  | apply (n : Nat)
  | delete (count : Nat)
  | compact
  | checkpoint (failsAfterSave : Bool)

/-- What the backends and the process table do, and the worker apart from the graph. -/
def ofStatement : insert_statements.Event → Bool
  | .reanchor _ _ | .close _ | .load _ _ _ | .reconcile _ _ => false
  | _ => true

namespace World

/-- The worker is about to build the graph from this insert's vector. -/
def Building (w : World) (n : Nat) : Prop :=
  w.handle = none ∧ ∃ x ∈ w.state.inserts[n]?, State.InHand x

deriving instance Decidable for World.Building

/-- The worker builds or loads the graph with so many vectors and has its size admitted. -/
def create (lib : Library) (graphDegree relid : Nat) (w : World) (now numVectors : Nat) : World :=
  match handleBlockSizeBytes lib numVectors graphDegree,
    svsComputeCapacityHeadroomVectors lib numVectors with
  | some blockSizeBytes, some headroomVectors =>
    let measuredBytes := lib.memoryUsage numVectors blockSizeBytes
    let state := step relid w.state (.load now measuredBytes headroomVectors)
    match (reconcileLoad w.state.ledger now relid measuredBytes headroomVectors).2 with
    | .ok (.answer true) =>
      { state, handle := some { blockSizeBytes, numVectors }, measuredAt := numVectors }
    | _ => { w with state }
  | _, _ => w

def firstInsert (lib : Library) (graphDegree relid : Nat) (w : World) (now n : Nat) : World :=
  if w.Building n then
    let built := w.create lib graphDegree relid now 1
    if built.handle.isSome then { built with state := step relid built.state (.close n) } else built
  else w

/-- `SVSAddPoints` and `SvsMemoryReanchorInsert`. -/
def apply (lib : Library) (relid : Nat) (w : World) (n : Nat) : World :=
  match w.handle, acting relid w.state (.reanchor n 0) with
  | some h, some _ =>
    let h := { h with numVectors := h.numVectors + 1 }
    { w with
      state := step relid w.state (.reanchor n (lib.memoryUsage h.rows h.blockSizeBytes))
      handle := some h }
  | _, _ => w

def delete (w : World) (count : Nat) : World :=
  { w with
    handle := w.handle.map fun h =>
      { h with
        numVectors := h.numVectors - min count h.numVectors
        numDeleted := h.numDeleted + min count h.numVectors } }

/-- The graph is compacted and measured. -/
def compact (lib : Library) (relid : Nat) (w : World) : World :=
  match w.handle with
  | none => w
  | some h =>
    match svsComputeCapacityHeadroomVectors lib h.numVectors with
    | none => w
    | some headroomVectors =>
      { state := step relid w.state
          (.reconcile (lib.memoryUsage h.numVectors h.blockSizeBytes) (some headroomVectors))
        handle := some { h with numDeleted := 0 }
        measuredAt := h.numVectors }

/-- A save compacts the graph first. If it fails after that, its size is measured and its headroom
is left as it was. -/
def checkpoint (lib : Library) (relid : Nat) (w : World) : Bool → World
  | false => w.compact lib relid
  | true =>
    match w.handle with
    | none => w
    | some h =>
      { w with
        state := step relid w.state
          (.reconcile (lib.memoryUsage h.numVectors h.blockSizeBytes) none)
        handle := some { h with numDeleted := 0 } }

end World

def step (lib : Library) (graphDegree relid : Nat) (w : World) : Event → World
  | .statement ev =>
    if ofStatement ev then { w with state := insert_statements.step relid w.state ev } else w
  | .create now numVectors => w.create lib graphDegree relid now numVectors
  | .firstInsert now n => w.firstInsert lib graphDegree relid now n
  | .apply n => w.apply lib relid n
  | .delete count => w.delete count
  | .compact => w.compact lib relid
  | .checkpoint failsAfterSave => w.checkpoint lib relid failsAfterSave

def start (l : Ledger) (relid : Nat) : World := { state := insert_statements.start l relid }

/-! ## The property -/

/-- A measurement takes the block size of the handle that it is about. -/
def MeasuredAlike (lib : Library) (graphDegree : Nat) (w : World) : Event → Prop
  | .create _ numVectors =>
    svsComputeBlockSizeBytes lib numVectors = handleBlockSizeBytes lib numVectors graphDegree
  | .firstInsert _ n =>
    w.Building n → svsComputeBlockSizeBytes lib 1 = handleBlockSizeBytes lib 1 graphDegree
  | .compact | .checkpoint false =>
    ∀ h ∈ w.handle, svsComputeBlockSizeBytes lib h.numVectors = some h.blockSizeBytes
  | _ => True

/-- An insert that was admitted at no charge takes no memory when it is applied. -/
def NoGrowth (lib : Library) (relid : Nat) (w : World) : Event → Prop
  | .apply n => ∀ h ∈ w.handle, ∀ x ∈ acting relid w.state (.reanchor n 0),
      x.againstHeadroom = true →
        lib.dataBytes (h.rows + 1) h.blockSizeBytes = lib.dataBytes h.rows h.blockSizeBytes ∧
          lib.graphBytes (h.rows + 1) h.blockSizeBytes = lib.graphBytes h.rows h.blockSizeBytes
  | _ => True

/-- No power of two lies between the bytes that the measurement sizes a block for and those that
the handle was sized for. -/
def SameBlock (lib : Library) (graphDegree : Nat) (w : World) : Event → Prop
  | .create _ numVectors =>
    SameBracket (lib.sizedFor numVectors) (lib.sizedFor (max numVectors graphDegree))
  | .firstInsert _ n =>
    w.Building n → SameBracket (lib.sizedFor 1) (lib.sizedFor (max 1 graphDegree))
  | .compact | .checkpoint false =>
    ∀ h ∈ w.handle, SameBracket (lib.sizedFor h.numVectors) h.blockSizeBytes
  | _ => True

/-- The units of the headroom match in the step. -/
def UnitsMatch (relid : Nat) (w : World) : Event → Prop
  | .statement ev => Matched relid w.state ev
  | .apply n => Matched relid w.state (.reanchor n 0)
  | _ => True

/-- An insert that was charged is applied when no row of the headroom is left or spoken for. -/
def ChargedLast (relid : Nat) (w : World) : Event → Prop
  | .apply n => ∀ x ∈ acting relid w.state (.reanchor n 0), x.againstHeadroom = false →
      headroom w.state.ledger relid = 0 ∧ pendingUnits relid w.state = 0
  | _ => True

/-- A save that fails after its compaction has compacted nothing away. -/
def NothingDeleted (w : World) : Event → Prop
  | .checkpoint true => ∀ h ∈ w.handle, h.numDeleted = 0
  | _ => True

section Decidable

variable (lib : Library) (graphDegree relid : Nat) (w : World)

instance : ∀ ev, Decidable (MeasuredAlike lib graphDegree w ev) := by
  intro ev
  cases ev with
  | checkpoint fails => cases fails <;> unfold MeasuredAlike <;> infer_instance
  | _ =>
    unfold MeasuredAlike
    infer_instance

instance : ∀ ev, Decidable (NoGrowth lib relid w ev) := by
  intro ev
  cases ev <;> unfold NoGrowth <;> infer_instance

instance : ∀ ev, Decidable (SameBlock lib graphDegree w ev) := by
  intro ev
  cases ev with
  | checkpoint fails => cases fails <;> unfold SameBlock <;> infer_instance
  | _ =>
    unfold SameBlock
    infer_instance

instance : ∀ ev, Decidable (UnitsMatch relid w ev) := by
  intro ev
  cases ev <;> unfold UnitsMatch <;> infer_instance

instance : ∀ ev, Decidable (ChargedLast relid w ev) := by
  intro ev
  cases ev <;> unfold ChargedLast <;> infer_instance

instance : ∀ ev, Decidable (NothingDeleted w ev) := by
  intro ev
  cases ev with
  | checkpoint fails => cases fails <;> unfold NothingDeleted <;> infer_instance
  | _ =>
    unfold NothingDeleted
    infer_instance

end Decidable

/-! ## The block sizes -/

theorem handle_block_size (lib : Library) (numVectors graphDegree : Nat) :
    handleBlockSizeBytes lib numVectors graphDegree =
      some (pgNextpower2 (lib.sizedFor (max numVectors graphDegree))) :=
  compute_block_size lib _

/-- A measurement at this count takes the block size of a handle that was sized for `bytes`
exactly if no power of two separates the two. -/
theorem measured_alike_iff (lib : Library) (numVectors : Nat) {bytes : Nat} (hpos : 0 < bytes) :
    svsComputeBlockSizeBytes lib numVectors = some (pgNextpower2 bytes) ↔
      SameBracket (lib.sizedFor numVectors) bytes := by
  rw [compute_block_size, Option.some.injEq, nextpower2_eq_iff (sizedFor_pos lib numVectors) hpos]

def Sized (w : World) : Prop :=
  ∀ h ∈ w.handle, ∃ bytes, 0 < bytes ∧ h.blockSizeBytes = pgNextpower2 bytes

variable {lib : Library} {graphDegree : Nat} {w : World}

theorem measuredAlike_iff (hs : Sized w) (ev : Event) :
    MeasuredAlike lib graphDegree w ev ↔ SameBlock lib graphDegree w ev := by
  have hc : ∀ n, svsComputeBlockSizeBytes lib n = handleBlockSizeBytes lib n graphDegree ↔
      SameBracket (lib.sizedFor n) (lib.sizedFor (max n graphDegree)) := by
    intro n
    rw [handle_block_size]
    exact measured_alike_iff lib n (sizedFor_pos lib _)
  have hl : ∀ h ∈ w.handle, svsComputeBlockSizeBytes lib h.numVectors = some h.blockSizeBytes ↔
      SameBracket (lib.sizedFor h.numVectors) h.blockSizeBytes := by
    intro h hh
    obtain ⟨bytes, hpos, hby⟩ := hs h hh
    have hp : 0 < h.blockSizeBytes := by
      rw [hby]
      exact nextpower2_pos hpos
    rw [← measured_alike_iff lib h.numVectors hp, hby, nextpower2_nextpower2 hpos]
  cases ev with
  | create now n => exact hc n
  | firstInsert now n => exact imp_congr_right fun _ => hc 1
  | compact => exact forall₂_congr hl
  | checkpoint failsAfterSave =>
    cases failsAfterSave with
    | false => exact forall₂_congr hl
    | true => exact Iff.rfl
  | statement | apply | delete => exact Iff.rfl

/-! ## What the steps count -/

variable {relid : Nat} {ev : insert_statements.Event}

theorem quiet_history (s : State) (hre : ∀ n bytes, ev ≠ .reanchor n bytes)
    (hl : ∀ now bytes n, ev ≠ .load now bytes n) (hr : ∀ bytes n, ev ≠ .reconcile bytes (some n)) :
    (insert_statements.step relid s ev).added = s.added ∧
      (insert_statements.step relid s ev).installed = s.installed := by
  have hef := step_effect relid s ev
  generalize insert_statements.step relid s ev = s' at hef
  cases hef with
  | applied n bytes => exact absurd rfl (hre n bytes)
  | measured _ l n hev =>
    obtain ⟨_, _, rfl⟩ | ⟨_, rfl⟩ := hev
    · exact absurd rfl (hl _ _ _)
    · exact absurd rfl (hr _ _)
  | _ => exact ⟨rfl, rfl⟩

theorem statement_history (s : State) (hev : ofStatement ev = true) :
    (insert_statements.step relid s ev).added = s.added ∧
      (insert_statements.step relid s ev).installed = s.installed := by
  apply quiet_history
  all_goals
    intros
    rintro rfl
    cases hev

variable {n : Nat}

theorem reanchor_history {s : State} {x : Insert} (hact : acting relid s (.reanchor n 0) = some x)
    (bytes : Nat) :
    (insert_statements.step relid s (.reanchor n bytes)).added =
        s.added + (if x.againstHeadroom then 1 else 0) ∧
      (insert_statements.step relid s (.reanchor n bytes)).installed = s.installed := by
  have hact : acting relid s (.reanchor n bytes) = some x := hact
  have hef := step_effect relid s (.reanchor n bytes)
  generalize insert_statements.step relid s (.reanchor n bytes) = s' at hef
  cases hef with
  | applied _ _ y l hy hact' =>
    obtain rfl : y = x := by
      rw [hact] at hact'
      exact (Option.some.inj hact').symm
    exact ⟨rfl, rfl⟩
  | idle _ hi | noted _ _ _ _ hi | kept _ _ hi => simp [hact] at hi
  | aborted _ _ _ _ _ _ hev => obtain hev | hev := hev <;> cases hev
  | measured _ l n hl => obtain ⟨_, _, hev⟩ | ⟨_, hev⟩ := hl <;> cases hev

theorem load_history (s : State) {now bytes : Nat}
    (hok : (reconcileLoad s.ledger now relid bytes n).2 = .ok (.answer true)) :
    (insert_statements.step relid s (.load now bytes n)).added = 0 ∧
      (insert_statements.step relid s (.load now bytes n)).installed = n ∧
      (insert_statements.step relid s (.load now bytes n)).taken = (fun _ => false) ∧
      (standing (insert_statements.step relid s (.load now bytes n)).ledger relid).isSome := by
  obtain ⟨-, ⟨-, hs⟩ | ⟨hno, -⟩⟩ := reconcileLoad_spec s.ledger now relid bytes n
  · have hst : insert_statements.step relid s (.load now bytes n) =
        s.measured (reconcileLoad s.ledger now relid bytes n).1 n := by
      simp only [insert_statements.step, State.load]
      cases hc : reconcileLoad s.ledger now relid bytes n with
      | mk l answer =>
        rw [hc] at hok
        simp only at hok
        simp only [hok]
    rw [hst]
    exact ⟨rfl, rfl, rfl, by simp [State.measured, hs]⟩
  · exact absurd hok hno

theorem refused_history (s : State) {now bytes : Nat}
    (hno : (reconcileLoad s.ledger now relid bytes n).2 ≠ .ok (.answer true)) :
    (insert_statements.step relid s (.load now bytes n)).added = s.added ∧
      (insert_statements.step relid s (.load now bytes n)).installed = s.installed := by
  unfold insert_statements.step State.load
  dsimp only
  split
  · next heq =>
    rw [heq] at hno
    exact absurd rfl hno
  · exact ⟨rfl, rfl⟩

theorem reconcile_history {s : State} (h : Books relid s.ledger)
    (hso : (standing s.ledger relid).isSome) (bytes n : Nat) :
    (insert_statements.step relid s (.reconcile bytes (some n))).added = 0 ∧
      (insert_statements.step relid s (.reconcile bytes (some n))).installed = n := by
  obtain ⟨-, ⟨⟨reply, hok⟩, -⟩ | ⟨⟨err, herr⟩, -⟩⟩ :=
    reconcileResident_spec s.ledger relid bytes (some n)
  · unfold insert_statements.step State.reconcile
    dsimp only
    cases hc : reconcileResident s.ledger relid bytes (some n) with
    | mk l answer =>
      rw [hc] at hok
      simp only at hok
      simp only [hok]
      exact ⟨rfl, rfl⟩
  · -- the record is there and resident, so nothing is refused
    exfalso
    cases hf : findReservation s.ledger.toEntry relid with
    | none => simp [standing, hf] at hso
    | some x =>
      have hs : x.2.state = .resident := h.resident _ (standing_found hf)
      simp [reconcileResident, hf, hs] at herr

/-! ## The invariant -/

/-- So many rows above a count leave the data and the graph as large as they are. -/
def Room (lib : Library) (blockSizeBytes count rows : Nat) : Prop :=
  ∀ delta ≤ rows,
    lib.dataBytes (count + delta) blockSizeBytes = lib.dataBytes count blockSizeBytes ∧
      lib.graphBytes (count + delta) blockSizeBytes = lib.graphBytes count blockSizeBytes

/-- The rows above the last measurement are those that were added against its headroom, or all of
the headroom has been used. -/
structure Inv (lib : Library) (relid : Nat) (w : World) : Prop where
  units : headroom_units.Inv relid w.state.ledger
  conserved : Conserved relid w.state
  sized : Sized w
  recorded : w.handle.isSome → (standing w.state.ledger relid).isSome
  room : ∀ h ∈ w.handle, Room lib h.blockSizeBytes w.measuredAt w.state.installed
  filled : ∀ h ∈ w.handle,
    h.rows = w.measuredAt + w.state.added ∨ w.state.added = w.state.installed

theorem start_inv {l : Ledger} (hl : headroom_units.Inv relid l) :
    Inv lib relid (start l relid) := by
  refine ⟨hl, start_conserved l relid, ?_, ?_, ?_, ?_⟩ <;> simp [start, Sized]

theorem Inv.moved {w' : World} (h : Inv lib relid w)
    (hu : headroom_units.Inv relid w'.state.ledger) (hc : Conserved relid w'.state)
    (hs : (standing w.state.ledger relid).isSome → (standing w'.state.ledger relid).isSome)
    (hh : ∀ h' ∈ w'.handle, ∃ h ∈ w.handle, h'.blockSizeBytes = h.blockSizeBytes ∧
      h'.rows = h.rows) (hm : w'.measuredAt = w.measuredAt)
    (hhi : w'.state.added = w.state.added ∧ w'.state.installed = w.state.installed) :
    Inv lib relid w' := by
  obtain ⟨ha, hi⟩ := hhi
  refine ⟨hu, hc, ?_, ?_, ?_, ?_⟩
  · intro h' hh'
    obtain ⟨x, hx, hbl, -⟩ := hh h' hh'
    rw [hbl]
    exact h.sized x hx
  · intro hso
    obtain ⟨h', hh'⟩ := Option.isSome_iff_exists.mp hso
    obtain ⟨x, hx, -⟩ := hh h' hh'
    exact hs (h.recorded (Option.isSome_of_mem hx))
  · intro h' hh'
    obtain ⟨x, hx, hbl, -⟩ := hh h' hh'
    rw [hbl, hm, hi]
    exact h.room x hx
  · intro h' hh'
    obtain ⟨x, hx, -, hr⟩ := hh h' hh'
    rw [hr, hm, ha, hi]
    exact h.filled x hx

theorem Inv.stepped (h : Inv lib relid w) (hm : Matched relid w.state ev)
    (hh : (insert_statements.step relid w.state ev).added = w.state.added ∧
      (insert_statements.step relid w.state ev).installed = w.state.installed) :
    Inv lib relid { w with state := insert_statements.step relid w.state ev } :=
  h.moved (step_inv h.units ev) ((step_conserved_iff h.units h.conserved ev).mpr hm)
    (step_standing h.units.books ev) (fun x hx => ⟨x, hx, rfl, rfl⟩) rfl hh

theorem Inv.measured {x : Handle} {count headroom : Nat} (hh : w.handle = some x)
    (hm : w.measuredAt = count) (hro : x.rows = count)
    (hu : headroom_units.Inv relid w.state.ledger) (hc : Conserved relid w.state)
    (hs : Sized w) (hr : (standing w.state.ledger relid).isSome)
    (ha : w.state.added = 0) (hi : w.state.installed = headroom)
    (hbl : svsComputeBlockSizeBytes lib count = some x.blockSizeBytes)
    (hhe : svsComputeCapacityHeadroomVectors lib count = some headroom) : Inv lib relid w := by
  refine ⟨hu, hc, hs, fun _ => hr, ?_, ?_⟩
  · intro y hy
    obtain rfl : x = y := by simpa [hh] using hy
    rw [hm, hi]
    intro delta hd
    exact headroom_keeps_memory lib hbl hhe hd
  · intro y hy
    obtain rfl : x = y := by simpa [hh] using hy
    left
    omega

/-! ## Steps -/

theorem headroom_computed (lib : Library) (numVectors : Nat) :
    ∃ headroom, svsComputeCapacityHeadroomVectors lib numVectors = some headroom := by
  simp [svsComputeCapacityHeadroomVectors, compute_block_size]

theorem create_cases (lib : Library) (graphDegree relid : Nat) (w : World) (now numVectors : Nat) :
    ∃ bytes headroom, svsComputeCapacityHeadroomVectors lib numVectors = some headroom ∧
      ((reconcileLoad w.state.ledger now relid bytes headroom).2 = .ok (.answer true) ∧
          w.create lib graphDegree relid now numVectors =
            { state := insert_statements.step relid w.state (.load now bytes headroom)
              handle := some
                { blockSizeBytes := pgNextpower2 (lib.sizedFor (max numVectors graphDegree))
                  numVectors }
              measuredAt := numVectors } ∨
        (reconcileLoad w.state.ledger now relid bytes headroom).2 ≠ .ok (.answer true) ∧
          w.create lib graphDegree relid now numVectors =
            { w with
              state := insert_statements.step relid w.state (.load now bytes headroom) }) := by
  obtain ⟨headroom, hh⟩ := headroom_computed lib numVectors
  refine ⟨lib.memoryUsage numVectors (pgNextpower2 (lib.sizedFor (max numVectors graphDegree))),
    headroom, hh, ?_⟩
  unfold World.create
  simp only [handle_block_size, hh]
  split
  · next hok => exact .inl ⟨hok, rfl⟩
  · next hno => exact .inr ⟨hno, rfl⟩

theorem create_inv {numVectors : Nat} (h : Inv lib relid w) (now : Nat)
    (hs : SameBracket (lib.sizedFor numVectors) (lib.sizedFor (max numVectors graphDegree))) :
    Inv lib relid (w.create lib graphDegree relid now numVectors) := by
  obtain ⟨bytes, headroom, hh, ⟨hok, hc⟩ | ⟨hno, hc⟩⟩ :=
    create_cases lib graphDegree relid w now numVectors
  · rw [hc]
    obtain ⟨ha, hi, -, hr⟩ := load_history w.state hok
    have hpos := sizedFor_pos lib (max numVectors graphDegree)
    have hco := (step_conserved_iff h.units h.conserved (.load now bytes headroom)).mpr trivial
    refine Inv.measured rfl rfl rfl (step_inv h.units _) hco ?_ hr ha hi
      ((measured_alike_iff lib numVectors hpos).mpr hs) hh
    rintro x ⟨⟩
    exact ⟨_, hpos, rfl⟩
  · rw [hc]
    exact h.stepped trivial (refused_history w.state hno)

/-- The close that follows the first build finds no unit of the new headroom. -/
theorem first_insert_inv {now : Nat} (h : Inv lib relid w)
    (hsa : w.Building n → SameBracket (lib.sizedFor 1) (lib.sizedFor (max 1 graphDegree))) :
    Inv lib relid (w.firstInsert lib graphDegree relid now n) := by
  unfold World.firstInsert
  split
  · next hbu =>
    have hbui := create_inv h now (hsa hbu)
    dsimp only
    split
    · next hs =>
      refine hbui.stepped ?_ (quiet_history _ (by simp) (by simp) (by simp))
      obtain ⟨bytes, headroom, -, ⟨hok, hc⟩ | ⟨-, hc⟩⟩ :=
        create_cases lib graphDegree relid w now 1
      · obtain ⟨-, -, ht, -⟩ := load_history w.state hok
        rw [hc]
        intro x _
        unfold foundUnit
        split
        · rfl
        · simp only [unitAt, ht]
          split <;> simp
      · rw [hc] at hs
        simp [hbu.1] at hs
    · exact hbui
  · exact h

section

variable (hw : Inv lib relid w)
include hw

/-- An insert that was admitted at no charge is one of the rows that were measured. -/
theorem apply_room {h : Handle} {x : Insert} (hh : h ∈ w.handle)
    (hx : x ∈ acting relid w.state (.reanchor n 0))
    (hm : Matched relid w.state (.reanchor n 0)) (hf : x.againstHeadroom = true) :
    h.rows = w.measuredAt + w.state.added ∧ w.state.added < w.state.installed := by
  have hc := (step_conserved_iff hw.units hw.conserved (.reanchor n 0)).mpr hm
  obtain ⟨ha, hi⟩ := reanchor_history hx 0
  unfold Conserved at hc
  simp only [hf, if_true] at ha
  have hlt : w.state.added < w.state.installed := by omega
  obtain hr | hfu := hw.filled h hh
  · exact ⟨hr, hlt⟩
  · omega

theorem apply_inv (hm : Matched relid w.state (.reanchor n 0))
    (hl : ChargedLast relid w (.apply n)) : Inv lib relid (w.apply lib relid n) := by
  unfold World.apply
  split
  · next h x hh hx =>
    dsimp only
    generalize lib.memoryUsage _ _ = bytes
    obtain ⟨ha, hi⟩ := reanchor_history hx bytes
    have hc :=
      (step_conserved_iff hw.units hw.conserved (.reanchor n bytes)).mpr hm
    refine ⟨step_inv hw.units _, hc, ?_, ?_, ?_, ?_⟩
    · rintro y ⟨⟩
      exact hw.sized h hh
    · intro _
      exact step_standing hw.units.books _ (hw.recorded (by simp [hh]))
    · rintro y ⟨⟩
      simp only [hi]
      exact hw.room h hh
    · rintro y ⟨⟩
      simp only [ha, hi, Handle.rows]
      cases hf : x.againstHeadroom with
      | true =>
        obtain ⟨hr, -⟩ := apply_room hw hh hx hm hf
        left
        simp only [Handle.rows] at hr
        simp only [if_true]
        omega
      | false =>
        -- nothing of the headroom was left, so all of it has been added
        obtain ⟨hn, hp⟩ := hl x hx hf
        have := hw.conserved
        unfold Conserved at this
        right
        simp
        omega
  · exact hw

theorem compact_inv
    (hsa : ∀ h ∈ w.handle, svsComputeBlockSizeBytes lib h.numVectors = some h.blockSizeBytes) :
    Inv lib relid (w.compact lib relid) := by
  unfold World.compact
  split
  · exact hw
  next h hh =>
  obtain ⟨headroom, hhe⟩ := headroom_computed lib h.numVectors
  simp only [hhe]
  generalize lib.memoryUsage _ _ = bytes
  have hs := hw.recorded (by simp [hh])
  obtain ⟨ha, hi⟩ := reconcile_history hw.units.books hs bytes headroom
  have hc :=
    (step_conserved_iff hw.units hw.conserved (.reconcile bytes (some headroom))).mpr trivial
  refine Inv.measured rfl rfl (by simp [Handle.rows]) (step_inv hw.units _) hc ?_
    (step_standing hw.units.books _ hs) ha hi (hsa h hh) hhe
  rintro x ⟨⟩
  exact hw.sized h hh

theorem checkpoint_inv {fails : Bool} (hs : MeasuredAlike lib graphDegree w (.checkpoint fails))
    (hc : NothingDeleted w (.checkpoint fails)) : Inv lib relid (w.checkpoint lib relid fails) := by
  cases fails with
  | false => exact compact_inv hw hs
  | true =>
    unfold World.checkpoint
    dsimp only
    split
    · exact hw
    next h hh =>
    generalize lib.memoryUsage _ _ = bytes
    have hn : Inv lib relid
        { w with state := insert_statements.step relid w.state (.reconcile bytes none) } :=
      hw.stepped trivial (quiet_history _ (by simp) (by simp) (by simp))
    refine hn.moved hn.units hn.conserved id ?_ rfl ⟨rfl, rfl⟩
    rintro x ⟨⟩
    refine ⟨h, hh, rfl, ?_⟩
    simp [Handle.rows, hc h hh]

theorem delete_inv (count : Nat) : Inv lib relid (w.delete count) := by
  refine hw.moved hw.units hw.conserved id ?_ rfl ⟨rfl, rfl⟩
  intro x hx
  obtain ⟨h, hh, rfl⟩ := Option.map_eq_some_iff.mp hx
  refine ⟨h, hh, rfl, ?_⟩
  simp only [Handle.rows]
  omega

/-- What a run needs in each of its steps. -/
structure Careful (lib : Library) (graphDegree relid : Nat) (w : World) (ev : Event) : Prop where
  sameBlock : SameBlock lib graphDegree w ev
  unitsMatch : UnitsMatch relid w ev
  chargedLast : ChargedLast relid w ev
  nothingDeleted : NothingDeleted w ev

instance (lib : Library) (graphDegree relid : Nat) (w : World) (ev : Event) :
    Decidable (Careful lib graphDegree relid w ev) :=
  decidable_of_iff (SameBlock lib graphDegree w ev ∧ UnitsMatch relid w ev ∧
      ChargedLast relid w ev ∧ NothingDeleted w ev)
    ⟨fun ⟨h₁, h₂, h₃, h₄⟩ => ⟨h₁, h₂, h₃, h₄⟩, fun ⟨h₁, h₂, h₃, h₄⟩ => ⟨h₁, h₂, h₃, h₄⟩⟩

theorem step_inv {ev : Event} (hev : Careful lib graphDegree relid w ev) :
    Inv lib relid (step lib graphDegree relid w ev) := by
  have ha := (measuredAlike_iff hw.sized ev).mpr hev.sameBlock
  cases ev with
  | statement ev =>
    simp only [step]
    split
    · next hof => exact hw.stepped hev.unitsMatch (statement_history w.state hof)
    · exact hw
  | create now numVectors => exact create_inv hw now hev.sameBlock
  | firstInsert now n => exact first_insert_inv hw hev.sameBlock
  | apply n => exact apply_inv hw hev.unitsMatch hev.chargedLast
  | delete count => exact delete_inv hw count
  | compact => exact compact_inv hw ha
  | checkpoint fails => exact checkpoint_inv hw ha hev.nothingDeleted

end

theorem step_noGrowth {ev : Event} (hw : Inv lib relid w) (hev : Careful lib graphDegree relid w ev) :
    NoGrowth lib relid w ev := by
  cases ev with
  | apply n =>
    intro h hh x hx hf
    obtain ⟨hro, hlt⟩ := apply_room hw hh hx hev.unitsMatch hf
    have hr := hw.room h hh
    obtain ⟨hd, hg⟩ := hr w.state.added (by omega)
    obtain ⟨hd', hg'⟩ := hr (w.state.added + 1) (by omega)
    rw [hro, Nat.add_assoc]
    exact ⟨hd'.trans hd.symm, hg'.trans hg.symm⟩
  | _ => trivial

/-! ## Whole runs -/

def blocksFor (rows perBlock : Nat) : Nat := (rows + (perBlock - 1)) / perBlock

theorem blocksFor_mono {perBlock m : Nat} (h : m ≤ n) :
    blocksFor m perBlock ≤ blocksFor n perBlock :=
  Nat.div_le_div_right (Nat.add_le_add_right h _)

/-- Vectors of 31 bytes and neighbour lists of degree 16. -/
def smallVectors : Library where
  elementBytes := 31
  defaultBlockSizeBytes := 1 <<< 30
  dataBytes rows blockSize := blocksFor rows (blockSize / 31) * blockSize
  graphBytes rows blockSize := blocksFor rows (blockSize / 31) * (blockSize / 31 * 68)
  metadataBytes rows _ := rows * 8
  element_pos := by decide
  element_le := by decide
  data_mono _ _ _ h := Nat.mul_le_mul_right _ (blocksFor_mono h)
  graph_mono _ _ _ h := Nat.mul_le_mul_right _ (blocksFor_mono h)

/-- Backend 11 inserts once more, up to the point where the worker has the request. -/
def sent (n : Nat) : List Event :=
  [.statement (.reserve 11 (n + 2) 700), .statement (.submit n), .statement (.take n)]

def inserted (n : Nat) : List Event :=
  sent n ++ [.apply n, .statement (.answer n true), .statement (.finish n)]

/-- An index of 20 rows, an insert into the room above them, a save and another insert. -/
def roomyIndex : List Event := [.create 1 20] ++ inserted 0 ++ [.checkpoint false] ++ inserted 1

/-- An index of 16 rows, which fill one block, and 16 inserts that fill a second one. -/
def twoFullBlocks : List Event := [.create 1 16] ++ (List.range 16).flatMap inserted

end svs_vamana.zero_charge_inserts
