-- The thread budget does not depend on the order of its input: no two claims tie in a sort, as long
-- as no build request has the pid 0 that stands for a database.
import SvsVamana.CpuSoundness
import Mathlib.Data.Nat.Pairing

namespace svs_vamana.grant_order

open slot_table cpu_budget cpu_soundness SvsDbCpuWorking List

/-! ## The order of the leftover -/

def key (c : SvsCpuClaim) : Nat × Nat := (c.dbOid, c.requestPid)

variable {frac : SvsCpuClaim → Nat}

theorem leftoverBefore_iff {a b : SvsCpuClaim} :
    leftoverBefore frac a b = true ↔ frac b < frac a ∨ frac a = frac b ∧
      (b.weight < a.weight ∨ a.weight = b.weight ∧
        (a.dbOid < b.dbOid ∨ a.dbOid = b.dbOid ∧ a.requestPid ≤ b.requestPid)) := by
  unfold leftoverBefore
  split_ifs <;> simp only [decide_eq_true_eq] <;> omega

theorem byLeftover_pairwise (claims : List SvsCpuClaim) (remainder : Nat) :
    (byLeftover claims remainder).Pairwise fun a b =>
      leftoverBefore (fracNumerator claims remainder) a b = true := by
  have : Std.Total fun a b => leftoverBefore (fracNumerator claims remainder) a b = true :=
    ⟨fun a b => by simp only [leftoverBefore_iff]; omega⟩
  have : IsTrans SvsCpuClaim fun a b => leftoverBefore (fracNumerator claims remainder) a b = true :=
    ⟨fun a b c => by simp only [leftoverBefore_iff]; omega⟩
  exact pairwise_insertionSort _ _

variable {claims claims' : List SvsCpuClaim}

/-- Claims with keys of their own are sorted in one way only. -/
theorem sorted_unique (hn : (claims.map key).Nodup)
    {order order' : List SvsCpuClaim} (hp : order.Perm claims) (hp' : order'.Perm claims)
    (hs : order.Pairwise fun a b => leftoverBefore frac a b = true)
    (hs' : order'.Pairwise fun a b => leftoverBefore frac a b = true) : order = order' := by
  refine Perm.eq_of_pairwise (fun a b ha hb hab hba => ?_) hs hs' (hp.trans hp'.symm)
  refine inj_on_of_nodup_map hn (hp.mem_iff.mp ha) (hp'.mem_iff.mp hb) ?_
  rw [leftoverBefore_iff] at hab hba
  simp only [key, Prod.mk.injEq]
  omega

/-! ## The passes -/

/-- The claim with another place for its grant. -/
def relabel (place : GrantOut → GrantOut) (c : SvsCpuClaim) : SvsCpuClaim :=
  { c with grantOut := place c.grantOut }

section Relabel

variable {place : GrantOut → GrantOut}

theorem handOut_relabel (share : SvsCpuClaim → Nat) (n : Nat) (claims : List SvsCpuClaim) :
    handOut share n (claims.map (relabel place)) =
      (handOut (fun c => share (relabel place c)) n claims).map fun g => (place g.1, g.2) := by
  induction claims generalizing n with
  | nil => rfl
  | cons c claims ih => simp [handOut, ih, relabel]

section

variable (h : claims'.Perm (claims.map (relabel place)))
include h

theorem shares_relabel (remainder : Nat) (c : SvsCpuClaim) :
    floorShare claims' remainder (relabel place c) = floorShare claims remainder c ∧
      fracNumerator claims' remainder (relabel place c) = fracNumerator claims remainder c := by
  have hw : totalWeight claims' = totalWeight claims := (total_perm _ h).trans (total_map _ _ _)
  have hl : claims'.length = claims.length := by simpa using h.length_eq
  simp only [floorShare, fracNumerator, weightForShare, shareDenom, hw, hl]
  exact ⟨rfl, rfl⟩

theorem byLeftover_relabel (hn : (claims'.map key).Nodup) (remainder : Nat) :
    byLeftover claims' remainder = (byLeftover claims remainder).map (relabel place) := by
  refine sorted_unique hn (byLeftover_perm _ _)
    (((byLeftover_perm claims remainder).map _).trans h.symm) (byLeftover_pairwise _ _) ?_
  refine pairwise_map.mpr ((byLeftover_pairwise claims remainder).imp fun {a b} hab => ?_)
  rw [leftoverBefore_iff] at hab ⊢
  rw [(shares_relabel h remainder a).2, (shares_relabel h remainder b).2]
  exact hab

/-- The grants follow the claims to other places, whatever the order of the claims. -/
theorem apportionPasses_relabel (hn : (claims'.map key).Nodup) (passes remainder : Nat) :
    (apportionPasses passes claims' remainder).Perm
      ((apportionPasses passes claims remainder).map fun g => (place g.1, g.2)) := by
  induction passes generalizing claims claims' remainder with
  | zero => exact .refl _
  | succ passes ih =>
    have hlen : claims'.length = claims.length := by simpa using h.length_eq
    have hnil : claims' = [] ↔ claims = [] := by
      rw [← length_eq_zero_iff, hlen, length_eq_zero_iff]
    have hask : ∀ {l l' : List SvsCpuClaim}, l'.Perm (l.map (relabel place)) →
        totalAsk l' = totalAsk l := fun h => (total_perm _ h).trans (total_map _ _ _)
    have has : ∀ {l l' : List SvsCpuClaim}, l'.Perm (l.map (relabel place)) →
        (asks l').Perm ((asks l).map fun g => (place g.1, g.2)) := fun h =>
      (h.map _).trans (.of_eq (by rw [asks, map_map, map_map]; rfl))
    have hsh := fun c => (shares_relabel h remainder c).1
    have hsum : total (floorShare claims' remainder) claims' =
        total (floorShare claims remainder) claims := by
      rw [total_perm _ h, total_map]
      exact total_congr fun c _ => hsh c
    -- the claims that are settled, and those that are not, are the same
    have hfil : ∀ p : Nat → Nat → Bool,
        (claims'.filter fun c => p (floorShare claims' remainder c) c.ask).Perm
          ((claims.filter fun c => p (floorShare claims remainder c) c.ask).map (relabel place)) := by
      intro p
      refine (h.filter _).trans (.of_eq ?_)
      rw [filter_map]
      simp only [Function.comp_def, hsh]
      rfl
    have hs := hfil fun share ask => decide (share ≥ ask)
    have ha := hfil fun share ask => !decide (share ≥ ask)
    have hl := byLeftover_relabel h hn remainder
    unfold byLeftover at hl
    unfold apportionPasses
    dsimp only
    rw [hl, handOut_relabel, hsum, hask h, hask hs, ha.length_eq, hlen, length_map]
    simp only [hnil, hsh]
    split
    · exact .refl _
    split
    · exact has h
    split
    · rw [map_append]
      exact (has hs).append (ih ha (hn.sublist (filter_sublist.map key)) _)
    · exact .refl _

end

end Relabel

/-! ## The claims by their keys -/

variable {input input' : SvsCpuBudgetInput}

def buildKey (b : SvsBuildCpuRequest) : Nat × Nat := (b.dbOid, b.requestPid)

/-- The databases are distinct, and so are the builds, none of which has the pid 0 of a database's
claim. -/
structure Distinct (input : SvsCpuBudgetInput) : Prop where
  dbs : (input.dbs.map SvsDbCpuRequest.dbOid).Nodup
  builds : (input.builds.map buildKey).Nodup
  pids : ∀ b ∈ input.builds, b.requestPid ≠ 0

theorem Distinct.oids (h : Distinct input) :
    ((buildDbWorkingSet input (ceiling input.gucs)).map dbOid).Nodup := by
  simpa [buildDbWorkingSet, Function.comp_def] using h.dbs

theorem Distinct.clamped_oids (h : Distinct input) : ((clamped input).map dbOid).Nodup := by
  rw [clamped, map_clamped fun _ _ => rfl]
  exact h.oids

/-- The places of the grants, named after what they are for. -/
def place (input : SvsCpuBudgetInput) : GrantOut → GrantOut
  | .db i => .db (oidAt (clamped input) i)
  | .build i => .build ((input.builds[i]?.map fun b => Nat.pair b.dbOid b.requestPid).getD 0)

def keyed (input : SvsCpuBudgetInput) : List SvsCpuClaim :=
  ((clamped input).map (fun w => dbClaim (w, w.dbOid)) ++
    input.builds.map fun b => buildClaim (b, Nat.pair b.dbOid b.requestPid)).filter
      fun c => c.ask ≠ 0

theorem map_zipIdx {α β : Type} {l : List α} {f : α × Nat → β} {g : α → β}
    (h : ∀ i a, l[i]? = some a → f (a, i) = g a) : l.zipIdx.map f = l.map g := by
  refine ext_getElem? fun i => ?_
  rw [getElem?_map, getElem?_map, getElem?_zipIdx]
  cases hi : l[i]? with
  | none => rfl
  | some a => simpa using h i a hi

theorem keyed_eq (input : SvsCpuBudgetInput) :
    (claimsOf input).map (relabel (place input)) = keyed input := by
  rw [claimsOf, dbClaims_eq, buildClaims_eq, ← filter_append, keyed]
  rw [← map_zipIdx (f := relabel (place input) ∘ dbClaim),
    ← map_zipIdx (f := relabel (place input) ∘ buildClaim)]
  · rw [← map_map, ← map_map, ← map_append, filter_map]
    rfl
  · intro i b hi
    simp [relabel, buildClaim, place, hi]
  · intro i w hi
    simp [relabel, dbClaim, place, oidAt, hi]

section

variable (h : Distinct input)
include h

theorem Distinct.keys : ((claimsOf input).map key).Nodup := by
  have hk : (claimsOf input).map key = (keyed input).map key := by
    rw [← keyed_eq, map_map]
    rfl
  rw [hk]
  refine Nodup.sublist (filter_sublist.map key) ?_
  rw [map_append, map_map, map_map]
  refine nodup_append.mpr ⟨?_, h.builds, ?_⟩
  · exact Nodup.of_map Prod.fst (by rw [map_map]; exact h.clamped_oids)
  · intro k hk l hl heq
    obtain ⟨w, -, rfl⟩ := mem_map.mp hk
    obtain ⟨b, hb, rfl⟩ := mem_map.mp hl
    exact h.pids b hb (congrArg Prod.snd heq).symm

/-- Different places have different names. -/
theorem Distinct.place_inj {out out' : GrantOut}
    (ho : out ∈ places (clamped input).length input.builds.length)
    (ho' : out' ∈ places (clamped input).length input.builds.length)
    (heq : place input out = place input out') : out = out' := by
  rcases out with i | i <;> rcases out' with j | j
  · have hi : i < (clamped input).length := by simpa [places] using ho
    have hj : j < (clamped input).length := by simpa [places] using ho'
    rw [oidAt_inj h.clamped_oids hi hj (GrantOut.db.inj heq)]
  · simp [place] at heq
  · simp [place] at heq
  · have hi : i < input.builds.length := by simpa [places] using ho
    have hj : j < input.builds.length := by simpa [places] using ho'
    have hij : i = j := by
      refine (getElem?_inj (by simpa using hi) h.builds).mp ?_
      simpa [place, buildKey, hi, hj] using heq
    rw [hij]

/-! ## The calculator -/

/-- The grant in a place is the one that claims with the same keys get under its name. -/
theorem Distinct.grantAt_place (hp : claims.Perm (keyed input))
    {out : GrantOut} (ho : out ∈ places (clamped input).length input.builds.length) :
    grantAt (apportionRemainder (claimsOf input) (remainderOf input)) out =
      grantAt (apportionRemainder claims (remainderOf input)) (place input out) := by
  rw [← keyed_eq] at hp
  have hn : (claims.map key).Nodup := by
    rw [(hp.map key).nodup_iff, map_map]
    exact h.keys
  have hlen : claims.length = (claimsOf input).length := by simpa using hp.length_eq
  rw [grantAt, grantAt, apportionRemainder, apportionRemainder, hlen,
    total_perm _ (apportionPasses_relabel hp hn _ _), total_map]
  refine total_congr fun g hg => ?_
  have hmem := claims_places (clamped input) input.builds
    (apportionPasses_outs _ (Nat.le_refl _) (mem_map_of_mem hg))
  by_cases hgo : g.1 = out
  · simp [hgo]
  · rw [if_neg hgo, if_neg fun heq => hgo (h.place_inj hmem ho heq)]

/-- The grants by the names of their places. -/
theorem Distinct.grants (hp : claims.Perm (keyed input)) :
    (svsComputeCpuGrants input).dbGrants = (clamped input).map (fun w =>
      ⟨w.dbOid, w.desired, w.floor +
        grantAt (apportionRemainder claims (remainderOf input)) (.db w.dbOid), w.floor⟩) ∧
    (svsComputeCpuGrants input).buildGrants = input.builds.map fun b =>
      ⟨b.dbOid, b.requestPid, grantAt (apportionRemainder claims (remainderOf input))
        (.build (Nat.pair b.dbOid b.requestPid))⟩ := by
  have hg := @Distinct.grantAt_place _ _ h hp
  constructor
  · refine mapIdx_eq_zipIdx_map.trans (map_zipIdx fun i w (hi : (clamped input)[i]? = some w) => ?_)
    have hdb := @hg (.db i) (by simp [places, (List.getElem?_eq_some_iff.mp hi).1])
    simp only [place, oidAt, hi, Option.map_some, Option.getD_some] at hdb
    rw [← hdb]
    rfl
  · refine mapIdx_eq_zipIdx_map.trans (map_zipIdx fun i b hi => ?_)
    have hb := @hg (.build i) (by simp [places, (List.getElem?_eq_some_iff.mp hi).1])
    simp only [place, hi, Option.map_some, Option.getD_some] at hb
    rw [← hb]
    rfl

end

theorem clamped_perm {working working' : List SvsDbCpuWorking}
    (hn : (working.map dbOid).Nodup) (h : working.Perm working') (pool : Nat) :
    (clampFloorsToPool working pool).1.Perm (clampFloorsToPool working' pool).1 := by
  have hmap : ∀ l : List SvsDbCpuWorking, (l.map dbOid).Nodup →
      (clampFloorsToPool l pool).1 = l.map fun w =>
        { w with floor := w.floor - (totalFloor l - pool - floorsBelow l w.dbOid) } := by
    intro l hn
    refine ext_getElem? fun i => ?_
    rw [getElem?_map]
    cases hi : l[i]? with
    | none => rw [clamped_get, hi]; rfl
    | some w => exact clamped_floor hn hi pool
  have hfl : totalFloor working = totalFloor working' := total_perm _ h
  have hbl : floorsBelow working = floorsBelow working' := funext fun oid => total_perm _ h
  rw [hmap _ hn, hmap _ ((h.map _).nodup_iff.mp hn), hfl, hbl]
  exact h.map _

/-- The inputs list the same databases and the same builds. -/
structure Reordered (input input' : SvsCpuBudgetInput) : Prop where
  gucs : input.gucs = input'.gucs
  dbs : input.dbs.Perm input'.dbs
  builds : input.builds.Perm input'.builds

theorem Reordered.clamped (h : Reordered input input') (hd : Distinct input) :
    (clamped input).Perm (clamped input') := by
  rw [cpu_soundness.clamped, cpu_soundness.clamped, ← h.gucs]
  refine clamped_perm hd.oids ?_ _
  rw [buildDbWorkingSet, buildDbWorkingSet, ← h.gucs]
  exact h.dbs.map _

/-- The sorts of the floors, and of the claims that any pass still has, have one outcome each. -/
structure SortsAlike (input : SvsCpuBudgetInput) : Prop where
  floors : ∀ working, working = buildDbWorkingSet input (ceiling input.gucs) →
    ∀ order : List Nat, order.Perm (range working.length) →
      order.Pairwise (fun i j => oidAt working i ≤ oidAt working j) → order = byDbOid working
  claims : ∀ active, active.Sublist (claimsOf input) → ∀ remainder order, order.Perm active →
    order.Pairwise (fun a b => leftoverBefore (fracNumerator active remainder) a b = true) →
      order = byLeftover active remainder

theorem Distinct.sortsAlike (h : Distinct input) : SortsAlike input where
  floors := by
    rintro working rfl order ho hs
    refine Perm.eq_of_pairwise (fun i j hi hj hij hji => ?_) hs (byDbOid_pairwise _)
      (ho.trans (byDbOid_perm _).symm)
    have hi := mem_range.mp (ho.mem_iff.mp hi)
    have hj := mem_range.mp ((byDbOid_perm _).mem_iff.mp hj)
    exact oidAt_inj h.oids hi hj (Nat.le_antisymm hij hji)
  claims := fun _ ha _ _ ho hs => sorted_unique (h.keys.sublist (ha.map key)) ho
    (byLeftover_perm _ _) hs (byLeftover_pairwise _ _)

/-- Each database and each build gets the same whatever the order of the input and however the
sorts work. -/
theorem grants_do_not_depend_on_the_input_order {input input' : SvsCpuBudgetInput}
    (h : Reordered input input') (hd : Distinct input) :
    (svsComputeCpuGrants input).dbGrants.Perm (svsComputeCpuGrants input').dbGrants ∧
      (svsComputeCpuGrants input).buildGrants.Perm (svsComputeCpuGrants input').buildGrants ∧
      SortsAlike input := by
  have hw := h.clamped hd
  have hr : remainderOf input = remainderOf input' := by
    rw [remainderOf, remainderOf, h.gucs, totalFloor, total_perm _ hw, totalFloor]
  have hd' : Distinct input' :=
    ⟨(h.dbs.map _).nodup_iff.mp hd.dbs, (h.builds.map _).nodup_iff.mp hd.builds,
      fun b hb => hd.pids b (h.builds.mem_iff.mpr hb)⟩
  have hk : (keyed input).Perm (keyed input') := ((hw.map _).append (h.builds.map _)).filter _
  obtain ⟨hdb, hbu⟩ := hd.grants (.refl _)
  obtain ⟨hdb', hbu'⟩ := hd'.grants hk
  rw [hdb, hdb', hbu, hbu', hr]
  exact ⟨hw.map _, h.builds.map _, hd.sortsAlike⟩

theorem two_databases_in_either_order :
    let dbs : List SvsDbCpuRequest := [⟨1, true, true, some 6, 4⟩, ⟨2, true, true, some 9, 6⟩]
    SortsAlike ⟨⟨4, 0, 0, 8⟩, dbs, [⟨1, 40, 3⟩, ⟨1, 41, 3⟩]⟩ :=
  (@grants_do_not_depend_on_the_input_order
    ⟨⟨4, 0, 0, 8⟩, [⟨1, true, true, some 6, 4⟩, ⟨2, true, true, some 9, 6⟩],
      [⟨1, 40, 3⟩, ⟨1, 41, 3⟩]⟩
    ⟨⟨4, 0, 0, 8⟩, [⟨2, true, true, some 9, 6⟩, ⟨1, true, true, some 6, 4⟩],
      [⟨1, 41, 3⟩, ⟨1, 40, 3⟩]⟩
    ⟨rfl, by decide, by decide⟩ ⟨by decide, by decide, by decide⟩).2.2

/-- A build with the pid 0 ties with its database for the one thread of the pool. -/
theorem a_build_without_a_pid_ties :
    let input : SvsCpuBudgetInput := ⟨⟨4, 0, 0, 1⟩, [⟨1, true, true, some 2, 0⟩], [⟨1, 0, 2⟩]⟩
    let claims := claimsOf input
    (input.dbs.map SvsDbCpuRequest.dbOid).Nodup ∧ (input.builds.map buildKey).Nodup ∧
      claims.reverse.Pairwise (fun a b => leftoverBefore (fracNumerator claims 1) a b = true) ∧
      grantAt (handOut (floorShare claims 1) 1 claims.reverse) (.build 0) = 1 ∧
      (svsComputeCpuGrants input).buildGrants = [⟨1, 0, 0⟩] :=
  ⟨by decide, by decide, by decide, by decide, by decide⟩

end svs_vamana.grant_order
