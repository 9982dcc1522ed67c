-- What the thread budget promises: the passes end, no value leaves its type, and the grants lie
-- between floors and asks and use the pool up.
import SvsVamana.CpuBudget

namespace svs_vamana.cpu_soundness

open slot_table cpu_budget SvsDbCpuWorking List

/-! ## What the calculator works on -/

def ceiling (gucs : SvsCpuGucs) : Nat :=
  svsSearchThreadsPerDbCeiling gucs.maxSearchThreadsPerDb gucs.maxParallelWorkers

/-- The databases with the floors that fit the pool. -/
def clamped (input : SvsCpuBudgetInput) : List SvsDbCpuWorking :=
  (clampFloorsToPool (buildDbWorkingSet input (ceiling input.gucs))
    (computeSearchPool input.gucs)).1

def claimsOf (input : SvsCpuBudgetInput) : List SvsCpuClaim :=
  dbClaims 0 (clamped input) ++ buildClaims 0 input.builds

def remainderOf (input : SvsCpuBudgetInput) : Nat :=
  computeSearchPool input.gucs - totalFloor (clamped input)

/-- A build request as it comes in. An ask that is not positive makes no claim, like one of 0. -/
structure BuildAsk where
  dbOid : Nat
  requestPid : Nat
  maintenanceNumThreads : Int
deriving DecidableEq, Repr

def BuildAsk.request (b : BuildAsk) : SvsBuildCpuRequest :=
  ⟨b.dbOid, b.requestPid, b.maintenanceNumThreads.toNat⟩

/-! ## The passes -/

/-- The `int32`s of each pass, `floorShare`, `settledAsk` and `distributed`, are no greater than
the remainder that they are taken from. -/
def PassesFit : Nat → List SvsCpuClaim → Nat → Prop
  | 0, _, _ => True
  | passes + 1, claims, remainder => Scarce claims remainder →
    (∀ c ∈ claims, floorShare claims remainder c ≤ remainder) ∧
      totalAsk (settledClaims claims remainder) ≤ remainder ∧
      total (floorShare claims remainder) claims ≤ remainder ∧
      PassesFit passes (activeClaims claims remainder)
        (remainder - totalAsk (settledClaims claims remainder))

theorem passesFit (passes : Nat) (claims : List SvsCpuClaim) (remainder : Nat) :
    PassesFit passes claims remainder := by
  induction passes generalizing claims remainder with
  | zero => trivial
  | succ passes ih =>
    intro hs
    have hall := total_floorShare_le hs.ne remainder
    refine ⟨fun c hc => ?_, settled_le hs.ne remainder, hall, ih _ _⟩
    obtain ⟨i, hi⟩ := mem_iff_getElem?.mp hc
    exact Nat.le_trans (le_total _ hi) hall

variable {claims : List SvsCpuClaim}

/-- More passes than claims change nothing. -/
theorem apportionPasses_eq {n m : Nat} (hn : claims.length ≤ n) (hm : claims.length ≤ m)
    (remainder : Nat) : apportionPasses n claims remainder = apportionPasses m claims remainder := by
  induction n generalizing m claims remainder with
  | zero =>
    obtain rfl := length_eq_zero_iff.mp (Nat.le_zero.mp hn)
    cases m <;> simp [apportionPasses]
  | succ n ih =>
    cases m with
    | zero =>
      obtain rfl := length_eq_zero_iff.mp (Nat.le_zero.mp hm)
      simp [apportionPasses]
    | succ m =>
      refine ite_congr rfl (fun _ => rfl) fun _ => ite_congr rfl (fun _ => rfl) fun _ => ?_
      refine ite_congr rfl (fun hse => ?_) fun _ => rfl
      rw [ih (Nat.le_of_lt_succ (Nat.lt_of_lt_of_le hse hn))
        (Nat.le_of_lt_succ (Nat.lt_of_lt_of_le hse hm))]

/-! ## The cuts -/

variable {working : List SvsDbCpuWorking}

def oidAt (working : List SvsDbCpuWorking) (i : Nat) : Nat :=
  (working[i]?.map dbOid).getD 0

theorem oidAt_inj (hn : (working.map dbOid).Nodup) {i j : Nat}
    (hi : i < working.length) (hj : j < working.length) (h : oidAt working i = oidAt working j) :
    i = j := by
  refine (getElem?_inj (by simpa using hi) hn).mp ?_
  simpa [oidAt, hi, hj] using h

theorem byDbOid_pairwise (working : List SvsDbCpuWorking) :
    (byDbOid working).Pairwise fun i j => oidAt working i ≤ oidAt working j := by
  have : Std.Total fun i j => oidAt working i ≤ oidAt working j := ⟨fun _ _ => Nat.le_total _ _⟩
  have : IsTrans Nat fun i j => oidAt working i ≤ oidAt working j :=
    ⟨fun _ _ _ => Nat.le_trans⟩
  exact pairwise_insertionSort _ _

variable {k : Nat}

/-- In an ascending order without repetition, what comes before `k` is what is below it. -/
theorem total_takeWhile_ne (f key : Nat → Nat) {order : List Nat} (hk : k ∈ order)
    (hs : order.Pairwise fun i j => key i ≤ key j) (hinj : ∀ i ∈ order, key i = key k → i = k) :
    total f (order.takeWhile (· ≠ k)) =
      total (fun i => if key i < key k then f i else 0) order := by
  induction order with
  | nil => rfl
  | cons i order ih =>
    obtain ⟨hi, hr⟩ := pairwise_cons.mp hs
    by_cases hik : i = k
    · subst hik
      have hz : total (fun j => if key j < key i then f j else 0) order = 0 :=
        total_eq_zero.mpr fun j hj => if_neg (Nat.not_lt.mpr (hi j hj))
      simp [hz]
    · have hmem := (mem_cons.mp hk).resolve_left (Ne.symm hik)
      have hlt : key i < key k :=
        Nat.lt_of_le_of_ne (hi k hmem) fun h => hik (hinj i mem_cons_self h)
      rw [total_cons, if_pos hlt, ← ih hmem hr fun j hj => hinj j (mem_cons_of_mem i hj)]
      simp [hik]

/-- The floors of the databases with a lower `dbOid` than a given one. -/
def floorsBelow (working : List SvsDbCpuWorking) (dbOid : Nat) : Nat :=
  total (fun v => if v.dbOid < dbOid then v.floor else 0) working

variable {w : SvsDbCpuWorking}

theorem floorsBefore_byDbOid (hn : (working.map dbOid).Nodup) (hk : working[k]? = some w) :
    floorsBefore working (byDbOid working) k = floorsBelow working w.dbOid := by
  have hlt := (List.getElem?_eq_some_iff.mp hk).1
  have hw : oidAt working k = w.dbOid := by simp [oidAt, hk]
  have hmem : ∀ {i}, i ∈ byDbOid working ↔ i < working.length := fun {i} => by
    rw [(byDbOid_perm working).mem_iff, mem_range]
  have hinj : ∀ i ∈ byDbOid working, oidAt working i = oidAt working k → i = k :=
    fun i hi h => oidAt_inj hn (hmem.mp hi) hlt h
  rw [floorsBefore, total_takeWhile_ne _ _ (hmem.mpr hlt) (byDbOid_pairwise working) hinj,
    total_perm _ (byDbOid_perm working), floorsBelow, ← total_range_getD]
  refine total_congr fun i hi => ?_
  have hil := mem_range.mp hi
  rw [hw]
  simp [oidAt, floorAt, hil]

/-- Each floor gives up what the floors below it have left of the excess. -/
theorem clamped_floor (hn : (working.map dbOid).Nodup) (hk : working[k]? = some w) (pool : Nat) :
    (clampFloorsToPool working pool).1[k]? =
      some { w with floor :=
        w.floor - (totalFloor working - pool - floorsBelow working w.dbOid) } := by
  rw [clamped_get, hk, floorsBefore_byDbOid hn hk]
  rfl

/-- A floor is cut only when nothing is left of the floors below it. -/
theorem cut_in_order (hn : (working.map dbOid).Nodup) {i j : Nat}
    {v : SvsDbCpuWorking} (hi : working[i]? = some v) (hj : working[j]? = some w)
    (hlt : v.dbOid < w.dbOid) {pool : Nat}
    (hcut : floorAt (clampFloorsToPool working pool).1 j < floorAt working j) :
    floorAt (clampFloorsToPool working pool).1 i = 0 := by
  have hv := le_total (fun u => if u.dbOid = v.dbOid then u.floor else 0) hi
  have hm : total (fun u => (if u.dbOid < v.dbOid then u.floor else 0) +
      if u.dbOid = v.dbOid then u.floor else 0) working ≤ floorsBelow working w.dbOid := by
    refine total_mono fun u _ => ?_
    split_ifs <;> omega
  rw [total_add] at hm
  simp only [floorAt, clamped_floor hn hi, clamped_floor hn hj, hj, Option.map_some,
    Option.getD_some] at hcut ⊢
  simp only [if_true] at hv
  unfold floorsBelow at *
  omega

/-! ## The promise -/

/-- The databases are distinct, and the settings are `int32`s. -/
structure Valid (input : SvsCpuBudgetInput) : Prop where
  distinct : (input.dbs.map SvsDbCpuRequest.dbOid).Nodup
  workers : input.gucs.maxParallelWorkers < 2147483648
  perDb : input.gucs.maxSearchThreadsPerDb < 2147483648

def WithinDesired (gucs : SvsCpuGucs) (g : SvsDbCpuGrant) : Prop :=
  g.reservedSearchThreads ≤ g.grantedSearchThreads ∧
    g.grantedSearchThreads ≤ g.desiredSearchThreads ∧ g.desiredSearchThreads ≤ ceiling gucs

/-- The asks and the grants of the builds apart, what the calculator promises. Every `int32`
that it computes is a setting, an ask, or at most the pool or the ceiling. -/
structure Sound (input : SvsCpuBudgetInput) : Prop where
  ends : ∀ n ≥ (claimsOf input).length, apportionPasses n (claimsOf input) (remainderOf input) =
    apportionRemainder (claimsOf input) (remainderOf input)
  passes : PassesFit (claimsOf input).length (claimsOf input) (remainderOf input)
  fits : totalFloor (clamped input) ≤ computeSearchPool input.gucs ∧
    computeSearchPool input.gucs < 2147483648 ∧ ceiling input.gucs < 2147483648
  dbs : ∀ g ∈ (svsComputeCpuGrants input).dbGrants, WithinDesired input.gucs g
  total : total SvsDbCpuGrant.grantedSearchThreads (svsComputeCpuGrants input).dbGrants +
    total SvsBuildCpuGrant.grantedThreads (svsComputeCpuGrants input).buildGrants =
      min (computeSearchPool input.gucs) (demand input)
  cuts : ∀ i j a b, input.dbs[i]? = some a → input.dbs[j]? = some b → a.dbOid < b.dbOid →
    floorAt (clamped input) j < floorAt (buildDbWorkingSet input (ceiling input.gucs)) j →
      floorAt (clamped input) i = 0

variable {input : SvsCpuBudgetInput}

theorem desired_le (input : SvsCpuBudgetInput) : ∀ w ∈ clamped input,
    w.desired ≤ ceiling input.gucs := by
  intro w hw
  have hmem : w.desired ∈ (clamped input).map desired := mem_map_of_mem hw
  rw [clamped, map_clamped fun _ _ => rfl] at hmem
  obtain ⟨v, hv, hd⟩ := mem_map.mp hmem
  obtain ⟨req, -, rfl⟩ := mem_map.mp hv
  rw [← hd]
  unfold computeEffectiveDesired
  split
  · exact Nat.zero_le _
  · exact Nat.min_le_right _ _

theorem dbGrants_withinDesired (input : SvsCpuBudgetInput) :
    ∀ g ∈ (svsComputeCpuGrants input).dbGrants, WithinDesired input.gucs g := by
  intro g hg
  obtain ⟨i, hi, rfl⟩ := mem_mapIdx.mp hg
  have hw := getElem_mem hi
  have hask := askAt_db (getElem?_eq_getElem hi) input.builds
  have hle := grantAt_apportionPasses_le (remainderOf input)
    (Nat.le_refl (claimsOf input).length) (.db i)
  have hfl := floor_le_desired input (ceiling input.gucs) (computeSearchPool input.gucs) _ hw
  refine ⟨Nat.le_add_right _ _, ?_, desired_le input _ hw⟩
  exact Nat.add_le_of_le_sub' hfl (Nat.le_trans hle (Nat.le_of_eq hask))

theorem sound (h : Valid input) : Sound input where
  ends := fun n hn => apportionPasses_eq hn (Nat.le_refl _) _
  passes := passesFit _ _ _
  fits := by
    refine ⟨?_, Nat.lt_of_le_of_lt (Nat.min_le_left _ _) h.workers, ?_⟩
    · rw [clamped, totalFloor_clamped]
      exact Nat.min_le_right _ _
    · unfold ceiling svsSearchThreadsPerDbCeiling resolveOrFallback
      split
      · exact h.workers
      · exact h.perDb
  dbs := dbGrants_withinDesired input
  total := total_granted input
  cuts := by
    intro i j a b hi hj hlt hcut
    have hn : ((buildDbWorkingSet input (ceiling input.gucs)).map dbOid).Nodup := by
      simpa [buildDbWorkingSet, Function.comp_def] using h.distinct
    have hget : ∀ {k req}, input.dbs[k]? = some req →
        (buildDbWorkingSet input (ceiling input.gucs))[k]? = some _ := fun {k req} hk => by
      rw [buildDbWorkingSet, getElem?_map, hk]
      rfl
    exact cut_in_order hn (hget hi) (hget hj) hlt hcut

end svs_vamana.cpu_soundness
