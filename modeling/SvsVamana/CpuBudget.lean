-- The thread budget of svs_cpu_budget.c: the pool goes to the reserved floors of the databases
-- first, and what remains to their unmet demand and to the pending builds.
import SvsVamana.Lib.SlotTable
import Mathlib.Data.List.Sort

namespace svs_vamana.cpu_budget

open slot_table List

/-! ## Requests and grants -/

structure SvsCpuGucs where
  searchNumThreadsDefault : Nat
  maxSearchThreadsPerDb : Nat
  maxTotalSearchThreads : Nat
  maxParallelWorkers : Nat
deriving DecidableEq, Repr

/-- One enabled database. No thread count (-1 in the source) follows the default. -/
structure SvsDbCpuRequest where
  dbOid : Nat
  live : Bool
  hasIndexes : Bool
  searchNumThreads : Option Nat
  searchThreadsReserved : Nat
deriving DecidableEq, Repr

structure SvsBuildCpuRequest where
  dbOid : Nat
  requestPid : Nat
  maintenanceNumThreads : Nat
deriving DecidableEq, Repr

structure SvsCpuBudgetInput where
  gucs : SvsCpuGucs
  dbs : List SvsDbCpuRequest
  builds : List SvsBuildCpuRequest
deriving DecidableEq, Repr

structure SvsDbCpuGrant where
  dbOid : Nat
  desiredSearchThreads : Nat
  grantedSearchThreads : Nat
  reservedSearchThreads : Nat
deriving DecidableEq, Repr

structure SvsBuildCpuGrant where
  dbOid : Nat
  requestPid : Nat
  grantedThreads : Nat
deriving DecidableEq, Repr

structure SvsCpuBudget where
  dbGrants : List SvsDbCpuGrant
  buildGrants : List SvsBuildCpuGrant
  reservedFloorsExceedPool : Bool
deriving DecidableEq, Repr

/-! ## Demand and floors -/

/-- Zero stands for "not configured". -/
def resolveOrFallback (configured fallback : Nat) : Nat :=
  if configured = 0 then fallback else configured

/-- The threads that all claims share. -/
def computeSearchPool (gucs : SvsCpuGucs) : Nat :=
  min gucs.maxParallelWorkers (resolveOrFallback gucs.maxTotalSearchThreads gucs.maxParallelWorkers)

def svsSearchThreadsPerDbCeiling (maxSearchThreadsPerDb maxParallelWorkers : Nat) : Nat :=
  resolveOrFallback maxSearchThreadsPerDb maxParallelWorkers

def computeEffectiveDesired (req : SvsDbCpuRequest) (gucs : SvsCpuGucs) (perDbCeiling : Nat) :
    Nat :=
  if !req.live || !req.hasIndexes then 0 else
  let requested :=
    req.searchNumThreads.getD (resolveOrFallback gucs.searchNumThreadsDefault 1)
  min (max requested 1) perDbCeiling

structure SvsDbCpuWorking where
  dbOid : Nat
  desired : Nat
  floor : Nat
deriving DecidableEq, Repr

open SvsDbCpuWorking

def buildDbWorkingSet (input : SvsCpuBudgetInput) (perDbCeiling : Nat) : List SvsDbCpuWorking :=
  input.dbs.map fun req =>
    let desired := computeEffectiveDesired req input.gucs perDbCeiling
    { dbOid := req.dbOid, desired,
      floor := if req.live then min req.searchThreadsReserved desired else 0 }

def totalFloor (working : List SvsDbCpuWorking) : Nat := total floor working

/-- Cuts floors in the order of the given places until no excess is left. -/
def cutFloors : List Nat → Nat → List SvsDbCpuWorking → List SvsDbCpuWorking
  | [], _, working => working
  | i :: order, excess, working =>
    if excess = 0 then working else
    match working[i]? with
    | none => cutFloors order excess working
    | some w =>
      let cut := min w.floor excess
      cutFloors order (excess - cut) (working.set i { w with floor := w.floor - cut })

/-- The places of the working set, lowest `dbOid` first. -/
def byDbOid (working : List SvsDbCpuWorking) : List Nat :=
  (range working.length).insertionSort fun i j =>
    (working[i]?.map dbOid).getD 0 ≤ (working[j]?.map dbOid).getD 0

/-- The floors that fit the pool, and whether they had to be cut. -/
def clampFloorsToPool (working : List SvsDbCpuWorking) (pool : Nat) :
    List SvsDbCpuWorking × Bool :=
  if totalFloor working ≤ pool then (working, false)
  else (cutFloors (byDbOid working) (totalFloor working - pool) working, true)

/-! ## Claims on the remainder -/

/-- Where a claim's grant goes: the elastic part of a database, or a build. -/
inductive GrantOut
  | db (i : Nat)
  | build (i : Nat)
deriving DecidableEq, Repr

structure SvsCpuClaim where
  dbOid : Nat
  requestPid : Nat
  weight : Nat
  ask : Nat
  grantOut : GrantOut
deriving DecidableEq, Repr

/-- The unmet search demand of the databases from place `i` on. -/
def dbClaims : Nat → List SvsDbCpuWorking → List SvsCpuClaim
  | _, [] => []
  | i, w :: ws =>
    let ask := w.desired - w.floor
    if ask = 0 then dbClaims (i + 1) ws
    else ⟨w.dbOid, 0, w.floor, ask, .db i⟩ :: dbClaims (i + 1) ws

/-- The claims of the builds from place `i` on. A build has no floor, so it weighs nothing. -/
def buildClaims : Nat → List SvsBuildCpuRequest → List SvsCpuClaim
  | _, [] => []
  | i, b :: bs =>
    if b.maintenanceNumThreads = 0 then buildClaims (i + 1) bs
    else ⟨b.dbOid, b.requestPid, 0, b.maintenanceNumThreads, .build i⟩ :: buildClaims (i + 1) bs

def totalAsk (claims : List SvsCpuClaim) : Nat := total (fun c => c.ask) claims

def totalWeight (claims : List SvsCpuClaim) : Nat := total (fun c => c.weight) claims

/-- The weight of a claim, or 1 for all where none has any. -/
def weightForShare (claims : List SvsCpuClaim) (c : SvsCpuClaim) : Nat :=
  if totalWeight claims > 0 then c.weight else 1

def shareDenom (claims : List SvsCpuClaim) : Nat :=
  if totalWeight claims > 0 then totalWeight claims else claims.length

def floorShare (claims : List SvsCpuClaim) (remainder : Nat) (c : SvsCpuClaim) : Nat :=
  remainder * weightForShare claims c / shareDenom claims

def fracNumerator (claims : List SvsCpuClaim) (remainder : Nat) (c : SvsCpuClaim) : Nat :=
  remainder * weightForShare claims c % shareDenom claims

/-- `CompareClaimsForLeftover`: the biggest fractional loss first, then the higher weight, then
the lowest `dbOid`, then the lowest `requestPid`. -/
def leftoverBefore (frac : SvsCpuClaim → Nat) (a b : SvsCpuClaim) : Bool :=
  if frac a ≠ frac b then decide (frac a > frac b)
  else if a.weight ≠ b.weight then decide (a.weight > b.weight)
  else if a.dbOid ≠ b.dbOid then decide (a.dbOid < b.dbOid)
  else decide (a.requestPid ≤ b.requestPid)

/-- Hands out the shares of claims none of which is settled, one thread more to the first
`leftover` of them. -/
def handOut (share : SvsCpuClaim → Nat) : Nat → List SvsCpuClaim → List (GrantOut × Nat)
  | _, [] => []
  | leftover, c :: cs =>
    (c.grantOut, share c + if leftover > 0 then 1 else 0) :: handOut share (leftover - 1) cs

/-- The passes of `ApportionRemainder`. A pass grants every ask if there is enough; else it settles
the claims whose share covers their ask; else it hands out the shares. What stands in no grant gets
nothing. -/
def apportionPasses : Nat → List SvsCpuClaim → Nat → List (GrantOut × Nat)
  | 0, _, _ => []
  | passes + 1, claims, remainder =>
    if claims = [] ∨ remainder = 0 then [] else
    if remainder ≥ totalAsk claims then claims.map fun c => (c.grantOut, c.ask) else
    let share := floorShare claims remainder
    let settled := claims.filter fun c => share c ≥ c.ask
    let active := claims.filter fun c => !decide (share c ≥ c.ask)
    if active.length < claims.length then
      settled.map (fun c => (c.grantOut, c.ask)) ++
        apportionPasses passes active (remainder - totalAsk settled)
    else
      handOut share (remainder - total share claims)
        (claims.insertionSort fun a b => leftoverBefore (fracNumerator claims remainder) a b)

def apportionRemainder (claims : List SvsCpuClaim) (remainder : Nat) : List (GrantOut × Nat) :=
  apportionPasses claims.length claims remainder

/-- What the grants add to one place. -/
def grantAt (grants : List (GrantOut × Nat)) (out : GrantOut) : Nat :=
  total (fun g => if g.1 = out then g.2 else 0) grants

/-! ## The calculator -/

def svsComputeCpuGrants (input : SvsCpuBudgetInput) : SvsCpuBudget :=
  let pool := computeSearchPool input.gucs
  let perDbCeiling :=
    svsSearchThreadsPerDbCeiling input.gucs.maxSearchThreadsPerDb input.gucs.maxParallelWorkers
  let (dbWorking, exceed) := clampFloorsToPool (buildDbWorkingSet input perDbCeiling) pool
  let grants := apportionRemainder (dbClaims 0 dbWorking ++ buildClaims 0 input.builds)
    (pool - totalFloor dbWorking)
  { dbGrants := dbWorking.mapIdx fun i w =>
      { dbOid := w.dbOid
        desiredSearchThreads := w.desired
        grantedSearchThreads := w.floor + grantAt grants (.db i)
        reservedSearchThreads := w.floor }
    buildGrants := input.builds.mapIdx fun i b =>
      { dbOid := b.dbOid, requestPid := b.requestPid, grantedThreads := grantAt grants (.build i) }
    reservedFloorsExceedPool := exceed }

/-! ## Shares -/

theorem total_weightForShare (claims : List SvsCpuClaim) :
    total (weightForShare claims) claims = shareDenom claims := by
  unfold shareDenom
  by_cases h : totalWeight claims > 0
  · rw [if_pos h]
    exact total_congr fun c _ => if_pos h
  · rw [if_neg h, ← total_one claims]
    exact total_congr fun c _ => if_neg h

variable {claims : List SvsCpuClaim}

theorem shareDenom_pos (h : claims ≠ []) : 0 < shareDenom claims := by
  unfold shareDenom
  split
  · assumption
  · exact length_pos_iff.mpr h

theorem shares_and_fractions (claims : List SvsCpuClaim) (remainder : Nat) :
    shareDenom claims * total (floorShare claims remainder) claims +
      total (fracNumerator claims remainder) claims = shareDenom claims * remainder := by
  have hdiv := total_div_mod remainder (shareDenom claims) (weightForShare claims) claims
  rw [total_weightForShare, Nat.mul_comm remainder] at hdiv
  exact hdiv

theorem total_floorShare_le (h : claims ≠ []) (remainder : Nat) :
    total (floorShare claims remainder) claims ≤ remainder := by
  have hs := shares_and_fractions claims remainder
  refine Nat.le_of_mul_le_mul_left ?_ (shareDenom_pos h)
  omega

theorem leftover_le (h : claims ≠ []) (remainder : Nat) :
    remainder - total (floorShare claims remainder) claims ≤ claims.length := by
  have hs := shares_and_fractions claims remainder
  have hmod : total (fracNumerator claims remainder) claims + claims.length ≤
      shareDenom claims * claims.length :=
    total_mod_le remainder (shareDenom_pos h) (weightForShare claims) claims
  refine Nat.le_of_mul_le_mul_left ?_ (shareDenom_pos h)
  rw [Nat.mul_sub]
  omega

/-! ## What the apportionment hands out -/

def asks (claims : List SvsCpuClaim) : List (GrantOut × Nat) :=
  claims.map fun c => (c.grantOut, c.ask)

def settledClaims (claims : List SvsCpuClaim) (remainder : Nat) : List SvsCpuClaim :=
  claims.filter fun c => floorShare claims remainder c ≥ c.ask

def activeClaims (claims : List SvsCpuClaim) (remainder : Nat) : List SvsCpuClaim :=
  claims.filter fun c => !decide (floorShare claims remainder c ≥ c.ask)

def byLeftover (claims : List SvsCpuClaim) (remainder : Nat) : List SvsCpuClaim :=
  claims.insertionSort fun a b => leftoverBefore (fracNumerator claims remainder) a b

def leftover (claims : List SvsCpuClaim) (remainder : Nat) : Nat :=
  remainder - total (floorShare claims remainder) claims

/-- There is something to hand out, and less than is asked for. -/
structure Scarce (claims : List SvsCpuClaim) (remainder : Nat) : Prop where
  ne : claims ≠ []
  pos : 0 < remainder
  lt : remainder < totalAsk claims

variable {passes : Nat}

/-- The rule for the passes: the ways in which they end, and a pass that settles claims. -/
theorem apportionPasses_induction {P : List SvsCpuClaim → Nat → List (GrantOut × Nat) → Prop}
    (nothing : ∀ {claims remainder}, claims = [] ∨ remainder = 0 → P claims remainder [])
    (enough : ∀ {claims remainder}, claims ≠ [] → totalAsk claims ≤ remainder →
      P claims remainder (asks claims))
    (settle : ∀ {claims remainder grants}, Scarce claims remainder →
      (activeClaims claims remainder).length < claims.length →
      P (activeClaims claims remainder) (remainder - totalAsk (settledClaims claims remainder))
        grants → P claims remainder (asks (settledClaims claims remainder) ++ grants))
    (share : ∀ {claims remainder}, Scarce claims remainder →
      (∀ c ∈ claims, floorShare claims remainder c < c.ask) →
      P claims remainder (handOut (floorShare claims remainder) (leftover claims remainder)
        (byLeftover claims remainder)))
    (remainder : Nat) (hp : claims.length ≤ passes) :
    P claims remainder (apportionPasses passes claims remainder) := by
  induction passes generalizing claims remainder with
  | zero =>
    obtain rfl := length_eq_zero_iff.mp (Nat.le_zero.mp hp)
    exact nothing (.inl rfl)
  | succ passes ih =>
    unfold apportionPasses
    split
    · next hno => exact nothing hno
    next hgo =>
    obtain ⟨hne, hpos⟩ := not_or.mp hgo
    split
    · next hall => exact enough hne hall
    next hlt =>
    have hs : Scarce claims remainder := ⟨hne, Nat.pos_of_ne_zero hpos, Nat.lt_of_not_le hlt⟩
    dsimp only
    split
    · next hse => exact settle hs hse (ih _ (Nat.le_of_lt_succ (Nat.lt_of_lt_of_le hse hp)))
    next hn =>
    refine share hs fun c hc => ?_
    have hlen := Nat.le_antisymm (length_filter_le _ _) (Nat.le_of_not_lt hn)
    simpa using length_filter_eq_length_iff.mp hlen c hc

theorem total_handOut (share : SvsCpuClaim → Nat) (leftover : Nat) (claims : List SvsCpuClaim) :
    total Prod.snd (handOut share leftover claims) =
      total share claims + min leftover claims.length := by
  induction claims generalizing leftover with
  | nil => simp [handOut]
  | cons c cs ih =>
    simp only [handOut, total_cons, ih, length_cons]
    split <;> omega

def askAt (claims : List SvsCpuClaim) (out : GrantOut) : Nat :=
  total (fun c => if c.grantOut = out then c.ask else 0) claims

theorem grantAt_handOut_le {share : SvsCpuClaim → Nat} (h : ∀ c ∈ claims, share c < c.ask)
    (leftover : Nat) (out : GrantOut) :
    grantAt (handOut share leftover claims) out ≤ askAt claims out := by
  unfold grantAt askAt
  induction claims generalizing leftover with
  | nil => simp [handOut]
  | cons c cs ih =>
    have hr := ih (fun d hd => h d (mem_cons_of_mem c hd)) (leftover - 1)
    have hs := h c mem_cons_self
    simp only [handOut, total_cons]
    split
    · split <;> omega
    · omega

theorem grantAt_append (g g' : List (GrantOut × Nat)) (out : GrantOut) :
    grantAt (g ++ g') out = grantAt g out + grantAt g' out := total_append _ g g'

section

variable (claims : List SvsCpuClaim)

theorem grantAt_asks (out : GrantOut) :
    grantAt (asks claims) out = askAt claims out := total_map _ _ claims

theorem total_asks : total Prod.snd (asks claims) = totalAsk claims :=
  total_map _ _ claims

theorem byLeftover_perm (remainder : Nat) :
    (byLeftover claims remainder).Perm claims := perm_insertionSort _ _

end

theorem total_settled_active (f : SvsCpuClaim → Nat) (claims : List SvsCpuClaim) (remainder : Nat) :
    total f (settledClaims claims remainder) + total f (activeClaims claims remainder) =
      total f claims :=
  total_filter_add f (fun c => decide (floorShare claims remainder c ≥ c.ask)) claims

theorem settled_le (h : claims ≠ []) (remainder : Nat) :
    totalAsk (settledClaims claims remainder) ≤ remainder := by
  calc totalAsk (settledClaims claims remainder)
      ≤ total (floorShare claims remainder) (settledClaims claims remainder) := by
        refine total_mono fun c hc => ?_
        simpa using (mem_filter.mp hc).2
    _ ≤ total (floorShare claims remainder) claims := by
        rw [← total_settled_active _ claims remainder]
        exact Nat.le_add_right _ _
    _ ≤ remainder := total_floorShare_le h remainder

/-- As many passes as claims hand out the whole remainder, or all that is asked for. -/
theorem total_apportionPasses (remainder : Nat) (hp : claims.length ≤ passes) :
    total Prod.snd (apportionPasses passes claims remainder) = min remainder (totalAsk claims) := by
  refine apportionPasses_induction (P := fun claims remainder grants =>
    total Prod.snd grants = min remainder (totalAsk claims)) ?_ ?_ ?_ ?_ remainder hp
  · rintro claims remainder (rfl | rfl)
    · simp [totalAsk]
    · simp
  · intro claims remainder _ hall
    rw [total_asks]
    omega
  · intro claims remainder grants hs _ ih
    have hsp := total_settled_active (fun c => c.ask) claims remainder
    have hle := settled_le hs.ne remainder
    rw [total_append, total_asks, ih]
    unfold totalAsk at *
    omega
  · intro claims remainder hs _
    rw [total_handOut, total_perm _ (byLeftover_perm claims remainder),
      (byLeftover_perm claims remainder).length_eq]
    have hle := total_floorShare_le hs.ne remainder
    have hl := leftover_le hs.ne remainder
    have hlt := hs.lt
    unfold leftover
    omega

theorem grantAt_apportionPasses_le (remainder : Nat) (hp : claims.length ≤ passes)
    (out : GrantOut) :
    grantAt (apportionPasses passes claims remainder) out ≤ askAt claims out := by
  refine apportionPasses_induction (P := fun claims _ grants =>
    grantAt grants out ≤ askAt claims out) ?_ ?_ ?_ ?_ remainder hp
  · exact fun _ => Nat.zero_le _
  · exact fun _ _ => Nat.le_of_eq (grantAt_asks _ out)
  · intro claims remainder grants _ _ ih
    have hs := total_settled_active (fun c => if c.grantOut = out then c.ask else 0) claims remainder
    rw [grantAt_append, grantAt_asks]
    unfold askAt at *
    omega
  · intro claims remainder _ hall
    have hp := byLeftover_perm claims remainder
    calc _ ≤ askAt (byLeftover claims remainder) out :=
          grantAt_handOut_le (fun c hc => hall c (hp.mem_iff.mp hc)) _ out
      _ = askAt claims out := total_perm _ hp

/-! ## Floors -/

def floorAt (working : List SvsDbCpuWorking) (i : Nat) : Nat :=
  (working[i]?.map floor).getD 0

variable {order : List Nat}

theorem totalFloor_cutFloors (hn : order.Nodup) (excess : Nat) (working : List SvsDbCpuWorking) :
    totalFloor (cutFloors order excess working) =
      totalFloor working - min excess (total (floorAt working) order) := by
  induction order generalizing excess working with
  | nil => simp [cutFloors]
  | cons i order ih =>
    obtain ⟨hi, hr⟩ := nodup_cons.mp hn
    unfold cutFloors
    split
    · next hz => simp [hz]
    split
    · next hno =>
      rw [ih hr]
      simp [floorAt, hno]
    · next w hw =>
      have hset := total_set floor { w with floor := w.floor - min w.floor excess } hw
      have hs : total (floorAt (working.set i { w with floor := w.floor - min w.floor excess }))
          order = total (floorAt working) order := by
        refine total_congr fun j hj => ?_
        have hij : i ≠ j := fun h => hi (h ▸ hj)
        rw [floorAt, getElem?_set_ne hij, floorAt]
      have hle := le_total floor hw
      have hfl : floorAt working i = w.floor := by simp [floorAt, hw]
      dsimp only at hset ⊢
      rw [ih hr, hs, total_cons, hfl]
      unfold totalFloor at *
      omega

theorem total_range_getD (f : SvsDbCpuWorking → Nat) (working : List SvsDbCpuWorking) :
    total (fun i => (working[i]?.map f).getD 0) (range working.length) = total f working := by
  induction working with
  | nil => rfl
  | cons w ws ih =>
    rw [length_cons, range_succ_eq_map, total_cons, total_map, total_cons, ← ih]
    simp

theorem byDbOid_perm (working : List SvsDbCpuWorking) :
    (byDbOid working).Perm (range working.length) := perm_insertionSort _ _

theorem totalFloor_clamped (working : List SvsDbCpuWorking) (pool : Nat) :
    totalFloor (clampFloorsToPool working pool).1 = min (totalFloor working) pool := by
  unfold clampFloorsToPool
  split
  · rename_i hf
    exact (Nat.min_eq_left hf).symm
  rename_i ho
  have hn : (byDbOid working).Nodup :=
    (byDbOid_perm working).nodup_iff.mpr nodup_range
  rw [totalFloor_cutFloors hn, total_perm _ (byDbOid_perm working)]
  unfold floorAt
  rw [total_range_getD]
  unfold totalFloor at *
  omega

/-- The floors that are cut before the one in place `i`. -/
def floorsBefore (working : List SvsDbCpuWorking) (order : List Nat) (i : Nat) : Nat :=
  total (floorAt working) (order.takeWhile (· ≠ i))

theorem cutFloors_get (hn : order.Nodup) (excess : Nat) (working : List SvsDbCpuWorking) (k : Nat) :
    (cutFloors order excess working)[k]? = working[k]?.map fun w =>
      { w with floor := w.floor -
          if k ∈ order then excess - floorsBefore working order k else 0 } := by
  induction order generalizing excess working with
  | nil => simp [cutFloors]
  | cons i order ih =>
    obtain ⟨hi, hr⟩ := nodup_cons.mp hn
    have hco : k ≠ i → floorsBefore working (i :: order) k =
        floorAt working i + floorsBefore working order k := by
      intro hk
      simp [floorsBefore, hk.symm]
    unfold cutFloors
    split
    · next hz => simp [hz]
    split
    · next hno =>
      rw [ih hr]
      cases h : working[k]? with
      | none => rfl
      | some w =>
        have hk : k ≠ i := by
          rintro rfl
          rw [hno] at h
          cases h
        simp [hk, hco hk, floorAt, hno]
    · next w hw =>
      rw [ih hr]
      by_cases hk : k = i
      · subst hk
        obtain ⟨hlt, rfl⟩ := List.getElem?_eq_some_iff.mp hw
        simp only [getElem?_set_self hlt, hw, Option.map_some, hi, if_false, Nat.sub_zero]
        have hz : floorsBefore working (k :: order) k = 0 := by simp [floorsBefore]
        rw [if_pos mem_cons_self, hz]
        congr 2
        omega
      · generalize hset : working.set i { w with floor := w.floor - min w.floor excess } = cut
        have hsame : ∀ j, j ≠ i → cut[j]? = working[j]? := by
          intro j hj
          rw [← hset, getElem?_set_ne hj.symm]
        have hbe : floorsBefore cut order k = floorsBefore working order k := by
          refine total_congr fun j hj => ?_
          rw [floorAt, hsame j fun h => hi (h ▸ (takeWhile_sublist _).subset hj), floorAt]
        have hfl : floorAt working i = w.floor := by simp [floorAt, hw]
        rw [hsame k hk]
        simp only [mem_cons, hk, false_or, hco hk, hfl, hbe]
        congr 1
        funext v
        congr 2
        split
        · omega
        · rfl

theorem clamped_get (working : List SvsDbCpuWorking) (pool k : Nat) :
    (clampFloorsToPool working pool).1[k]? = working[k]?.map fun w =>
      { w with floor := w.floor -
          (totalFloor working - pool - floorsBefore working (byDbOid working) k) } := by
  unfold clampFloorsToPool
  split
  · next hf =>
    simp [Nat.sub_eq_zero_of_le hf]
  have hn := (byDbOid_perm working).nodup_iff.mpr nodup_range
  rw [cutFloors_get hn]
  cases h : working[k]? with
  | none => rfl
  | some w =>
    have hk : k ∈ byDbOid working := by
      rw [(byDbOid_perm working).mem_iff, mem_range]
      exact (List.getElem?_eq_some_iff.mp h).1
    simp [hk]

theorem floor_le_desired (input : SvsCpuBudgetInput) (perDbCeiling pool : Nat) :
    ∀ w ∈ (clampFloorsToPool (buildDbWorkingSet input perDbCeiling) pool).1,
      w.floor ≤ w.desired := by
  intro w hw
  obtain ⟨k, hk⟩ := mem_iff_getElem?.mp hw
  rw [clamped_get, Option.map_eq_some_iff] at hk
  obtain ⟨v, hv, rfl⟩ := hk
  obtain ⟨req, -, rfl⟩ := mem_map.mp (mem_of_getElem? hv)
  refine Nat.le_trans (Nat.sub_le _ _) ?_
  split
  · exact Nat.min_le_right _ _
  · exact Nat.zero_le _

theorem map_clamped {β : Type} {f : SvsDbCpuWorking → β}
    (hf : ∀ w n, f { w with floor := n } = f w) (working : List SvsDbCpuWorking) (pool : Nat) :
    (clampFloorsToPool working pool).1.map f = working.map f := by
  refine ext_getElem? fun k => ?_
  rw [getElem?_map, getElem?_map, clamped_get, Option.map_map]
  cases working[k]? with
  | none => rfl
  | some w => exact congrArg some (hf w _)

theorem total_desired_clamped (working : List SvsDbCpuWorking) (pool : Nat) :
    total desired (clampFloorsToPool working pool).1 = total desired working := by
  have hmap := map_clamped (f := desired) (fun _ _ => rfl) working pool
  have ht : ∀ l : List SvsDbCpuWorking,
      total desired l = total id (l.map desired) :=
    fun l => (total_map id desired l).symm
  rw [ht, ht, hmap]

/-! ## Asks -/

/-- The claim of the database in a place, which counts if it asks for something. -/
def dbClaim (x : SvsDbCpuWorking × Nat) : SvsCpuClaim :=
  ⟨x.1.dbOid, 0, x.1.floor, x.1.desired - x.1.floor, .db x.2⟩

def buildClaim (x : SvsBuildCpuRequest × Nat) : SvsCpuClaim :=
  ⟨x.1.dbOid, x.1.requestPid, 0, x.1.maintenanceNumThreads, .build x.2⟩

theorem dbClaims_eq (i : Nat) (working : List SvsDbCpuWorking) :
    dbClaims i working = ((working.zipIdx i).map dbClaim).filter fun c => c.ask ≠ 0 := by
  induction working generalizing i with
  | nil => rfl
  | cons w ws ih =>
    by_cases hz : w.desired - w.floor = 0
    · simp [dbClaims, dbClaim, hz, ih]
    · simp [dbClaims, dbClaim, hz, ih]

theorem buildClaims_eq (i : Nat) (builds : List SvsBuildCpuRequest) :
    buildClaims i builds = ((builds.zipIdx i).map buildClaim).filter fun c => c.ask ≠ 0 := by
  induction builds generalizing i with
  | nil => rfl
  | cons b bs ih =>
    by_cases hz : b.maintenanceNumThreads = 0
    · simp [buildClaims, buildClaim, hz, ih]
    · simp [buildClaims, buildClaim, hz, ih]

variable {f : SvsCpuClaim → Nat}

theorem total_claims (hf : ∀ c, c.ask = 0 → f c = 0)
    (claims : List SvsCpuClaim) : total f (claims.filter fun c => c.ask ≠ 0) = total f claims := by
  have hz : total f (claims.filter fun c => !decide (c.ask ≠ 0)) = 0 := by
    refine total_eq_zero.mpr fun c hc => hf c ?_
    simpa using (mem_filter.mp hc).2
  rw [← total_filter_add f (fun c => decide (c.ask ≠ 0)) claims, hz, Nat.add_zero]

theorem total_allClaims (hf : ∀ c, c.ask = 0 → f c = 0)
    (working : List SvsDbCpuWorking) (builds : List SvsBuildCpuRequest) :
    total f (dbClaims 0 working ++ buildClaims 0 builds) =
      total (fun x => f (dbClaim x)) working.zipIdx +
        total (fun x => f (buildClaim x)) builds.zipIdx := by
  rw [total_append, dbClaims_eq, buildClaims_eq, total_claims hf, total_claims hf, total_map,
    total_map]

variable {working : List SvsDbCpuWorking} {builds : List SvsBuildCpuRequest}

theorem totalAsk_allClaims (h : ∀ w ∈ working, w.floor ≤ w.desired) :
    totalAsk (dbClaims 0 working ++ buildClaims 0 builds) + totalFloor working =
      total desired working +
        total SvsBuildCpuRequest.maintenanceNumThreads builds := by
  have hd : total (fun w : SvsDbCpuWorking => w.desired - w.floor + w.floor) working =
      total desired working :=
    total_congr fun w hw => Nat.sub_add_cancel (h w hw)
  have ha := total_allClaims (f := fun c => c.ask) (fun _ hz => hz) working builds
  have hw := total_zipIdx_fst (fun w : SvsDbCpuWorking => w.desired - w.floor) working 0
  have hb := total_zipIdx_fst SvsBuildCpuRequest.maintenanceNumThreads builds 0
  rw [total_add] at hd
  simp only [dbClaim, buildClaim] at ha
  unfold totalAsk totalFloor
  omega

variable {k : Nat}

theorem askAt_db {w : SvsDbCpuWorking} (h : working[k]? = some w)
    (builds : List SvsBuildCpuRequest) :
    askAt (dbClaims 0 working ++ buildClaims 0 builds) (.db k) = w.desired - w.floor := by
  have ht := total_zipIdx_at (fun w : SvsDbCpuWorking => w.desired - w.floor) h 0
  rw [Nat.zero_add] at ht
  rw [askAt, total_allClaims (fun c hz => by simp [hz])]
  simp only [dbClaim, buildClaim, GrantOut.db.injEq, reduceCtorEq, if_false, ht]
  exact (congrArg _ (total_eq_zero.mpr fun _ _ => rfl)).trans (Nat.add_zero _)

variable {b : SvsBuildCpuRequest}

theorem askAt_build (h : builds[k]? = some b) (working : List SvsDbCpuWorking) :
    askAt (dbClaims 0 working ++ buildClaims 0 builds) (.build k) = b.maintenanceNumThreads := by
  have ht := total_zipIdx_at SvsBuildCpuRequest.maintenanceNumThreads h 0
  rw [Nat.zero_add] at ht
  rw [askAt, total_allClaims (fun c hz => by simp [hz])]
  simp only [dbClaim, buildClaim, GrantOut.build.injEq, reduceCtorEq, if_false, ht]
  exact (congrArg (· + _) (total_eq_zero.mpr fun _ _ => rfl)).trans (Nat.zero_add _)

/-! ## Totals -/

theorem handOut_outs (share : SvsCpuClaim → Nat) (n : Nat) (claims : List SvsCpuClaim) :
    (handOut share n claims).map Prod.fst = claims.map SvsCpuClaim.grantOut := by
  induction claims generalizing n with
  | nil => rfl
  | cons c cs ih => simp [handOut, ih]

theorem asks_outs (claims : List SvsCpuClaim) :
    (asks claims).map Prod.fst = claims.map SvsCpuClaim.grantOut := by
  simp [asks, Function.comp_def]

theorem apportionPasses_outs (remainder : Nat) (hp : claims.length ≤ passes) :
    (apportionPasses passes claims remainder).map Prod.fst ⊆ claims.map SvsCpuClaim.grantOut := by
  refine apportionPasses_induction (P := fun claims _ grants =>
    grants.map Prod.fst ⊆ claims.map SvsCpuClaim.grantOut) ?_ ?_ ?_ ?_ remainder hp
  · exact fun _ => nil_subset _
  · intro claims remainder _ _
    rw [asks_outs]
    exact Subset.refl _
  · intro claims remainder grants _ _ ih
    rw [map_append, asks_outs]
    refine append_subset.mpr ⟨?_, Subset.trans ih ?_⟩
    · exact map_subset _ filter_sublist.subset
    · exact map_subset _ filter_sublist.subset
  · intro claims remainder _ _
    rw [handOut_outs]
    exact map_subset _ (byLeftover_perm claims remainder).subset

def demand (input : SvsCpuBudgetInput) : Nat :=
  total (fun req => computeEffectiveDesired req input.gucs
    (svsSearchThreadsPerDbCeiling input.gucs.maxSearchThreadsPerDb input.gucs.maxParallelWorkers))
    input.dbs + total SvsBuildCpuRequest.maintenanceNumThreads input.builds

def places (ndbs nbuilds : Nat) : List GrantOut :=
  (range' 0 ndbs).map .db ++ (range' 0 nbuilds).map .build

theorem places_nodup (ndbs nbuilds : Nat) : (places ndbs nbuilds).Nodup := by
  unfold places
  rw [nodup_append]
  refine ⟨?_, ?_, ?_⟩
  · exact Nodup.map (fun a b h => by simpa using h) nodup_range'
  · exact Nodup.map (fun a b h => by simpa using h) nodup_range'
  · intro a ha b hb
    obtain ⟨i, -, rfl⟩ := mem_map.mp ha
    obtain ⟨k, -, rfl⟩ := mem_map.mp hb
    simp

theorem total_grantAt {grants : List (GrantOut × Nat)} {outs : List GrantOut} (h : outs.Nodup)
    (hall : grants.map Prod.fst ⊆ outs) : total (grantAt grants) outs = total Prod.snd grants := by
  unfold grantAt
  rw [total_by_key Prod.fst Prod.snd h grants]
  exact total_congr fun g hg => if_pos (hall (mem_map_of_mem hg))

theorem claims_places (working : List SvsDbCpuWorking) (builds : List SvsBuildCpuRequest) :
    (dbClaims 0 working ++ buildClaims 0 builds).map SvsCpuClaim.grantOut ⊆
      places working.length builds.length := by
  have hlt : ∀ {α : Type} {l : List α} {x : α × Nat}, x ∈ l.zipIdx → x.2 < l.length :=
    fun hx => by simpa using snd_lt_add_of_mem_zipIdx hx
  intro out hout
  obtain ⟨c, hc, rfl⟩ := mem_map.mp hout
  rw [dbClaims_eq, buildClaims_eq] at hc
  obtain hc | hc := mem_append.mp hc
  · obtain ⟨x, hx, rfl⟩ := mem_map.mp (mem_filter.mp hc).1
    exact mem_append_left _ (mem_map.mpr ⟨x.2, by simpa using hlt hx, rfl⟩)
  · obtain ⟨x, hx, rfl⟩ := mem_map.mp (mem_filter.mp hc).1
    exact mem_append_right _ (mem_map.mpr ⟨x.2, by simpa using hlt hx, rfl⟩)

/-- The calculator grants all that the pool holds, or all that is asked for. -/
theorem total_granted (input : SvsCpuBudgetInput) :
    total SvsDbCpuGrant.grantedSearchThreads (svsComputeCpuGrants input).dbGrants +
      total SvsBuildCpuGrant.grantedThreads (svsComputeCpuGrants input).buildGrants =
        min (computeSearchPool input.gucs) (demand input) := by
  unfold svsComputeCpuGrants
  dsimp only
  generalize hc : svsSearchThreadsPerDbCeiling input.gucs.maxSearchThreadsPerDb
    input.gucs.maxParallelWorkers = ceiling
  generalize computeSearchPool input.gucs = pool
  have hf := totalFloor_clamped (buildDbWorkingSet input ceiling) pool
  have hle := floor_le_desired input ceiling pool
  have hd := total_desired_clamped (buildDbWorkingSet input ceiling) pool
  have hde : total desired (buildDbWorkingSet input ceiling) +
      total SvsBuildCpuRequest.maintenanceNumThreads input.builds = demand input := by
    unfold buildDbWorkingSet demand
    rw [total_map, hc]
  generalize (clampFloorsToPool (buildDbWorkingSet input ceiling) pool).1 = working at *
  have ha : totalAsk (dbClaims 0 working ++ buildClaims 0 input.builds) + _ = _ :=
    totalAsk_allClaims hle
  have hg : total Prod.snd (apportionRemainder
      (dbClaims 0 working ++ buildClaims 0 input.builds) (pool - totalFloor working)) = _ :=
    total_apportionPasses _ (Nat.le_refl _)
  have hall : (apportionRemainder (dbClaims 0 working ++ buildClaims 0 input.builds)
      (pool - totalFloor working)).map Prod.fst ⊆ _ :=
    Subset.trans (apportionPasses_outs _ (Nat.le_refl _)) (claims_places working input.builds)
  generalize apportionRemainder (dbClaims 0 working ++ buildClaims 0 input.builds)
    (pool - totalFloor working) = grants at *
  have hp := total_grantAt (places_nodup working.length input.builds.length) hall
  unfold places at hp
  rw [total_append, total_map, total_map] at hp
  rw [total_mapIdx, total_mapIdx, total_add, total_zipIdx_fst floor,
    total_zipIdx_snd (fun i => grantAt grants (.db i)),
    total_zipIdx_snd (fun i => grantAt grants (.build i))]
  unfold totalFloor at *
  omega

theorem dbGrants_dbOid (input : SvsCpuBudgetInput) :
    (svsComputeCpuGrants input).dbGrants.map SvsDbCpuGrant.dbOid =
      input.dbs.map SvsDbCpuRequest.dbOid := by
  unfold svsComputeCpuGrants
  generalize svsSearchThreadsPerDbCeiling input.gucs.maxSearchThreadsPerDb
    input.gucs.maxParallelWorkers = ceiling
  have hmap := map_clamped (f := dbOid) (fun _ _ => rfl)
    (buildDbWorkingSet input ceiling) (computeSearchPool input.gucs)
  have hbu : (buildDbWorkingSet input ceiling).map dbOid =
      input.dbs.map SvsDbCpuRequest.dbOid := by
    simp [buildDbWorkingSet]
  rw [← hbu, ← hmap]
  refine ext_getElem? fun k => ?_
  rw [getElem?_map, getElem?_mapIdx, getElem?_map, Option.map_map]
  rfl

theorem buildGrant_le {input : SvsCpuBudgetInput} (h : input.builds[k]? = some b) :
    ∃ n, n ≤ b.maintenanceNumThreads ∧
      (svsComputeCpuGrants input).buildGrants[k]? = some ⟨b.dbOid, b.requestPid, n⟩ := by
  unfold svsComputeCpuGrants
  rw [getElem?_mapIdx, h]
  refine ⟨_, ?_, rfl⟩
  exact Nat.le_trans (grantAt_apportionPasses_le _ (Nat.le_refl _) _) (Nat.le_of_eq (askAt_build h _))

end svs_vamana.cpu_budget
