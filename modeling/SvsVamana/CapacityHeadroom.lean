-- The block size of a dynamic index and the rows that fit above it before the next block
-- (svs_wrapper.c, svs_capacity_search.c).
import SvsVamana.Lib.Bisection

namespace svs_vamana.capacity_headroom

open bisection

/-! ## The pure model -/

/-- What SVS answers about a builder. A block holds one element at least, and an estimate fails
exactly for blocks that do not; memory never falls as the count grows. -/
structure Library where
  elementBytes : Nat
  defaultBlockSizeBytes : Nat
  dataBytes : Nat → Nat → Nat
  graphBytes : Nat → Nat → Nat
  metadataBytes : Nat → Nat → Nat
  element_pos : 0 < elementBytes
  element_le : elementBytes ≤ 1 <<< 48
  data_mono : ∀ blockSize m n, m ≤ n → dataBytes m blockSize ≤ dataBytes n blockSize
  graph_mono : ∀ blockSize m n, m ≤ n → graphBytes m blockSize ≤ graphBytes n blockSize

def Library.fits (lib : Library) (blockSizeBytes : Nat) : Bool :=
  decide (lib.elementBytes ≤ blockSizeBytes)

/-- `svs_index_get_memory_usage`. -/
def Library.memoryUsage (lib : Library) (numVectors blockSizeBytes : Nat) : Nat :=
  lib.dataBytes numVectors blockSizeBytes + lib.graphBytes numVectors blockSizeBytes +
    lib.metadataBytes numVectors blockSizeBytes

/-- `pg_nextpower2_size_t`. -/
def pgNextpower2 (num : Nat) : Nat :=
  if num &&& (num - 1) = 0 then num else 1 <<< (num.log2 + 1)

/-- The first loop of `SVSFindMinViableBlockSizeBytes`. -/
def doubleUntil (fits : Nat → Bool) : Nat → Nat → Nat → Nat × Nat
  | 0, lo, hi => (lo, hi)
  | fuel + 1, lo, hi =>
    if hi ≤ 1 <<< 48 then
      if fits hi then (lo, hi) else doubleUntil fits fuel hi (hi <<< 1)
    else (lo, hi)

/-- `none` is the error "could not determine this index's per-vector storage size". -/
def svsFindMinViableBlockSizeBytes (fits : Nat → Bool) : Option Nat :=
  let found := doubleUntil fits 50 0 1
  if found.2 > 1 <<< 48 then none
  else some (bisect (fun mid => !fits mid) (found.2 - found.1) found.1 found.2).2

/-- The estimates that the first loop asks for. -/
def doublings (fits : Nat → Bool) : Nat → Nat → Nat
  | 0, _ => 0
  | fuel + 1, hi =>
    if hi ≤ 1 <<< 48 then
      1 + if fits hi then 0 else doublings fits fuel (hi <<< 1)
    else 0

/-- The estimates that `SVSFindMinViableBlockSizeBytes` asks for. -/
def queries (fits : Nat → Bool) : Nat :=
  let found := doubleUntil fits 50 0 1
  doublings fits 50 1 + tests (fun mid => !fits mid) (found.2 - found.1) found.1 found.2

def svsComputeBlockSizeBytes (lib : Library) (numVectors : Nat) : Option Nat :=
  (svsFindMinViableBlockSizeBytes lib.fits).map fun vectorBytes =>
    pgNextpower2 (max vectorBytes (min (numVectors * vectorBytes) lib.defaultBlockSizeBytes))

def svsSearchCapacityHeadroom (cost : Nat → Nat) (numVectors maxSearchVectors : Nat) : Nat :=
  (bisect (fun delta => cost (numVectors + delta) == cost numVectors) (maxSearchVectors + 1) 0
    (maxSearchVectors + 1)).1

/-- The loop of `SvsSearchCapacityHeadroom` on words, with the evaluations of the cost so far. -/
def searchWords (same : UInt64 → Bool) : Nat → UInt64 → UInt64 → Nat → UInt64 × Nat
  | 0, goodDelta, _, evaluations => (goodDelta, evaluations)
  | fuel + 1, goodDelta, badDelta, evaluations =>
    if badDelta - goodDelta > 1 then
      let midDelta := goodDelta + (badDelta - goodDelta) / 2
      if same midDelta then searchWords same fuel midDelta badDelta (evaluations + 1)
      else searchWords same fuel goodDelta midDelta (evaluations + 1)
    else (goodDelta, evaluations)

def sameCost (cost : UInt64 → UInt64) (numVectors delta : UInt64) : Bool :=
  cost (numVectors + delta) == cost numVectors

/-- A word is halved 64 times at most. -/
def svsSearchCapacityHeadroomWords (cost : UInt64 → UInt64)
    (numVectors maxSearchVectors : UInt64) : UInt64 × Nat :=
  searchWords (sameCost cost numVectors) 64 0 (maxSearchVectors + 1) 1

def svsComputeCapacityHeadroomVectors (lib : Library) (numVectors : Nat) : Option Nat :=
  (svsComputeBlockSizeBytes lib numVectors).map fun blockSizeBytes =>
    min
      (svsSearchCapacityHeadroom (fun n => lib.dataBytes n blockSizeBytes) numVectors
        blockSizeBytes)
      (svsSearchCapacityHeadroom (fun n => lib.graphBytes n blockSizeBytes) numVectors
        blockSizeBytes)

/-- The block size of a handle that is built from or loaded with this many vectors. -/
def handleBlockSizeBytes (lib : Library) (numVectors graphDegree : Nat) : Option Nat :=
  svsComputeBlockSizeBytes lib (max numVectors graphDegree)

/-! ## The storage size of one vector -/

theorem one_shiftLeft_le {j k : Nat} : 1 <<< j ≤ 1 <<< k ↔ j ≤ k := by
  rw [Nat.one_shiftLeft, Nat.one_shiftLeft]
  exact Nat.pow_le_pow_iff_right (by decide)

theorem half_shiftLeft_succ (k : Nat) : 1 <<< (k + 1) / 2 = 1 <<< k := by
  rw [one_shiftLeft_succ, Nat.mul_div_cancel _ (by decide)]

variable {bound : Nat}

/-- The first loop ends at the first power of two that is enough, or past the last that is tried. -/
theorem doubleUntil_spec (fuel k : Nat) (hk : k ≤ 49) (hfu : 50 ≤ fuel + k)
    (hlo : 1 <<< k / 2 < bound) :
    ∃ j ≤ 49, doubleUntil (fun b => decide (bound ≤ b)) fuel (1 <<< k / 2) (1 <<< k) =
        (1 <<< j / 2, 1 <<< j) ∧ 1 <<< j / 2 < bound ∧ (bound ≤ 1 <<< j ∨ j = 49) ∧
      doublings (fun b => decide (bound ≤ b)) fuel (1 <<< k) + k ≤ j + 1 := by
  induction fuel generalizing k with
  | zero => omega
  | succ fuel ih =>
    simp only [doubleUntil, doublings, one_shiftLeft_le, decide_eq_true_eq]
    by_cases hle : k ≤ 48
    · by_cases hf : bound ≤ 1 <<< k
      · exact ⟨k, hk, by simp [hle, hf], hlo, .inl hf, by simp [hle, hf]; omega⟩
      · obtain ⟨j, hj, heq, hlt, hend, hq⟩ := ih (k + 1) (by omega) (by omega)
          (by rw [half_shiftLeft_succ]; omega)
        rw [half_shiftLeft_succ] at heq
        rw [Nat.shiftLeft_add] at heq hq
        exact ⟨j, hj, by simp [hle, hf, heq], hlt, hend, by simp [hle, hf]; omega⟩
    · obtain rfl : k = 49 := by omega
      exact ⟨49, hk, by simp, hlo, .inr rfl, by simp⟩

/-- The interval that the first loop leaves. -/
theorem half_open_width (j : Nat) : 1 <<< j - 1 <<< j / 2 ≤ 1 <<< (j - 1) := by
  cases j with
  | zero => simp
  | succ j =>
    rw [half_shiftLeft_succ, one_shiftLeft_succ, Nat.add_sub_cancel]
    omega

theorem pred_le_log2 {j : Nat} (hpos : 0 < bound) (hlo : 1 <<< j / 2 < bound) :
    j - 1 ≤ bound.log2 := by
  rw [Nat.le_log2 (by omega), ← Nat.one_shiftLeft]
  cases j with
  | zero => exact hpos
  | succ j =>
    rw [half_shiftLeft_succ] at hlo
    exact Nat.le_of_lt hlo

theorem find_spec (hpos : 0 < bound) :
    svsFindMinViableBlockSizeBytes (fun b => decide (bound ≤ b)) =
        (if bound ≤ 1 <<< 48 then some bound else none) ∧
      queries (fun b => decide (bound ≤ b)) ≤ 2 * bound.log2 + 2 := by
  obtain ⟨j, hj, heq, hlo, hhi, hq⟩ := doubleUntil_spec 50 0 (by omega) (by omega)
    (show 1 <<< 0 / 2 < bound by simpa using hpos)
  simp only [Nat.shiftLeft_zero, Nat.reduceDiv] at heq hq
  simp only [svsFindMinViableBlockSizeBytes, queries, heq]
  constructor
  · by_cases hle : bound ≤ 1 <<< 48
    · have hj : j ≤ 48 := by
        apply Nat.le_of_not_lt
        intro h
        obtain rfl : j = 48 + 1 := by omega
        rw [half_shiftLeft_succ] at hlo
        omega
      rw [if_neg (Nat.not_lt.mpr (one_shiftLeft_le.mpr hj)), if_pos hle]
      congr 1
      refine bisect_threshold (fun n => ?_) hlo (by omega) (by omega)
      by_cases hn : n < bound
      · simp [hn]
      · simp [hn, Nat.not_lt.mp hn]
    · have hj : ¬ j ≤ 48 := fun h => hle (by have := one_shiftLeft_le.mpr h; omega)
      rw [if_neg hle, if_pos (Nat.lt_of_not_le (mt one_shiftLeft_le.mp hj))]
  · have ht : tests (fun mid => !decide (bound ≤ mid)) (1 <<< j - 1 <<< j / 2) (1 <<< j / 2)
        (1 <<< j) ≤ j - 1 := tests_le _ (half_open_width j)
    have hl := pred_le_log2 hpos hlo
    omega

variable (lib : Library)

theorem find_min_viable : svsFindMinViableBlockSizeBytes lib.fits = some lib.elementBytes := by
  have h := (find_spec lib.element_pos).1
  rwa [if_pos lib.element_le] at h

def Library.sizedFor (lib : Library) (numVectors : Nat) : Nat :=
  max lib.elementBytes (min (numVectors * lib.elementBytes) lib.defaultBlockSizeBytes)

theorem sizedFor_pos (numVectors : Nat) : 0 < lib.sizedFor numVectors := by
  have := lib.element_pos
  unfold Library.sizedFor
  omega

theorem compute_block_size (numVectors : Nat) :
    svsComputeBlockSizeBytes lib numVectors = some (pgNextpower2 (lib.sizedFor numVectors)) := by
  simp [svsComputeBlockSizeBytes, find_min_viable, Library.sizedFor]

/-! ## Powers of two -/

variable {num : Nat}

theorem nextpower2_le_iff (hpos : 0 < num) (k : Nat) :
    pgNextpower2 num ≤ 1 <<< k ↔ num ≤ 1 <<< k := by
  unfold pgNextpower2
  split
  · rfl
  next hbi =>
  have hne : num ≠ 0 := by omega
  rw [Nat.and_sub_one_eq_zero_iff_isPowerOfTwo hne] at hbi
  -- the leading bit is not all of the number
  have hlow : 1 <<< num.log2 < num := by
    rw [Nat.one_shiftLeft]
    apply Nat.lt_of_le_of_ne (Nat.log2_self_le hne)
    intro heq
    exact hbi ⟨num.log2, heq.symm⟩
  have hh : num < 1 <<< (num.log2 + 1) := by
    rw [Nat.one_shiftLeft]
    exact Nat.lt_log2_self
  constructor
  · intro hle
    omega
  · intro hle
    apply one_shiftLeft_le.mpr
    apply Nat.succ_le_of_lt
    apply Nat.lt_of_not_le
    intro hk
    have := one_shiftLeft_le.mpr hk
    omega

theorem nextpower2_is_power (hpos : 0 < num) : ∃ k, pgNextpower2 num = 1 <<< k := by
  unfold pgNextpower2
  split
  · next hbi =>
    have hne : num ≠ 0 := by omega
    obtain ⟨k, hk⟩ := (Nat.and_sub_one_eq_zero_iff_isPowerOfTwo hne).mp hbi
    exact ⟨k, by rw [Nat.one_shiftLeft, hk]⟩
  · exact ⟨_, rfl⟩

theorem nextpower2_pos (hpos : 0 < num) : 0 < pgNextpower2 num := by
  obtain ⟨k, hk⟩ := nextpower2_is_power hpos
  rw [hk, Nat.one_shiftLeft]
  exact Nat.two_pow_pos k

theorem nextpower2_bounds (hpos : 0 < num) :
    num ≤ pgNextpower2 num ∧ pgNextpower2 num < 2 * num := by
  obtain ⟨k, hk⟩ := nextpower2_is_power hpos
  refine ⟨hk ▸ (nextpower2_le_iff hpos k).mp (by omega), ?_⟩
  cases k with
  | zero =>
    simp at hk
    omega
  | succ k =>
    -- half of the power is not enough
    have hhalf := (nextpower2_le_iff hpos k).not
    rw [hk, one_shiftLeft_le] at hhalf
    have := hhalf.mp (by omega)
    rw [hk, one_shiftLeft_succ]
    omega

/-- `SVSComputeBlockSizeBytes` with its product as a word. -/
def blockSizeWord (lib : Library) (numVectors : Nat) : Nat :=
  pgNextpower2 (max lib.elementBytes
    (min (numVectors * lib.elementBytes % UInt64.size) lib.defaultBlockSizeBytes))

theorem blockSizeWord_bounds (lib : Library) (numVectors : Nat) :
    ∃ k, blockSizeWord lib numVectors = 1 <<< k ∧ lib.elementBytes ≤ 1 <<< k ∧
      1 <<< k < 2 * lib.sizedFor numVectors := by
  have hpos := lib.element_pos
  have hmod := Nat.mod_le (numVectors * lib.elementBytes) UInt64.size
  unfold blockSizeWord Library.sizedFor
  generalize hw : max lib.elementBytes (min (_ % UInt64.size) _) = wanted
  obtain ⟨hge, hlt⟩ := nextpower2_bounds (show 0 < wanted by omega)
  obtain ⟨k, hk⟩ := nextpower2_is_power (show 0 < wanted by omega)
  exact ⟨k, hk, by omega, by omega⟩

/-- The smallest block that an estimate takes is found in a logarithm of estimates, or it is larger
than any that is tried. The block size is the power of two next to what the rows need. -/
theorem block_size_follows_the_smallest_viable (lib : Library) (numVectors : Nat) :
    svsFindMinViableBlockSizeBytes lib.fits = some lib.elementBytes ∧
    queries lib.fits ≤ 2 * lib.elementBytes.log2 + 2 ∧
    (∀ bound, 1 <<< 48 < bound →
      svsFindMinViableBlockSizeBytes (fun b => decide (bound ≤ b)) = none) ∧
    (∃ k, blockSizeWord lib numVectors = 1 <<< k ∧ lib.elementBytes ≤ 1 <<< k ∧
      1 <<< k < 2 * lib.sizedFor numVectors) ∧
    (numVectors < 1 <<< 31 → lib.elementBytes < 1 <<< 32 →
      numVectors * lib.elementBytes < UInt64.size ∧
      svsComputeBlockSizeBytes lib numVectors = some (blockSizeWord lib numVectors) ∧
      blockSizeWord lib numVectors < UInt64.size) := by
  refine ⟨find_min_viable lib, (find_spec lib.element_pos).2, ?_,
    blockSizeWord_bounds lib numVectors, ?_⟩
  · intro bound hb
    rw [(find_spec (Nat.zero_lt_of_lt hb)).1, if_neg (Nat.not_le.mpr hb)]
  · intro hn hv
    have hprod : numVectors * lib.elementBytes ≤ (1 <<< 31 - 1) * (1 <<< 32 - 1) :=
      Nat.mul_le_mul (by omega) (by omega)
    have hsmall : numVectors * lib.elementBytes < 1 <<< 63 := Nat.lt_of_le_of_lt hprod (by decide)
    have hsize : UInt64.size = 2 * 1 <<< 63 := by decide
    refine ⟨by omega, ?_, ?_⟩
    · rw [compute_block_size, blockSizeWord, Nat.mod_eq_of_lt (by omega)]
      rfl
    · obtain ⟨k, hk, -, hlt⟩ := blockSizeWord_bounds lib numVectors
      rw [hk]
      apply Nat.lt_trans hlt
      unfold Library.sizedFor
      omega

/-- No power of two separates the two. -/
def SameBracket (x y : Nat) : Prop := ∀ k, x ≤ 1 <<< k ↔ y ≤ 1 <<< k

theorem nextpower2_eq_iff {x y : Nat} (hx : 0 < x) (hy : 0 < y) :
    pgNextpower2 x = pgNextpower2 y ↔ SameBracket x y := by
  constructor
  · intro heq k
    rw [← nextpower2_le_iff hx, ← nextpower2_le_iff hy, heq]
  · intro hs
    obtain ⟨j, hj⟩ := nextpower2_is_power hx
    obtain ⟨k, hk⟩ := nextpower2_is_power hy
    have hxj : x ≤ 1 <<< j := (nextpower2_le_iff hx j).mp (by omega)
    have hyk : y ≤ 1 <<< k := (nextpower2_le_iff hy k).mp (by omega)
    have hle := (nextpower2_le_iff hy j).mpr ((hs j).mp hxj)
    have hge := (nextpower2_le_iff hx k).mpr ((hs k).mpr hyk)
    omega

theorem sameBracket_iff (x y : Nat) :
    SameBracket x y ↔ pgNextpower2 (max x 1) = pgNextpower2 (max y 1) := by
  rw [nextpower2_eq_iff (by omega) (by omega)]
  refine forall_congr' fun k => ?_
  have hone : 1 ≤ 1 <<< k := by
    rw [Nat.one_shiftLeft]
    exact Nat.two_pow_pos k
  omega

instance (x y : Nat) : Decidable (SameBracket x y) := decidable_of_iff _ (sameBracket_iff x y).symm

theorem nextpower2_nextpower2 {x : Nat} (hx : 0 < x) :
    pgNextpower2 (pgNextpower2 x) = pgNextpower2 x := by
  rw [nextpower2_eq_iff (nextpower2_pos hx) hx]
  intro j
  exact nextpower2_le_iff hx j

/-! ## The rows that fit -/

theorem search_keeps_cost {cost : Nat → Nat} (hm : ∀ m n, m ≤ n → cost m ≤ cost n)
    {numVectors maxSearchVectors delta : Nat}
    (hd : delta ≤ svsSearchCapacityHeadroom cost numVectors maxSearchVectors) :
    cost (numVectors + delta) = cost numVectors := by
  have h : Bisected (fun delta => cost (numVectors + delta) == cost numVectors) 0
      (maxSearchVectors + 1) (bisect _ (maxSearchVectors + 1) 0 (maxSearchVectors + 1)) :=
    bisect_spec _ (by omega) (Nat.le_trans (by omega) (Nat.le_of_lt (lt_one_shiftLeft _)))
  have htop : cost (numVectors + svsSearchCapacityHeadroom cost numVectors maxSearchVectors) =
      cost numVectors := by
    obtain hz | hp := h.passes
    · simp only [svsSearchCapacityHeadroom, hz, Nat.add_zero]
    · simpa [svsSearchCapacityHeadroom] using hp
  have hlow := hm numVectors (numVectors + delta) (by omega)
  have hh := hm (numVectors + delta) (numVectors +
    svsSearchCapacityHeadroom cost numVectors maxSearchVectors) (by omega)
  omega

/-- The rows of the measured headroom change neither the data nor the graph in blocks of the size
that the measurement took. -/
theorem headroom_keeps_memory (lib : Library) {numVectors blockSizeBytes headroom : Nat}
    (hbl : svsComputeBlockSizeBytes lib numVectors = some blockSizeBytes)
    (hh : svsComputeCapacityHeadroomVectors lib numVectors = some headroom) {delta : Nat}
    (hd : delta ≤ headroom) :
    lib.dataBytes (numVectors + delta) blockSizeBytes = lib.dataBytes numVectors blockSizeBytes ∧
      lib.graphBytes (numVectors + delta) blockSizeBytes =
        lib.graphBytes numVectors blockSizeBytes := by
  simp only [svsComputeCapacityHeadroomVectors, hbl, Option.map_some, Option.some.injEq] at hh
  subst hh
  obtain ⟨hda, hg⟩ := Nat.le_min.mp hd
  exact ⟨search_keeps_cost (lib.data_mono blockSizeBytes) hda,
    search_keeps_cost (lib.graph_mono blockSizeBytes) hg⟩

/-! ## Words -/

theorem searchWords_eq (same : UInt64 → Bool) (fuel : Nat) (good bad : UInt64)
    (evaluations : Nat) (h : good ≤ bad) :
    let p := fun delta => same (UInt64.ofNat delta)
    (searchWords same fuel good bad evaluations).1.toNat =
        (bisect p fuel good.toNat bad.toNat).1 ∧
      (searchWords same fuel good bad evaluations).2 =
        evaluations + tests p fuel good.toNat bad.toNat := by
  induction fuel generalizing good bad evaluations with
  | zero => exact ⟨rfl, rfl⟩
  | succ fuel ih =>
    have hlt := bad.toNat_lt
    have hle := UInt64.le_iff_toNat_le.mp h
    have hsub : (bad - good).toNat = bad.toNat - good.toNat := UInt64.toNat_sub_of_le _ _ h
    -- nothing wraps on the way to the middle
    have hmid : (good + (bad - good) / 2).toNat =
        good.toNat + (bad.toNat - good.toNat) / 2 := by
      simp only [UInt64.toNat_add, UInt64.toNat_div, hsub, UInt64.reduceToNat]
      omega
    have hof : UInt64.ofNat (good.toNat + (bad.toNat - good.toNat) / 2) =
        good + (bad - good) / 2 := by
      rw [← hmid, UInt64.ofNat_toNat]
    simp only [searchWords, bisect, tests, hof, gt_iff_lt, UInt64.lt_iff_toNat_lt, hsub,
      UInt64.reduceToNat]
    split
    · next hm =>
      split
      · obtain ⟨hr, he⟩ := ih (good + (bad - good) / 2) bad (evaluations + 1)
          (by rw [UInt64.le_iff_toNat_le]; omega)
        rw [hmid] at hr he
        exact ⟨hr, by omega⟩
      · obtain ⟨hr, he⟩ := ih good (good + (bad - good) / 2) (evaluations + 1)
          (by rw [UInt64.le_iff_toNat_le]; omega)
        rw [hmid] at hr he
        exact ⟨hr, by omega⟩
    · exact ⟨rfl, rfl⟩

theorem toNat_add_of_lt {m n : UInt64} (h : m.toNat + n.toNat < UInt64.size) :
    (m + n).toNat = m.toNat + n.toNat := by
  rw [UInt64.toNat_add, Nat.mod_eq_of_lt h]

/-- The greatest number of rows up to the bound that cost nothing more, in a logarithm of
evaluations. -/
theorem headroom_search_is_exact (cost : UInt64 → UInt64) (hcost : ∀ m n, m ≤ n → cost m ≤ cost n)
    (numVectors maxSearchVectors : UInt64) (hmax : maxSearchVectors.toNat < UInt64.size - 1)
    (hsum : numVectors.toNat + maxSearchVectors.toNat < UInt64.size) (found : UInt64 × Nat)
    (hfound : found = svsSearchCapacityHeadroomWords cost numVectors maxSearchVectors) :
    found.1 ≤ maxSearchVectors ∧ cost (numVectors + found.1) = cost numVectors ∧
      (∀ delta ≤ maxSearchVectors, cost (numVectors + delta) = cost numVectors →
        delta ≤ found.1) ∧
      found.2 ≤ maxSearchVectors.toNat.log2 + 2 := by
  have hbad : (maxSearchVectors + 1).toNat = maxSearchVectors.toNat + 1 :=
    toNat_add_of_lt (n := 1) (by simp; omega)
  obtain ⟨hdelta, hevals⟩ := searchWords_eq (sameCost cost numVectors) 64 0 (maxSearchVectors + 1) 1
    (UInt64.le_iff_toNat_le.mpr (Nat.zero_le _))
  have hb : Bisected (fun delta => sameCost cost numVectors (UInt64.ofNat delta)) 0
      (maxSearchVectors.toNat + 1)
      (bisect _ 64 0 (maxSearchVectors.toNat + 1)) :=
    bisect_spec _ (by omega) (by simp only [UInt64.size] at hmax; simp; omega)
  have ht : tests (fun delta => sameCost cost numVectors (UInt64.ofNat delta)) 64 0
      (maxSearchVectors.toNat + 1) ≤
      maxSearchVectors.toNat.log2 + 1 :=
    tests_le _ (by rw [Nat.one_shiftLeft]; exact Nat.lt_log2_self)
  rw [hbad] at hdelta hevals
  change (svsSearchCapacityHeadroomWords cost _ _).1.toNat = (bisect _ 64 0 _).1 at hdelta
  change (svsSearchCapacityHeadroomWords cost _ _).2 = 1 + tests _ 64 0 _ at hevals
  rw [← hfound] at hdelta hevals
  generalize bisect _ 64 _ _ = r at hb hdelta
  obtain ⟨hadj, -, hbelow, hpass, hfail⟩ := hb
  refine ⟨by rw [UInt64.le_iff_toNat_le]; omega, ?_, ?_, ?_⟩
  · obtain hz | hp := hpass
    · obtain hf : found.1 = 0 := UInt64.toNat_inj.mp (by rw [hdelta, hz]; rfl)
      simp [hf]
    · simpa [sameCost, ← hdelta] using hp
  · intro delta hd hsame
    rw [UInt64.le_iff_toNat_le] at hd ⊢
    apply Nat.le_of_not_lt
    intro hgt
    -- the first row past the result costs more, and so does this one
    have hnext := hfail.resolve_left (by omega)
    have hr : (UInt64.ofNat r.2).toNat = r.2 := UInt64.toNat_ofNat_of_lt' (by omega)
    have hn : (numVectors + UInt64.ofNat r.2).toNat = numVectors.toNat + r.2 := by
      rw [toNat_add_of_lt (by omega), hr]
    have hd' : (numVectors + delta).toNat = numVectors.toNat + delta.toNat :=
      toNat_add_of_lt (by omega)
    have hlow : cost numVectors ≤ cost (numVectors + UInt64.ofNat r.2) := by
      apply hcost
      rw [UInt64.le_iff_toNat_le]
      omega
    have hhigh : cost (numVectors + UInt64.ofNat r.2) ≤ cost (numVectors + delta) := by
      apply hcost
      rw [UInt64.le_iff_toNat_le]
      omega
    rw [hsame] at hhigh
    simp [sameCost, UInt64.le_antisymm hhigh hlow] at hnext
  · omega

/-- From three rows on, a cost that steps at each ten stays for six more. -/
theorem rows_up_to_ten_cost_nothing :
    (3 + (svsSearchCapacityHeadroomWords (· / 10) 3 20).1) / 10 = 0 := by
  refine (headroom_search_is_exact (· / 10) ?_ 3 20 (by decide) (by decide) _ rfl).2.1
  intro m n h
  simp only [UInt64.le_iff_toNat_le, UInt64.toNat_div] at h ⊢
  exact Nat.div_le_div_right h

end svs_vamana.capacity_headroom
