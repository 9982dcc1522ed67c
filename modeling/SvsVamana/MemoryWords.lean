-- The byte counters are 64-bit words: what the admission tests accept if a sum wraps.
import SvsVamana.Lib.Runs

namespace svs_vamana.memory_words

def subtractFloored (committed amount : UInt64) : UInt64 :=
  if amount > committed then 0 else committed - amount

/-- The words that each test reads; `prior` is what the record of the index has contributed. -/
inductive Request
  | reserveBuild (residencyBytesCommitted : UInt64) (prior : Option UInt64)
      (residencyEstimate residencyBudget : UInt64)
  | tryAddGlobalBuildCommitted (totalBuildCommittedGlobal amount ceiling : UInt64)
  | confirmBuild (residencyBytesCommitted prior measuredResidencyBytes residencyBudget : UInt64)
  | reconcileLoad (residencyBytesCommitted : UInt64) (prior : Option UInt64)
      (measuredBytes residencyBudget : UInt64)
  | reserveInsert (residencyBytesCommitted : UInt64) (consumesHeadroom : Bool)
      (deltaBytes residencyBudget : UInt64)
  | admitDatabase (totalResidencyCommittedGlobal prior residencyBudget ceiling : UInt64)
  | runBatch (searchScratchBytesInFlight scratchPerQuery n budget : UInt64)

/-- What counts against the limit, and the bytes asked, `count` times. -/
structure Test where
  committed : UInt64
  each : UInt64
  count : UInt64
  limit : UInt64
  /-- 0 bytes are not tested. -/
  skipsZero : Bool

def Request.test : Request → Test
  | .reserveBuild committed prior estimate budget =>
    ⟨subtractFloored committed (prior.getD 0), estimate, 1, budget, false⟩
  | .tryAddGlobalBuildCommitted total amount ceiling => ⟨total, amount, 1, ceiling, false⟩
  | .confirmBuild committed prior measured budget =>
    ⟨subtractFloored committed prior, measured, 1, budget, false⟩
  | .reconcileLoad committed prior measured budget =>
    ⟨subtractFloored committed (prior.getD 0), measured, 1, budget, false⟩
  | .reserveInsert committed consumesHeadroom delta budget =>
    ⟨committed, if consumesHeadroom then 0 else delta, 1, budget, false⟩
  | .admitDatabase total prior budget ceiling =>
    ⟨subtractFloored total prior, budget, 1, ceiling, false⟩
  | .runBatch inFlight perQuery n budget => ⟨inFlight, perQuery, n, budget, true⟩

namespace Test

def accepts (t : Test) : Bool :=
  t.skipsZero && t.each * t.count == 0 || decide (t.committed + t.each * t.count ≤ t.limit)

/-- The bytes asked, unbounded. -/
def bytes (t : Test) : Nat := t.each.toNat * t.count.toNat

def Fits (t : Test) : Prop :=
  t.skipsZero = true ∧ t.bytes = 0 ∨ t.committed.toNat + t.bytes ≤ t.limit.toNat

/-- The bytes, or what is committed with them, go round the word and end where the test holds. -/
def Wraps (t : Test) : Prop :=
  t.skipsZero = true ∧ t.bytes ≠ 0 ∧ UInt64.size ∣ t.bytes ∨
    ∃ k, 0 < k ∧ k * UInt64.size ≤ t.committed.toNat + t.bytes ∧
      t.committed.toNat + t.bytes ≤ k * UInt64.size + t.limit.toNat

theorem accepts_iff (t : Test) : t.accepts = true ↔
    t.skipsZero = true ∧ t.bytes % UInt64.size = 0 ∨
      (t.committed.toNat + t.bytes) % UInt64.size ≤ t.limit.toNat := by
  simp [accepts, bytes, ← UInt64.toNat_inj, UInt64.le_iff_toNat_le, UInt64.size]

end Test

/-- A request is accepted only if it fits, unless its bytes wrap to a sum within the limit. -/
theorem accepted_requests_fit_unless_they_wrap (r : Request) :
    (r.test.accepts = true → r.test.Fits) ↔ ¬ r.test.Wraps := by
  rw [Test.accepts_iff]
  have hc := r.test.committed.toNat_lt_size
  have hl := r.test.limit.toNat_lt_size
  unfold Test.Fits Test.Wraps
  generalize r.test.committed.toNat = c, r.test.limit.toNat = limit, r.test.bytes = bytes at *
  constructor
  · rintro h (⟨hs, hne, hd⟩ | ⟨k, hk, hlo, hhi⟩)
    · have hle := Nat.le_of_dvd (Nat.pos_of_ne_zero hne) hd
      rcases h (.inl ⟨hs, Nat.mod_eq_zero_of_dvd hd⟩) with ⟨-, hz⟩ | hf <;> omega
    · have hle := Nat.le_mul_of_pos_left UInt64.size hk
      obtain ⟨rest, hr⟩ := Nat.exists_eq_add_of_le hlo
      have hm : (c + bytes) % UInt64.size = rest := by
        rw [hr, Nat.mul_add_mod_self_right, Nat.mod_eq_of_lt (by omega)]
      rcases h (.inr (by omega)) with ⟨-, hz⟩ | hf <;> omega
  · rintro hw (⟨hs, hm⟩ | hm)
    · refine .inl ⟨hs, Classical.byContradiction fun hne => hw (.inl ?_)⟩
      exact ⟨hs, hne, Nat.dvd_of_mod_eq_zero hm⟩
    · right
      have hd := Nat.div_add_mod' (c + bytes) UInt64.size
      rcases Nat.eq_zero_or_pos ((c + bytes) / UInt64.size) with hz | hpos
      · rw [hz] at hd
        omega
      · exact absurd (.inr ⟨_, hpos, by omega, by omega⟩) hw

/-- 10 bytes of 20 are committed, and the estimate is 5 short of going round. -/
theorem wrapped_estimate_is_accepted :
    (Request.reserveBuild 10 none (0 - 5) 20).test.accepts = true ∧
      ¬ (Request.reserveBuild 10 none (0 - 5) 20).test.Fits := by
  constructor
  · decide
  · simp [Test.Fits, Request.test, Test.bytes, subtractFloored, UInt64.size]

end svs_vamana.memory_words
