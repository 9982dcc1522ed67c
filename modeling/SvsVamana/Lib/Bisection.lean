-- Bisection of an interval of natural numbers for a point where a test changes from true to false.
import Mathlib.Logic.Function.Basic

namespace svs_vamana.bisection

/-- The halving loop: `good` passes the test or is where the search began, `bad` fails it or is
where the search ended. It stops when nothing lies between them. -/
def bisect (p : Nat → Bool) : Nat → Nat → Nat → Nat × Nat
  | 0, good, bad => (good, bad)
  | fuel + 1, good, bad =>
    if bad - good > 1 then
      if p (good + (bad - good) / 2) then bisect p fuel (good + (bad - good) / 2) bad
      else bisect p fuel good (good + (bad - good) / 2)
    else (good, bad)

/-- The tests that the loop makes. -/
def tests (p : Nat → Bool) : Nat → Nat → Nat → Nat
  | 0, _, _ => 0
  | fuel + 1, good, bad =>
    if bad - good > 1 then
      1 + if p (good + (bad - good) / 2) then tests p fuel (good + (bad - good) / 2) bad
        else tests p fuel good (good + (bad - good) / 2)
    else 0

/-- What the loop ends with. -/
structure Bisected (p : Nat → Bool) (good bad : Nat) (r : Nat × Nat) : Prop where
  adjacent : r.2 = r.1 + 1
  above : good ≤ r.1
  below : r.2 ≤ bad
  passes : r.1 = good ∨ p r.1 = true
  fails : r.2 = bad ∨ p r.2 = false

theorem one_shiftLeft_succ (k : Nat) : 1 <<< (k + 1) = 1 <<< k * 2 := by
  rw [Nat.one_shiftLeft, Nat.one_shiftLeft, Nat.pow_succ]

/-- The width is halved by each unit of fuel. -/
theorem bisect_spec (p : Nat → Bool) {fuel good bad : Nat} (hlt : good < bad)
    (hfu : bad - good ≤ 1 <<< fuel) : Bisected p good bad (bisect p fuel good bad) := by
  induction fuel generalizing good bad with
  | zero =>
    exact ⟨by simp [bisect] at hfu ⊢; omega, Nat.le_refl _, Nat.le_refl _, .inl rfl, .inl rfl⟩
  | succ fuel ih =>
    rw [one_shiftLeft_succ] at hfu
    simp only [bisect]
    split
    · next hm =>
      split
      · next hmid =>
        have h : Bisected p (good + (bad - good) / 2) bad
            (bisect p fuel (good + (bad - good) / 2) bad) := ih (by omega) (by omega)
        refine ⟨h.adjacent, by have := h.above; omega, h.below, .inr ?_, h.fails⟩
        obtain hg | hp := h.passes
        · rw [hg, hmid]
        · exact hp
      · next hmid =>
        have h : Bisected p good (good + (bad - good) / 2)
            (bisect p fuel good (good + (bad - good) / 2)) := ih (by omega) (by omega)
        refine ⟨h.adjacent, h.above, by have := h.below; omega, h.passes, .inr ?_⟩
        obtain hbad | hf := h.fails
        · rw [hbad]
          simpa using hmid
        · exact hf
    · next hd => exact ⟨by simp; omega, Nat.le_refl _, Nat.le_refl _, .inl rfl, .inl rfl⟩

theorem tests_le (p : Nat → Bool) {k fuel good bad : Nat} (hk : bad - good ≤ 1 <<< k) :
    tests p fuel good bad ≤ k := by
  induction fuel generalizing k good bad with
  | zero => exact Nat.zero_le k
  | succ fuel ih =>
    simp only [tests]
    split
    · next hm =>
      cases k with
      | zero =>
        simp at hk
        omega
      | succ k =>
        rw [one_shiftLeft_succ] at hk
        have hup : tests p fuel (good + (bad - good) / 2) bad ≤ k := ih (by omega)
        have hdown : tests p fuel good (good + (bad - good) / 2) ≤ k := ih (by omega)
        split <;> omega
    · exact Nat.zero_le k

theorem lt_one_shiftLeft (n : Nat) : n < 1 <<< n := by
  rw [Nat.one_shiftLeft]
  exact Nat.lt_two_pow_self

/-- Where everything below a bound passes and nothing from it on does, the bound is found. -/
theorem bisect_threshold {p : Nat → Bool} {fuel good bad bound : Nat}
    (hp : ∀ n, p n = decide (n < bound)) (hg : good < bound) (hbad : bound ≤ bad)
    (hfu : bad - good ≤ fuel + 1) : (bisect p fuel good bad).2 = bound := by
  have h := bisect_spec p (by omega) (Nat.le_trans hfu (lt_one_shiftLeft fuel))
  have ha := h.adjacent
  have hbe : (bisect p fuel good bad).1 < bound := by
    obtain hs | hpa := h.passes
    · omega
    · simpa [hp] using hpa
  have hab : bound ≤ (bisect p fuel good bad).2 := by
    obtain hs | hf := h.fails
    · omega
    · simpa [hp] using hf
  omega

end svs_vamana.bisection
