-- Tables of a fixed number of slots, each free or taken: searches, totals and distinct keys when
-- one slot is written.
import Mathlib.Data.List.Basic

namespace slot_table

open List Option

variable {α : Type}

/-! ## Totals -/

/-- The sum of `f` over a list. -/
def total (f : α → Nat) : List α → Nat
  | [] => 0
  | a :: l => f a + total f l

variable (f : α → Nat)

@[simp] theorem total_nil : total f [] = 0 := rfl

@[simp] theorem total_cons (a : α) (l : List α) :
    total f (a :: l) = f a + total f l := rfl

variable {i : Nat} {a : α} {l : List α}

theorem total_set (b : α) (h : l[i]? = some a) : total f (l.set i b) + f a = total f l + f b := by
  induction l generalizing i with
  | nil => simp at h
  | cons c l ih =>
    cases i with
    | zero =>
      obtain rfl : c = a := by simpa using h
      simp only [set_cons_zero, total_cons]
      omega
    | succ i =>
      have hr := ih (i := i) (by simpa using h)
      simp only [set_cons_succ, total_cons]
      omega

theorem le_total (h : l[i]? = some a) : f a ≤ total f l := by
  induction l generalizing i with
  | nil => simp at h
  | cons c l ih =>
    cases i with
    | zero =>
      obtain rfl : c = a := by simpa using h
      simp
    | succ i =>
      have hr := ih (i := i) (by simpa using h)
      simp only [total_cons]
      omega

variable {P : α → Prop} {b : α}

theorem forall_set (h : ∀ a ∈ l, P a) (hb : P b) (i : Nat) : ∀ a ∈ l.set i b, P a := by
  intro a ha
  obtain ha | rfl := mem_or_eq_of_mem_set ha
  · exact h a ha
  · exact hb

theorem total_replicate (f : α → Nat) (n : Nat) (a : α) : total f (replicate n a) = n * f a := by
  induction n with
  | zero => simp
  | succ n ih =>
    rw [replicate_succ, total_cons, ih, Nat.succ_mul, Nat.add_comm]

theorem total_congr {f g : α → Nat} (h : ∀ a ∈ l, f a = g a) : total f l = total g l := by
  induction l with
  | nil => rfl
  | cons a l ih =>
    rw [total_cons, total_cons, h a mem_cons_self, ih fun b hb => h b (mem_cons_of_mem a hb)]

theorem total_eq_zero {f : α → Nat} : total f l = 0 ↔ ∀ a ∈ l, f a = 0 := by
  induction l with
  | nil => simp
  | cons a l ih => simp [ih]

theorem total_add (f g : α → Nat) (l : List α) :
    total (fun a => f a + g a) l = total f l + total g l := by
  induction l with
  | nil => rfl
  | cons a l ih =>
    simp only [total_cons, ih]
    omega

theorem total_append (f : α → Nat) (l l' : List α) :
    total f (l ++ l') = total f l + total f l' := by
  induction l with
  | nil => simp
  | cons a l ih =>
    simp only [cons_append, total_cons, ih]
    omega

theorem total_map {β : Type} (f : β → Nat) (g : α → β) (l : List α) :
    total f (l.map g) = total (fun a => f (g a)) l := by
  induction l with
  | nil => rfl
  | cons a l ih => simp only [map_cons, total_cons, ih]

theorem total_one (l : List α) : total (fun _ => 1) l = l.length := by
  induction l with
  | nil => rfl
  | cons a l ih =>
    simp only [total_cons, ih, length_cons]
    omega

theorem total_perm (f : α → Nat) {l l' : List α} (h : l.Perm l') : total f l = total f l' := by
  induction h with
  | nil => rfl
  | cons a _ ih => simp only [total_cons, ih]
  | swap a b l =>
    simp only [total_cons]
    omega
  | trans _ _ ih ih' => exact ih.trans ih'

theorem total_mono {f g : α → Nat} (h : ∀ a ∈ l, f a ≤ g a) : total f l ≤ total g l := by
  induction l with
  | nil => exact Nat.le_refl _
  | cons a l ih =>
    have hr := ih fun b hb => h b (mem_cons_of_mem a hb)
    have hh := h a mem_cons_self
    simp only [total_cons]
    omega

theorem total_filter_add (f : α → Nat) (p : α → Bool) (l : List α) :
    total f (l.filter p) + total f (l.filter fun a => !p a) = total f l := by
  induction l with
  | nil => rfl
  | cons a l ih =>
    cases hp : p a with
    | true =>
      simp only [filter_cons, hp, Bool.not_true, if_true, Bool.false_eq_true, if_false, total_cons]
      omega
    | false =>
      simp only [filter_cons, hp, Bool.not_false, if_true, Bool.false_eq_true, if_false, total_cons]
      omega

/-- Division with remainder, over a list of parts. -/
theorem total_div_mod (n d : Nat) (w : α → Nat) (l : List α) :
    d * total (fun a => n * w a / d) l + total (fun a => n * w a % d) l = n * total w l := by
  induction l with
  | nil => simp
  | cons a l ih =>
    have hdiv := Nat.div_add_mod (n * w a) d
    simp only [total_cons, Nat.mul_add]
    omega

theorem total_mod_le (n : Nat) {d : Nat} (hd : 0 < d) (w : α → Nat) (l : List α) :
    total (fun a => n * w a % d) l + l.length ≤ d * l.length := by
  induction l with
  | nil => simp
  | cons a l ih =>
    have hlt := Nat.mod_lt (n * w a) hd
    simp only [total_cons, length_cons, Nat.mul_succ]
    omega

theorem total_one_key {κ : Type} [DecidableEq κ] (k : κ) (n : Nat) {keys : List κ}
    (h : keys.Nodup) :
    total (fun k' => if k = k' then n else 0) keys = if k ∈ keys then n else 0 := by
  induction keys with
  | nil => simp
  | cons k' ks ih =>
    obtain ⟨hk', hks⟩ := nodup_cons.mp h
    rw [total_cons, ih hks]
    by_cases hk : k = k'
    · subst hk
      simp [hk']
    · simp [hk]

/-- Summed key by key, over keys that are all different. -/
theorem total_by_key {κ : Type} [DecidableEq κ] (key : α → κ) (f : α → Nat) {keys : List κ}
    (h : keys.Nodup) (l : List α) :
    total (fun k => total (fun a => if key a = k then f a else 0) l) keys =
      total (fun a => if key a ∈ keys then f a else 0) l := by
  induction l with
  | nil => exact total_eq_zero.mpr fun _ _ => rfl
  | cons a l ih =>
    simp only [total_cons]
    rw [total_add, total_one_key (key a) (f a) h, ih]

theorem total_by_key_le {κ : Type} [DecidableEq κ] (key : α → κ) (f : α → Nat) {keys : List κ}
    (h : keys.Nodup) (l : List α) :
    total (fun k => total (fun a => if key a = k then f a else 0) l) keys ≤ total f l := by
  rw [total_by_key key f h]
  refine total_mono fun a _ => ?_
  split
  · exact Nat.le_refl _
  · exact Nat.zero_le _

theorem total_mapIdx {β : Type} (f : β → Nat) (g : Nat → α → β) (l : List α) :
    total f (l.mapIdx g) = total (fun x => f (g x.2 x.1)) l.zipIdx := by
  rw [mapIdx_eq_zipIdx_map, total_map]

theorem total_zipIdx_fst (f : α → Nat) (l : List α) (i : Nat) :
    total (fun x => f x.1) (l.zipIdx i) = total f l := by
  induction l generalizing i with
  | nil => rfl
  | cons a l ih => rw [zipIdx_cons, total_cons, total_cons, ih]

theorem total_zipIdx_snd (f : Nat → Nat) (l : List α) (i : Nat) :
    total (fun x => f x.2) (l.zipIdx i) = total f (range' i l.length) := by
  induction l generalizing i with
  | nil => rfl
  | cons a l ih =>
    rw [zipIdx_cons, total_cons, ih, length_cons, range'_succ, total_cons]

theorem total_zipIdx_at (f : α → Nat) {k : Nat} (h : l[k]? = some a) (i : Nat) :
    total (fun x => if x.2 = i + k then f x.1 else 0) (l.zipIdx i) = f a := by
  induction l generalizing i k with
  | nil => simp at h
  | cons b l ih =>
    rw [zipIdx_cons, total_cons]
    cases k with
    | zero =>
      obtain rfl : b = a := by simpa using h
      have hz : total (fun x => if x.2 = i + 0 then f x.1 else 0) (l.zipIdx (i + 1)) = 0 := by
        refine total_eq_zero.mpr fun x hx => if_neg ?_
        have := le_snd_of_mem_zipIdx hx
        omega
      rw [hz, Nat.add_zero]
      exact if_pos rfl
    | succ k =>
      have hr := ih (k := k) (by simpa using h) (i + 1)
      rw [show i + 1 + k = i + (k + 1) by omega] at hr
      rw [hr, if_neg (by omega), Nat.zero_add]

/-- A total over positions, when one of them counts differently. -/
theorem total_range_change {f g : Nat → Nat} {j n : Nat} (hj : j < n) (h : ∀ k, k ≠ j → g k = f k) :
    total g (range n) + f j = total f (range n) + g j := by
  induction n with
  | zero => cases hj
  | succ n ih =>
    simp only [range_succ, total_append, total_cons, total_nil]
    by_cases hjn : j = n
    · subst hjn
      have hs : total g (range j) = total f (range j) :=
        total_congr fun k hk => h k (Nat.ne_of_lt (mem_range.mp hk))
      omega
    · have := ih (by omega)
      have := h n (Ne.symm hjn)
      omega

/-! ## Slots -/

/-- What a slot weighs: nothing when it is free. -/
def weight (f : α → Nat) : Option α → Nat
  | none => 0
  | some a => f a

@[simp] theorem weight_none (f : α → Nat) : weight f none = 0 := rfl

@[simp] theorem weight_some (f : α → Nat) (a : α) : weight f (some a) = f a := rfl

/-- The first taken slot whose content meets `p`, with its content. -/
def find (p : α → Bool) : List (Option α) → Option (Nat × α)
  | [] => none
  | none :: t => (find p t).map fun x => (x.1 + 1, x.2)
  | some a :: t => if p a then some (0, a) else (find p t).map fun x => (x.1 + 1, x.2)

def free : List (Option α) → Option Nat
  | [] => none
  | none :: _ => some 0
  | some _ :: t => (free t).map (· + 1)

/-- The slot with the least `key` of those that meet `p`, the first one of several. -/
def oldest (p : α → Bool) (key : α → Nat) : List (Option α) → Option (Nat × α)
  | [] => none
  | none :: t => (oldest p key t).map fun x => (x.1 + 1, x.2)
  | some a :: t =>
    match (oldest p key t).map fun x => (x.1 + 1, x.2) with
    | none => if p a then some (0, a) else none
    | some later => if p a ∧ key a ≤ key later.2 then some (0, a) else some later

variable {t : List (Option α)} {p : α → Bool}

theorem of_shifted {r : Option (Nat × α)}
    (h : r.map (fun x => (x.1 + 1, x.2)) = some (i, a)) : ∃ j, i = j + 1 ∧ r = some (j, a) := by
  obtain ⟨⟨j, b⟩, hr, heq⟩ := map_eq_some_iff.mp h
  cases heq
  exact ⟨j, rfl, hr⟩

theorem find_some (h : find p t = some (i, a)) : t[i]? = some (some a) ∧ p a = true := by
  induction t generalizing i with
  | nil => cases h
  | cons x t ih =>
    cases x with
    | none =>
      obtain ⟨j, rfl, hj⟩ := of_shifted h
      simpa using ih hj
    | some b =>
      by_cases hb : p b
      · simp only [find, hb, if_true, some.injEq, Prod.mk.injEq] at h
        obtain ⟨rfl, rfl⟩ := h
        exact ⟨rfl, hb⟩
      · simp only [find, hb, Bool.false_eq_true, if_false] at h
        obtain ⟨j, rfl, hj⟩ := of_shifted h
        simpa using ih hj

theorem find_none (h : find p t = none) {a : α} (hi : t[i]? = some (some a)) : p a = false := by
  induction t generalizing i with
  | nil => simp at hi
  | cons x t ih =>
    cases x with
    | none =>
      cases i with
      | zero => simp at hi
      | succ i => exact ih (by simpa [find] using h) (i := i) (by simpa using hi)
    | some b =>
      by_cases hb : p b
      · simp [find, hb] at h
      simp only [find, hb, Bool.false_eq_true, if_false, map_eq_none_iff] at h
      cases i with
      | zero =>
        obtain rfl : b = a := by simpa using hi
        simpa using hb
      | succ i => exact ih h (i := i) (by simpa using hi)

theorem free_some (h : free t = some i) : t[i]? = some none := by
  induction t generalizing i with
  | nil => cases h
  | cons x t ih =>
    cases x with
    | none =>
      obtain rfl : 0 = i := by simpa [free] using h
      rfl
    | some b =>
      obtain ⟨j, hj, rfl⟩ := map_eq_some_iff.mp h
      simpa using ih hj

theorem free_of_mem (h : none ∈ t) : ∃ i, free t = some i := by
  induction t with
  | nil => cases h
  | cons x t ih =>
    cases x with
    | none => exact ⟨0, rfl⟩
    | some a =>
      obtain ⟨i, hi⟩ := ih (by simpa using h)
      exact ⟨i + 1, by simp [free, hi]⟩

theorem oldest_some {key : α → Nat} (h : oldest p key t = some (i, a)) :
    t[i]? = some (some a) ∧ p a = true := by
  induction t generalizing i a with
  | nil => cases h
  | cons x t ih =>
    cases x with
    | none =>
      obtain ⟨j, rfl, hj⟩ := of_shifted h
      simpa using ih hj
    | some b =>
      simp only [oldest] at h
      split at h
      · split at h
        · cases h
          exact ⟨rfl, ‹_›⟩
        · cases h
      · next later hl =>
        split at h
        · next hb =>
          cases h
          exact ⟨rfl, hb.1⟩
        · cases h
          obtain ⟨j, rfl, hj⟩ := of_shifted hl
          simpa using ih hj

/-! ## Distinct keys -/

/-- No two taken slots have the same key. -/
def Distinct (key : α → Nat) (t : List (Option α)) : Prop :=
  ∀ (i j : Nat) a b, t[i]? = some (some a) → t[j]? = some (some b) → key a = key b → i = j

theorem distinct_free (key : α → Nat) (n : Nat) : Distinct key (replicate n none) := by
  intro i j a b hi
  rw [getElem?_replicate] at hi
  split at hi <;> simp at hi

theorem of_set {j : Nat} {x : Option α}
    (h : (t.set i x)[j]? = some (some a)) : i = j ∧ x = some a ∨ i ≠ j ∧ t[j]? = some (some a) := by
  rw [getElem?_set] at h
  by_cases hij : i = j
  · rw [if_pos hij] at h
    split at h
    · exact .inl ⟨hij, by simpa using h⟩
    · cases h
  · rw [if_neg hij] at h
    exact .inr ⟨hij, h⟩

variable {key : α → Nat}

theorem Distinct.clear (h : Distinct key t) (i : Nat) : Distinct key (t.set i none) := by
  intro j k a b hj hk hab
  obtain ⟨-, hx⟩ | ⟨-, hj⟩ := of_set hj
  · cases hx
  obtain ⟨-, hx⟩ | ⟨-, hk⟩ := of_set hk
  · cases hx
  exact h j k a b hj hk hab

/-- A slot may be given content whose key no other slot has. -/
theorem Distinct.put (h : Distinct key t) {c : α}
    (ho : ∀ (j : Nat) a, t[j]? = some (some a) → key a = key c → j = i) :
    Distinct key (t.set i (some c)) := by
  intro j k a b hj hk hab
  obtain ⟨rfl, hx⟩ | ⟨-, hj⟩ := of_set hj
  · cases hx
    obtain ⟨rfl, -⟩ | ⟨-, hk⟩ := of_set hk
    · rfl
    · exact (ho k b hk hab.symm).symm
  · obtain ⟨rfl, hx⟩ | ⟨-, hk⟩ := of_set hk
    · cases hx
      exact ho j a hj hab
    · exact h j k a b hj hk hab

theorem Distinct.rewrite (h : Distinct key t) (hi : t[i]? = some (some a))
    (hkey : key b = key a) : Distinct key (t.set i (some b)) :=
  h.put fun j c hj hc => h j i c a hj hi (hc.trans hkey)

/-! ## One slot at a time -/

/-- `t'` is `t` with one slot taken from `old` to `new`, or `t` itself. -/
def Replaced (t t' : List (Option α)) (old new : Option α) : Prop :=
  (t' = t ∧ old = none ∧ new = none) ∨ ∃ i : Nat, t[i]? = some old ∧ t' = t.set i new

theorem replaced_refl (t : List (Option α)) : Replaced t t none none := .inl ⟨rfl, rfl, rfl⟩

variable {t' : List (Option α)} {old new : Option α}

theorem replaced_set (h : t[i]? = some old) (new : Option α) : Replaced t (t.set i new) old new :=
  .inr ⟨i, h, rfl⟩

theorem Replaced.total (h : Replaced t t' old new) (f : α → Nat) :
    slot_table.total (weight f) t' + weight f old =
      slot_table.total (weight f) t + weight f new := by
  obtain ⟨rfl, rfl, rfl⟩ | ⟨i, hi, rfl⟩ := h
  · rfl
  · exact total_set (weight f) new hi

theorem Replaced.le_total (h : Replaced t t' old new) (f : α → Nat) :
    weight f old ≤ slot_table.total (weight f) t := by
  obtain ⟨-, rfl, -⟩ | ⟨i, hi, -⟩ := h
  · exact Nat.zero_le _
  · exact slot_table.le_total (weight f) hi

theorem Replaced.mem (h : Replaced t t' (some a) new) : some a ∈ t := by
  obtain ⟨-, hn, -⟩ | ⟨i, hi, -⟩ := h
  · cases hn
  · exact mem_of_getElem? hi

theorem Replaced.forall (h : Replaced t t' old new) {P : α → Prop} (ht : ∀ a, some a ∈ t → P a)
    (hnew : ∀ a, new = some a → P a) {a : α} (ha : some a ∈ t') : P a := by
  obtain ⟨rfl, -, -⟩ | ⟨i, -, rfl⟩ := h
  · exact ht a ha
  · obtain ha | ha := mem_or_eq_of_mem_set ha
    · exact ht a ha
    · exact hnew a ha.symm

/-- Keys stay distinct when the new record has the key of the old one, or a key that is not
in the table. -/
theorem Replaced.distinct (h : Replaced t t' old new) (ht : Distinct key t)
    (hnew : ∀ b, new = some b → (∃ a, old = some a ∧ key b = key a) ∨
      find (fun a => key a == key b) t = none) : Distinct key t' := by
  obtain ⟨rfl, -, -⟩ | ⟨i, hi, rfl⟩ := h
  · exact ht
  cases new with
  | none => exact ht.clear i
  | some b =>
    obtain ⟨a, rfl, hab⟩ | hf := hnew b rfl
    · exact ht.rewrite hi hab
    apply ht.put
    intro j a hj hkey
    have hne := find_none hf hj
    simp [hkey] at hne

/-! ## Searching a table that was written -/

theorem find_set_found (h : find p t = some (i, a)) (hb : p b = true) :
    find p (t.set i (some b)) = some (i, b) := by
  induction t generalizing i with
  | nil => cases h
  | cons x t ih =>
    cases x with
    | none =>
      obtain ⟨j, rfl, hj⟩ := of_shifted h
      simp [find, ih hj]
    | some c =>
      by_cases hc : p c
      · simp only [find, hc, if_true, some.injEq, Prod.mk.injEq] at h
        obtain ⟨rfl, rfl⟩ := h
        simp [find, hb]
      · simp only [find, hc, Bool.false_eq_true, if_false] at h
        obtain ⟨j, rfl, hj⟩ := of_shifted h
        simp [find, hc, ih hj]

theorem find_set_fresh (h : find p t = none) (hi : i < t.length) (hb : p b = true) :
    find p (t.set i (some b)) = some (i, b) := by
  induction t generalizing i with
  | nil => cases hi
  | cons x t ih =>
    have hr : find p t = none := by
      cases x with
      | none => simpa [find] using h
      | some c =>
        simp only [find] at h
        split at h
        · cases h
        · simpa using h
    cases i with
    | zero => simp [find, hb]
    | succ i =>
      have hf := ih hr (i := i) (by simpa using hi)
      cases x with
      | none => simp [find, hf]
      | some c =>
        have hc : p c = false := find_none h (i := 0) rfl
        simp [find, hc, hf]

/-- A slot that the search passes over may be given any content that it passes over as well. -/
theorem find_set_other {x y : Option α} (hi : t[i]? = some x)
    (hx : ∀ a, x = some a → p a = false) (hy : ∀ a, y = some a → p a = false) :
    find p (t.set i y) = find p t := by
  induction t generalizing i with
  | nil => rfl
  | cons z t ih =>
    cases i with
    | zero =>
      obtain rfl : z = x := by simpa using hi
      cases z <;> cases y <;> simp_all [find]
    | succ i =>
      have hr := ih (i := i) (by simpa using hi)
      cases z <;> simp [find, hr]

/-- A search through a table whose contents were all rewritten in a way that it does not see. -/
theorem find_map {f : α → α} (h : ∀ a, p (f a) = p a) (t : List (Option α)) :
    find p (t.map (Option.map f)) = (find p t).map fun x => (x.1, f x.2) := by
  induction t with
  | nil => rfl
  | cons x t ih =>
    cases x with
    | none => simp [find, ih, Function.comp_def]
    | some a =>
      by_cases ha : p a
      · simp [find, h, ha]
      · simp [find, h, ha, ih, Function.comp_def]

/-- The table with the slot freed that a search has found. -/
def strike (t : List (Option α)) : Option (Nat × α) → List (Option α)
  | none => t
  | some (i, _) => t.set i none

theorem of_strike {x : Option (Nat × α)} {j : Nat} (h : (strike t x)[j]? = some (some a)) :
    t[j]? = some (some a) ∧ ∀ i b, x = some (i, b) → i ≠ j := by
  cases x with
  | none => exact ⟨h, nofun⟩
  | some x =>
    obtain ⟨-, hn⟩ | ⟨hij, hj⟩ := of_set h
    · cases hn
    · refine ⟨hj, ?_⟩
      rintro i b ⟨⟩
      exact hij

theorem length_strike (t : List (Option α)) (x : Option (Nat × α)) :
    (strike t x).length = t.length := by
  cases x with
  | none => rfl
  | some x => exact length_set ..

end slot_table
