-- Nested transactions and queues along with them: each entry is tagged with the innermost
-- subtransaction that still answers for it. A commit hands the tag on, an abort clears it.
import Mathlib.Data.List.Nodup
import Mathlib.Data.List.Perm.Basic

namespace nested_transactions

open List

variable {α : Type}

/-! ## Nests -/

/-- The number of the top transaction. Zero is no subtransaction. -/
def top : Nat := 1

/-- The open subtransactions under the top one, innermost first; the number of the next; and
those that were rolled back. -/
structure Nest where
  inner : List Nat := []
  next : Nat := 2
  aborted : List Nat := []
deriving DecidableEq, Repr

namespace Nest

/-- All that is open, the top transaction included. -/
def opened (n : Nest) : List Nat := n.inner ++ [top]

def current (n : Nest) : Nat := n.inner.headD top

def start (n : Nest) : Nest := { n with inner := n.next :: n.inner, next := n.next + 1 }

/-- The innermost subtransaction is committed into its parent. -/
def commit (n : Nest) : Nest := { n with inner := n.inner.tail }

def abort (n : Nest) : Nest :=
  match n.inner with
  | [] => n
  | i :: rest => { n with inner := rest, aborted := i :: n.aborted }

def abortTop (n : Nest) : Nest := { n with aborted := top :: n.aborted }

/-- The numbers of a nest are told apart. -/
structure Ok (n : Nest) : Prop where
  nodup : n.opened.Nodup
  fresh : ∀ i ∈ n.opened, i ≠ 0 ∧ i < n.next
  apart : ∀ i ∈ n.aborted, i ∉ n.opened ∧ i < n.next

theorem head?_opened (n : Nest) : n.opened.head? = some n.current := by
  unfold opened current
  cases n.inner <;> rfl

theorem ok_initial : ({} : Nest).Ok := by
  refine ⟨pairwise_singleton _ _, ?_, fun i hi => absurd hi not_mem_nil⟩
  intro i hi
  obtain rfl := mem_singleton.mp hi
  exact ⟨by decide, by decide⟩

variable {n : Nest}

theorem Ok.start (h : n.Ok) : n.start.Ok := by
  have hnew : n.next ∉ n.opened := fun hmem => Nat.lt_irrefl _ (h.fresh n.next hmem).2
  refine ⟨nodup_cons.mpr ⟨hnew, h.nodup⟩, ?_, ?_⟩
  · intro i hi
    obtain rfl | hi := mem_cons.mp hi
    · have htop := (h.fresh top (by simp [opened])).2
      exact ⟨by omega, Nat.lt_succ_self _⟩
    · exact ⟨(h.fresh i hi).1, Nat.lt_succ_of_lt (h.fresh i hi).2⟩
  · intro i hi
    obtain ⟨hout, hlt⟩ := h.apart i hi
    refine ⟨?_, Nat.lt_succ_of_lt hlt⟩
    intro hmem
    obtain rfl | hmem := mem_cons.mp hmem
    · exact Nat.lt_irrefl _ hlt
    · exact hout hmem

theorem opened_commit_sublist (n : Nest) : n.commit.opened.Sublist n.opened :=
  (tail_sublist n.inner).append_right _

theorem Ok.commit (h : n.Ok) : n.commit.Ok := by
  have hsub := opened_commit_sublist n
  refine ⟨h.nodup.sublist hsub, fun i hi => h.fresh i (hsub.subset hi), ?_⟩
  exact fun i hi => ⟨fun hmem => (h.apart i hi).1 (hsub.subset hmem), (h.apart i hi).2⟩

theorem opened_of_inner {i : Nat} {rest : List Nat} (h : n.inner = i :: rest) :
    n.opened = i :: (rest ++ [top]) := by
  unfold opened
  rw [h]
  rfl

theorem Ok.abort (h : n.Ok) : n.abort.Ok := by
  unfold Nest.abort
  split
  · exact h
  rename_i i rest hinn
  have ho := opened_of_inner hinn
  have hn := h.nodup
  rw [ho] at hn
  obtain ⟨hi, hr⟩ := nodup_cons.mp hn
  refine ⟨hr, fun j hj => h.fresh j (ho ▸ mem_cons_of_mem i hj), ?_⟩
  intro j hj
  obtain rfl | hj := mem_cons.mp hj
  · exact ⟨hi, (h.fresh j (ho ▸ mem_cons_self)).2⟩
  · refine ⟨?_, (h.apart j hj).2⟩
    exact fun hmem => (h.apart j hj).1 (ho ▸ mem_cons_of_mem i hmem)

end Nest

/-! ## Entries -/

/-- A queued value, the subtransaction that answers for it (none once that was rolled back), and
all that were open around it when it was queued, innermost first. -/
structure Entry (α : Type) where
  tag : Nat
  enclosing : List Nat
  value : α
deriving DecidableEq, Repr

/-- Some subtransaction around the entry was rolled back. -/
def Doomed (n : Nest) (e : Entry α) : Prop := ∃ i ∈ e.enclosing, i ∈ n.aborted

deriving instance Decidable for Doomed

/-- Gives the entries of one subtransaction another tag. -/
def retag (old new : Nat) (es : List (Entry α)) : List (Entry α) :=
  es.map fun e => if e.tag = old then { e with tag := new } else e

def enqueue (n : Nest) (a : α) (es : List (Entry α)) : List (Entry α) :=
  es ++ [⟨n.current, n.opened, a⟩]

/-- What the commit of the innermost subtransaction does to a queue. -/
def onCommit (n : Nest) (es : List (Entry α)) : List (Entry α) :=
  match n.inner with
  | [] => es
  | i :: rest => retag i (rest.headD top) es

/-- What its abort does to a queue. -/
def onAbort (n : Nest) (es : List (Entry α)) : List (Entry α) :=
  match n.inner with
  | [] => es
  | i :: _ => retag i 0 es

/-- The values that the innermost subtransaction answers for. -/
def answering (n : Nest) (es : List (Entry α)) : List α :=
  match n.inner with
  | [] => []
  | i :: _ => (es.filter fun e => e.tag = i).map Entry.value

def live (es : List (Entry α)) : List α := (es.filter fun e => e.tag ≠ 0).map Entry.value

def dead (es : List (Entry α)) : List α := (es.filter fun e => e.tag = 0).map Entry.value

/-! ## The tag tells the fate -/

/-- The subtransactions around an entry that are still open are the outermost of those that are
open now, and the entry is tagged with the innermost of them. -/
structure Living (n : Nest) (e : Entry α) (closed rest newer : List Nat) : Prop where
  enclosing : e.enclosing = closed ++ rest
  opened : n.opened = newer ++ rest
  tag : rest.head? = some e.tag
  closed : ∀ i ∈ closed, i ∉ n.opened ∧ i < n.next

def Follows (n : Nest) (e : Entry α) : Prop :=
  top ∈ e.enclosing ∧
    ((e.tag = 0 ∧ Doomed n e) ∨
      (¬ Doomed n e ∧ ∃ closed rest newer, Living n e closed rest newer))

def Fits (n : Nest) (es : List (Entry α)) : Prop := ∀ e ∈ es, Follows n e

variable {n : Nest} {e : Entry α}

theorem Follows.tag_eq_zero (hn : n.Ok) (h : Follows n e) : e.tag = 0 ↔ Doomed n e := by
  obtain ⟨-, ⟨htag, hd⟩ | ⟨hs, closed, rest, newer, hl⟩⟩ := h
  · exact ⟨fun _ => hd, fun _ => htag⟩
  refine ⟨fun hz => ?_, fun hd => absurd hd hs⟩
  have hmem : e.tag ∈ n.opened := by
    rw [hl.opened]
    exact mem_append_right _ (mem_of_head? hl.tag)
  exact absurd hz (hn.fresh e.tag hmem).1

theorem follows_start (h : Follows n e) : Follows n.start e := by
  obtain ⟨htop, hd | ⟨hs, closed, rest, newer, hl⟩⟩ := h
  · exact ⟨htop, .inl hd⟩
  refine ⟨htop, .inr ⟨hs, closed, rest, n.next :: newer, hl.enclosing, ?_, hl.tag, ?_⟩⟩
  · exact congrArg (n.next :: ·) hl.opened
  · intro i hi
    obtain ⟨hout, hlt⟩ := hl.closed i hi
    refine ⟨?_, Nat.lt_succ_of_lt hlt⟩
    intro hmem
    obtain rfl | hmem := mem_cons.mp hmem
    · exact Nat.lt_irrefl _ hlt
    · exact hout hmem

variable {es : List (Entry α)}

theorem fits_start (h : Fits n es) : Fits n.start es :=
  fun e he => follows_start (h e he)

theorem fits_enqueue (hn : n.Ok) (h : Fits n es) (a : α) : Fits n (enqueue n a es) := by
  intro e he
  obtain he | he := mem_append.mp he
  · exact h e he
  rw [mem_singleton.mp he]
  refine ⟨mem_append_right _ mem_cons_self,
    .inr ⟨?_, [], n.opened, [], rfl, rfl, n.head?_opened, ?_⟩⟩
  · rintro ⟨i, ho, ha⟩
    exact (hn.apart i ha).1 ho
  · exact fun i hi => absurd hi not_mem_nil

/-- The open subtransaction `i` answers for an entry exactly if none has been opened inside it
since, and it is around the entry. -/
theorem Living.cases (hn : n.Ok) {closed rest newer : List Nat}
    (h : Living n e closed rest newer) {i : Nat} {inner : List Nat} (hi : n.inner = i :: inner) :
    (∃ newer', newer = i :: newer' ∧ inner ++ [top] = newer' ++ rest ∧ e.tag ≠ i ∧
        i ∉ e.enclosing) ∨
      (newer = [] ∧ rest = i :: (inner ++ [top]) ∧ e.tag = i) := by
  have ho := h.opened
  rw [Nest.opened_of_inner hi] at ho
  cases newer with
  | nil =>
    have htag := h.tag
    rw [nil_append] at ho
    rw [← ho] at htag
    exact .inr ⟨rfl, ho.symm, (Option.some.inj htag).symm⟩
  | cons j newer' =>
    rw [cons_append] at ho
    obtain ⟨rfl, hr⟩ := cons.inj ho
    have hno := hn.nodup
    rw [Nest.opened_of_inner hi] at hno
    have hout : i ∉ rest := fun hmem =>
      (nodup_cons.mp hno).1 (hr ▸ mem_append_right newer' hmem)
    refine .inl ⟨newer', rfl, hr, ?_, ?_⟩
    · rintro rfl
      exact hout (mem_of_head? h.tag)
    · rw [h.enclosing]
      intro hmem
      obtain hc | hmem := mem_append.mp hmem
      · exact (h.closed i hc).1 (Nest.opened_of_inner hi ▸ mem_cons_self)
      · exact hout hmem

theorem fits_onCommit (hn : n.Ok) (h : Fits n es) : Fits n.commit (onCommit n es) := by
  unfold onCommit
  split
  · rename_i hnone
    have hsa : n.commit = n := by
      unfold Nest.commit
      rw [hnone]
      cases n
      simp_all
    rwa [hsa]
  · rename_i i inner hi
    have ho : n.commit.opened = inner ++ [top] := by
      unfold Nest.commit Nest.opened
      rw [hi]
      rfl
    have hc : ∀ j, j ∉ n.opened ∧ j < n.next → j ∉ n.commit.opened ∧ j < n.next :=
      fun j hj => ⟨fun hmem => hj.1 ((Nest.opened_commit_sublist n).subset hmem), hj.2⟩
    intro e' he'
    obtain ⟨e, he, rfl⟩ := mem_map.mp he'
    obtain ⟨htop, ⟨htag, hd⟩ | ⟨hs, closed, rest, newer, hl⟩⟩ := h e he
    · have hne : e.tag ≠ i := by
        rw [htag]
        exact fun hz =>
          (hn.fresh i (Nest.opened_of_inner hi ▸ mem_cons_self)).1 hz.symm
      rw [if_neg hne]
      exact ⟨htop, .inl ⟨htag, hd⟩⟩
    · obtain ⟨newer', rfl, hr, hne, -⟩ | ⟨rfl, hr, htag⟩ := hl.cases hn hi
      · rw [if_neg hne]
        exact ⟨htop, .inr ⟨hs, closed, rest, newer', hl.enclosing, ho.trans hr, hl.tag,
          fun j hj => hc j (hl.closed j hj)⟩⟩
      · -- the parent answers for the entry from now on
        rw [if_pos htag]
        refine ⟨htop, .inr ⟨hs, closed ++ [i], inner ++ [top], [], ?_, ho, ?_, ?_⟩⟩
        · rw [append_assoc]
          exact hl.enclosing.trans (congrArg (closed ++ ·) hr)
        · cases inner <;> rfl
        · intro j hj
          obtain hj | hj := mem_append.mp hj
          · exact hc j (hl.closed j hj)
          obtain rfl := mem_singleton.mp hj
          have hno := hn.nodup
          rw [Nest.opened_of_inner hi] at hno
          refine ⟨?_, (hn.fresh j (Nest.opened_of_inner hi ▸ mem_cons_self)).2⟩
          rw [ho]
          exact (nodup_cons.mp hno).1

theorem fits_onAbort (hn : n.Ok) (h : Fits n es) : Fits n.abort (onAbort n es) := by
  unfold onAbort Nest.abort
  split
  · exact h
  rename_i i inner hi
  have hmem : i ∈ n.opened := Nest.opened_of_inner hi ▸ mem_cons_self
  intro e' he'
  obtain ⟨e, he, rfl⟩ := mem_map.mp he'
  obtain ⟨htop, ⟨htag, j, hen, ha⟩ | ⟨hs, closed, rest, newer, hl⟩⟩ := h e he
  · have hne : e.tag ≠ i := by
      rw [htag]
      exact fun hz => (hn.fresh i hmem).1 hz.symm
    rw [if_neg hne]
    exact ⟨htop, .inl ⟨htag, j, hen, mem_cons_of_mem i ha⟩⟩
  · obtain ⟨newer', rfl, hr, hne, hout⟩ | ⟨rfl, hr, htag⟩ := hl.cases hn hi
    · rw [if_neg hne]
      refine ⟨htop, .inr ⟨?_, closed, rest, newer', hl.enclosing, hr, hl.tag, ?_⟩⟩
      · rintro ⟨j, hen, ha⟩
        obtain rfl | ha := mem_cons.mp ha
        · exact hout hen
        · exact hs ⟨j, hen, ha⟩
      · intro j hj
        obtain ⟨ho, hlt⟩ := hl.closed j hj
        refine ⟨fun hmem' => ho ?_, hlt⟩
        rw [Nest.opened_of_inner hi]
        exact mem_cons_of_mem i hmem'
    · rw [if_pos htag]
      refine ⟨htop, .inl ⟨rfl, i, ?_, mem_cons_self⟩⟩
      rw [hl.enclosing, hr]
      exact mem_append_right _ mem_cons_self

/-! ## What is undone -/

/-- A queue that keeps its entries but for the tags. -/
def SameEntries (es es' : List (Entry α)) : Prop :=
  es'.map (fun e => (e.enclosing, e.value)) = es.map fun e => (e.enclosing, e.value)

theorem sameEntries_retag (old new : Nat) (es : List (Entry α)) :
    SameEntries es (retag old new es) := by
  unfold SameEntries retag
  rw [map_map]
  refine map_congr_left fun e _ => ?_
  rw [Function.comp_apply]
  split <;> rfl

theorem sameEntries_onCommit (n : Nest) (es : List (Entry α)) : SameEntries es (onCommit n es) := by
  unfold onCommit
  split
  · rfl
  · exact sameEntries_retag _ _ es

theorem sameEntries_onAbort (n : Nest) (es : List (Entry α)) : SameEntries es (onAbort n es) := by
  unfold onAbort
  split
  · rfl
  · exact sameEntries_retag _ _ es

theorem SameEntries.filter {es' : List (Entry α)} (h : SameEntries es es') (p : List Nat → Bool) :
    (es'.filter fun e => p e.enclosing).map Entry.value =
      (es.filter fun e => p e.enclosing).map Entry.value := by
  have hp : ∀ l : List (Entry α), (l.filter fun e => p e.enclosing).map Entry.value =
      ((l.map fun e => (e.enclosing, e.value)).filter fun x => p x.1).map Prod.snd := by
    intro l
    rw [filter_map, map_map]
    rfl
  rw [hp, hp]
  exact congrArg (fun l => (l.filter fun x => p x.1).map Prod.snd) h

theorem dead_retag_perm {i : Nat} (hi : i ≠ 0) (es : List (Entry α)) :
    (dead (retag i 0 es)).Perm (dead es ++ (es.filter fun e => e.tag = i).map Entry.value) := by
  unfold dead retag
  induction es with
  | nil => exact Perm.refl _
  | cons e es ih =>
    by_cases htag : e.tag = i
    · simp only [map_cons, htag, if_true, filter_cons, decide_true, decide_false,
        Bool.false_eq_true, if_false, hi]
      exact (ih.cons e.value).trans perm_middle.symm
    · by_cases hz : e.tag = 0
      · simp only [map_cons, if_false, filter_cons, hz, decide_true, if_true,
          Ne.symm hi, decide_false, Bool.false_eq_true, cons_append]
        exact ih.cons e.value
      · simp only [map_cons, htag, if_false, filter_cons, hz, decide_false, Bool.false_eq_true]
        exact ih

theorem dead_retag {i j : Nat} (hi : i ≠ 0) (hj : j ≠ 0) (es : List (Entry α)) :
    dead (retag i j es) = dead es := by
  unfold dead retag
  induction es with
  | nil => rfl
  | cons e es ih =>
    by_cases htag : e.tag = i
    · simp only [map_cons, htag, if_true, filter_cons, hj, hi, decide_false,
        Bool.false_eq_true, if_false]
      exact ih
    · simp only [map_cons, htag, if_false, filter_cons]
      split
      · exact congrArg (e.value :: ·) ih
      · exact ih

theorem dead_onAbort_perm (hn : n.Ok) (es : List (Entry α)) :
    (dead (onAbort n es)).Perm (dead es ++ answering n es) := by
  unfold onAbort answering
  split
  · rw [append_nil]
  · rename_i i inner hi
    exact dead_retag_perm (hn.fresh i (Nest.opened_of_inner hi ▸ mem_cons_self)).1 es

theorem dead_onCommit (hn : n.Ok) (es : List (Entry α)) : dead (onCommit n es) = dead es := by
  unfold onCommit
  split
  · rfl
  rename_i i inner hi
  refine dead_retag (hn.fresh i (Nest.opened_of_inner hi ▸ mem_cons_self)).1 ?_ es
  cases inner with
  | nil => decide
  | cons j inner =>
    exact (hn.fresh j (by rw [Nest.opened_of_inner hi]; simp)).1

theorem dead_enqueue (hn : n.Ok) (a : α) (es : List (Entry α)) :
    dead (enqueue n a es) = dead es := by
  have hmem : n.current ∈ n.opened := mem_of_head? n.head?_opened
  have hne := (hn.fresh n.current hmem).1
  simp [dead, enqueue, hne]

theorem live_dead_perm (es : List (Entry α)) : (live es ++ dead es).Perm (es.map Entry.value) := by
  unfold live dead
  rw [← map_append]
  have hs := filter_append_perm (fun e : Entry α => decide (e.tag ≠ 0)) es
  refine Perm.map _ ?_
  simpa using hs

theorem live_eq (hn : n.Ok) (h : Fits n es) :
    live es = (es.filter fun e => ¬ Doomed n e).map Entry.value := by
  unfold live
  refine congrArg _ (filter_congr fun e he => ?_)
  simpa using (h e he).tag_eq_zero hn

theorem dead_eq (hn : n.Ok) (h : Fits n es) :
    dead es = (es.filter fun e => Doomed n e).map Entry.value := by
  unfold dead
  refine congrArg _ (filter_congr fun e he => ?_)
  simpa using (h e he).tag_eq_zero hn

theorem filter_doomed_abortTop (h : Fits n es) : (es.filter fun e => Doomed n.abortTop e) = es := by
  refine filter_eq_self.mpr fun e he => ?_
  exact decide_eq_true ⟨top, (h e he).1, mem_cons_self⟩

end nested_transactions
