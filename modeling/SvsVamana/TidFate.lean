-- What a replay does to one TID: its binding in the end depends on the one the entry started with
-- and on the changes of that TID alone.
import SvsVamana.Delivery

namespace svs_vamana.tid_fate

open index_cache replay delivery
open IndexCache List Option

variable {V : Type}

/-! ## One change -/

/-- The calls let an insert of the TID through. -/
def takesInsert (k : ApplyCalls V) (x : TidChange) : Bool :=
  (k.fetch x.tid).join.isSome && !k.readFails x.lsn x.tid && k.added x.lsn x.tid

def Removes (t : Tid) (x : TidChange) : Prop := x.action ≠ .insert ∧ x.tid = t

/-- The change is an insert of the TID that the calls let through. -/
def Adds (k : ApplyCalls V) (t : Tid) (x : TidChange) : Prop :=
  x.action = .insert ∧ x.tid = t ∧ takesInsert k x = true

deriving instance Decidable for Removes

deriving instance Decidable for Adds

/-- `c'` is `c` with a point for the TID under the next id. -/
structure Added (t : Tid) (v : V) (c c' : IndexCache V) : Prop where
  next : c'.nextExternalId = c.nextExternalId + 1
  point : ∀ e, c'.point e = if e = c.nextExternalId then some v else c.point e
  tidOf : ∀ e, c'.tidOf e = if e = c.nextExternalId then some t else c.tidOf e
  eidOf : ∀ t', c'.eidOf t' = if t' = t then some c.nextExternalId else c.eidOf t'
  sound : c'.Sound
  graph : c'.svsIndex.isSome

/-- `c'` is `c` without the point `e` and its TID. -/
structure Removed (t : Tid) (e : Nat) (c c' : IndexCache V) : Prop where
  next : c'.nextExternalId = c.nextExternalId
  point : ∀ i, c'.point i = if i = e then none else c.point i
  tidOf : ∀ i, c'.tidOf i = if i = e then none else c.tidOf i
  eidOf : ∀ t', c'.eidOf t' = if t' = t then none else c.eidOf t'
  sound : c'.Sound
  graph : c'.svsIndex.isSome

variable {c : IndexCache V} {t : Tid}

theorem added_mapNewPoint {g : SvsIndex V} (hc : c.Sound) (hg : c.svsIndex = some g) (v : V)
    (hf : c.eidOf t = none) :
    Added t v c (mapNewPoint c ⟨Function.update g.point c.nextExternalId (some v)⟩ t
      c.nextExternalId) := by
  refine ⟨rfl, fun e => ?_, fun e => by simp, fun t' => ?_, hc.mapNewPoint hg t v, rfl⟩
  · have hp : c.point e = g.point e := by simp [point, hg]
    rw [hp]
    exact Function.update_apply _ _ _ _
  · rw [eidOf_mapNewPoint]
    obtain ⟨tab, htab⟩ := isSome_iff_exists.mp (hc.has_table (by simp [hg])).1
    have : tab t = none := by simpa [eidOf, htab] using hf
    simp [htab, this]

variable {k : ApplyCalls V} {x : TidChange}

theorem applyChange_adds {v : V} (hc : c.Sound) (hg : c.svsIndex.isSome) (hx : Adds k x.tid x)
    (hf : c.eidOf x.tid = none) (hv : k.fetch x.tid = some (some v)) :
    ∃ c', applyChange k x c = some c' ∧ Added x.tid v c c' := by
  obtain ⟨g, hg⟩ := isSome_iff_exists.mp hg
  obtain ⟨hact, -, ht⟩ := hx
  simp only [takesInsert, hv, join_some, isSome_some, Bool.true_and,
    Bool.and_eq_true, Bool.not_eq_true'] at ht
  simp only [applyChange, hact, if_true, applyInsertChange, hf, hg, hv, ht.1, ht.2,
    svsAddPoints, Bool.false_eq_true, if_false, map_some]
  have h := added_mapNewPoint hc hg v hf
  exact ⟨_, rfl, h.next, h.point, h.tidOf, h.eidOf,
    ⟨h.sound.mapped_valid, h.sound.reverse, h.sound.free, h.sound.has_table⟩, rfl⟩

theorem applyChange_skips_insert (hact : x.action = .insert)
    (h : c.eidOf x.tid ≠ none ∨ takesInsert k x = false) : applyChange k x c = none := by
  simp only [applyChange, hact, if_true, applyInsertChange]
  rcases he : c.eidOf x.tid with _ | e
  · rcases hg : c.svsIndex with _ | g
    · rfl
    · have ht : takesInsert k x = false := by
        rcases h with h | h
        · exact absurd he h
        · exact h
      rcases hf : k.fetch x.tid with _ | _ | v
      · rfl
      · rfl
      · simp only [takesInsert, hf, join_some, isSome_some, Bool.true_and] at ht
        cases hr : k.readFails x.lsn x.tid with
        | true => simp
        | false =>
          have : k.added x.lsn x.tid = false := by simpa [hr] using ht
          simp [svsAddPoints, this]
  · rfl

theorem applyChange_removes {e : Nat} (hc : c.Sound) (hx : x.action ≠ .insert)
    (he : c.eidOf x.tid = some e) : ∃ c', applyChange k x c = some c' ∧ Removed x.tid e c c' := by
  have hv := hc.valid_of_eidOf he
  obtain ⟨g, hg⟩ := isSome_iff_exists.mp (Sound.svsIndex_of_point hv)
  have hp : ∀ i, c.point i = g.point i := fun i => by simp [point, hg]
  have hmap := hc.reverse _ _ he
  rw [hp] at hv
  obtain ⟨tab, htab⟩ := isSome_iff_exists.mp (hc.has_table (by simp [hg])).1
  simp only [applyChange, hx, if_false, applyDeleteChange, he, hg, svsDeletePoints, all_cons,
    hv, all_nil, Bool.and_self, if_true, map_some]
  have hf : ∀ i, ((c.tidMapping.set e none)[i]?).join = if i = e then none else c.tidOf i := by
    intro i
    have := tidOf_forget c e i
    unfold vamanaCacheForgetExternalId at this
    rcases hm : c.tidMapping[e]? with _ | _ | s
    · simp [tidOf, hm] at hmap
    · simp [tidOf, hm] at hmap
    · rw [hm] at this
      exact this
  refine ⟨_, rfl, rfl, fun i => ?_, hf, fun t' => ?_, ?_, rfl⟩
  · simp [point, hg]
  · simp only [eidOf, htab, map_some, bind_some, hashRemove_apply]
  · refine hc.remove hmap (fun i => ?_) hf (fun t' => ?_) rfl fun _ => ⟨by simp [htab], ?_⟩
    · simp [point, hg]
    · simp only [eidOf, htab, map_some, bind_some, hashRemove_apply]
    · simpa using (hc.has_table (by simp [hg])).2

theorem applyChange_skips_delete (hx : x.action ≠ .insert) (he : c.eidOf x.tid = none) :
    applyChange k x c = none := by
  simp [applyChange, hx, applyDeleteChange, he]

section

variable (k : ApplyCalls V)

theorem replayOne_cases (x : TidChange) (n : Nat) (hc : c.Sound) (hg : c.svsIndex.isSome) :
    (∃ v c', Adds k x.tid x ∧ c.eidOf x.tid = none ∧ k.fetch x.tid = some (some v) ∧
        replayOne k (c, n) x = (c', n + 1) ∧ Added x.tid v c c') ∨
      (∃ e c', Removes x.tid x ∧ c.eidOf x.tid = some e ∧
        replayOne k (c, n) x = (c', n + 1) ∧ Removed x.tid e c c') ∨
      (¬ (Adds k x.tid x ∧ c.eidOf x.tid = none) ∧
        ¬ (Removes x.tid x ∧ c.eidOf x.tid ≠ none) ∧ replayOne k (c, n) x = (c, n)) := by
  by_cases hact : x.action = .insert
  · by_cases hadd : takesInsert k x = true ∧ c.eidOf x.tid = none
    · obtain ⟨v, hv⟩ : ∃ v, k.fetch x.tid = some (some v) := by
        have := hadd.1
        simp only [takesInsert, Bool.and_eq_true] at this
        rcases hf : k.fetch x.tid with _ | _ | v
        · simp [hf] at this
        · simp [hf] at this
        · exact ⟨v, rfl⟩
      have hx : Adds k x.tid x := ⟨hact, rfl, hadd.1⟩
      obtain ⟨c', happ, hc'⟩ := applyChange_adds hc hg hx hadd.2 hv
      exact .inl ⟨v, c', hx, hadd.2, hv, by simp [replayOne, happ], hc'⟩
    · refine .inr (.inr ⟨fun h => hadd ⟨h.1.2.2, h.2⟩, fun h => h.1.1 hact, ?_⟩)
      have : applyChange k x c = none := by
        apply applyChange_skips_insert hact
        cases ht : takesInsert k x with
        | false => exact .inr rfl
        | true => exact .inl fun he => hadd ⟨ht, he⟩
      simp [replayOne, this]
  · rcases he : c.eidOf x.tid with _ | e
    · refine .inr (.inr ⟨fun h => hact h.1.1, fun h => h.2 rfl, ?_⟩)
      simp [replayOne, applyChange_skips_delete hact he]
    · obtain ⟨c', happ, hc'⟩ := applyChange_removes (k := k) hc hact he
      exact .inr (.inl ⟨e, c', ⟨hact, rfl⟩, rfl, by simp [replayOne, happ], hc'⟩)

/-! ## The changes of one TID -/

/-- What a TID is bound to in the course of a replay: to nothing, to the point it was bound
to at the start, or to a point the replay added. -/
inductive Binding
  | none
  | atStart
  | added
deriving DecidableEq, Repr

def bindingStep (k : ApplyCalls V) (t : Tid) (b : Binding) (x : TidChange) : Binding :=
  if Removes t x then .none
  else if Adds k t x ∧ b = .none then .added
  else b

def bindingAfter (k : ApplyCalls V) (t : Tid) (b : Binding) (xs : List TidChange) : Binding :=
  xs.foldl (bindingStep k t) b

def bindingOf (c : IndexCache V) (t : Tid) : Binding :=
  if c.eidOf t = none then .none else .atStart

/-- A point of the start that a delete among the changes removes: the delete of a TID that
the reverse map resolved to it. -/
def Hit (c₀ : IndexCache V) (xs : List TidChange) (e : Nat) : Prop :=
  ∃ t, c₀.eidOf t = some e ∧ ∃ x ∈ xs, Removes t x

/-- The entry `c` after the changes `xs`, by what became of the points of `c₀` and by what
each TID is bound to. -/
structure After (k : ApplyCalls V) (c₀ : IndexCache V) (xs : List TidChange)
    (c : IndexCache V) : Prop where
  sound : c.Sound
  graph : c.svsIndex.isSome
  next : c₀.nextExternalId ≤ c.nextExternalId
  old : ∀ e, e < c₀.nextExternalId → ¬ Hit c₀ xs e →
    c.tidOf e = c₀.tidOf e ∧ c.point e = c₀.point e
  gone : ∀ e, e < c₀.nextExternalId → Hit c₀ xs e → c.tidOf e = none
  new : ∀ e, c₀.nextExternalId ≤ e → ∀ t, c.tidOf e = some t →
    c.eidOf t = some e ∧ k.fetch t = some (c.point e)
  unbound : ∀ t, bindingAfter k t (bindingOf c₀ t) xs = .none → c.eidOf t = none
  kept : ∀ t, bindingAfter k t (bindingOf c₀ t) xs = .atStart →
    c.eidOf t = c₀.eidOf t ∧ c.eidOf t ≠ none
  fresh : ∀ t, bindingAfter k t (bindingOf c₀ t) xs = .added →
    ∃ e, c.eidOf t = some e ∧ c₀.nextExternalId ≤ e

theorem After.start (hc : c.Sound) (hg : c.svsIndex.isSome) :
    After k c [] c where
  sound := hc
  graph := hg
  next := Nat.le_refl _
  old _ _ _ := ⟨rfl, rfl⟩
  gone e _ h := by
    obtain ⟨t, -, x, hx, -⟩ := h
    cases hx
  new e he t ht := by
    have := hc.free e he
    rw [ht] at this
    cases this
  unbound t h := by
    by_cases hn : c.eidOf t = none
    · exact hn
    · simp [bindingAfter, bindingOf, hn] at h
  kept t h := by
    refine ⟨rfl, fun hn => ?_⟩
    simp [bindingAfter, bindingOf, hn] at h
  fresh t h := by
    by_cases hn : c.eidOf t = none <;> simp [bindingAfter, bindingOf, hn] at h

theorem bindingAfter_snoc (t : Tid) (b : Binding) (xs : List TidChange) (x : TidChange) :
    bindingAfter k t b (xs ++ [x]) = bindingStep k t (bindingAfter k t b xs) x := by
  simp [bindingAfter]

theorem bindingStep_other (b : Binding) (h : x.tid ≠ t) : bindingStep k t b x = b := by
  have h1 : ¬ Removes t x := fun hr => h hr.2
  have h2 : ¬ Adds k t x := fun ha => h ha.2.1
  simp [bindingStep, h1, h2]

end

theorem hit_snoc (c₀ : IndexCache V) (xs : List TidChange) (x : TidChange) (e : Nat) :
    Hit c₀ (xs ++ [x]) e ↔ Hit c₀ xs e ∨ (x.action ≠ .insert ∧ c₀.eidOf x.tid = some e) := by
  constructor
  · rintro ⟨t, ht, y, hy, hr⟩
    rcases mem_append.mp hy with hy | hy
    · exact .inl ⟨t, ht, y, hy, hr⟩
    · simp only [mem_singleton] at hy
      subst hy
      exact .inr ⟨hr.1, hr.2 ▸ ht⟩
  · rintro (⟨t, ht, y, hy, hr⟩ | ⟨hact, he⟩)
    · exact ⟨t, ht, y, by simp [hy], hr⟩
    · exact ⟨x.tid, he, x, by simp, hact, rfl⟩

variable {c₀ : IndexCache V} {xs : List TidChange}

theorem After.binding_none_iff (h : After k c₀ xs c) (t : Tid) :
    bindingAfter k t (bindingOf c₀ t) xs = .none ↔ c.eidOf t = none := by
  refine ⟨h.unbound t, fun hn => ?_⟩
  cases hb : bindingAfter k t (bindingOf c₀ t) xs with
  | none => rfl
  | atStart => exact absurd hn (h.kept t hb).2
  | added =>
    obtain ⟨e, he, -⟩ := h.fresh t hb
    rw [hn] at he
    cases he

theorem removes_of_left_start (k : ApplyCalls V) (t : Tid) (xs : List TidChange)
    (h : bindingAfter k t .atStart xs ≠ .atStart) : ∃ x ∈ xs, Removes t x := by
  induction xs using reverseRecOn with
  | nil => exact absurd rfl h
  | append_singleton xs x ih =>
    by_cases hx : Removes t x
    · exact ⟨x, by simp, hx⟩
    by_cases hb : bindingAfter k t .atStart xs = .atStart
    · rw [bindingAfter_snoc, hb] at h
      simp [bindingStep, hx] at h
    · obtain ⟨y, hy, hr⟩ := ih hb
      exact ⟨y, by simp [hy], hr⟩

theorem hit_of_left_start {e : Nat} (he : c₀.eidOf t = some e)
    (h : bindingAfter k t (bindingOf c₀ t) xs ≠ .atStart) : Hit c₀ xs e := by
  have hb : bindingOf c₀ t = .atStart := by simp [bindingOf, he]
  rw [hb] at h
  exact ⟨t, he, removes_of_left_start k t xs h⟩

/-- The entry binds the TID the way the binding says. -/
def BoundAs (c₀ c : IndexCache V) (t : Tid) : Binding → Prop
  | .none => c.eidOf t = none
  | .atStart => c.eidOf t = c₀.eidOf t ∧ c.eidOf t ≠ none
  | .added => ∃ e, c.eidOf t = some e ∧ c₀.nextExternalId ≤ e

section

variable (h : After k c₀ xs c)
include h

theorem After.boundAs (t : Tid) : BoundAs c₀ c t (bindingAfter k t (bindingOf c₀ t) xs) := by
  cases hb : bindingAfter k t (bindingOf c₀ t) xs with
  | none => exact h.unbound t hb
  | atStart => exact h.kept t hb
  | added => exact h.fresh t hb

variable {c' : IndexCache V}

theorem After.boundAs_snoc (ho : ∀ t, t ≠ x.tid → c'.eidOf t = c.eidOf t)
    (hs : BoundAs c₀ c' x.tid (bindingAfter k x.tid (bindingOf c₀ x.tid) (xs ++ [x]))) (t : Tid)
    (b : Binding) (hb : bindingAfter k t (bindingOf c₀ t) (xs ++ [x]) = b) : BoundAs c₀ c' t b := by
  subst hb
  by_cases ht : t = x.tid
  · exact ht ▸ hs
  have hold := h.boundAs t
  rw [bindingAfter_snoc, bindingStep_other k _ (fun hh => ht hh.symm)]
  unfold BoundAs at hold ⊢
  rw [ho t ht]
  exact hold

theorem After.add {v : V} (hx : Adds k x.tid x) (hf : c.eidOf x.tid = none)
    (hv : k.fetch x.tid = some (some v)) (hc' : Added x.tid v c c') :
    After k c₀ (xs ++ [x]) c' := by
  have hhit : ∀ e, Hit c₀ (xs ++ [x]) e ↔ Hit c₀ xs e := by
    intro e
    rw [hit_snoc]
    simp [hx.1]
  have ho : ∀ t, t ≠ x.tid → c'.eidOf t = c.eidOf t := by
    intro t ht
    rw [hc'.eidOf, if_neg ht]
  have hs : bindingAfter k x.tid (bindingOf c₀ x.tid) (xs ++ [x]) = .added := by
    rw [bindingAfter_snoc, (h.binding_none_iff x.tid).mpr hf]
    simp [bindingStep, hx, Removes, hx.1]
  have hnext := h.next
  have hbo := h.boundAs_snoc ho <| by
    rw [hs]
    exact ⟨c.nextExternalId, by rw [hc'.eidOf, if_pos rfl], hnext⟩
  refine ⟨hc'.sound, hc'.graph, by rw [hc'.next]; omega, ?_, ?_, ?_, fun t => hbo t .none,
    fun t => hbo t .atStart, fun t => hbo t .added⟩
  · intro e he hn
    rw [hc'.tidOf, hc'.point, if_neg (by omega), if_neg (by omega)]
    exact h.old e he fun hh => hn ((hhit e).mpr hh)
  · intro e he hh
    rw [hc'.tidOf, if_neg (by omega)]
    exact h.gone e he ((hhit e).mp hh)
  · intro e he t ht
    rw [hc'.tidOf] at ht
    rw [hc'.eidOf, hc'.point]
    by_cases hen : e = c.nextExternalId
    · rw [if_pos hen] at ht ⊢
      obtain rfl := some.inj ht
      simp [hv, hen]
    · rw [if_neg hen] at ht ⊢
      obtain ⟨heid, hfe⟩ := h.new e he t ht
      have hne : t ≠ x.tid := by
        rintro rfl
        rw [hf] at heid
        cases heid
      rw [if_neg hne]
      exact ⟨heid, hfe⟩
theorem After.remove {e₀ : Nat} (hx : Removes x.tid x)
    (hbo : c.eidOf x.tid = some e₀) (hc' : Removed x.tid e₀ c c') : After k c₀ (xs ++ [x]) c' := by
  -- the point that goes is the first one of the TID, or one that the replay added
  have hp : e₀ < c₀.nextExternalId → c₀.eidOf x.tid = some e₀ := by
    intro hlt
    cases hb : bindingAfter k x.tid (bindingOf c₀ x.tid) xs with
    | none =>
      rw [h.unbound _ hb] at hbo
      cases hbo
    | atStart => rw [← (h.kept _ hb).1, hbo]
    | added =>
      obtain ⟨e, he, hge⟩ := h.fresh _ hb
      rw [hbo] at he
      obtain rfl := some.inj he
      omega
  have ho : ∀ t, t ≠ x.tid → c'.eidOf t = c.eidOf t := by
    intro t ht
    rw [hc'.eidOf, if_neg ht]
  have hs : bindingAfter k x.tid (bindingOf c₀ x.tid) (xs ++ [x]) = .none := by
    rw [bindingAfter_snoc]
    simp [bindingStep, hx]
  have hbi := h.boundAs_snoc ho <| by
    rw [hs]
    show c'.eidOf x.tid = none
    rw [hc'.eidOf, if_pos rfl]
  refine ⟨hc'.sound, hc'.graph, by rw [hc'.next]; exact h.next, ?_, ?_, ?_,
    fun t => hbi t .none, fun t => hbi t .atStart, fun t => hbi t .added⟩
  · intro e he hn
    rw [hit_snoc, not_or] at hn
    have hne : e ≠ e₀ := by
      rintro rfl
      exact hn.2 ⟨hx.1, hp he⟩
    rw [hc'.tidOf, hc'.point, if_neg hne, if_neg hne]
    exact h.old e he hn.1
  · intro e he hh
    rw [hc'.tidOf]
    by_cases hne : e = e₀
    · rw [if_pos hne]
    rw [if_neg hne]
    rcases (hit_snoc c₀ xs x e).mp hh with hh | ⟨-, hf⟩
    · exact h.gone e he hh
    · refine h.gone e he (hit_of_left_start (k := k) hf fun hb => hne ?_)
      have := (h.kept _ hb).1
      rw [hbo, hf] at this
      exact (some.inj this).symm
  · intro e he t ht
    rw [hc'.tidOf] at ht
    by_cases hne : e = e₀
    · rw [if_pos hne] at ht
      cases ht
    rw [if_neg hne] at ht
    obtain ⟨heid, hfe⟩ := h.new e he t ht
    have htid : t ≠ x.tid := by
      rintro rfl
      rw [hbo] at heid
      exact hne (some.inj heid).symm
    rw [hc'.eidOf, hc'.point, if_neg htid, if_neg hne]
    exact ⟨heid, hfe⟩

theorem After.skip (hadd : ¬ (Adds k x.tid x ∧ c.eidOf x.tid = none))
    (hrem : ¬ (Removes x.tid x ∧ c.eidOf x.tid ≠ none)) : After k c₀ (xs ++ [x]) c := by
  have hbi : ∀ t,
      bindingAfter k t (bindingOf c₀ t) (xs ++ [x]) = bindingAfter k t (bindingOf c₀ t) xs := by
    intro t
    rw [bindingAfter_snoc]
    by_cases ht : x.tid = t
    · subst ht
      have hno := h.binding_none_iff x.tid
      by_cases hr : Removes x.tid x
      · have : c.eidOf x.tid = none := by
          by_contra hh
          exact hrem ⟨hr, hh⟩
        rw [hno.mpr this]
        simp [bindingStep, hr]
      · have : ¬ (Adds k x.tid x ∧ bindingAfter k x.tid (bindingOf c₀ x.tid) xs = .none) :=
          fun hh => hadd ⟨hh.1, hno.mp hh.2⟩
        simp [bindingStep, hr, this]
    · exact bindingStep_other k _ ht
  have hhit : ∀ e, Hit c₀ (xs ++ [x]) e → Hit c₀ xs e := by
    intro e he
    rcases (hit_snoc c₀ xs x e).mp he with hh | ⟨hact, hf⟩
    · exact hh
    · refine hit_of_left_start (k := k) hf fun hb => hrem ⟨⟨hact, rfl⟩, (h.kept _ hb).2⟩
  refine ⟨h.sound, h.graph, h.next, fun e he hn => ?_, fun e he hh => h.gone e he (hhit e hh),
    h.new, fun t hb => h.unbound t (hbi t ▸ hb), fun t hb => h.kept t (hbi t ▸ hb),
    fun t hb => h.fresh t (hbi t ▸ hb)⟩
  exact h.old e he fun hh => hn ((hit_snoc c₀ xs x e).mpr (.inl hh))

end

theorem after_replayAll (k : ApplyCalls V) (hc : c.Sound) (hg : c.svsIndex.isSome) (n : Nat)
    (xs : List TidChange) : After k c xs (replayAll k xs (c, n)).1 := by
  induction xs using reverseRecOn with
  | nil => exact After.start k hc hg
  | append_singleton xs x ih =>
    rw [replayAll, foldl_append, foldl_cons, foldl_nil]
    change After k c (xs ++ [x]) (replayOne k (replayAll k xs (c, n)) x).1
    generalize replayAll k xs (c, n) = p at ih ⊢
    obtain ⟨c', m⟩ := p
    rcases replayOne_cases k x m ih.sound ih.graph with
      ⟨v, c'', hx, hf, hv, heq, hc''⟩ | ⟨e, c'', hx, hbo, heq, hc''⟩ | ⟨hadd, hrem, heq⟩
    · rw [heq]
      exact ih.add hx hf hv hc''
    · rw [heq]
      exact ih.remove hx hbo hc''
    · rw [heq]
      exact ih.skip hadd hrem

/-! ## What is left of a row -/

/-- An insert of the TID goes through and no delete of it follows; a TID that was bound at the
start has to be deleted before. -/
def AddedAnew (k : ApplyCalls V) (t : Tid) (bound : Prop) (xs : List TidChange) : Prop :=
  ∃ ys x zs, xs = ys ++ x :: zs ∧ Adds k t x ∧ (∀ z ∈ zs, ¬ Removes t z) ∧
    (bound → ∃ y ∈ ys, Removes t y)

theorem not_removes_of_adds {t' : Tid} (h : Adds k t x) :
    ¬ Removes t' x := fun hr => hr.1 h.1

theorem bindingAfter_atStart {b : Binding} (h : bindingAfter k t b xs = .atStart) :
    b = .atStart ∧ ∀ x ∈ xs, ¬ Removes t x := by
  induction xs using reverseRecOn with
  | nil => exact ⟨h, by simp⟩
  | append_singleton xs x ih =>
    rw [bindingAfter_snoc, bindingStep] at h
    split at h
    · cases h
    rename_i hx
    split at h
    · cases h
    obtain ⟨hb, hxs⟩ := ih h
    refine ⟨hb, fun y hy => ?_⟩
    rcases mem_append.mp hy with hy | hy
    · exact hxs y hy
    · rw [mem_singleton.mp hy]
      exact hx

theorem bindingAfter_added_iff (k : ApplyCalls V) (t : Tid) {b : Binding} (hb : b ≠ .added)
    (xs : List TidChange) : bindingAfter k t b xs = .added ↔ AddedAnew k t (b = .atStart) xs := by
  induction xs using reverseRecOn with
  | nil =>
    refine ⟨fun h => absurd h hb, fun ⟨ys, x, zs, h, _⟩ => ?_⟩
    simp at h
  | append_singleton xs x ih =>
    rw [bindingAfter_snoc]
    by_cases hrem : Removes t x
    · -- the last change is a delete
      simp only [bindingStep, hrem, if_true, reduceCtorEq, false_iff]
      rintro ⟨ys, y, zs, heq, hy, hzs, -⟩
      rcases eq_nil_or_concat zs with rfl | ⟨zs, z, rfl⟩
      · obtain ⟨-, hxy⟩ := append_inj' heq rfl
        exact not_removes_of_adds hy ((cons.inj hxy).1 ▸ hrem)
      · rw [concat_eq_append, ← cons_append, ← append_assoc] at heq
        obtain ⟨-, hxz⟩ := append_inj' heq rfl
        exact hzs z (by simp) ((cons.inj hxz).1 ▸ hrem)
    · by_cases hadd : Adds k t x ∧ bindingAfter k t b xs = .none
      · -- the last change binds the TID
        simp only [bindingStep, hrem, hadd, if_false, and_self, if_true, true_iff]
        refine ⟨xs, x, [], rfl, hadd.1, by simp, fun hs => ?_⟩
        subst hs
        apply removes_of_left_start k t xs
        rw [hadd.2]
        simp
      · -- the last change leaves the binding as it is
        simp only [bindingStep, hrem, hadd, if_false]
        rw [ih]
        constructor
        · rintro ⟨ys, y, zs, rfl, hy, hzs, hbo⟩
          refine ⟨ys, y, zs ++ [x], by simp, hy, ?_, hbo⟩
          intro z hz
          rcases mem_append.mp hz with hz | hz
          · exact hzs z hz
          · rw [mem_singleton.mp hz]
            exact hrem
        · rintro ⟨ys, y, zs, heq, hy, hzs, hbo⟩
          rcases eq_nil_or_concat zs with rfl | ⟨zs, z, rfl⟩
          · obtain ⟨rfl, hxy⟩ := append_inj' heq rfl
            have hxy := (cons.inj hxy).1
            subst hxy
            rw [← ih]
            cases hbs : bindingAfter k t b xs with
            | none => exact absurd ⟨hy, hbs⟩ hadd
            | added => rfl
            | atStart =>
              obtain ⟨hb', hno⟩ := bindingAfter_atStart hbs
              obtain ⟨w, hw, hr⟩ := hbo hb'
              exact absurd hr (hno w hw)
          · rw [concat_eq_append, ← cons_append, ← append_assoc] at heq
            obtain ⟨rfl, hxz⟩ := append_inj' heq rfl
            exact ⟨ys, y, zs, rfl, hy, fun w hw => hzs w (by simp [hw]), hbo⟩

theorem bindingOf_ne_added (c : IndexCache V) (t : Tid) : bindingOf c t ≠ .added := by
  unfold bindingOf
  split <;> simp

theorem bindingAfter_eq_added_iff (k : ApplyCalls V) (c₀ : IndexCache V) (t : Tid)
    (xs : List TidChange) :
    bindingAfter k t (bindingOf c₀ t) xs = .added ↔ AddedAnew k t (c₀.eidOf t ≠ none) xs := by
  rw [bindingAfter_added_iff k t (bindingOf_ne_added c₀ t)]
  have : (bindingOf c₀ t = .atStart) = (c₀.eidOf t ≠ none) := by
    unfold bindingOf
    split <;> simp_all
  rw [this]

/-- A row is in the graph after a replay when it was there and no delete of its TID took its
point, or when an insert of its TID was applied and stands. -/
theorem After.holds_iff (hc₀ : c₀.Sound) (h : After k c₀ xs c) (t : Tid) (v : V) :
    c.Holds t v ↔
      (∃ e, c₀.HoldsAt e t v ∧ (c₀.eidOf t = some e → ∀ x ∈ xs, ¬ Removes t x)) ∨
      (AddedAnew k t (c₀.eidOf t ≠ none) xs ∧ k.fetch t = some (some v)) := by
  rw [← bindingAfter_eq_added_iff k c₀ t xs]
  constructor
  · rintro ⟨e, htid, hpo⟩
    rcases Nat.lt_or_ge e c₀.nextExternalId with hlt | hge
    · have hm : ¬ Hit c₀ xs e := fun hh => by
        rw [h.gone e hlt hh] at htid
        cases htid
      obtain ⟨ht, hp⟩ := h.old e hlt hm
      exact .inl ⟨e, ⟨ht ▸ htid, hp ▸ hpo⟩, fun he x hx hr => hm ⟨t, he, x, hx, hr⟩⟩
    · obtain ⟨heid, hf⟩ := h.new e hge t htid
      refine .inr ⟨?_, by rw [hf, hpo]⟩
      cases hb : bindingAfter k t (bindingOf c₀ t) xs with
      | none =>
        rw [h.unbound t hb] at heid
        cases heid
      | atStart =>
        rw [(h.kept t hb).1] at heid
        have := hc₀.lt_next (hc₀.reverse t e heid)
        omega
      | added => rfl
  · rintro (⟨e, ⟨htid, hpo⟩, hk⟩ | ⟨hb, hf⟩)
    · have hlt := hc₀.lt_next htid
      have hm : ¬ Hit c₀ xs e := by
        rintro ⟨t', ht', x, hx, hr⟩
        have := hc₀.reverse t' e ht'
        rw [htid] at this
        obtain rfl := some.inj this
        exact hk ht' x hx hr
      obtain ⟨ht, hp⟩ := h.old e hlt hm
      exact ⟨e, ht.trans htid, hp.trans hpo⟩
    · obtain ⟨e, heid, hge⟩ := h.fresh t hb
      have htid := h.sound.reverse t e heid
      obtain ⟨-, hp⟩ := h.new e hge t htid
      rw [hf] at hp
      exact ⟨e, htid, (some.inj hp).symm⟩

/-- The vector the reverse map binds a TID to. -/
def boundTo (c : IndexCache V) (t : Tid) : Option V := (c.eidOf t).bind c.point

theorem After.boundTo_eq (hc₀ : c₀.Sound) (h : After k c₀ xs c) (t : Tid) :
    (bindingAfter k t (bindingOf c₀ t) xs = .none → boundTo c t = none) ∧
    (bindingAfter k t (bindingOf c₀ t) xs = .atStart → boundTo c t = boundTo c₀ t) ∧
    (bindingAfter k t (bindingOf c₀ t) xs = .added → boundTo c t = (k.fetch t).join) := by
  refine ⟨fun hb => ?_, fun hb => ?_, fun hb => ?_⟩
  · simp [boundTo, h.unbound t hb]
  · obtain ⟨hs, hne⟩ := h.kept t hb
    obtain ⟨e, he⟩ := ne_none_iff_exists'.mp hne
    have he₀ : c₀.eidOf t = some e := hs ▸ he
    have hm : ¬ Hit c₀ xs e := by
      rintro ⟨t', ht', x, hx, hr⟩
      have := hc₀.reverse t' e ht'
      rw [hc₀.reverse t e he₀] at this
      obtain rfl := some.inj this
      exact (bindingAfter_atStart hb).2 x hx hr
    have hp := (h.old e (hc₀.lt_next (hc₀.reverse t e he₀)) hm).2
    simp [boundTo, he, he₀, hp]
  · obtain ⟨e, heid, hge⟩ := h.fresh t hb
    obtain ⟨-, hp⟩ := h.new e hge t (h.sound.reverse t e heid)
    simp [boundTo, heid, hp]

end svs_vamana.tid_fate
