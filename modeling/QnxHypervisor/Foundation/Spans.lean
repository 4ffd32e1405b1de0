import Mathlib.Order.Interval.Set.LinearOrder

/-! # Lists of spans

A set written as half-open spans. A normal list is in order with a gap between any two
of its spans, and there is one for each set that has any. Inserting a span by its low
end and coalescing once from the left gives the normal list of the union.
-/

namespace QnxHypervisor.Foundation

structure Span (α : Type*) where
  lo : α
  hi : α
  deriving DecidableEq

namespace Span

variable {α : Type*} [LinearOrder α] {s r : Span α} {l m : List (Span α)} {x : α}

def covered (l : List (Span α)) : Set α := {x | ∃ s ∈ l, x ∈ Set.Ico s.lo s.hi}

@[simp] theorem covered_nil : covered ([] : List (Span α)) = ∅ := by
  ext x
  simp [covered]

@[simp] theorem covered_cons (s : Span α) (l : List (Span α)) :
    covered (s :: l) = Set.Ico s.lo s.hi ∪ covered l := by
  ext x
  simp [covered]

@[simp] theorem covered_append (l m : List (Span α)) :
    covered (l ++ m) = covered l ∪ covered m := by
  induction l with
  | nil => simp
  | cons s l ih => simp [ih, Set.union_assoc]

/-! ## Normal lists -/

structure Normal (l : List (Span α)) : Prop where
  lt : ∀ s ∈ l, s.lo < s.hi
  apart : l.Pairwise fun s r => s.hi < r.lo

theorem normal_nil : Normal ([] : List (Span α)) where
  lt _ h := absurd h List.not_mem_nil
  apart := List.Pairwise.nil

theorem normal_cons :
    Normal (s :: l) ↔ s.lo < s.hi ∧ (∀ r ∈ l, s.hi < r.lo) ∧ Normal l := by
  constructor
  · intro h
    obtain ⟨hfirst, hrest⟩ := List.pairwise_cons.mp h.apart
    exact ⟨h.lt s List.mem_cons_self, hfirst, fun r hr => h.lt r (List.mem_cons_of_mem _ hr), hrest⟩
  · rintro ⟨hs, hfirst, hl⟩
    refine ⟨fun r hr => ?_, List.pairwise_cons.mpr ⟨hfirst, hl.apart⟩⟩
    rcases List.mem_cons.mp hr with rfl | hr
    · exact hs
    · exact hl.lt r hr

theorem Normal.right (h : Normal (l ++ m)) : Normal m where
  lt s hs := h.lt s (List.mem_append_right _ hs)
  apart := (List.pairwise_append.mp h.apart).2.1

/-- What lies behind a span of a normal list lies behind a gap. -/
theorem Normal.behind (h : Normal (s :: l)) (hx : x ∈ covered l) : s.hi < x := by
  obtain ⟨r, hr, hlo, -⟩ := hx
  exact lt_of_lt_of_le ((normal_cons.mp h).2.1 r hr) hlo

theorem Normal.hi_free (h : Normal l) (hs : s ∈ l) : s.hi ∉ covered l := by
  induction l with
  | nil => exact absurd hs List.not_mem_nil
  | cons r l ih =>
      have hlt := h.lt s hs
      rintro ⟨q, hq, hlo, hhi⟩
      rcases List.mem_cons.mp hs with rfl | hs
      · rcases List.mem_cons.mp hq with rfl | hq
        · exact lt_irrefl _ hhi
        · exact lt_irrefl _ (h.behind ⟨q, hq, hlo, hhi⟩)
      · have hbehind : r.hi < s.lo := (normal_cons.mp h).2.1 s hs
        rcases List.mem_cons.mp hq with rfl | hq
        · exact lt_irrefl _ ((hhi.trans hbehind).trans hlt)
        · exact ih (normal_cons.mp h).2.2 hs ⟨q, hq, hlo, hhi⟩

theorem Normal.head_le (h : Normal (s :: l)) (h' : Normal (r :: m))
    (heq : covered (s :: l) = covered (r :: m)) : s.lo ≤ r.lo ∧ r.hi ≤ s.hi := by
  have hlt := h'.lt r List.mem_cons_self
  have hle : s.lo ≤ r.lo := by
    have hr : r.lo ∈ covered (s :: l) := heq ▸ ⟨r, List.mem_cons_self, le_refl _, hlt⟩
    obtain ⟨q, hq, hlo, -⟩ := hr
    rcases List.mem_cons.mp hq with rfl | hq
    · exact hlo
    · have hgap := (normal_cons.mp h).2.1 q hq
      exact le_of_lt ((h.lt s List.mem_cons_self).trans (lt_of_lt_of_le hgap hlo))
  refine ⟨hle, le_of_not_gt fun hhi => ?_⟩
  have hs := h.hi_free List.mem_cons_self
  rw [heq] at hs
  have hback : r.lo ≤ s.lo := by
    have hlo : s.lo ∈ covered (r :: m) :=
      heq ▸ ⟨s, List.mem_cons_self, le_refl _, h.lt s List.mem_cons_self⟩
    obtain ⟨q, hq, hqlo, -⟩ := hlo
    rcases List.mem_cons.mp hq with rfl | hq
    · exact hqlo
    · exact le_of_lt (hlt.trans (lt_of_lt_of_le ((normal_cons.mp h').2.1 q hq) hqlo))
  have hin : s.hi ∈ Set.Ico r.lo r.hi :=
    ⟨hback.trans (le_of_lt (h.lt s List.mem_cons_self)), hhi⟩
  exact hs ⟨r, List.mem_cons_self, hin⟩

theorem Normal.ext (h : Normal l) (h' : Normal m) (heq : covered l = covered m) : l = m := by
  induction l generalizing m with
  | nil =>
      cases m with
      | nil => rfl
      | cons r m =>
          have hr : r.lo ∈ covered (r :: m) :=
            ⟨r, List.mem_cons_self, le_refl _, h'.lt r List.mem_cons_self⟩
          rw [← heq] at hr
          exact absurd hr (by simp)
  | cons s l ih =>
      cases m with
      | nil =>
          have hs : s.lo ∈ covered (s :: l) :=
            ⟨s, List.mem_cons_self, le_refl _, h.lt s List.mem_cons_self⟩
          rw [heq] at hs
          exact absurd hs (by simp)
      | cons r m =>
          obtain ⟨hlo, hhi⟩ := h.head_le h' heq
          obtain ⟨hlo', hhi'⟩ := h'.head_le h heq.symm
          have hsr : s = r := by
            cases s
            cases r
            exact congrArg₂ Span.mk (le_antisymm hlo hlo') (le_antisymm hhi' hhi)
          subst hsr
          rw [ih (normal_cons.mp h).2.2 (normal_cons.mp h').2.2 ?_]
          ext x
          constructor
          · intro hx
            have hmem : x ∈ covered (s :: m) := heq ▸ (by simp [hx])
            rw [covered_cons] at hmem
            exact hmem.resolve_left fun hin => lt_asymm hin.2 (h.behind hx)
          · intro hx
            have hmem : x ∈ covered (s :: l) := heq ▸ (by simp [hx])
            rw [covered_cons] at hmem
            exact hmem.resolve_left fun hin => lt_asymm hin.2 (h'.behind hx)

theorem Normal.replace {m' : List (Span α)} (h : Normal (l ++ m)) (h' : Normal m')
    (hsub : covered m' ⊆ covered m) : Normal (l ++ m') := by
  obtain ⟨hl, -, hgap⟩ := List.pairwise_append.mp h.apart
  refine ⟨fun s hs => ?_, List.pairwise_append.mpr ⟨hl, h'.apart, fun s hs r hr => ?_⟩⟩
  · rcases List.mem_append.mp hs with hs | hs
    · exact h.lt s (List.mem_append_left _ hs)
    · exact h'.lt s hs
  · obtain ⟨q, hq, hlo, -⟩ := hsub ⟨r, hr, le_refl _, h'.lt r hr⟩
    exact lt_of_lt_of_le (hgap s hs q hq) hlo

/-! ## Coalescing -/

def insertByLo (s : Span α) : List (Span α) → List (Span α)
  | [] => [s]
  | r :: l => if s.lo < r.lo then s :: r :: l else r :: insertByLo s l

def coalesce (s : Span α) : List (Span α) → List (Span α)
  | [] => [s]
  | r :: l =>
      if r.lo ≤ s.hi then coalesce ⟨s.lo, max s.hi r.hi⟩ l else s :: coalesce r l

def coalesceAll : List (Span α) → List (Span α)
  | [] => []
  | s :: l => coalesce s l

def add (s : Span α) (l : List (Span α)) : List (Span α) := coalesceAll (insertByLo s l)

/-- Spans that are not empty, in order of their low ends. -/
structure Ordered (l : List (Span α)) : Prop where
  lt : ∀ s ∈ l, s.lo < s.hi
  le : l.Pairwise fun s r => s.lo ≤ r.lo

theorem ordered_cons :
    Ordered (s :: l) ↔ s.lo < s.hi ∧ (∀ r ∈ l, s.lo ≤ r.lo) ∧ Ordered l := by
  constructor
  · intro h
    obtain ⟨hfirst, hrest⟩ := List.pairwise_cons.mp h.le
    exact ⟨h.lt s List.mem_cons_self, hfirst, fun r hr => h.lt r (List.mem_cons_of_mem _ hr), hrest⟩
  · rintro ⟨hs, hfirst, hl⟩
    refine ⟨fun r hr => ?_, List.pairwise_cons.mpr ⟨hfirst, hl.le⟩⟩
    rcases List.mem_cons.mp hr with rfl | hr
    · exact hs
    · exact hl.lt r hr

theorem Normal.ordered (h : Normal l) : Ordered l where
  lt := h.lt
  le := h.apart.imp_of_mem fun hs _ hgap => le_of_lt ((h.lt _ hs).trans hgap)

theorem mem_insertByLo : r ∈ insertByLo s l ↔ r = s ∨ r ∈ l := by
  induction l with
  | nil => simp [insertByLo]
  | cons q l ih =>
      unfold insertByLo
      split
      · simp
      · simp only [List.mem_cons, ih]
        tauto

theorem covered_insertByLo (s : Span α) (l : List (Span α)) :
    covered (insertByLo s l) = Set.Ico s.lo s.hi ∪ covered l := by
  ext x
  constructor
  · rintro ⟨r, hr, hx⟩
    rcases mem_insertByLo.mp hr with rfl | hr
    · exact .inl hx
    · exact .inr ⟨r, hr, hx⟩
  · rintro (hx | ⟨r, hr, hx⟩)
    · exact ⟨s, mem_insertByLo.mpr (.inl rfl), hx⟩
    · exact ⟨r, mem_insertByLo.mpr (.inr hr), hx⟩

theorem Ordered.insertByLo (h : Ordered l) (hs : s.lo < s.hi) : Ordered (insertByLo s l) := by
  induction l with
  | nil => exact ordered_cons.mpr ⟨hs, fun _ hr => absurd hr List.not_mem_nil, h⟩
  | cons r l ih =>
      obtain ⟨hr, hle, hl⟩ := ordered_cons.mp h
      unfold Span.insertByLo
      split
      · next hlt =>
        refine ordered_cons.mpr ⟨hs, fun q hq => ?_, h⟩
        rcases List.mem_cons.mp hq with rfl | hq
        · exact le_of_lt hlt
        · exact (le_of_lt hlt).trans (hle q hq)
      · next hge =>
        refine ordered_cons.mpr ⟨hr, fun q hq => ?_, ih hl⟩
        rcases mem_insertByLo.mp hq with rfl | hq
        · exact le_of_not_gt hge
        · exact hle q hq

theorem Ordered.merge (h : Ordered (s :: r :: l)) :
    Ordered (⟨s.lo, max s.hi r.hi⟩ :: l) := by
  obtain ⟨hs, hle, hrest⟩ := ordered_cons.mp h
  obtain ⟨-, -, hl⟩ := ordered_cons.mp hrest
  have hlt := lt_of_lt_of_le hs (le_max_left s.hi r.hi)
  exact ordered_cons.mpr ⟨hlt, fun q hq => hle q (List.mem_cons_of_mem _ hq), hl⟩

theorem covered_coalesce (h : Ordered (s :: l)) : covered (coalesce s l) = covered (s :: l) := by
  induction l generalizing s with
  | nil => rfl
  | cons r l ih =>
      obtain ⟨hs, hle, hrest⟩ := ordered_cons.mp h
      unfold coalesce
      split
      · next hmeet =>
        rw [ih h.merge, covered_cons, covered_cons, covered_cons, ← Set.union_assoc]
        have hlo := hle r List.mem_cons_self
        have hr := hrest.lt r List.mem_cons_self
        rw [Set.Ico_union_Ico' hmeet (hlo.trans (le_of_lt hr)), min_eq_left hlo]
      · rw [covered_cons, ih hrest, covered_cons s]

theorem coalesce_ge (h : Ordered (s :: l)) : ∀ q ∈ coalesce s l, s.lo ≤ q.lo := by
  induction l generalizing s with
  | nil =>
      intro q hq
      obtain rfl := List.mem_singleton.mp hq
      exact le_refl _
  | cons r l ih =>
      obtain ⟨-, hle, hrest⟩ := ordered_cons.mp h
      unfold coalesce
      split
      · exact ih h.merge
      · intro q hq
        rcases List.mem_cons.mp hq with rfl | hq
        · exact le_refl _
        · exact (hle r List.mem_cons_self).trans (ih hrest q hq)

theorem normal_coalesce (h : Ordered (s :: l)) : Normal (coalesce s l) := by
  induction l generalizing s with
  | nil =>
      have hs := h.lt s List.mem_cons_self
      exact normal_cons.mpr ⟨hs, fun _ hr => absurd hr List.not_mem_nil, normal_nil⟩
  | cons r l ih =>
      obtain ⟨hs, -, hrest⟩ := ordered_cons.mp h
      unfold coalesce
      split
      · exact ih h.merge
      · next hgap =>
        refine normal_cons.mpr ⟨hs, fun q hq => ?_, ih hrest⟩
        have hge := coalesce_ge hrest q hq
        exact lt_of_lt_of_le (lt_of_not_ge hgap) hge

theorem Normal.add (h : Normal l) (hs : s.lo < s.hi) : Normal (add s l) := by
  have hordered := h.ordered.insertByLo hs
  unfold Span.add
  cases heq : Span.insertByLo s l with
  | nil => exact normal_nil
  | cons r m =>
      rw [heq] at hordered
      exact normal_coalesce hordered

theorem Normal.covered_add (h : Normal l) (hs : s.lo < s.hi) :
    covered (Span.add s l) = Set.Ico s.lo s.hi ∪ covered l := by
  have hordered := h.ordered.insertByLo hs
  rw [← covered_insertByLo]
  unfold Span.add
  cases heq : Span.insertByLo s l with
  | nil => rfl
  | cons r m =>
      rw [heq] at hordered
      exact covered_coalesce hordered

end Span

end QnxHypervisor.Foundation
