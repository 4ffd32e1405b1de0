import Mathlib.Data.Finset.Card
import Mathlib.Data.List.Chain
import Mathlib.Order.Interval.Finset.Nat

/-! # Counters received modulo 2^32

A sender counts without bound and transmits each counter modulo 2^32. As long as
the counters never go back and never jump by 2^31 or more, the signed difference
of two received words is the difference of the counters, however often the word
wraps around. What a sequence of counters passes over is a finite set, and it
grows by the gap that each new counter leaves.
-/

namespace QnxHypervisor.Foundation

/-! ## One difference -/

theorem toInt_small {k : Nat} (h : k < 2 ^ 31) : (UInt32.ofNat k).toInt32.toInt = k := by
  have hlt : k < 2 ^ 32 := by omega
  change (BitVec.ofNat 32 k).toInt = k
  rw [BitVec.toInt_eq_toNat_of_lt] <;> rw [BitVec.toNat_ofNat, Nat.mod_eq_of_lt hlt]
  omega

/-- The signed word difference of counters less than 2^31 apart is exact. -/
theorem toInt_sub_ofNat {a b : Nat} (hle : a ≤ b) (hgap : b < a + 2 ^ 31) :
    (UInt32.ofNat b - UInt32.ofNat a).toInt32.toInt = (b - a : Nat) := by
  rw [← UInt32.ofNat_sub hle]
  exact toInt_small (by omega)

/-! ## Sequences of counters -/

/-- The counter `b` may follow `a`: it is no smaller and less than 2^31 above. -/
def NextCounter (a b : Nat) : Prop := a ≤ b ∧ b < a + 2 ^ 31

instance (a b : Nat) : Decidable (NextCounter a b) := inferInstanceAs (Decidable (_ ∧ _))

/-- The counters between the first and the last of a sequence that are not in it. -/
def skippedCounters (as : List Nat) : Finset Nat :=
  match as.head?, as.getLast? with
  | some first, some last => Finset.Icc first last \ as.toFinset
  | _, _ => ∅

theorem counters_between {as : List Nat} (h : as.IsChain NextCounter) {first last x : Nat}
    (hfirst : as.head? = some first) (hlast : as.getLast? = some last) (hx : x ∈ as) :
    first ≤ x ∧ x ≤ last := by
  have hmono : as.IsChain (· ≤ ·) := h.imp fun _ _ hnext => hnext.1
  have hsorted : as.Pairwise (· ≤ ·) := List.isChain_iff_pairwise.mp hmono
  constructor
  · cases as with
    | nil => cases hx
    | cons a rest =>
        obtain rfl := Option.some.inj hfirst
        rcases List.mem_cons.mp hx with rfl | hrest
        · exact le_rfl
        · exact List.rel_of_pairwise_cons hsorted hrest
  · obtain ⟨init, rfl⟩ := List.getLast?_eq_some_iff.mp hlast
    rcases List.mem_append.mp hx with hinit | hend
    · exact (List.pairwise_append.mp hsorted).2.2 x hinit last (by simp)
    · exact (List.mem_singleton.mp hend).le

theorem skippedCounters_singleton (a : Nat) : skippedCounters [a] = ∅ := by
  simp [skippedCounters]

theorem skippedCounters_repeat {as : List Nat} {last : Nat} (hlast : as.getLast? = some last) :
    (as ++ [last]).toFinset = as.toFinset ∧
      skippedCounters (as ++ [last]) = skippedCounters as := by
  have hmem : last ∈ as := List.mem_of_getLast? hlast
  have hset : (as ++ [last]).toFinset = as.toFinset := by
    ext x
    simp only [List.mem_toFinset, List.mem_append, List.mem_singleton]
    constructor
    · rintro (hx | rfl)
      · exact hx
      · exact hmem
    · exact .inl
  refine ⟨hset, ?_⟩
  obtain ⟨first, hfirst⟩ : ∃ first, as.head? = some first := by
    cases as with
    | nil => cases hmem
    | cons a rest => exact ⟨a, rfl⟩
  simp only [skippedCounters, List.getLast?_concat, List.head?_append, hfirst, hlast, hset,
    Option.some_or]

theorem skippedCounters_next {as : List Nat} {last b : Nat} (h : as.IsChain NextCounter)
    (hlast : as.getLast? = some last) (hlt : last < b) :
    (as ++ [b]).toFinset.card = as.toFinset.card + 1 ∧
      (skippedCounters (as ++ [b])).card = (skippedCounters as).card + (b - last - 1) := by
  obtain ⟨first, hfirst⟩ : ∃ first, as.head? = some first := by
    cases as with
    | nil => cases hlast
    | cons a rest => exact ⟨a, rfl⟩
  have hbetween : ∀ x ∈ as, first ≤ x ∧ x ≤ last := fun x =>
    counters_between h hfirst hlast
  have hends := hbetween last (List.mem_of_getLast? hlast)
  have hnew : b ∉ as.toFinset := by
    intro hb
    have := (hbetween b (List.mem_toFinset.mp hb)).2
    omega
  have hset : (as ++ [b]).toFinset = insert b as.toFinset := by
    ext x
    simp
  have hunion : skippedCounters (as ++ [b]) = skippedCounters as ∪ Finset.Ioo last b := by
    ext x
    simp only [skippedCounters, List.getLast?_concat, List.head?_append, hfirst, hlast, hset,
      Option.some_or, Finset.mem_sdiff, Finset.mem_Icc, Finset.mem_insert, List.mem_toFinset,
      Finset.mem_union, Finset.mem_Ioo]
    have hx := hbetween x
    grind
  have hdisjoint : Disjoint (skippedCounters as) (Finset.Ioo last b) := by
    rw [Finset.disjoint_left]
    intro x hx hgap
    simp only [skippedCounters, hfirst, hlast, Finset.mem_sdiff, Finset.mem_Icc] at hx
    have := (Finset.mem_Ioo.mp hgap).1
    omega
  constructor
  · rw [hset, Finset.card_insert_of_notMem hnew]
  · rw [hunion, Finset.card_union_of_disjoint hdisjoint, Nat.card_Ioo]

end QnxHypervisor.Foundation
