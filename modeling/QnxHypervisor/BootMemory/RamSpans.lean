import QnxHypervisor.BootMemory.Ram
import QnxHypervisor.Foundation.Spans
import Mathlib.Algebra.Group.Nat.Defs
import Mathlib.Data.Set.BooleanAlgebra
import Mathlib.Order.CompletePartialOrder

/-! # The RAM list as a set of addresses

The list of free RAM is the normal list of the addresses that were added and not taken
since, so it depends on that set alone. Both arrays may overflow, and nothing else stops
an operation.
-/

namespace QnxHypervisor.BootMemory

open Foundation Foundation.Span

/-- No entry may end behind this address: an alignment, of 32 bits, has to fit above it. -/
def ramTop : Nat := 2 ^ 64 - 2 ^ 32

def RamEntry.span (r : RamEntry) : Span Nat := ⟨r.addr.toNat, r.addr.toNat + r.size.toNat⟩

def block (start size : Paddr) : Set Nat := Set.Ico start.toNat (start.toNat + size.toNat)

structure Holds (ram : List RamEntry) (free : Set Nat) : Prop where
  normal : Normal (ram.map RamEntry.span)
  covers : covered (ram.map RamEntry.span) = free
  low : ∀ x ∈ free, x < ramTop

structure RamEntry.Fits (r : RamEntry) : Prop where
  pos : 0 < r.size.toNat
  top : r.addr.toNat + r.size.toNat ≤ ramTop

theorem RamEntry.span_injective : Function.Injective RamEntry.span := by
  intro r r' h
  obtain ⟨haddr, hstop⟩ := Span.mk.inj h
  have hsize : r.size.toNat = r'.size.toNat := by omega
  cases r
  cases r'
  exact congrArg₂ RamEntry.mk (BitVec.eq_of_toNat_eq haddr) (BitVec.eq_of_toNat_eq hsize)

theorem Holds.unique {ram ram' : List RamEntry} {free : Set Nat} (h : Holds ram free)
    (h' : Holds ram' free) : ram = ram' :=
  RamEntry.span_injective.list_map (h.normal.ext h'.normal (h.covers.trans h'.covers.symm))

theorem holds_nil : Holds [] ∅ where
  normal := normal_nil
  covers := covered_nil
  low _ h := absurd h (Set.notMem_empty _)

theorem RamEntry.Fits.size_ne {r : RamEntry} (h : r.Fits) : r.size ≠ 0 := by
  intro hz
  have hpos := h.pos
  rw [hz] at hpos
  exact Nat.lt_irrefl 0 hpos

theorem RamEntry.Fits.stop {r : RamEntry} (h : r.Fits) :
    (r.addr + r.size).toNat = r.addr.toNat + r.size.toNat := by
  have htop := h.top
  unfold ramTop at htop
  rw [BitVec.toNat_add]
  exact Nat.mod_eq_of_lt (by omega)

theorem fits_of_low {ram : List RamEntry} (hlt : ∀ s ∈ ram.map RamEntry.span, s.lo < s.hi)
    (hlow : ∀ x ∈ covered (ram.map RamEntry.span), x < ramTop) : ∀ r ∈ ram, r.Fits := by
  intro r hr
  have hmem : r.span ∈ ram.map RamEntry.span := List.mem_map_of_mem hr
  have hpos : r.addr.toNat < r.addr.toNat + r.size.toNat := hlt r.span hmem
  have hlast : r.addr.toNat + r.size.toNat - 1 < ramTop := by
    apply hlow
    refine ⟨r.span, hmem, ?_, ?_⟩
    · change r.addr.toNat ≤ r.addr.toNat + r.size.toNat - 1
      omega
    · change r.addr.toNat + r.size.toNat - 1 < r.addr.toNat + r.size.toNat
      omega
  exact ⟨by omega, by omega⟩

theorem Holds.fits {ram : List RamEntry} {free : Set Nat} (h : Holds ram free) :
    ∀ r ∈ ram, r.Fits :=
  fits_of_low h.normal.lt fun x hx => h.low x (h.covers ▸ hx)

/-! ## Adding -/

theorem insertRam_spans (new : RamEntry) {ram : List RamEntry} (h : ∀ r ∈ ram, r.Fits) :
    (insertRam new ram).map RamEntry.span = insertByLo new.span (ram.map RamEntry.span) := by
  induction ram with
  | nil => rfl
  | cons r ram ih =>
      have hr := h r List.mem_cons_self
      have hlt : (r.size = 0 ∨ new.addr < r.addr) ↔ new.span.lo < r.span.lo :=
        ⟨fun hor => hor.resolve_left hr.size_ne, .inr⟩
      unfold insertRam
      rw [List.map_cons, insertByLo]
      simp only [hlt]
      split
      · rfl
      · rw [List.map_cons, ih fun q hq => h q (List.mem_cons_of_mem _ hq)]

/-- The entry that `add_mem` makes of two that meet. -/
theorem merged_span {p r : RamEntry} (hp : p.Fits) (hr : r.Fits) :
    let e := if p.addr + p.size < r.addr + r.size then r.addr + r.size else p.addr + p.size
    (RamEntry.mk p.addr (e - p.addr)).Fits ∧
      (RamEntry.mk p.addr (e - p.addr)).span = ⟨p.span.lo, max p.span.hi r.span.hi⟩ := by
  intro e
  have he : e.toNat = max p.span.hi r.span.hi := by
    have hlt : p.addr + p.size < r.addr + r.size ↔ p.span.hi < r.span.hi := by
      rw [BitVec.lt_def, hp.stop, hr.stop]
      rfl
    by_cases hc : p.addr + p.size < r.addr + r.size
    · have hmax : max p.span.hi r.span.hi = r.span.hi := max_eq_right (le_of_lt (hlt.mp hc))
      rw [hmax]
      simp only [e, if_pos hc]
      exact hr.stop
    · have hmax : max p.span.hi r.span.hi = p.span.hi :=
        max_eq_left (le_of_not_gt fun hgt => hc (hlt.mpr hgt))
      rw [hmax]
      simp only [e, if_neg hc]
      exact hp.stop
  have hle : p.span.hi ≤ max p.span.hi r.span.hi := le_max_left _ _
  have hpos := hp.pos
  have hspan : p.addr.toNat + p.size.toNat = p.span.hi := rfl
  have hsub : (e - p.addr).toNat = max p.span.hi r.span.hi - p.addr.toNat := by
    rw [BitVec.toNat_sub_of_le (BitVec.le_def.mpr (by omega)), he]
  have htop : max p.span.hi r.span.hi ≤ ramTop := max_le hp.top hr.top
  refine ⟨⟨?_, ?_⟩, ?_⟩
  · change 0 < (e - p.addr).toNat
    omega
  · change p.addr.toNat + (e - p.addr).toNat ≤ ramTop
    omega
  · have hhi : p.addr.toNat + (e - p.addr).toNat = max p.span.hi r.span.hi := by omega
    exact congrArg (Span.mk p.addr.toNat) hhi

theorem coalesceRam_spans {p : RamEntry} {ram : List RamEntry} (hp : p.Fits)
    (h : ∀ r ∈ ram, r.Fits) :
    (coalesceRam p ram).map RamEntry.span = coalesce p.span (ram.map RamEntry.span) := by
  induction ram generalizing p with
  | nil => rfl
  | cons r ram ih =>
      have hr := h r List.mem_cons_self
      have hrest : ∀ q ∈ ram, q.Fits := fun q hq => h q (List.mem_cons_of_mem _ hq)
      have hmeet : r.addr ≤ p.addr + p.size ↔ r.span.lo ≤ p.span.hi := by
        rw [BitVec.le_def, hp.stop]
        rfl
      unfold coalesceRam
      rw [if_neg hr.size_ne, List.map_cons, coalesce]
      simp only [hmeet]
      split
      · obtain ⟨hfits, hspan⟩ := merged_span hp hr
        rw [ih hfits hrest, hspan]
      · rw [List.map_cons, ih hr hrest]

theorem addMem_error {start size : Paddr} {ram : List RamEntry} {c : Crash}
    (h : addMem start size ram = .error c) : c = .ramOverflow ∧ 191 ≤ ram.length := by
  unfold addMem at h
  split at h
  · cases h
  · split at h
    · next hfull =>
      cases h
      unfold ramListSize maxRamListSize entrySize at hfull
      exact ⟨rfl, by omega⟩
    · split at h <;> cases h

/-- A range that fits is added, unless the array is full. -/
theorem addMem_holds {ram : List RamEntry} {free : Set Nat} (h : Holds ram free)
    {start size : Paddr} (hfit : start.toNat + size.toNat ≤ ramTop) :
    (addMem start size ram = .error .ramOverflow ∧ size ≠ 0 ∧ 191 ≤ ram.length) ∨
      ∃ ram', addMem start size ram = .ok ram' ∧ Holds ram' (block start size ∪ free) := by
  unfold addMem
  by_cases hsize : size = 0
  · rw [if_pos hsize]
    refine .inr ⟨ram, rfl, ?_⟩
    have hempty : block start size = ∅ := by
      rw [hsize]
      exact Set.Ico_self _
    rw [hempty, Set.empty_union]
    exact h
  · rw [if_neg hsize]
    by_cases hfull : maxRamListSize - entrySize < ramListSize ram
    · rw [if_pos hfull]
      refine .inl ⟨rfl, hsize, ?_⟩
      unfold ramListSize maxRamListSize entrySize at hfull
      omega
    · rw [if_neg hfull]
      right
      have hpos : 0 < size.toNat := Nat.pos_of_ne_zero fun hz => hsize (BitVec.eq_of_toNat_eq hz)
      have hnew : (RamEntry.mk start size).Fits := ⟨hpos, hfit⟩
      have hlt : (RamEntry.mk start size).span.lo < (RamEntry.mk start size).span.hi :=
        Nat.lt_add_of_pos_right hpos
      have hspans := insertRam_spans ⟨start, size⟩ h.fits
      have hlow : ∀ x ∈ block start size ∪ free, x < ramTop := by
        rintro x (hx | hx)
        · exact lt_of_lt_of_le hx.2 hfit
        · exact h.low x hx
      have hcovers := h.normal.covered_add hlt
      rw [h.covers] at hcovers
      have hinserted : ∀ r ∈ insertRam ⟨start, size⟩ ram, r.Fits := by
        apply fits_of_low
        · rw [hspans]
          exact (h.normal.ordered.insertByLo hlt).lt
        · rw [hspans, covered_insertByLo, h.covers]
          exact hlow
      have hall : Span.add (RamEntry.mk start size).span (ram.map RamEntry.span) =
          coalesceAll ((insertRam ⟨start, size⟩ ram).map RamEntry.span) :=
        congrArg coalesceAll hspans.symm
      cases hins : insertRam ⟨start, size⟩ ram with
      | nil =>
          rw [hins] at hall
          refine ⟨[], rfl, ?_, ?_, hlow⟩
          · exact normal_nil
          · rw [hall] at hcovers
            exact hcovers
      | cons p rest =>
          rw [hins] at hall hinserted
          have hcoalesced := coalesceRam_spans (hinserted p List.mem_cons_self)
            fun r hr => hinserted r (List.mem_cons_of_mem _ hr)
          have hsame : (coalesceRam p rest).map RamEntry.span =
              Span.add (RamEntry.mk start size).span (ram.map RamEntry.span) :=
            hcoalesced.trans hall.symm
          refine ⟨coalesceRam p rest, rfl, ?_, ?_, hlow⟩
          · rw [hsame]
            exact h.normal.add hlt
          · rw [hsame]
            exact hcovers

/-! ## Taking -/

/-- The block meets the entry, or ends where it starts. -/
def Meets (a b : Nat) (r : RamEntry) : Prop :=
  (a ≤ r.span.lo ∧ r.span.lo < b) ∨ (r.span.lo ≤ a ∧ a < r.span.hi) ∨
    (r.span.lo ≤ b ∧ b < r.span.hi)

instance (a b : Nat) (r : RamEntry) : Decidable (Meets a b r) :=
  inferInstanceAs (Decidable (_ ∨ _))

def front (addr : Paddr) (r : RamEntry) : RamEntry := ⟨r.addr, addr - r.addr⟩

def back (stop : Paddr) (r : RamEntry) : RamEntry := ⟨stop, r.addr + r.size - stop⟩

theorem front_span (addr : Paddr) {r : RamEntry} (h : r.span.lo ≤ addr.toNat) :
    (front addr r).span = ⟨r.span.lo, addr.toNat⟩ := by
  have hlo : r.addr.toNat ≤ addr.toNat := h
  have hsub : (addr - r.addr).toNat = addr.toNat - r.addr.toNat :=
    BitVec.toNat_sub_of_le (BitVec.le_def.mpr hlo)
  have hhi : r.addr.toNat + (addr - r.addr).toNat = addr.toNat := by omega
  exact congrArg (Span.mk r.addr.toNat) hhi

theorem back_span {stop : Paddr} {r : RamEntry} (hr : r.Fits) (h : stop.toNat ≤ r.span.hi) :
    (back stop r).span = ⟨stop.toNat, r.span.hi⟩ := by
  have hstop := hr.stop
  have hle : stop.toNat ≤ r.addr.toNat + r.size.toNat := h
  have hsub : (r.addr + r.size - stop).toNat = (r.addr + r.size).toNat - stop.toNat :=
    BitVec.toNat_sub_of_le (BitVec.le_def.mpr (hstop ▸ hle))
  have hhi : stop.toNat + (r.addr + r.size - stop).toNat = r.addr.toNat + r.size.toNat := by
    omega
  exact congrArg (Span.mk stop.toNat) hhi

/-- One turn of the loop, by where the block `[a, b)` lies. -/
theorem allocLoop_cons {addr stop : Paddr} {r : RamEntry} (hr : r.Fits) (fuel : Nat)
    (passed ram : List RamEntry) :
    allocLoop addr stop (fuel + 1) passed (r :: ram) =
      if Meets addr.toNat stop.toNat r then
        if addr.toNat ≤ r.span.lo then
          if r.span.hi ≤ stop.toNat then allocLoop addr stop fuel passed ram
          else allocLoop addr stop fuel (passed ++ [back stop r]) ram
        else if r.span.hi ≤ stop.toNat then
          allocLoop addr stop fuel (passed ++ [front addr r]) ram
        else
          match addMem stop (r.addr + r.size - stop) (passed ++ front addr r :: ram) with
          | .error c => .error c
          | .ok all => allocLoop addr stop fuel (all.take (passed.length + 1))
              (all.drop (passed.length + 1))
      else allocLoop addr stop fuel (passed ++ [r]) ram := by
  have hmeets : ((addr ≤ r.addr ∧ r.addr < stop) ∨ (r.addr ≤ addr ∧ addr < r.addr + r.size) ∨
      (r.addr ≤ stop ∧ stop < r.addr + r.size)) ↔ Meets addr.toNat stop.toNat r := by
    simp only [BitVec.le_def, BitVec.lt_def, hr.stop]
    rfl
  rw [allocLoop, if_neg hr.size_ne]
  have hstop : (r.addr + r.size).toNat = r.span.hi := hr.stop
  have hstart : r.addr.toNat = r.span.lo := rfl
  have hlow : addr.toNat ≤ r.span.lo → (if addr < r.addr then addr else r.addr) = addr := by
    intro hle
    split
    · rfl
    · next hge =>
      have hback := BitVec.le_def.mp (BitVec.not_lt.mp hge)
      exact BitVec.eq_of_toNat_eq (by omega)
  have hhigh : r.span.hi ≤ stop.toNat →
      (if r.addr + r.size < stop then stop else r.addr + r.size) = stop := by
    intro hle
    split
    · rfl
    · next hge =>
      have hback := BitVec.le_def.mp (BitVec.not_lt.mp hge)
      exact BitVec.eq_of_toNat_eq (by omega)
  simp only [hmeets]
  split
  · by_cases hlo : addr.toNat ≤ r.span.lo
    · rw [if_pos hlo, hlow hlo]
      by_cases hhi : r.span.hi ≤ stop.toNat
      · rw [if_pos hhi, hhigh hhi, if_pos ⟨rfl, rfl⟩]
      · have hlt : ¬ r.addr + r.size < stop := by
          rw [BitVec.lt_def]
          omega
        have hne : stop ≠ r.addr + r.size := by
          rintro rfl
          omega
        rw [if_neg hhi, if_neg hlt, if_neg fun h => hne h.2, if_pos rfl]
        rfl
    · have hlt : ¬ addr < r.addr := by
        rw [BitVec.lt_def]
        omega
      have hne : addr ≠ r.addr := by
        rintro rfl
        exact hlo (Nat.le_refl _)
      rw [if_neg hlo, if_neg hlt, if_neg fun h => hne h.1, if_neg hne]
      by_cases hhi : r.span.hi ≤ stop.toNat
      · rw [if_pos hhi, hhigh hhi, if_neg fun h => h rfl]
        rfl
      · have hnl : ¬ r.addr + r.size < stop := by
          rw [BitVec.lt_def]
          omega
        have hne' : r.addr + r.size ≠ stop := by
          rintro rfl
          omega
        rw [if_neg hhi, if_neg hnl, if_pos hne']
        rfl
  · rfl

/-- Entries from the end of the block on are passed, the first one maybe by way of
being cut at its own start. -/
theorem allocLoop_above {addr stop : Paddr} (hab : addr.toNat ≤ stop.toNat)
    {ram : List RamEntry} (hfits : ∀ r ∈ ram, r.Fits) (habove : ∀ r ∈ ram, stop.toNat ≤ r.span.lo)
    {fuel : Nat} (hfuel : ram.length < fuel) (passed : List RamEntry) :
    allocLoop addr stop fuel passed ram = .ok (passed ++ ram) := by
  induction ram generalizing fuel passed with
  | nil =>
      obtain ⟨fuel, rfl⟩ := Nat.exists_eq_succ_of_ne_zero (Nat.ne_of_gt hfuel)
      rw [List.append_nil]
      rfl
  | cons r ram ih =>
      obtain ⟨fuel, rfl⟩ := Nat.exists_eq_succ_of_ne_zero (Nat.ne_of_gt (Nat.lt_of_le_of_lt
        (Nat.zero_le _) hfuel))
      have hr := hfits r List.mem_cons_self
      have hlo := habove r List.mem_cons_self
      have hlt : r.span.lo < r.span.hi := Nat.lt_add_of_pos_right hr.pos
      have hnext := ih (fun q hq => hfits q (List.mem_cons_of_mem _ hq))
        (fun q hq => habove q (List.mem_cons_of_mem _ hq)) (Nat.lt_of_succ_lt_succ hfuel)
        (passed ++ [r])
      rw [List.append_assoc, List.singleton_append] at hnext
      rw [allocLoop_cons hr]
      split
      · next hmeets =>
        have hsame : back stop r = r := by
          have hstop : stop.toNat = r.span.lo := by
            unfold Meets at hmeets
            omega
          apply RamEntry.span_injective
          rw [back_span hr (by omega), hstop]
        rw [if_pos (by omega), if_neg (by omega), hsame]
        exact hnext
      · exact hnext

variable {addr stop : Paddr}

theorem normal_middle {l m : List RamEntry} {r r' : RamEntry}
    (h : Normal ((l ++ r :: m).map RamEntry.span)) (hlo : r.span.lo ≤ r'.span.lo)
    (hlt : r'.span.lo < r'.span.hi) (hhi : r'.span.hi ≤ r.span.hi) :
    Normal ((l ++ r' :: m).map RamEntry.span) := by
  rw [List.map_append, List.map_cons] at h ⊢
  obtain ⟨-, hgap, hm⟩ := normal_cons.mp h.right
  apply h.replace
  · exact normal_cons.mpr ⟨hlt, fun q hq => lt_of_le_of_lt hhi (hgap q hq), hm⟩
  · rw [covered_cons, covered_cons]
    exact Set.union_subset_union_left _ (Set.Ico_subset_Ico hlo hhi)

theorem split_list {passed ram : List RamEntry} {r : RamEntry} {free : Set Nat}
    (h : Holds (passed ++ r :: ram) free) (hab : addr.toNat ≤ stop.toNat)
    (hlo : r.span.lo < addr.toNat) (hhi : stop.toNat < r.span.hi) {all : List RamEntry}
    (hall : addMem stop (r.addr + r.size - stop) (passed ++ front addr r :: ram) = .ok all) :
    Holds all (covered (all.map RamEntry.span)) ∧ all = if addr.toNat = stop.toNat then passed ++ r :: ram
      else passed ++ front addr r :: back stop r :: ram := by
  have hr := h.fits r (by simp)
  have hfront := front_span addr (r := r) (Nat.le_of_lt hlo)
  have hback := back_span hr (Nat.le_of_lt hhi)
  have hnormal : Normal ((passed ++ front addr r :: ram).map RamEntry.span) := by
    apply normal_middle h.normal <;> rw [hfront]
    · exact hlo
    · exact Nat.le_trans hab (Nat.le_of_lt hhi)
  have hcov : covered ((passed ++ r :: ram).map RamEntry.span) = free := h.covers
  have hlow : ∀ x ∈ covered ((passed ++ front addr r :: ram).map RamEntry.span), x < ramTop := by
    intro x hx
    apply h.low
    rw [← hcov]
    simp only [List.map_append, List.map_cons, covered_append, covered_cons, hfront] at hx ⊢
    refine hx.imp_right (Or.imp_left fun hin => ⟨hin.1, ?_⟩)
    exact Nat.lt_of_lt_of_le hin.2 (Nat.le_trans hab (Nat.le_of_lt hhi))
  have hspan : stop.toNat + (r.addr + r.size - stop).toNat = r.span.hi := congrArg Span.hi hback
  have hfit : stop.toNat + (r.addr + r.size - stop).toNat ≤ ramTop := by
    rw [hspan]
    exact hr.top
  rcases addMem_holds ⟨hnormal, rfl, hlow⟩ hfit with ⟨herror, -⟩ | ⟨ram', hram', hholds⟩
  · rw [hall] at herror
    cases herror
  · rw [hall] at hram'
    cases hram'
    refine ⟨⟨hholds.normal, rfl, hholds.covers ▸ hholds.low⟩, hholds.unique ?_⟩
    have hblock : block stop (r.addr + r.size - stop) = Set.Ico stop.toNat r.span.hi := by
      unfold block
      rw [hspan]
    rw [hblock] at hholds ⊢
    refine ⟨?_, ?_, hholds.low⟩
    · split
      · exact h.normal
      · next hne =>
        have hfirst : Normal ((passed ++ r :: ram).map RamEntry.span) := h.normal
        rw [List.map_append, List.map_cons] at hfirst ⊢
        obtain ⟨-, hgap, hm⟩ := normal_cons.mp hfirst.right
        have hb : Normal (back stop r :: ram |>.map RamEntry.span) := by
          rw [List.map_cons, hback]
          exact normal_cons.mpr ⟨hhi, hgap, hm⟩
        have htail : Normal ((front addr r :: back stop r :: ram).map RamEntry.span) := by
          rw [List.map_cons, hfront]
          refine normal_cons.mpr ⟨hlo, fun q hq => ?_, hb⟩
          rw [List.map_cons, hback] at hq
          have hlt : addr.toNat < stop.toNat := Nat.lt_of_le_of_ne hab hne
          rcases List.mem_cons.mp hq with rfl | hq
          · exact hlt
          · exact Nat.lt_trans (Nat.lt_trans hlt hhi) (hgap q hq)
        apply hfirst.replace htail
        simp only [List.map_cons, covered_cons, hfront, hback]
        rw [← Set.union_assoc]
        apply Set.union_subset_union_left
        apply Set.union_subset
        · exact Set.Ico_subset_Ico_right (Nat.le_trans hab (Nat.le_of_lt hhi))
        · exact Set.Ico_subset_Ico_left (Nat.le_trans (Nat.le_of_lt hlo) hab)
    · ext x
      split
      · next heq =>
        have hsplit : x ∈ Set.Ico r.span.lo r.span.hi ↔
            x ∈ Set.Ico r.span.lo addr.toNat ∨ x ∈ Set.Ico stop.toNat r.span.hi := by
          simp only [Set.mem_Ico]
          omega
        simp only [List.map_append, List.map_cons, covered_append, covered_cons, hfront,
          Set.mem_union, hsplit]
        tauto
      · simp only [List.map_append, List.map_cons, covered_append, covered_cons, hfront, hback,
          Set.mem_union]
        tauto

theorem allocLoop_split {passed ram : List RamEntry} {r : RamEntry} {free : Set Nat}
    (h : Holds (passed ++ r :: ram) free) (hab : addr.toNat ≤ stop.toNat)
    (hlo : r.span.lo < addr.toNat) (hhi : stop.toNat < r.span.hi) {all : List RamEntry}
    (hall : addMem stop (r.addr + r.size - stop) (passed ++ front addr r :: ram) = .ok all)
    {fuel : Nat} (hfuel : ram.length + 1 < fuel) :
    ∃ rest, allocLoop addr stop fuel (all.take (passed.length + 1))
        (all.drop (passed.length + 1)) = .ok (passed ++ rest) ∧
      Normal (rest.map RamEntry.span) ∧
      covered (rest.map RamEntry.span) =
        covered ((r :: ram).map RamEntry.span) \ Set.Ico addr.toNat stop.toNat := by
  have hr := h.fits r (by simp)
  have hnormal : Normal ((r :: ram).map RamEntry.span) := by
    have hfirst := h.normal
    rw [List.map_append] at hfirst
    exact hfirst.right
  have hgap : ∀ q ∈ ram, r.span.hi < q.span.lo := fun q hq =>
    (normal_cons.mp hnormal).2.1 q.span (List.mem_map_of_mem hq)
  have hback := back_span hr (Nat.le_of_lt hhi)
  have hfront := front_span addr (r := r) (Nat.le_of_lt hlo)
  obtain ⟨hholds, hlist⟩ := split_list h hab hlo hhi hall
  -- the loop passes everything from the end of the block on
  have hpass : ∀ l, all.drop (passed.length + 1) = l → l.length ≤ ram.length + 1 →
      (∀ q ∈ l, stop.toNat ≤ q.span.lo) →
      allocLoop addr stop fuel (all.take (passed.length + 1)) (all.drop (passed.length + 1)) =
        .ok all := by
    intro l hl hlen habove
    have hfits : ∀ q ∈ l, q.Fits := fun q hq => hholds.fits q (List.mem_of_mem_drop (hl ▸ hq))
    have hdone := allocLoop_above hab hfits habove (Nat.lt_of_le_of_lt hlen hfuel)
      (all.take (passed.length + 1))
    rw [← hl, List.take_append_drop] at hdone
    exact hdone
  have hall' := hholds.normal
  by_cases hempty : addr.toNat = stop.toNat
  · rw [if_pos hempty] at hlist
    subst hlist
    refine ⟨r :: ram, hpass ram (by simp) (Nat.le_succ _) fun q hq => ?_, hnormal, ?_⟩
    · exact Nat.le_of_lt (Nat.lt_trans hhi (hgap q hq))
    · rw [hempty, Set.Ico_self, Set.sdiff_empty]
  · rw [if_neg hempty] at hlist
    subst hlist
    refine ⟨front addr r :: back stop r :: ram, hpass (back stop r :: ram) (by simp) ?_
      fun q hq => ?_, ?_, ?_⟩
    · exact Nat.le_refl _
    · rcases List.mem_cons.mp hq with rfl | hq
      · rw [hback]
      · exact Nat.le_of_lt (Nat.lt_trans hhi (hgap q hq))
    · rw [List.map_append] at hall'
      exact hall'.right
    · have hbehind : ∀ x ∈ covered (ram.map RamEntry.span), stop.toNat ≤ x := fun x hx =>
        Nat.le_of_lt (Nat.lt_trans hhi (hnormal.behind hx))
      simp only [List.map_cons, covered_cons, hfront, hback]
      ext x
      have hx := hbehind x
      simp only [Set.mem_union, Set.mem_sdiff, Set.mem_Ico]
      by_cases hc : x ∈ covered (ram.map RamEntry.span)
      · simp only [hc, or_true, true_and]
        have := hx hc
        exact ⟨fun _ => by omega, fun _ => trivial⟩
      · simp only [hc, or_false]
        omega

/-- Taking a block leaves what was free outside it; an array that is full can stop a
block inside one entry. -/
theorem allocLoop_holds (hab : addr.toNat ≤ stop.toNat) (passed : List RamEntry)
    {ram : List RamEntry} {free : Set Nat} (h : Holds (passed ++ ram) free) {fuel : Nat} (hfuel : ram.length + 1 < fuel) :
    (allocLoop addr stop fuel passed ram = .error .ramOverflow ∧
      191 ≤ (passed ++ ram).length) ∨
      ∃ rest, allocLoop addr stop fuel passed ram = .ok (passed ++ rest) ∧
        Normal (rest.map RamEntry.span) ∧
        covered (rest.map RamEntry.span) =
          covered (ram.map RamEntry.span) \ Set.Ico addr.toNat stop.toNat := by
  induction ram generalizing passed free fuel with
  | nil =>
      obtain ⟨fuel, rfl⟩ := Nat.exists_eq_succ_of_ne_zero (Nat.ne_of_gt (Nat.zero_lt_of_lt hfuel))
      refine .inr ⟨[], ?_, normal_nil, ?_⟩
      · rw [List.append_nil]
        rfl
      · rw [List.map_nil, covered_nil, Set.empty_sdiff]
  | cons r ram ih =>
      obtain ⟨fuel, rfl⟩ := Nat.exists_eq_succ_of_ne_zero (Nat.ne_of_gt (Nat.zero_lt_of_lt hfuel))
      have hfuel : ram.length + 1 < fuel := Nat.lt_of_succ_lt_succ hfuel
      have hr := h.fits r (by simp)
      have hnormal : Normal ((r :: ram).map RamEntry.span) := by
        have hall := h.normal
        rw [List.map_append] at hall
        exact hall.right
      have hram := (normal_cons.mp hnormal).2.2
      have hlen : ∀ r' : RamEntry, ((passed ++ [r']) ++ ram).length = (passed ++ r :: ram).length :=
        fun _ => by simp
      -- what is left of the entry is one piece, and the loop goes on behind it
      have hkeep : ∀ r' : RamEntry, r.span.lo ≤ r'.span.lo → r'.span.lo < r'.span.hi →
          r'.span.hi ≤ r.span.hi →
          Set.Ico r'.span.lo r'.span.hi =
            Set.Ico r.span.lo r.span.hi \ Set.Ico addr.toNat stop.toNat →
          (allocLoop addr stop fuel (passed ++ [r']) ram = .error .ramOverflow ∧
            191 ≤ (passed ++ r :: ram).length) ∨
          ∃ rest, allocLoop addr stop fuel (passed ++ [r']) ram = .ok (passed ++ rest) ∧
            Normal (rest.map RamEntry.span) ∧
            covered (rest.map RamEntry.span) =
              covered ((r :: ram).map RamEntry.span) \ Set.Ico addr.toNat stop.toNat := by
        intro r' hlo hlt hhi hpiece
        have hnew := normal_middle h.normal hlo hlt hhi
        have hsub : ∀ x ∈ covered ((passed ++ r' :: ram).map RamEntry.span), x < ramTop := by
          intro x hx
          apply h.low
          rw [← h.covers]
          simp only [List.map_append, List.map_cons, covered_append, covered_cons] at hx ⊢
          exact hx.imp_right (Or.imp_left fun hin => Set.Ico_subset_Ico hlo hhi hin)
        have hlist : (passed ++ [r']) ++ ram = passed ++ r' :: ram := by simp
        have hholds : Holds ((passed ++ [r']) ++ ram) _ := ⟨hlist ▸ hnew, rfl, hlist ▸ hsub⟩
        rcases ih _ hholds hfuel with ⟨herror, hfull⟩ | ⟨rest, hok, hrest, hcov⟩
        · exact .inl ⟨herror, hlen r' ▸ hfull⟩
        · refine .inr ⟨r' :: rest, ?_, ?_, ?_⟩
          · rw [hok]
            simp
          · rw [List.map_cons]
            have hone : Normal ([r'.span] ++ ram.map RamEntry.span) :=
              normal_cons.mpr ⟨hlt, fun q hq =>
                lt_of_le_of_lt hhi ((normal_cons.mp hnormal).2.1 q hq), hram⟩
            exact hone.replace hrest (hcov ▸ Set.sdiff_subset)
          · rw [List.map_cons, covered_cons, hcov, hpiece, List.map_cons, covered_cons,
              Set.union_sdiff_distrib]
      have hlt : r.span.lo < r.span.hi := Nat.lt_add_of_pos_right hr.pos
      rw [allocLoop_cons hr]
      by_cases hmeets : Meets addr.toNat stop.toNat r
      · rw [if_pos hmeets]
        unfold Meets at hmeets
        by_cases hlo : addr.toNat ≤ r.span.lo
        · rw [if_pos hlo]
          by_cases hhi : r.span.hi ≤ stop.toNat
          · rw [if_pos hhi]
            have hsub : covered (ram.map RamEntry.span) ⊆ covered ((r :: ram).map RamEntry.span) :=
              Set.subset_union_right.trans_eq (covered_cons _ _).symm
            have hrest : Holds (passed ++ ram) (covered ((passed ++ ram).map RamEntry.span)) := by
              refine ⟨?_, rfl, fun x hx => h.low x ?_⟩
              · have hall := h.normal
                rw [List.map_append] at hall ⊢
                exact hall.replace hram hsub
              · rw [← h.covers]
                rw [List.map_append, covered_append] at hx ⊢
                exact hx.imp_right fun hin => hsub hin
            have hless : (passed ++ ram).length ≤ (passed ++ r :: ram).length := by simp
            rcases ih _ hrest hfuel with ⟨herror, hfull⟩ | ⟨rest, hok, hnew, hcov⟩
            · exact .inl ⟨herror, Nat.le_trans hfull hless⟩
            · refine .inr ⟨rest, hok, hnew, ?_⟩
              rw [hcov, List.map_cons, covered_cons, Set.union_sdiff_distrib,
                Set.sdiff_eq_empty.mpr (Set.Ico_subset_Ico hlo hhi), Set.empty_union]
          · rw [if_neg hhi]
            have hback := back_span hr (Nat.le_of_lt (Nat.lt_of_not_le hhi))
            apply hkeep <;> rw [hback]
            · dsimp only
              omega
            · exact Nat.lt_of_not_le hhi
            · ext x
              simp only [Set.mem_Ico, Set.mem_sdiff]
              omega
        · rw [if_neg hlo]
          by_cases hhi : r.span.hi ≤ stop.toNat
          · rw [if_pos hhi]
            have hfront := front_span addr (r := r) (by omega)
            apply hkeep <;> rw [hfront]
            · dsimp only
              omega
            · dsimp only
              omega
            · ext x
              simp only [Set.mem_Ico, Set.mem_sdiff]
              omega
          · rw [if_neg hhi]
            have hlo : r.span.lo < addr.toNat := Nat.lt_of_not_le hlo
            have hhi : stop.toNat < r.span.hi := Nat.lt_of_not_le hhi
            cases hadd : addMem stop (r.addr + r.size - stop) (passed ++ front addr r :: ram) with
            | error c =>
                obtain ⟨rfl, hfull⟩ := addMem_error hadd
                exact .inl ⟨rfl, by simpa using hfull⟩
            | ok all =>
                exact .inr (allocLoop_split h hab hlo hhi hadd hfuel)
      · rw [if_neg hmeets]
        apply hkeep r (le_refl _) hlt (le_refl _)
        ext x
        unfold Meets at hmeets
        simp only [Set.mem_Ico, Set.mem_sdiff]
        omega

/-- A block that does not wrap is taken, unless the array is full. -/
theorem takeRam_holds {ram : List RamEntry} {free : Set Nat} (h : Holds ram free)
    {addr size : Paddr} (hfit : addr.toNat + size.toNat < 2 ^ 64) :
    (takeRam addr size ram = .error .ramOverflow ∧ 191 ≤ ram.length) ∨
      ∃ ram', takeRam addr size ram = .ok ram' ∧ Holds ram' (free \ block addr size) := by
  have hstop : (addr + size).toNat = addr.toNat + size.toNat := by
    rw [BitVec.toNat_add]
    exact Nat.mod_eq_of_lt hfit
  have hle : addr.toNat ≤ (addr + size).toNat := by omega
  have hloop := allocLoop_holds hle [] h (Nat.lt_succ_self (ram.length + 1))
  rw [List.nil_append] at hloop
  rcases hloop with herror | ⟨rest, hok, hnormal, hcov⟩
  · exact .inl herror
  · refine .inr ⟨rest, hok, hnormal, ?_, fun x hx => h.low x hx.1⟩
    rw [hcov, h.covers, hstop]
    rfl

end QnxHypervisor.BootMemory
