import Mathlib.Data.List.TakeWhile
import QnxHypervisor.BootMemory.RamSpans

/-! # What a search finds

A search trims each entry of the list by every range to avoid, keeping the larger side
of a range in the middle, and takes the first piece with room, or the last. What it
finds is free, aligned, and touches no range to avoid.
-/

namespace QnxHypervisor.BootMemory

open Foundation Foundation.Span

/-! ## Rounding -/

theorem trunc_eq_shift {x a : Paddr} {k : Nat} (hk : k < 64) (ha : a.toNat = 2 ^ k) :
    trunc x a = (x >>> k) <<< k := by
  have hone : a - 1 = BitVec.ofNat 64 (2 ^ k - 1) := by
    apply BitVec.eq_of_toNat_eq
    have hlt : 2 ^ k < 2 ^ 64 := Nat.pow_lt_pow_right (by decide) hk
    have hpos := Nat.two_pow_pos k
    have hle : (1 : Paddr) ≤ a := BitVec.le_def.mpr (by rw [ha]; exact hpos)
    rw [BitVec.toNat_sub_of_le hle, ha, BitVec.toNat_ofNat, Nat.mod_eq_of_lt (by omega)]
    rfl
  apply BitVec.eq_of_getLsbD_eq
  intro i hi
  unfold trunc
  rw [hone, BitVec.getLsbD_and, BitVec.getLsbD_not, BitVec.getLsbD_ofNat,
    Nat.testBit_two_pow_sub_one, BitVec.getLsbD_shiftLeft, BitVec.getLsbD_ushiftRight]
  by_cases hik : i < k
  · simp [hi, hik]
  · have hsub : k + (i - k) = i := by omega
    simp [hi, hik, hsub]

theorem trunc_toNat {x a : Paddr} {k : Nat} (hk : k < 64) (ha : a.toNat = 2 ^ k) :
    (trunc x a).toNat = x.toNat / 2 ^ k * 2 ^ k := by
  have hle : x.toNat / 2 ^ k * 2 ^ k ≤ x.toNat := Nat.div_mul_le_self _ _
  rw [trunc_eq_shift hk ha, BitVec.toNat_shiftLeft, BitVec.toNat_ushiftRight,
    Nat.shiftRight_eq_div_pow, Nat.shiftLeft_eq]
  exact Nat.mod_eq_of_lt (Nat.lt_of_le_of_lt hle x.isLt)

theorem round_toNat {x a : Paddr} {k : Nat} (hk : k < 64) (ha : a.toNat = 2 ^ k)
    (hx : x.toNat + 2 ^ k ≤ 2 ^ 64) :
    x.toNat ≤ (round x a).toNat ∧ (round x a).toNat < x.toNat + 2 ^ k ∧
      2 ^ k ∣ (round x a).toNat := by
  have hpos := Nat.two_pow_pos k
  have hle : (1 : Paddr) ≤ a := BitVec.le_def.mpr (by rw [ha]; exact hpos)
  have hsum : (x + (a - 1)).toNat = x.toNat + (2 ^ k - 1) := by
    have hone : (a - 1).toNat = 2 ^ k - 1 := by
      rw [BitVec.toNat_sub_of_le hle, ha]
      rfl
    rw [BitVec.toNat_add, hone]
    exact Nat.mod_eq_of_lt (by omega)
  unfold round
  rw [trunc_toNat hk ha, hsum]
  have hdiv := Nat.div_add_mod (x.toNat + (2 ^ k - 1)) (2 ^ k)
  have hmod := Nat.mod_lt (x.toNat + (2 ^ k - 1)) hpos
  rw [Nat.mul_comm] at hdiv
  exact ⟨by omega, by omega, Nat.dvd_mul_left _ _⟩

/-! ## Trimming -/

def AvoidEntry.range (a : AvoidEntry) : Set Nat := Set.Ico a.start.toNat a.stop.toNat

theorem fixSize_spec {p q : Paddr × Paddr} {a : AvoidEntry} (hp : p.1.toNat < p.2.toNat)
    (h : fixSize p a = some q) :
    p.1.toNat ≤ q.1.toNat ∧ q.1.toNat < q.2.toNat ∧ q.2.toNat ≤ p.2.toNat ∧
      Disjoint (Set.Ico q.1.toNat q.2.toNat) a.range := by
  obtain ⟨s, e⟩ := p
  have hpart : ∀ {b c : Paddr}, s.toNat ≤ b.toNat → b.toNat < c.toNat → c.toNat ≤ e.toNat →
      c.toNat ≤ a.start.toNat ∨ a.stop.toNat ≤ b.toNat →
      s.toNat ≤ b.toNat ∧ b.toNat < c.toNat ∧ c.toNat ≤ e.toNat ∧
        Disjoint (Set.Ico b.toNat c.toNat) a.range := by
    intro b c hb hbc hc hor
    refine ⟨hb, hbc, hc, Set.disjoint_left.mpr ?_⟩
    rintro x ⟨hlo, hhi⟩ ⟨hstart, hstop⟩
    omega
  unfold fixSize at h
  simp only [BitVec.le_def, BitVec.lt_def] at h
  dsimp only at hp
  split at h
  · next hclear =>
    cases h
    dsimp only
    exact hpart (Nat.le_refl _) hp (Nat.le_refl _) hclear.symm
  · next hmeet =>
    split at h
    · next hstart =>
      split at h
      · cases h
      · next hend =>
        cases h
        dsimp only
        exact hpart (by omega) (by omega) (Nat.le_refl _) (.inr (Nat.le_refl _))
    · next hstart =>
      split at h
      · cases h
        dsimp only
        exact hpart (Nat.le_refl _) (by omega) (by omega) (.inl (Nat.le_refl _))
      · next hend =>
        have hfront : (a.start - s).toNat = a.start.toNat - s.toNat :=
          BitVec.toNat_sub_of_le (BitVec.le_def.mpr (by omega))
        have hback : (e - a.stop).toNat = e.toNat - a.stop.toNat :=
          BitVec.toNat_sub_of_le (BitVec.le_def.mpr (by omega))
        rw [hfront, hback] at h
        split at h
        · cases h
          dsimp only
          exact hpart (Nat.le_refl _) (by omega) (by omega) (.inl (Nat.le_refl _))
        · cases h
          dsimp only
          exact hpart (by omega) (by omega) (Nat.le_refl _) (.inr (Nat.le_refl _))

theorem foldSize_spec {avoid : List AvoidEntry} {p q : Paddr × Paddr}
    (hp : p.1.toNat < p.2.toNat) (h : avoid.foldlM fixSize p = some q) :
    p.1.toNat ≤ q.1.toNat ∧ q.1.toNat < q.2.toNat ∧ q.2.toNat ≤ p.2.toNat ∧
      ∀ a ∈ avoid, Disjoint (Set.Ico q.1.toNat q.2.toNat) a.range := by
  induction avoid generalizing p with
  | nil =>
      cases h
      exact ⟨Nat.le_refl _, hp, Nat.le_refl _, fun _ ha => absurd ha List.not_mem_nil⟩
  | cons a avoid ih =>
      rw [List.foldlM_cons] at h
      obtain ⟨m, hm, hrest⟩ := Option.bind_eq_some_iff.mp h
      obtain ⟨hlo, hlt, hhi, hapart⟩ := fixSize_spec hp hm
      obtain ⟨hlo', hlt', hhi', hapart'⟩ := ih hlt hrest
      refine ⟨Nat.le_trans hlo hlo', hlt', Nat.le_trans hhi' hhi, fun b hb => ?_⟩
      rcases List.mem_cons.mp hb with rfl | hb
      · exact hapart.mono_left (Set.Ico_subset_Ico hlo' hhi')
      · exact hapart' b hb

structure ClearPiece (avoid : List AvoidEntry) (r : RamEntry) (s e : Paddr) : Prop where
  lo : r.span.lo ≤ s.toNat
  lt : s.toNat < e.toNat
  hi : e.toNat ≤ r.span.hi
  apart : ∀ a ∈ liveAvoid avoid, Disjoint (Set.Ico s.toNat e.toNat) a.range

theorem piece_spec {avoid : List AvoidEntry} {r : RamEntry} (hr : r.Fits) {s e : Paddr}
    (h : piece avoid r = some (s, e)) : ClearPiece avoid r s e := by
  have hlt : r.addr.toNat < (r.addr + r.size).toNat := by
    rw [hr.stop]
    exact Nat.lt_add_of_pos_right hr.pos
  obtain ⟨hlo, hmid, hhi, hapart⟩ := foldSize_spec (p := (r.addr, r.addr + r.size)) hlt h
  exact ⟨hlo, hmid, Nat.le_trans hhi (Nat.le_of_eq hr.stop), hapart⟩

/-! ## From the bottom -/

structure Found (avoid : List AvoidEntry) (free : Set Nat) (addr size : Paddr) : Prop where
  free : block addr size ⊆ free
  apart : ∀ a ∈ liveAvoid avoid, Disjoint (block addr size) a.range

theorem ClearPiece.found {avoid : List AvoidEntry} {ram : List RamEntry} {free : Set Nat}
    (h : Holds ram free) {r : RamEntry} (hr : r ∈ ram) {s e addr size : Paddr}
    (hp : ClearPiece avoid r s e) (hlo : s.toNat ≤ addr.toNat)
    (hhi : addr.toNat + size.toNat ≤ e.toNat) : Found avoid free addr size where
  free := by
    rw [← h.covers]
    intro x hx
    refine ⟨r.span, List.mem_map_of_mem hr, ?_, ?_⟩
    · exact Nat.le_trans (Nat.le_trans hp.lo hlo) hx.1
    · exact Nat.lt_of_lt_of_le hx.2 (Nat.le_trans hhi hp.hi)
  apart a ha := (hp.apart a ha).mono_left (Set.Ico_subset_Ico hlo hhi)

theorem Holds.live {ram : List RamEntry} {free : Set Nat} (h : Holds ram free) :
    liveRam ram = ram := by
  refine List.takeWhile_eq_self_iff.mpr fun r hr => ?_
  exact bne_iff_ne.mpr (h.fits r hr).size_ne

/-- The search without colours. -/
def Wanted.Plain (w : Wanted) (k : Nat) : Prop :=
  w.align.toNat = 2 ^ k ∧ w.colour = 0 ∧ w.mask = 0

theorem Wanted.Plain.align {w : Wanted} {k : Nat} (h : w.Plain k) :
    k < 32 ∧ (w.align.setWidth 64).toNat = 2 ^ k := by
  have hlt := w.align.isLt
  rw [h.1] at hlt
  refine ⟨(Nat.pow_lt_pow_iff_right (by decide)).mp hlt, ?_⟩
  rw [BitVec.toNat_setWidth, h.1]
  exact Nat.mod_eq_of_lt (Nat.lt_trans hlt (by decide))

theorem inEntry_plain {w : Wanted} {k : Nat} (hw : w.Plain k) {avoid : List AvoidEntry}
    {r : RamEntry} :
    w.inEntry avoid r = (piece avoid r).bind fun p =>
      let addr := round p.1 (w.align.setWidth 64)
      let addr := if w.rangeStart ≠ 0 ∧ addr < w.rangeStart then w.rangeStart else addr
      let e := if w.rangeEnd ≠ 0 ∧ w.rangeEnd < p.2 then w.rangeEnd else p.2
      if e ≤ addr then none else if w.size ≤ e - addr then some addr else none := by
  obtain ⟨-, hcolour, hmask⟩ := hw
  unfold Wanted.inEntry
  simp [hcolour, hmask]

theorem findRamInRange_spec {w : Wanted} {k : Nat} (hw : w.Plain k) {avoid : List AvoidEntry}
    {ram : List RamEntry} {free : Set Nat} (h : Holds ram free) {addr : Paddr}
    (hfind : findRamInRange w avoid ram = some addr) :
    Found avoid free addr w.size ∧ w.rangeStart.toNat ≤ addr.toNat ∧
      (w.rangeEnd ≠ 0 → addr.toNat + w.size.toNat ≤ w.rangeEnd.toNat) ∧
      (2 ^ k ∣ addr.toNat ∨ addr = w.rangeStart) := by
  unfold findRamInRange at hfind
  rw [h.live] at hfind
  obtain ⟨r, hr, hin⟩ := List.exists_of_findSome?_eq_some hfind
  have hfits := h.fits r hr
  rw [inEntry_plain hw] at hin
  obtain ⟨⟨s, e⟩, hpiece, hroom⟩ := Option.bind_eq_some_iff.mp hin
  have hp := piece_spec hfits hpiece
  obtain ⟨hk, halign⟩ := hw.align
  have htop := hfits.top
  have hhi := hp.hi
  have hlt := hp.lt
  have hspan : r.span.hi = r.addr.toNat + r.size.toNat := rfl
  have hpow : 2 ^ k < 2 ^ 32 := Nat.pow_lt_pow_right (by decide) hk
  obtain ⟨hge, -, hdvd⟩ := round_toNat (x := s) (by omega) halign (by unfold ramTop at htop; omega)
  dsimp only at hroom
  generalize hstart : (if w.rangeStart ≠ 0 ∧ round s (w.align.setWidth 64) < w.rangeStart
    then w.rangeStart else round s (w.align.setWidth 64)) = start at hroom
  generalize hend : (if w.rangeEnd ≠ 0 ∧ w.rangeEnd < e then w.rangeEnd else e) = stop at hroom
  have hstop : stop.toNat ≤ e.toNat ∧ (w.rangeEnd ≠ 0 → stop.toNat ≤ w.rangeEnd.toNat) := by
    rw [← hend]
    split
    · next hc => exact ⟨Nat.le_of_lt (BitVec.lt_def.mp hc.2), fun _ => Nat.le_refl _⟩
    · next hc =>
      refine ⟨Nat.le_refl _, fun hne => ?_⟩
      exact Nat.le_of_not_lt fun hlt => hc ⟨hne, BitVec.lt_def.mpr hlt⟩
  have hbegin : s.toNat ≤ start.toNat ∧ w.rangeStart.toNat ≤ start.toNat ∧
      (2 ^ k ∣ start.toNat ∨ start = w.rangeStart) := by
    rw [← hstart]
    split
    · next hc =>
      exact ⟨Nat.le_trans hge (Nat.le_of_lt (BitVec.lt_def.mp hc.2)), Nat.le_refl _, .inr rfl⟩
    · next hc =>
      refine ⟨hge, ?_, .inl hdvd⟩
      by_cases hz : w.rangeStart = 0
      · rw [hz]
        exact Nat.zero_le _
      · exact Nat.le_of_not_lt fun hlt => hc ⟨hz, BitVec.lt_def.mpr hlt⟩
  split at hroom
  · cases hroom
  · next hnot =>
    split at hroom
    · next hsize =>
      cases hroom
      have hlt := BitVec.lt_def.mp (BitVec.not_le.mp hnot)
      have hsub : (stop - addr).toNat = stop.toNat - addr.toNat :=
        BitVec.toNat_sub_of_le (BitVec.le_def.mpr (Nat.le_of_lt hlt))
      have hfit := BitVec.le_def.mp hsize
      rw [hsub] at hfit
      refine ⟨hp.found h hr hbegin.1 (by omega), hbegin.2.1, fun hne => ?_, hbegin.2.2⟩
      have hrange := hstop.2 hne
      omega
    · cases hroom

theorem findRam_spec {size : Paddr} {align : BitVec 32} {k : Nat} (halign : align.toNat = 2 ^ k)
    {avoid : List AvoidEntry} {ram : List RamEntry} {free : Set Nat} (h : Holds ram free)
    {addr : Paddr} (hfind : findRam size align 0 0 avoid ram = some addr) :
    Found avoid free addr size ∧ 2 ^ k ∣ addr.toNat := by
  obtain ⟨hfound, -, -, hdvd⟩ := findRamInRange_spec (k := k) ⟨halign, rfl, rfl⟩ h hfind
  refine ⟨hfound, hdvd.elim id fun hzero => ?_⟩
  rw [hzero]
  exact Nat.dvd_zero _

/-! ## From the top -/

theorem topLoop_spec {size align limit : Paddr} (avoid : List AvoidEntry) {free : Set Nat}
    {all : List RamEntry} (h : Holds all free) {k : Nat} (hk : k < 64)
    (halign : align.toNat = 2 ^ k) (hlimit : size.toNat ≤ limit.toNat) {ram : List RamEntry}
    (hram : ∀ r ∈ ram, r ∈ all) (top : Paddr) :
    topLoop size align limit avoid top ram = top ∨
      Found avoid free (topLoop size align limit avoid top ram) size ∧
        (topLoop size align limit avoid top ram).toNat + size.toNat ≤ limit.toNat ∧
        (2 ^ k ∣ (topLoop size align limit avoid top ram).toNat ∨
          topLoop size align limit avoid top ram = limit - size) := by
  induction ram generalizing top with
  | nil => exact .inl rfl
  | cons r ram ih =>
      have hr := hram r List.mem_cons_self
      have hrest : ∀ q ∈ ram, q ∈ all := fun q hq => hram q (List.mem_cons_of_mem _ hq)
      have hskip := ih hrest top
      unfold topLoop
      split
      · exact hskip
      · next s e hpiece =>
        have hp := piece_spec (h.fits r hr) hpiece
        split
        · next hroom =>
          have hlt := hp.lt
          have hsub : (e - s).toNat = e.toNat - s.toNat :=
            BitVec.toNat_sub_of_le (BitVec.le_def.mpr (Nat.le_of_lt hlt))
          have hfit := BitVec.le_def.mp hroom
          rw [hsub] at hfit
          have hend : (e - size).toNat = e.toNat - size.toNat :=
            BitVec.toNat_sub_of_le (BitVec.le_def.mpr (by omega))
          have hne : align ≠ 0 := by
            rintro rfl
            exact Nat.ne_of_lt (Nat.two_pow_pos k) halign
          have htrunc := trunc_toNat (x := e - size) hk halign
          have hle := Nat.div_mul_le_self (e - size).toNat (2 ^ k)
          rw [if_pos hne]
          dsimp only
          generalize hchk : trunc (e - size) align = chk at htrunc ⊢
          by_cases hbetter : s ≤ chk ∧ top < chk
          · rw [if_pos hbetter]
            have hlo := BitVec.le_def.mp hbetter.1
            have hsum : (chk + size).toNat = chk.toNat + size.toNat := by
              have hmax := e.isLt
              rw [BitVec.toNat_add]
              exact Nat.mod_eq_of_lt (by omega)
            have hdvd : 2 ^ k ∣ chk.toNat := htrunc ▸ Nat.dvd_mul_left _ _
            by_cases hcut : limit ≤ chk + size
            · rw [if_pos hcut]
              have hcut := BitVec.le_def.mp hcut
              have hlast : (limit - size).toNat = limit.toNat - size.toNat :=
                BitVec.toNat_sub_of_le (BitVec.le_def.mpr hlimit)
              split
              · exact .inl rfl
              · next hge =>
                have hge := BitVec.le_def.mp (BitVec.not_lt.mp hge)
                exact .inr ⟨hp.found h hr hge (by omega), by omega, .inr rfl⟩
            · rw [if_neg hcut]
              have hbelow := BitVec.lt_def.mp (BitVec.not_le.mp hcut)
              right
              rcases ih hrest chk with heq | hfound
              · rw [heq]
                exact ⟨hp.found h hr hlo (by omega), by omega, .inl hdvd⟩
              · exact hfound
          · rw [if_neg hbetter]
            exact hskip
        · exact hskip

theorem findTop_spec {size limit : Paddr} {align pagesize : BitVec 32} {k : Nat}
    (halign : align.toNat = 2 ^ k) {avoid : List AvoidEntry} {ram : List RamEntry}
    {free : Set Nat} (h : Holds ram free)
    (hlimit : (round size (pagesize.setWidth 64)).toNat ≤ limit.toNat) {addr : Paddr}
    (hfind : findTopRamAlignedLimit size align pagesize limit avoid ram = some addr) :
    Found avoid free addr (round size (pagesize.setWidth 64)) ∧
      addr.toNat + (round size (pagesize.setWidth 64)).toNat ≤ limit.toNat ∧
      (2 ^ k ∣ addr.toNat ∨ addr = limit - round size (pagesize.setWidth 64)) := by
  obtain ⟨hk, hwide⟩ := Wanted.Plain.align (w := ⟨0, 0, 0, align, 0, 0⟩) ⟨halign, rfl, rfl⟩
  unfold findTopRamAlignedLimit at hfind
  rw [h.live] at hfind
  split at hfind
  · cases hfind
  · dsimp only at hfind
    split at hfind
    · cases hfind
    · next hne =>
      cases hfind
      have hspec := topLoop_spec avoid h (Nat.lt_trans hk (by decide)) hwide hlimit
        (fun r hr => hr) 0
      exact hspec.resolve_left hne

/-! ## Nothing is missed -/

/-- No range to avoid is empty or touches the entry. -/
def Untouched (avoid : List AvoidEntry) (r : RamEntry) : Prop :=
  ∀ a ∈ liveAvoid avoid, a.start.toNat < a.stop.toNat ∧
    Disjoint (Set.Ico r.span.lo r.span.hi) a.range

theorem piece_whole {avoid : List AvoidEntry} {r : RamEntry} (hr : r.Fits)
    (hclear : Untouched avoid r) : piece avoid r = some (r.addr, r.addr + r.size) := by
  have hpass : ∀ a ∈ liveAvoid avoid,
      fixSize (r.addr, r.addr + r.size) a = some (r.addr, r.addr + r.size) := by
    intro a ha
    obtain ⟨hlt, hapart⟩ := hclear a ha
    unfold fixSize
    refine if_pos ?_
    rw [BitVec.le_def, BitVec.le_def, hr.stop]
    by_contra hmeet
    have hpos := hr.pos
    -- the larger of the two starts is in both
    have hin : max r.addr.toNat a.start.toNat ∈ Set.Ico r.span.lo r.span.hi := by
      refine ⟨le_max_left _ _, ?_⟩
      change _ < r.addr.toNat + r.size.toNat
      omega
    have hrange : max r.addr.toNat a.start.toNat ∈ a.range := ⟨le_max_right _ _, by omega⟩
    exact Set.disjoint_left.mp hapart hin hrange
  unfold piece
  clear hclear
  generalize liveAvoid avoid = live at hpass ⊢
  induction live with
  | nil => rfl
  | cons a live ih =>
      rw [List.foldlM_cons, hpass a List.mem_cons_self]
      exact ih fun b hb => hpass b (List.mem_cons_of_mem _ hb)

theorem dvd_le_of_lt {d x y : Nat} (hx : d ∣ x) (hy : d ∣ y) (h : y < x + d) : y ≤ x := by
  obtain ⟨p, rfl⟩ := hx
  obtain ⟨q, rfl⟩ := hy
  rw [← Nat.mul_succ] at h
  exact Nat.mul_le_mul_left d (Nat.le_of_lt_succ (Nat.lt_of_mul_lt_mul_left h))

/-- A search fails only if no entry that is clear of ranges to avoid has room for an
aligned block of the size. -/
theorem findRam_none {size : Paddr} {align : BitVec 32} {k : Nat} (halign : align.toNat = 2 ^ k)
    (hsize : 0 < size.toNat) {avoid : List AvoidEntry} {ram : List RamEntry} {free : Set Nat}
    (h : Holds ram free) (hfind : findRam size align 0 0 avoid ram = none) {r : RamEntry}
    (hr : r ∈ ram) (hclear : Untouched avoid r) {x : Nat} (hx : 2 ^ k ∣ x)
    (hlow : r.span.lo ≤ x) : r.span.hi < x + size.toNat := by
  by_contra hroom
  have hfits := h.fits r hr
  have hlow : r.addr.toNat ≤ x := hlow
  have hhigh : x + size.toNat ≤ r.addr.toNat + r.size.toNat := Nat.le_of_not_lt hroom
  have hplain : Wanted.Plain ⟨0, -1, size, align, 0, 0⟩ k := ⟨halign, rfl, rfl⟩
  obtain ⟨hk, hwide⟩ := hplain.align
  have hpow : 2 ^ k < 2 ^ 32 := Nat.pow_lt_pow_right (by decide) hk
  have htop := hfits.top
  obtain ⟨-, hlt, hdvd⟩ := round_toNat (x := r.addr) (Nat.lt_trans hk (by decide)) hwide
    (by unfold ramTop at htop; omega)
  have hstart := dvd_le_of_lt hx hdvd (Nat.lt_of_lt_of_le hlt (Nat.add_le_add_right hlow _))
  unfold findRam findRamInRange at hfind
  rw [h.live, List.findSome?_eq_none_iff] at hfind
  have hin := hfind r hr
  rw [inEntry_plain hplain, piece_whole hfits hclear, Option.bind_some] at hin
  dsimp only at hin
  generalize hround : round r.addr (align.setWidth 64) = start at hlt hdvd hstart hin
  have hmax : ¬ (-1 : Paddr) < r.addr + r.size := by
    rw [BitVec.lt_def, hfits.stop]
    unfold ramTop at htop
    have hones : (-1 : Paddr).toNat = 2 ^ 64 - 1 := by decide
    omega
  have hfit : size ≤ r.addr + r.size - start := by
    rw [BitVec.le_def, BitVec.toNat_sub_of_le (BitVec.le_def.mpr (by rw [hfits.stop]; omega)),
      hfits.stop]
    omega
  have hbefore : ¬ r.addr + r.size ≤ start := by
    rw [BitVec.le_def, hfits.stop]
    omega
  rw [if_neg fun hc : (0 : Paddr) ≠ 0 ∧ start < 0 => hc.1 rfl,
    if_neg fun hc : (-1 : Paddr) ≠ 0 ∧ -1 < r.addr + r.size => hmax hc.2, if_neg hbefore,
    if_pos hfit] at hin
  cases hin

end QnxHypervisor.BootMemory
