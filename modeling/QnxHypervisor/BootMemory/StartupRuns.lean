import QnxHypervisor.BootMemory.Startup

/-! # What a startup keeps

Along every order of calls the RAM list is the list of what was added and not taken,
and the ranges to avoid cover what was announced. So whatever a search hands out is
memory that nobody was given before.
-/

namespace QnxHypervisor.BootMemory

open Foundation Foundation.Span

/-! ## Ranges to avoid -/

def AvoidEntry.span (a : AvoidEntry) : Span Nat := ⟨a.start.toNat, a.stop.toNat⟩

/-- No range hides those behind it, and together they cover what was announced. -/
structure Avoids (avoid : List AvoidEntry) (announced : Set Nat) : Prop where
  ranges : ∀ a ∈ avoid, a.start.toNat ≤ a.stop.toNat ∧ a.stop ≠ 0
  covers : covered (avoid.map AvoidEntry.span) = announced

theorem Avoids.live {avoid : List AvoidEntry} {announced : Set Nat} (h : Avoids avoid announced) :
    liveAvoid avoid = avoid :=
  List.takeWhile_eq_self_iff.mpr fun a ha => bne_iff_ne.mpr (h.ranges a ha).2

/-- A range that does not wrap is announced, unless the array is full. -/
theorem avoidRam_avoids {avoid : List AvoidEntry} {announced : Set Nat}
    (h : Avoids avoid announced) (start size : Paddr) (hpos : 0 < start.toNat + size.toNat)
    (hfit : start.toNat + size.toNat < 2 ^ 64) :
    (avoidRam start size avoid = .error .avoidOverflow ∧ 63 ≤ avoid.length) ∨
      ∃ avoid', avoidRam start size avoid = .ok avoid' ∧
        Avoids avoid' (block start size ∪ announced) := by
  have hstop : (start + size).toNat = start.toNat + size.toNat := by
    rw [BitVec.toNat_add]
    exact Nat.mod_eq_of_lt hfit
  have hne : start + size ≠ 0 := by
    intro hz
    rw [hz] at hstop
    exact Nat.ne_of_lt hpos hstop
  have hnew : ∀ new : List AvoidEntry, new.length ≤ avoid.length + 1 →
      Avoids new (block start size ∪ announced) →
      ((if maxAvoidListSize < entrySize * (new.length + 1) then .error .avoidOverflow
        else .ok new : Except Crash (List AvoidEntry)) = .error .avoidOverflow ∧
          63 ≤ avoid.length) ∨
      ∃ avoid', (if maxAvoidListSize < entrySize * (new.length + 1) then .error .avoidOverflow
        else .ok new : Except Crash (List AvoidEntry)) = .ok avoid' ∧
          Avoids avoid' (block start size ∪ announced) := by
    intro new hlen hnew
    split
    · next hfull =>
      unfold maxAvoidListSize entrySize at hfull
      exact .inl ⟨rfl, by omega⟩
    · exact .inr ⟨new, rfl, hnew⟩
  have happend : Avoids (avoid ++ [⟨start, start + size⟩]) (block start size ∪ announced) := by
    refine ⟨fun a ha => ?_, ?_⟩
    · rcases List.mem_append.mp ha with ha | ha
      · exact h.ranges a ha
      · obtain rfl := List.mem_singleton.mp ha
        exact ⟨hstop ▸ Nat.le_add_right _ _, hne⟩
    · rw [List.map_append, covered_append, h.covers, Set.union_comm]
      simp only [List.map_cons, List.map_nil, covered_cons, covered_nil, Set.union_empty,
        AvoidEntry.span, hstop]
      rfl
  unfold avoidRam
  cases hlast : avoid.getLast? with
  | none => exact hnew _ (by simp) happend
  | some last =>
      dsimp only
      split
      · next hmeet =>
        obtain ⟨init, rfl⟩ := List.getLast?_eq_some_iff.mp hlast
        apply hnew
        · simp
        have hranges := h.ranges last (by simp)
        have hend : (last.stop + size).toNat = start.toNat + size.toNat := by rw [hmeet, hstop]
        refine ⟨fun a ha => ?_, ?_⟩
        · rw [List.dropLast_concat] at ha
          rcases List.mem_append.mp ha with ha | ha
          · exact h.ranges a (List.mem_append_left _ ha)
          · obtain rfl := List.mem_singleton.mp ha
            refine ⟨?_, ?_⟩
            · dsimp only
              rw [hend, ← hmeet]
              exact Nat.le_trans hranges.1 (Nat.le_add_right _ _)
            · dsimp only
              rw [hmeet]
              exact hne
        · have hcov := h.covers
          rw [List.dropLast_concat]
          rw [List.map_append, covered_append] at hcov ⊢
          simp only [List.map_cons, List.map_nil, covered_cons, covered_nil, Set.union_empty,
            AvoidEntry.span] at hcov ⊢
          have hsplit : Set.Ico last.start.toNat (last.stop + size).toNat =
              block start size ∪ Set.Ico last.start.toNat last.stop.toNat := by
            rw [hend, Set.union_comm]
            unfold block
            rw [← hmeet]
            exact (Set.Ico_union_Ico_eq_Ico hranges.1 (Nat.le_add_right _ _)).symm
          rw [hsplit, ← hcov, Set.union_left_comm]
      · exact hnew _ (by simp) happend

/-! ## Blocks that were found -/

/-- Where `a` is a block of `size`, nobody was given any of it. -/
structure NewBlock (h : History) (addr size : Paddr) : Prop where
  added : block addr size ⊆ h.added
  taken : Disjoint (block addr size) h.taken
  announced : Disjoint (block addr size) h.announced

/-- The two arrays hold the history. -/
structure Keeps (m : Memory) (h : History) : Prop where
  ram : Holds m.ram (h.added \ h.taken)
  avoid : Avoids m.avoid h.announced

theorem Found.new {avoid : List AvoidEntry} {h : History} (havoid : Avoids avoid h.announced)
    {addr size : Paddr} (hfound : Found avoid (h.added \ h.taken) addr size) :
    NewBlock h addr size where
  added x hx := (hfound.free hx).1
  taken := Set.disjoint_left.mpr fun _ hx => (hfound.free hx).2
  announced := by
    rw [Set.disjoint_left, ← havoid.covers]
    rintro x hx ⟨span, hspan, hin⟩
    obtain ⟨a, ha, rfl⟩ := List.mem_map.mp hspan
    rw [← havoid.live] at ha
    exact Set.disjoint_left.mp (hfound.apart a ha) hx hin

theorem Found.fits {avoid : List AvoidEntry} {free : Set Nat} {ram : List RamEntry}
    (h : Holds ram free) {addr size : Paddr} (hfound : Found avoid free addr size) :
    size.toNat = 0 ∨ addr.toNat + size.toNat ≤ ramTop := by
  rcases Nat.eq_zero_or_pos size.toNat with hz | hpos
  · exact .inl hz
  · right
    have hlast := h.low (addr.toNat + size.toNat - 1) (hfound.free ⟨by omega, by omega⟩)
    omega

theorem Found.noWrap {avoid : List AvoidEntry} {free : Set Nat} {ram : List RamEntry}
    (h : Holds ram free) {addr size : Paddr} (hfound : Found avoid free addr size) :
    addr.toNat + size.toNat < 2 ^ 64 := by
  have hlt := addr.isLt
  rcases hfound.fits h with hz | hfit
  · omega
  · unfold ramTop at hfit
    omega

/-! ## Calls -/

theorem coalesceRam_length (p : RamEntry) (ram : List RamEntry) :
    (coalesceRam p ram).length ≤ ram.length + 1 := by
  induction ram generalizing p with
  | nil => exact Nat.le_refl _
  | cons r ram ih =>
      unfold coalesceRam
      split
      · exact Nat.le_refl _
      · dsimp only
        split
        · exact Nat.le_trans (ih _) (Nat.le_succ _)
        · exact Nat.succ_le_succ (ih r)

theorem insertRam_length (new : RamEntry) (ram : List RamEntry) :
    (insertRam new ram).length = ram.length + 1 := by
  induction ram with
  | nil => rfl
  | cons r ram ih =>
      unfold insertRam
      split
      · rfl
      · rw [List.length_cons, ih, List.length_cons]

theorem addMem_length {start size : Paddr} {ram ram' : List RamEntry}
    (h : addMem start size ram = .ok ram') : ram'.length ≤ ram.length + 1 := by
  unfold addMem at h
  split at h
  · cases h
    exact Nat.le_succ _
  · split at h
    · cases h
    · have hlen := insertRam_length ⟨start, size⟩ ram
      split at h
      · cases h
        exact Nat.zero_le _
      · next p rest heq =>
        cases h
        rw [heq] at hlen
        exact Nat.le_trans (coalesceRam_length p rest) (Nat.le_of_eq hlen)

variable {boot : Boot} {m : Memory} {h : History}

def Call.Enters (m : Memory) : Call → Prop
  | .add _ _ => True
  | .alloc _ _ _ => m.sysramAdded = true
  | .avoid _ _ => False
  | .workspace _ => False
  | .reserve _ _ _ _ _ => True
  | .sysram => True
  | .page _ => True

def Call.block (boot : Boot) (m : Memory) : Call → Option (Paddr × Paddr)
  | .add _ _ => some (boot.imageStart, boot.imageSize)
  | .alloc addr size align => (addr.or (findRam size align 0 0 m.avoid m.ram)).map (·, size)
  | .reserve size align _ pagesize lowRegion =>
      let align := if align ≠ 0 then align else pagesize
      let size := size.setWidth 64
      let addr :=
        if lowRegion then findRam size align 0 0 m.avoid m.ram
        else findTopRamAlignedLimit size align pagesize (-1) m.avoid m.ram
      addr.map (·, size)
  | _ => none

/-- The system page when it is taken. -/
def Call.pageThen (boot : Boot) (m : Memory) : Call → Except Crash Syspage
  | .add start size => enterRam boot start size m.syspage
  | _ => .ok m.syspage

/-- Why a call may stop the startup. -/
inductive Stopped (boot : Boot) (m : Memory) (call : Call) : Stop → Prop
  | ram (h : 190 ≤ m.ram.length) : Stopped boot m call (.crash .ramOverflow)
  | avoid (h : 63 ≤ m.avoid.length) : Stopped boot m call (.crash .avoidOverflow)
  | syspage (h : call.Enters m) : Stopped boot m call (.crash .syspageFull)
  | sysram {addr size : Paddr} {p : Syspage} {as : AsInfo} (hadded : m.sysramAdded = true)
      (hblock : call.block boot m = some (addr, size)) (hpage : call.pageThen boot m = .ok p)
      (hcovered : p.Covered addr (addr + size - 1) as) : Stopped boot m call (.crash .wholeSysram)
  | reserve (h : ∃ size align name pagesize lowRegion,
      call = .reserve size align name pagesize lowRegion) : Stopped boot m call .noReserve

/-- Why a block cannot be taken. -/
inductive BlockStops (m : Memory) (addr size : Paddr) : Crash → Prop
  | ram (h : 191 ≤ m.ram.length) : BlockStops m addr size .ramOverflow
  | syspage (hadded : m.sysramAdded = true) : BlockStops m addr size .syspageFull
  | sysram {as : AsInfo} (hadded : m.sysramAdded = true)
      (hcovered : m.syspage.Covered addr (addr + size - 1) as) : BlockStops m addr size .wholeSysram

theorem BlockStops.stopped {addr size : Paddr} {c : Crash} {call : Call} (hs : BlockStops m addr size c)
    (henters : m.sysramAdded = true → call.Enters m) (hblock : call.block boot m = some (addr, size))
    (hpage : call.pageThen boot m = .ok m.syspage) : Stopped boot m call (.crash c) := by
  cases hs with
  | ram hfull => exact .ram (Nat.le_of_succ_le hfull)
  | syspage hadded => exact .syspage (henters hadded)
  | sysram hadded hcovered => exact .sysram hadded hblock hpage hcovered

theorem Keeps.take (hk : Keeps m h) {addr size : Paddr}
    (hfit : addr.toNat + size.toNat < 2 ^ 64) :
    (∃ c, takeBlock addr size m = .error c ∧ BlockStops m addr size c) ∨
      ∃ m', takeBlock addr size m = .ok m' ∧
        Keeps m' { h with taken := block addr size ∪ h.taken } ∧ m'.avoid = m.avoid := by
  unfold takeBlock
  rcases takeRam_holds hk.ram hfit with ⟨herror, hfull⟩ | ⟨ram, hok, hholds⟩
  · rw [herror]
    exact .inl ⟨_, rfl, .ram hfull⟩
  · rw [Set.sdiff_sdiff, Set.union_comm] at hholds
    rw [hok]
    by_cases hadded : m.sysramAdded = true
    · cases hpage : m.syspage.takeSysram addr size with
      | error c =>
          refine .inl ⟨c, ?_, ?_⟩
          · simp only [hadded, if_true]
            rfl
          · rcases Syspage.takeSysram_stops hfit hpage with rfl | ⟨rfl, as, hcovered⟩
            · exact .syspage hadded
            · exact .sysram hadded hcovered
      | ok syspage =>
          refine .inr ⟨{ m with ram, syspage }, ?_, ⟨hholds, hk.avoid⟩, rfl⟩
          simp only [hadded, if_true]
          rfl
    · refine .inr ⟨{ m with ram }, ?_, ⟨hholds, hk.avoid⟩, rfl⟩
      simp only [hadded]
      rfl

theorem Keeps.announce (hk : Keeps m h) {start size : Paddr}
    (hpos : 0 < start.toNat + size.toNat) (hfit : start.toNat + size.toNat < 2 ^ 64) :
    (avoidRam start size m.avoid = .error .avoidOverflow ∧ 63 ≤ m.avoid.length) ∨
      ∃ avoid, avoidRam start size m.avoid = .ok avoid ∧
        Keeps { m with avoid } { h with announced := block start size ∪ h.announced } := by
  rcases avoidRam_avoids hk.avoid _ _ hpos hfit with herror | ⟨avoid, hok, havoids⟩
  · exact .inl herror
  · exact .inr ⟨avoid, hok, hk.ram, havoids⟩

theorem Keeps.find (hk : Keeps m h) {size addr : Paddr} {align : BitVec 32}
    (halign : PowerOfTwo align) (hfind : findRam size align 0 0 m.avoid m.ram = some addr) :
    NewBlock h addr size ∧ addr.toNat + size.toNat < 2 ^ 64 ∧ align.toNat ∣ addr.toNat := by
  obtain ⟨k, hk2⟩ := halign
  obtain ⟨hfound, hdvd⟩ := findRam_spec hk2 hk.ram hfind
  exact ⟨hfound.new hk.avoid, hfound.noWrap hk.ram, hk2 ▸ hdvd⟩

theorem allocRam_spec (hk : Keeps m h) (addr : Option Paddr) (size : Paddr) (align : BitVec 32)
    (hfit : ∀ a, addr = some a → a.toNat + size.toNat < 2 ^ 64)
    (halign : addr = none → PowerOfTwo align) :
    (∃ c a, allocRam addr size align m = .error (.crash c) ∧
        addr.or (findRam size align 0 0 m.avoid m.ram) = some a ∧ BlockStops m a size c) ∨
      ∃ out m', allocRam addr size align m = .ok (out, m') ∧
        Keeps m' { h with taken := blockAt out size ∪ h.taken } ∧
        (∀ a, addr = some a → out = some a) ∧
        (addr = none → ∀ a, out = some a → NewBlock h a size ∧ align.toNat ∣ a.toNat) := by
  have htake : ∀ a : Paddr, a.toNat + size.toNat < 2 ^ 64 →
      addr.or (findRam size align 0 0 m.avoid m.ram) = some a →
      (∃ c, allocRam addr size align m = .error (.crash c) ∧ BlockStops m a size c) ∨
        ∃ m', allocRam addr size align m = .ok (some a, m') ∧
          Keeps m' { h with taken := block a size ∪ h.taken } := by
    intro a ha hor
    unfold allocRam
    rw [hor]
    rcases hk.take ha with ⟨c, herror, hstops⟩ | ⟨m', hok, hkeeps, -⟩
    · dsimp only
      rw [herror]
      exact .inl ⟨c, rfl, hstops⟩
    · dsimp only
      rw [hok]
      exact .inr ⟨m', rfl, hkeeps⟩
  cases addr with
  | some a =>
      rcases htake a (hfit a rfl) rfl with ⟨c, herror, hstops⟩ | ⟨m', hok, hkeeps⟩
      · exact .inl ⟨c, a, herror, rfl, hstops⟩
      · exact .inr ⟨some a, m', hok, hkeeps, fun _ heq => heq, fun hno => (by cases hno)⟩
  | none =>
      cases hfind : findRam size align 0 0 m.avoid m.ram with
      | none =>
          refine .inr ⟨none, m, ?_, ?_, fun _ hno => (by cases hno), fun _ _ hno => (by cases hno)⟩
          · unfold allocRam
            rw [Option.none_or, hfind]
          · simp only [blockAt, Set.empty_union]
            exact hk
      | some a =>
          obtain ⟨hnew, hwrap, hdvd⟩ := hk.find (halign rfl) hfind
          rcases htake a hwrap hfind with ⟨c, herror, hstops⟩ | ⟨m', hok, hkeeps⟩
          · exact .inl ⟨c, a, herror, rfl, hstops⟩
          · refine .inr ⟨some a, m', hok, hkeeps, fun _ hno => (by cases hno), fun _ b hb => ?_⟩
            cases hb
            exact ⟨hnew, hdvd⟩

/-! ## What calls hand out -/

/-- The call looks for the block that it hands out. -/
def Call.Searches (m : Memory) : Call → Prop
  | .add _ _ => True
  | .alloc addr _ _ => addr = none
  | .avoid _ _ => False
  | .workspace _ => m.ram ≠ []
  | .reserve _ _ _ _ _ => True
  | .sysram => False
  | .page _ => False

def Call.size : Call → Paddr
  | .add _ _ => tempSyspageSize
  | .alloc _ size _ => size
  | .avoid _ size => size
  | .workspace size => round size 8
  | .reserve size _ _ _ _ => size.setWidth 64
  | .sysram => 0
  | .page _ => 0

def Call.align (boot : Boot) : Call → BitVec 32
  | .add _ _ => boot.pageSize
  | .alloc _ _ align => align
  | .avoid _ _ => 1
  | .workspace _ => 8
  | .reserve _ align _ pagesize _ => if align ≠ 0 then align else pagesize
  | .sysram => 1
  | .page _ => 1

/-- RAM by now, at the alignment that was asked for, and nobody was given any of it. -/
structure HandedOut (boot : Boot) (h : History) (call : Call) (addr : Paddr) : Prop where
  added : block addr call.size ⊆ (h.after boot call (some addr)).added
  taken : Disjoint (block addr call.size) h.taken
  announced : Disjoint (block addr call.size) h.announced
  align : (call.align boot).toNat ∣ addr.toNat

/-- What a call that fits does: it stops for a reason, or it keeps the history and
hands out a block that is new. -/
def CallSpec (boot : Boot) (m : Memory) (h : History) (call : Call) : Prop :=
  (∃ e, call.run boot m = .error e ∧ Stopped boot m call e) ∨
    ∃ out m', call.run boot m = .ok (out, m') ∧ Keeps m' (h.after boot call out) ∧
      (call.Searches m → ∀ addr, out = some addr → HandedOut boot h call addr)

theorem alloc_call (hk : Keeps m h) {addr : Option Paddr} {size : Paddr} {align : BitVec 32}
    (hfits : (Call.alloc addr size align).Fits boot h m) :
    CallSpec boot m h (.alloc addr size align) := by
  have hspec := allocRam_spec hk addr size align ?_ ?_
  · rcases hspec with ⟨c, a, herror, hfound, hstops⟩ | ⟨out, m', hok, hkeeps, -, hnew⟩
    · exact .inl ⟨_, herror, hstops.stopped id (congrArg (Option.map (·, size)) hfound) rfl⟩
    · refine .inr ⟨out, m', hok, hkeeps, fun hsearch a ha => ?_⟩
      obtain ⟨hblock, hdvd⟩ := hnew hsearch a ha
      exact ⟨hblock.added, hblock.taken, hblock.announced, hdvd⟩
  · rintro a rfl
    exact hfits
  · rintro rfl
    exact hfits

theorem avoid_call (hk : Keeps m h) {start size : Paddr}
    (hfits : (Call.avoid start size).Fits boot h m) : CallSpec boot m h (.avoid start size) := by
  rcases hk.announce hfits.1 hfits.2 with ⟨herror, hfull⟩ | ⟨avoid, hok, hkeeps⟩
  · refine .inl ⟨.crash .avoidOverflow, ?_, .avoid hfull⟩
    simp only [Call.run, herror]
    rfl
  · refine .inr ⟨none, { m with avoid }, ?_, hkeeps, fun hno => hno.elim⟩
    simp only [Call.run, hok]
    rfl

theorem workspace_call (hk : Keeps m h) {size : Paddr}
    (hfits : (Call.workspace size).Fits boot h m) : CallSpec boot m h (.workspace size) := by
  obtain ⟨hpos, hfit, hearly⟩ := hfits
  have height : (8 : Paddr).toNat = 2 ^ 3 := by decide
  obtain ⟨hge, -, -⟩ := round_toNat (x := size) (by decide) height hfit
  have hpos : 0 < (round size 8).toNat := Nat.lt_of_lt_of_le hpos hge
  have hempty : ramListSize m.ram ≤ entrySize ↔ m.ram = [] := by
    unfold ramListSize entrySize
    rw [← List.length_eq_zero_iff]
    omega
  by_cases hram : m.ram = []
  · have hrun : Call.run boot m (.workspace size) =
        orCrash (avoidRam m.wsEarlyNext (round size 8) m.avoid >>= fun avoid =>
          .ok (some m.wsEarlyNext,
            { m with avoid, wsEarlyNext := m.wsEarlyNext + round size 8 })) :=
      if_pos (hempty.mpr hram)
    unfold CallSpec
    rw [hrun]
    rcases hk.announce (Nat.lt_of_lt_of_le hpos (Nat.le_add_left _ _)) (hearly hram) with
      ⟨herror, hfull⟩ | ⟨avoid, hok, hkeeps⟩
    · rw [herror]
      exact .inl ⟨_, rfl, .avoid hfull⟩
    · rw [hok]
      exact .inr ⟨_, _, rfl, ⟨hkeeps.ram, hkeeps.avoid⟩, fun hsearch => absurd hram hsearch⟩
  · have hlater : ¬ ramListSize m.ram ≤ entrySize := fun hle => hram (hempty.mp hle)
    unfold CallSpec
    cases hfind : findRam (round size 8) 8 0 0 m.avoid m.ram with
    | none =>
        have hrun : Call.run boot m (.workspace size) = .ok (none, m) := by
          change wsAlloc size m = _
          unfold wsAlloc
          dsimp only
          rw [if_neg hlater, hfind]
        rw [hrun]
        refine .inr ⟨none, m, rfl, ?_, fun _ _ hno => (by cases hno)⟩
        simp only [History.after, blockAt, Set.empty_union]
        exact hk
    | some paddr =>
        have hrun : Call.run boot m (.workspace size) =
            orCrash (avoidRam paddr (round size 8) m.avoid >>= fun avoid =>
              .ok (some paddr, { m with avoid })) := by
          change wsAlloc size m = _
          unfold wsAlloc
          dsimp only
          rw [if_neg hlater, hfind]
        rw [hrun]
        obtain ⟨hnew, hwrap, hdvd⟩ := hk.find ⟨3, by decide⟩ hfind
        rcases hk.announce (Nat.lt_of_lt_of_le hpos (Nat.le_add_left _ _)) hwrap with
          ⟨herror, hfull⟩ | ⟨avoid, hok, hkeeps⟩
        · rw [herror]
          exact .inl ⟨_, rfl, .avoid hfull⟩
        · rw [hok]
          refine .inr ⟨_, _, rfl, hkeeps, fun _ a ha => ?_⟩
          cases ha
          exact ⟨hnew.added, hnew.taken, hnew.announced, hdvd⟩

theorem block_mono (addr : Paddr) {size size' : Paddr} (h : size.toNat ≤ size'.toNat) :
    block addr size ⊆ block addr size' :=
  Set.Ico_subset_Ico_right (Nat.add_le_add_left h _)

theorem widened (size : BitVec 32) : (size.setWidth 64).toNat = size.toNat := by
  have hlt := size.isLt
  rw [BitVec.toNat_setWidth]
  exact Nat.mod_eq_of_lt (Nat.lt_trans hlt (by decide))

theorem Keeps.findTop (hk : Keeps m h) {size align pagesize : BitVec 32} (hsize : size ≠ 0)
    (halign : PowerOfTwo align) (hpage : PowerOfTwo pagesize) {addr : Paddr}
    (hfind : findTopRamAlignedLimit (size.setWidth 64) align pagesize (-1) m.avoid m.ram =
      some addr) :
    NewBlock h addr (size.setWidth 64) ∧ addr.toNat + (size.setWidth 64).toNat < 2 ^ 64 ∧
      align.toNat ∣ addr.toNat := by
  obtain ⟨k, hk2⟩ := halign
  obtain ⟨j, hj⟩ := hpage
  have hj32 : j < 32 := by
    have hlt := pagesize.isLt
    rw [hj] at hlt
    exact (Nat.pow_lt_pow_iff_right (by decide)).mp hlt
  have hpow : 2 ^ j < 2 ^ 32 := Nat.pow_lt_pow_right (by decide) hj32
  have hlt := size.isLt
  have hwide := widened size
  obtain ⟨hge, -, -⟩ := round_toNat (x := size.setWidth 64) (a := pagesize.setWidth 64) (k := j)
    (by omega) ((widened pagesize).trans hj) (by omega)
  have hones : (-1 : Paddr).toNat = 2 ^ 64 - 1 := by decide
  have hmax := (round (size.setWidth 64) (pagesize.setWidth 64)).isLt
  obtain ⟨hfound, hbelow, haligned⟩ := findTop_spec hk2 hk.ram (by omega) hfind
  have hpos : 0 < size.toNat := Nat.pos_of_ne_zero fun hz => hsize (BitVec.eq_of_toNat_eq hz)
  have htop := (hfound.fits hk.ram).resolve_left (by omega)
  have hnew := hfound.new hk.avoid
  have hmono := block_mono addr hge
  unfold ramTop at htop
  refine ⟨⟨hmono.trans hnew.added, hnew.taken.mono_left hmono, hnew.announced.mono_left hmono⟩,
    by omega, ?_⟩
  rw [hk2]
  refine haligned.resolve_right fun hcut => ?_
  have hsub : addr.toNat = 2 ^ 64 - 1 -
      (round (size.setWidth 64) (pagesize.setWidth 64)).toNat := by
    rw [hcut, BitVec.toNat_sub_of_le (BitVec.le_def.mpr (by omega)), hones]
  omega

theorem enterReserved_spec (hk : Keeps m h) {size align al pagesize : BitVec 32} {name : Bytes}
    {lowRegion : Bool} {addr : Option Paddr} (hal : (if align ≠ 0 then align else pagesize) = al)
    (haligned : PowerOfTwo al)
    (haddr : ∀ a, addr = some a → NewBlock h a (size.setWidth 64) ∧
      a.toNat + (size.setWidth 64).toNat < 2 ^ 64 ∧ al.toNat ∣ a.toNat)
    (hblock : ∀ a, addr.or (findRam (size.setWidth 64) al 0 0 m.avoid m.ram) = some a →
      (Call.reserve size align name pagesize lowRegion).block boot m = some (a, size.setWidth 64)) :
    (∃ e, enterReserved (size.setWidth 64) name (allocRam addr (size.setWidth 64) al m) = .error e ∧
        Stopped boot m (.reserve size align name pagesize lowRegion) e) ∨
      ∃ out m', enterReserved (size.setWidth 64) name (allocRam addr (size.setWidth 64) al m) =
          .ok (out, m') ∧
        Keeps m' (h.after boot (.reserve size align name pagesize lowRegion) out) ∧
        ((Call.reserve size align name pagesize lowRegion).Searches m → ∀ a, out = some a →
          HandedOut boot h (.reserve size align name pagesize lowRegion) a) := by
  have hspec := allocRam_spec hk addr (size.setWidth 64) al (fun a ha => (haddr a ha).2.1)
    (fun _ => haligned)
  rcases hspec with ⟨c, a, herror, hfound, hstops⟩ | ⟨out, m', hok, hkeeps, hsame, hnew⟩
  · rw [herror]
    exact .inl ⟨_, rfl, hstops.stopped (fun _ => trivial) (hblock a hfound) rfl⟩
  · rw [hok]
    cases out with
    | none => exact .inl ⟨_, rfl, .reserve ⟨_, _, _, _, _, rfl⟩⟩
    | some a =>
        have hnewBlock : NewBlock h a (size.setWidth 64) ∧ al.toNat ∣ a.toNat := by
          cases addr with
          | none => exact hnew rfl a rfl
          | some c =>
              cases hsame c rfl
              exact ⟨(haddr a rfl).1, (haddr a rfl).2.2⟩
        unfold enterReserved
        dsimp only
        generalize (if name = [] then utf8 "reserved" else name) = name'
        cases hpage : m'.syspage.asAddContaining a (a + size.setWidth 64 - 1) name' (utf8 "ram") with
        | error c =>
            obtain rfl := Syspage.asAddContaining_stops hpage
            exact .inl ⟨_, rfl, .syspage trivial⟩
        | ok syspage =>
            refine .inr ⟨some a, { m' with syspage }, rfl, ⟨hkeeps.ram, hkeeps.avoid⟩, fun _ b hb => ?_⟩
            cases hb
            refine ⟨hnewBlock.1.added, hnewBlock.1.taken, hnewBlock.1.announced, ?_⟩
            change (if align ≠ 0 then align else pagesize).toNat ∣ a.toNat
            rw [hal]
            exact hnewBlock.2

theorem reserve_call (hk : Keeps m h) {size align pagesize : BitVec 32} {name : Bytes}
    {lowRegion : Bool} (hfits : (Call.reserve size align name pagesize lowRegion).Fits boot h m) :
    CallSpec boot m h (.reserve size align name pagesize lowRegion) := by
  obtain ⟨hpage, halign⟩ := hfits
  have haligned : PowerOfTwo (if align ≠ 0 then align else pagesize) := by
    split
    · next hne => exact halign hne
    · exact hpage
  unfold CallSpec
  change (∃ e, reserveRam size align name pagesize lowRegion m = _ ∧ _) ∨
    ∃ out m', reserveRam size align name pagesize lowRegion m = _ ∧ _
  unfold reserveRam
  by_cases hsize : size = 0
  · rw [if_pos hsize]
    refine .inr ⟨none, m, rfl, ?_, fun _ _ hno => (by cases hno)⟩
    simp only [History.after, blockAt, Set.empty_union]
    exact hk
  · rw [if_neg hsize]
    dsimp only
    generalize hal : (if align ≠ 0 then align else pagesize) = al at haligned ⊢
    cases lowRegion with
    | true =>
        refine enterReserved_spec hk hal haligned (fun _ hno => (by cases hno)) fun a ha => ?_
        simp only [Call.block, hal, if_true]
        rw [Option.none_or] at ha
        rw [ha]
        rfl
    | false =>
        cases hfind : findTopRamAlignedLimit (size.setWidth 64) al pagesize (-1) m.avoid m.ram with
        | none => exact .inl ⟨_, rfl, .reserve ⟨_, _, _, _, _, rfl⟩⟩
        | some addr =>
            refine enterReserved_spec hk hal haligned (fun a ha => ?_) fun a ha => ?_
            · cases ha
              exact hk.findTop hsize haligned hpage hfind
            · cases ha
              simp only [Call.block, hal]
              rw [if_neg (by simp), hfind]
              rfl

/-- Entering in the system page touches neither list. -/
theorem sysram_call (hk : Keeps m h) : CallSpec boot m h .sysram := by
  unfold CallSpec
  change (∃ e, addSysram m = _ ∧ _) ∨ ∃ out m', addSysram m = _ ∧ _
  have hloop : ∀ (ram : List RamEntry) (p : Syspage) (c : Crash), ram.foldlM (fun p r =>
      p.asAddContaining r.addr (r.addr + r.size - 1) Syspage.sysram (utf8 "ram")) p = .error c →
      c = .syspageFull := by
    intro ram
    induction ram with
    | nil =>
        intro p c herror
        cases herror
    | cons r ram ih =>
        intro p c herror
        rw [List.foldlM_cons] at herror
        cases hadd : p.asAddContaining r.addr (r.addr + r.size - 1) Syspage.sysram (utf8 "ram") with
        | error c' =>
            rw [hadd] at herror
            cases herror
            exact Syspage.asAddContaining_stops hadd
        | ok p' =>
            rw [hadd] at herror
            exact ih p' c herror
  unfold addSysram
  cases hadd : (liveRam m.ram).foldlM (fun p r =>
      p.asAddContaining r.addr (r.addr + r.size - 1) Syspage.sysram (utf8 "ram")) m.syspage with
  | error c =>
      obtain rfl := hloop _ _ _ hadd
      exact .inl ⟨_, rfl, .syspage trivial⟩
  | ok syspage => exact .inr ⟨_, _, rfl, ⟨hk.ram, hk.avoid⟩, fun hno => hno.elim⟩

theorem PageCall.run_stops {p : Syspage} {call : PageCall} {c : Crash} (hc : call.run p = .error c) :
    c = .syspageFull := by
  cases call with
  | asAdd start stop name owner => exact Syspage.asAdd_stops hc
  | asAddContaining start stop name container => exact Syspage.asAddContaining_stops hc
  | addString name => exact Syspage.addString_stops hc
  | grow add => exact Syspage.grow_stops hc

theorem page_call (hk : Keeps m h) {call : PageCall} : CallSpec boot m h (.page call) := by
  unfold CallSpec
  simp only [Call.run]
  cases hrun : call.run m.syspage with
  | error c =>
      obtain rfl := PageCall.run_stops hrun
      exact .inl ⟨_, rfl, .syspage trivial⟩
  | ok syspage => exact .inr ⟨_, _, rfl, ⟨hk.ram, hk.avoid⟩, fun hno => hno.elim⟩

theorem Boot.Fits.image_fits (hb : boot.Fits) :
    boot.imageStart.toNat + boot.imageSize.toNat < 2 ^ 64 := by
  obtain ⟨⟨hpos, hle⟩, htop, -⟩ := hb
  unfold ramTop at htop
  have hstart : boot.imageStart.toNat = boot.fullRamPaddr.toNat + boot.startupSize.toNat := by
    unfold Boot.imageStart
    rw [BitVec.toNat_add]
    exact Nat.mod_eq_of_lt (by omega)
  have hsize : boot.imageSize.toNat = boot.ramSize.toNat - boot.startupSize.toNat :=
    BitVec.toNat_sub_of_le (BitVec.le_def.mpr hle)
  omega

theorem findTempSyspage_spec (hk : Keeps m h) (hpage : PowerOfTwo boot.pageSize) :
    (findTempSyspage boot m = .error .avoidOverflow ∧ 63 ≤ m.avoid.length) ∨
      ∃ out m', findTempSyspage boot m = .ok (out, m') ∧
        Keeps m' { h with announced := blockAt out tempSyspageSize ∪ h.announced } ∧
        ∀ page, out = some page →
          NewBlock h page tempSyspageSize ∧ boot.pageSize.toNat ∣ page.toNat := by
  have hsame : Keeps m { h with announced := blockAt none tempSyspageSize ∪ h.announced } := by
    simp only [blockAt, Set.empty_union]
    exact hk
  unfold findTempSyspage
  split
  · exact .inr ⟨none, m, rfl, hsame, fun _ hno => (by cases hno)⟩
  · split
    · exact .inr ⟨none, m, rfl, hsame, fun _ hno => (by cases hno)⟩
    · next page hfind =>
      obtain ⟨hnew, hwrap, hdvd⟩ := hk.find hpage hfind
      have hpos : 0 < page.toNat + tempSyspageSize.toNat :=
        Nat.lt_of_lt_of_le (by decide) (Nat.le_add_left _ _)
      rcases hk.announce hpos hwrap with ⟨herror, hfull⟩ | ⟨avoid, hok, hkeeps⟩
      · rw [herror]
        exact .inl ⟨rfl, hfull⟩
      · rw [hok]
        refine .inr ⟨some page, _, rfl, ⟨hkeeps.ram, hkeeps.avoid⟩, fun a ha => ?_⟩
        cases ha
        exact ⟨hnew, hdvd⟩

theorem enterRam_stops {start size : Paddr} {p : Syspage} {c : Crash}
    (h : enterRam boot start size p = .error c) : c = .syspageFull := by
  unfold enterRam at h
  dsimp only at h
  split at h
  · cases hfirst : p.asAdd 0 boot.addressEnd (utf8 "memory") [] with
    | error c' =>
        rw [hfirst] at h
        cases h
        exact Syspage.asAdd_stops hfirst
    | ok p₁ =>
        rw [hfirst] at h
        change (p₁.asAdd 0 _ (utf8 "below4G") _ >>= _) = _ at h
        cases hsecond : p₁.asAdd 0 (4 * 1024 * 1024 * 1024 - 1) (utf8 "below4G") [utf8 "memory"] with
        | error c' =>
            rw [hsecond] at h
            cases h
            exact Syspage.asAdd_stops hsecond
        | ok p₂ =>
            rw [hsecond] at h
            exact Syspage.asAddContaining_stops h
  · exact Syspage.asAddContaining_stops h

theorem add_call (hb : boot.Fits) (hk : Keeps m h) {start size : Paddr}
    (hfits : (Call.add start size).Fits boot h m) : CallSpec boot m h (.add start size) := by
  obtain ⟨hfit, hfresh⟩ := hfits
  unfold CallSpec
  change (∃ e, orCrash (enterRam boot start size m.syspage >>= fun syspage => addMem start size m.ram >>=
      fun ram => takeBlock boot.imageStart boot.imageSize { m with ram, syspage } >>=
        findTempSyspage boot) = _ ∧ _) ∨
    ∃ out m', orCrash (enterRam boot start size m.syspage >>= fun syspage => addMem start size m.ram >>=
      fun ram => takeBlock boot.imageStart boot.imageSize { m with ram, syspage } >>=
        findTempSyspage boot) = _ ∧ _
  cases henter : enterRam boot start size m.syspage with
  | error c =>
      obtain rfl := enterRam_stops henter
      exact .inl ⟨_, rfl, .syspage trivial⟩
  | ok syspage =>
      change (∃ e, orCrash (addMem start size m.ram >>= _) = _ ∧ _) ∨
        ∃ out m', orCrash (addMem start size m.ram >>= _) = _ ∧ _
      rcases addMem_holds hk.ram hfit with ⟨herror, -, hfull⟩ | ⟨ram, hadd, hholds⟩
      · rw [herror]
        exact .inl ⟨_, rfl, .ram (Nat.le_of_succ_le hfull)⟩
      · have hlen := addMem_length hadd
        -- what was taken from the block is the image, which is taken again
        have hset : (block start size ∪ h.added) \ (h.taken \ block start size) =
            block start size ∪ h.added \ h.taken := by
          ext x
          simp only [Set.mem_sdiff, Set.mem_union]
          tauto
        have htaken : boot.image ∪ h.taken \ block start size = boot.image ∪ h.taken := by
          ext x
          have hx : x ∈ block start size → x ∉ h.taken \ boot.image :=
            fun hin => Set.disjoint_left.mp hfresh hin
          simp only [Set.mem_sdiff, Set.mem_union] at hx ⊢
          tauto
        have hadded : Keeps { m with ram, syspage } { h with
            added := block start size ∪ h.added, taken := h.taken \ block start size } :=
          ⟨hset ▸ hholds, hk.avoid⟩
        rw [hadd]
        change (∃ e, orCrash (takeBlock boot.imageStart boot.imageSize { m with ram, syspage } >>= _) = _ ∧ _) ∨
          ∃ out m', orCrash (takeBlock boot.imageStart boot.imageSize { m with ram, syspage } >>= _) = _ ∧ _
        rcases hadded.take hb.image_fits with ⟨c, herror, hstops⟩ | ⟨m₂, hok, hk₂, havoid⟩
        · rw [herror]
          refine .inl ⟨_, rfl, ?_⟩
          cases hstops with
          | ram hfull => exact .ram (Nat.le_of_succ_le_succ (Nat.le_trans hfull hlen))
          | syspage _ => exact .syspage trivial
          | sysram hadded hcovered => exact .sysram hadded rfl henter hcovered
        · rw [hok]
          change (∃ e, orCrash (findTempSyspage boot m₂) = _ ∧ _) ∨
            ∃ out m', orCrash (findTempSyspage boot m₂) = _ ∧ _
          have hk₃ : Keeps m₂ { h with
              added := block start size ∪ h.added, taken := boot.image ∪ h.taken } := htaken ▸ hk₂
          rcases findTempSyspage_spec hk₃ hb.page with ⟨herror, hfull⟩ | ⟨out, m', hok, hkeeps, hnew⟩
          · rw [herror]
            exact .inl ⟨_, rfl, .avoid (havoid ▸ hfull)⟩
          · rw [hok]
            refine .inr ⟨out, m', rfl, hkeeps, fun _ page hpage => ?_⟩
            obtain ⟨hblock, hdvd⟩ := hnew page hpage
            exact ⟨hblock.added, hblock.taken.mono_right Set.subset_union_right, hblock.announced, hdvd⟩

theorem call_spec (hb : boot.Fits) (hk : Keeps m h) {call : Call} (hfits : call.Fits boot h m) :
    CallSpec boot m h call := by
  cases call with
  | add start size => exact add_call hb hk hfits
  | alloc addr size align => exact alloc_call hk hfits
  | avoid start size => exact avoid_call hk hfits
  | workspace size => exact workspace_call hk hfits
  | reserve size align name pagesize lowRegion => exact reserve_call hk hfits
  | sysram => exact sysram_call hk
  | page call => exact page_call hk

/-! ## Runs -/

/-- The arrays that `ws_init` places behind the image, and the startup code. -/
theorem wsInit_keeps (hb : boot.Fits) (hm : wsInit boot = .ok m) : Keeps m boot.history := by
  obtain ⟨⟨hpos, hle⟩, htop, -⟩ := hb
  unfold ramTop at htop
  have hend : (boot.fullRamPaddr + boot.ramSize).toNat =
      boot.fullRamPaddr.toNat + boot.ramSize.toNat := by
    rw [BitVec.toNat_add]
    exact Nat.mod_eq_of_lt (by omega)
  obtain ⟨-, hlt, -⟩ := round_toNat (x := boot.fullRamPaddr + boot.ramSize) (a := 8) (k := 3)
    (by decide) (by decide) (by omega)
  have hsizes : round (BitVec.ofNat 64 maxAvoidListSize) 8 = 1024 ∧
      round (BitVec.ofNat 64 maxRamListSize) 8 = 3072 := by decide
  unfold wsInit at hm
  rw [hsizes.1, hsizes.2] at hm
  dsimp only at hm
  unfold Boot.history
  generalize round (boot.fullRamPaddr + boot.ramSize) 8 = next at hm hlt ⊢
  have hnext : next.toNat < 2 ^ 64 - 4096 := by omega
  have hfirst : (next + 1024).toNat = next.toNat + 1024 := by
    rw [BitVec.toNat_add]
    exact Nat.mod_eq_of_lt (by change next.toNat + 1024 < _; omega)
  have harray : Avoids [⟨next, next + 1024⟩] (block next 1024) := by
    refine ⟨fun a ha => ?_, ?_⟩
    · obtain rfl := List.mem_singleton.mp ha
      refine ⟨by dsimp only; omega, fun hz => ?_⟩
      dsimp only at hz
      rw [hz] at hfirst
      exact Nat.ne_of_lt (Nat.zero_lt_of_lt (Nat.lt_add_of_pos_right (by decide))) hfirst
    · simp only [List.map_cons, List.map_nil, covered_cons, covered_nil, Set.union_empty,
        AvoidEntry.span, hfirst]
      rfl
  have hlists : (3072 : Paddr).toNat = 3072 := rfl
  have hstartup : boot.fullRamPaddr.toNat + boot.startupSize.toNat < 2 ^ 64 := by omega
  rcases avoidRam_avoids harray (next + 1024) 3072 (by omega) (by omega) with
    ⟨herror, -⟩ | ⟨avoid₁, hok₁, havoids₁⟩
  · rw [herror] at hm
    cases hm
  · rw [hok₁] at hm
    rcases avoidRam_avoids havoids₁ boot.fullRamPaddr boot.startupSize (by omega)
      hstartup with ⟨herror, -⟩ | ⟨avoid₂, hok₂, havoids₂⟩
    · change orCrash (avoidRam boot.fullRamPaddr boot.startupSize avoid₁ >>= _) = _ at hm
      rw [herror] at hm
      cases hm
    · change orCrash (avoidRam boot.fullRamPaddr boot.startupSize avoid₁ >>= _) = _ at hm
      rw [hok₂] at hm
      cases hm
      refine ⟨?_, ?_⟩
      · rw [Set.empty_sdiff]
        exact holds_nil
      · have hboth : block (next + 1024) 3072 ∪ block next 1024 = block next (4 * 1024) := by
          have hfour : (4 * 1024 : Paddr).toNat = 4096 := rfl
          have hone : (1024 : Paddr).toNat = 1024 := rfl
          ext x
          simp only [block, Set.mem_union, Set.mem_Ico, hfirst, hlists, hfour, hone]
          omega
        rw [hboth, Set.union_comm] at havoids₂
        exact havoids₂

theorem startup_keeps (hb : boot.Fits) (hrun : startupRun boot m h) : Keeps m h := by
  have hinv := Machine.ReachableBy.invariant (I := fun s : Memory × History => Keeps s.1 s.2) hrun
  refine hinv ?_ ?_
  · rintro ⟨m, h⟩ ⟨hm, rfl⟩
    exact wsInit_keeps hb hm
  · rintro ⟨m, h⟩ call s' - hk hfits hs
    simp only [startup] at hs
    rcases call_spec hb hk hfits with ⟨e, herror, -⟩ | ⟨out, m', hok, hkeeps, -⟩
    · rw [herror] at hs
      cases hs
    · rw [hok] at hs
      cases hs
      exact hkeeps

/-- Over every startup the list is in order with gaps, holds what was added and not
taken, and is the same whatever the calls were that led to it. -/
theorem ram_list_determined {boot' : Boot} {m' : Memory} {h' : History} (hb : boot.Fits)
    (hb' : boot'.Fits) (hrun : startupRun boot m h) (hrun' : startupRun boot' m' h')
    (hfree : h.added \ h.taken = h'.added \ h'.taken) :
    Holds m.ram (h.added \ h.taken) ∧ m.ram = m'.ram := by
  have hram := (startup_keeps hb hrun).ram
  refine ⟨hram, hram.unique ?_⟩
  rw [hfree]
  exact (startup_keeps hb' hrun').ram

/-- Whatever a search hands out, at any time, is RAM, aligned, and shares nothing with
what was taken or announced before. -/
theorem handed_out_new (hb : boot.Fits) (hrun : startupRun boot m h) {call : Call}
    (hfits : call.Fits boot h m) (hsearch : call.Searches m) {addr : Paddr} {m' : Memory}
    (hcall : call.run boot m = .ok (some addr, m')) : HandedOut boot h call addr := by
  rcases call_spec hb (startup_keeps hb hrun) hfits with ⟨e, herror, -⟩ | ⟨out, m', hok, -, hnew⟩
  · rw [hcall] at herror
    cases herror
  · rw [hcall] at hok
    cases hok
    exact hnew hsearch addr rfl

/-- An allocation fails only if no entry clear of ranges to avoid has room for it. -/
theorem search_misses_nothing (hb : boot.Fits) (hrun : startupRun boot m h) {size : Paddr}
    {align : BitVec 32} (halign : PowerOfTwo align) (hsize : 0 < size.toNat) {m' : Memory}
    (hcall : Call.run boot m (.alloc none size align) = .ok (none, m')) {r : RamEntry}
    (hr : r ∈ m.ram) (hclear : Untouched m.avoid r) {x : Nat} (hx : align.toNat ∣ x)
    (hlow : r.span.lo ≤ x) : m' = m ∧ r.span.hi < x + size.toNat := by
  obtain ⟨k, hk⟩ := halign
  change allocRam none size align m = _ at hcall
  unfold allocRam at hcall
  rw [Option.none_or] at hcall
  cases hfind : findRam size align 0 0 m.avoid m.ram with
  | none =>
      rw [hfind] at hcall
      cases hcall
      exact ⟨rfl, findRam_none hk hsize (startup_keeps hb hrun).ram hfind hr hclear (hk ▸ hx) hlow⟩
  | some addr =>
      rw [hfind] at hcall
      dsimp only at hcall
      cases htake : takeBlock addr size m <;> rw [htake] at hcall <;> cases hcall

/-! ## A small board -/

/-- A small page that has no entries yet. -/
def somePage : Syspage := ⟨[], [], 8, 0x200, 0x600, 40⟩

def someBoot : Boot := ⟨0x80000, 0x40000, 0x10000, 4096, 0xfffffffffff, somePage⟩

theorem someBoot_fits : someBoot.Fits :=
  ⟨⟨by decide, by decide⟩, by decide, ⟨12, by decide⟩⟩

def freshMemory : Memory :=
  ⟨[], [⟨0xc0000, 0xc1000⟩, ⟨0x80000, 0x90000⟩], 0xc1000, none, somePage, false⟩

def belowFour : List Bytes := [utf8 "below4G", utf8 "memory"]

def ramNames : List Bytes := utf8 "ram" :: belowFour

def sysramNames : List Bytes := Syspage.sysram :: ramNames

/-- With 128 MB, less the image, and a temporary system page at the bottom. -/
def lowMemory : Memory where
  ram := [⟨0, 0x90000⟩, ⟨0xc0000, 0x7f40000⟩]
  avoid := [⟨0xc0000, 0xc1000⟩, ⟨0x80000, 0x90000⟩, ⟨0, 0xc000⟩]
  wsEarlyNext := 0xc1000
  tempSyspage := some 0
  syspage :=
    { asinfo := [⟨0, 0xfffffffffff, [utf8 "memory"]⟩, ⟨0, 0xffffffff, belowFour⟩,
        ⟨0, 0x7ffffff, ramNames⟩]
      strings := [utf8 "memory", utf8 "below4G", utf8 "ram"]
      stringsSize := 136
      totalSize := 760
      size := 0xc000
      elementSize := 40 }
  sysramAdded := false

def lowHistory : History := someBoot.history.after someBoot (.add 0 0x8000000) (some 0)

/-- And 16 MB elsewhere. -/
def someMemory : Memory :=
  { lowMemory with
    ram := lowMemory.ram ++ [⟨0x10000000, 0x1000000⟩]
    syspage := { lowMemory.syspage with
      asinfo := lowMemory.syspage.asinfo ++ [⟨0x10000000, 0x10ffffff, ramNames⟩]
      totalSize := 800 } }

def lateMemory : Memory :=
  { someMemory with
    syspage := { someMemory.syspage with
      asinfo := someMemory.syspage.asinfo ++ [⟨0, 0x8ffff, sysramNames⟩,
        ⟨0xc0000, 0x7ffffff, sysramNames⟩, ⟨0x10000000, 0x10ffffff, sysramNames⟩]
      strings := someMemory.syspage.strings ++ [Syspage.sysram]
      totalSize := 920 }
    sysramAdded := true }

def someHistory : History := lowHistory.after someBoot (.add 0x10000000 0x1000000) none

theorem someBoot_init : wsInit someBoot = .ok freshMemory := rfl

theorem someBoot_low :
    Call.run someBoot freshMemory (.add 0 0x8000000) = .ok (some 0, lowMemory) := rfl

theorem someBoot_high :
    Call.run someBoot lowMemory (.add 0x10000000 0x1000000) = .ok (none, someMemory) := rfl

theorem someBoot_run : startupRun someBoot someMemory someHistory := by
  have hinit : startupRun someBoot freshMemory someBoot.history := .initial ⟨someBoot_init, rfl⟩
  have hlow : startupRun someBoot lowMemory lowHistory := by
    refine Machine.ReachableBy.step hinit (e := .add 0 0x8000000) ⟨by decide, ?_⟩ ?_
    · have hnone : someBoot.history.taken = ∅ := rfl
      rw [hnone, Set.empty_sdiff]
      exact Set.disjoint_empty _
    · simp only [startup, someBoot_low]
      rfl
  refine Machine.ReachableBy.step hlow (e := .add 0x10000000 0x1000000) ⟨by decide, ?_⟩ ?_
  · have himage : lowHistory.taken = someBoot.image ∪ ∅ := rfl
    rw [himage, Set.union_empty, Set.sdiff_self]
    exact Set.disjoint_empty _
  · simp only [startup, someBoot_high]
    rfl

theorem someBoot_sysram : Call.run someBoot someMemory .sysram = .ok (none, lateMemory) := rfl

theorem lateBoot_run : startupRun someBoot lateMemory someHistory := by
  refine Machine.ReachableBy.step someBoot_run (e := .sysram) trivial ?_
  simp only [startup, someBoot_sysram]
  rfl

theorem ram_list_determined_some :
    Holds someMemory.ram (someHistory.added \ someHistory.taken) ∧
      someMemory.ram = someMemory.ram :=
  ram_list_determined someBoot_fits someBoot_fits someBoot_run someBoot_run rfl

theorem handed_out_new_some :
    HandedOut someBoot someHistory (.alloc none 0x1000 0x1000) 0xc000 := by
  have hcall : Call.run someBoot someMemory (.alloc none 0x1000 0x1000) = .ok (some 0xc000,
      { someMemory with
        ram := [⟨0, 0xc000⟩, ⟨0xd000, 0x83000⟩, ⟨0xc0000, 0x7f40000⟩,
          ⟨0x10000000, 0x1000000⟩] }) := rfl
  have hfits : (Call.alloc none 0x1000 0x1000).Fits someBoot someHistory someMemory :=
    ⟨12, by decide⟩
  exact handed_out_new someBoot_fits someBoot_run hfits rfl hcall

/-- Allocating more than there is in one piece. -/
theorem search_misses_nothing_some :
    ∃ m', Call.run someBoot someMemory (.alloc none 0x10000000 0x1000) = .ok (none, m') ∧
      m' = someMemory ∧ 0x11000000 < 0x10000000 + 0x10000000 := by
  have hcall : Call.run someBoot someMemory (.alloc none 0x10000000 0x1000) =
      .ok (none, someMemory) := rfl
  have hclear : Untouched someMemory.avoid ⟨0x10000000, 0x1000000⟩ := by
    intro a ha
    have hlow : 0 < a.stop.toNat ∧ a.start.toNat < a.stop.toNat ∧ a.stop.toNat ≤ 0x10000000 := by
      simp only [liveAvoid, someMemory, lowMemory] at ha
      have hmem := List.takeWhile_subset _ ha
      simp only [List.mem_cons, List.not_mem_nil, or_false] at hmem
      rcases hmem with rfl | rfl | rfl <;> decide
    refine ⟨hlow.2.1, Set.disjoint_left.mpr fun x hx hin => ?_⟩
    exact Nat.lt_irrefl x (Nat.lt_of_lt_of_le hin.2 (Nat.le_trans hlow.2.2 hx.1))
  obtain ⟨hsame, hroom⟩ := search_misses_nothing someBoot_fits someBoot_run ⟨12, by decide⟩
    (by decide) hcall (r := ⟨0x10000000, 0x1000000⟩) (by simp [someMemory]) hclear
    (x := 0x10000000) (by decide) (Nat.le_refl _)
  exact ⟨_, hcall, hsame, hroom⟩

end QnxHypervisor.BootMemory
