import QnxHypervisor.GpioServer.Chip

/-! # The chip as a board

Selects and pulls are packed fields, everything else about a pin is one bit of a
word. Seen so, each operation of the register table is the operation of the board.
-/

namespace QnxHypervisor.GpioServer

open Foundation

/-- Ten selects of three bits in a word. -/
def fsel : Packing 32 := ⟨0, 3, 10, by decide, by decide⟩

/-- Sixteen pulls of two bits in a word. -/
def gppud : Packing 32 := ⟨gppud0, 2, 16, by decide, by decide⟩

/-- `pud_value_bcm2711` read backwards. -/
def pullOf (v : BitVec 32) : Pull :=
  if v = 0 then .off else if v = 1 then .up else if v = 2 then .down else .reserved

def Chip.pin (c : Chip) (g : Gpio) : Pin where
  func := fsel.get c.regs g
  pull := pullOf (gppud.get c.regs g)
  out := c.latch.getLsbD g
  level := c.levels.getLsbD g
  event := c.events.getLsbD g
  rising := (c.regs gpren0).getLsbD g
  falling := (c.regs gpfen0).getLsbD g
  high := (c.regs gphen0).getLsbD g
  low := (c.regs gplen0).getLsbD g

def Chip.pwm (c : Chip) (ch : PwmChannel) : Pwm where
  enabled := (c.pwmRegs regPwmCtl).getLsbD ch.enableShift
  markSpace := (c.pwmRegs regPwmCtl).getLsbD (ch.enableShift + 7)
  range := c.pwmRegs (regPwmRng ch)
  data := c.pwmRegs (regPwmData ch)

def Chip.board (c : Chip) : Board where
  pins := c.pin
  pwm := c.pwm
  divisor := ((c.clkRegs 41 >>> 12) &&& 0xfff).toNat

/-! ## Words of pins -/

theorem Gpio.lt_word (g : Gpio) : g.val < 32 := Nat.lt_trans g.isLt (by decide)

theorem Gpio.word (g : Gpio) : g.val / 32 = 0 := Nat.div_eq_of_lt g.lt_word

theorem Gpio.off (g : Gpio) : g.val % 32 = g.val := Nat.mod_eq_of_lt g.lt_word

theorem bit_getLsbD (n k : Nat) : (bit n).getLsbD k = (decide (k < 32) && decide (k = n)) := by
  rw [bit, BitVec.getLsbD_shiftLeft, BitVec.getLsbD_one]
  by_cases hlt : k < n
  · have hne : k ≠ n := by omega
    simp [hlt, hne]
  · have hsub : k - n = 0 ↔ k = n := by omega
    simp [hlt, hsub]

theorem bit_pin (g k : Gpio) : (bit g).getLsbD k = decide (k = g) := by
  rw [bit_getLsbD, decide_eq_true k.lt_word, Bool.true_and]
  exact decide_eq_decide.mpr Fin.ext_iff.symm

theorem set_bit (w : BitVec 32) (g k : Gpio) :
    (w ||| bit g).getLsbD k = if k = g then true else w.getLsbD k := by
  rw [BitVec.getLsbD_or, bit_pin]
  by_cases hk : k = g <;> simp [hk]

theorem clear_bit (w : BitVec 32) (g k : Gpio) :
    (w &&& ~~~bit g).getLsbD k = if k = g then false else w.getLsbD k := by
  have hword := k.lt_word
  rw [BitVec.getLsbD_and, BitVec.getLsbD_not, bit_pin]
  by_cases hk : k = g <;> simp [hk, hword]

theorem test_bit (w : BitVec 32) (g : Gpio) : ((w &&& bit g) != 0) = w.getLsbD g := by
  have hand : ∀ k, (w &&& bit g).getLsbD k = (w.getLsbD k && (bit g).getLsbD k) :=
    fun k => BitVec.getLsbD_and
  cases hbit : w.getLsbD g with
  | true =>
      apply bne_iff_ne.mpr
      intro hzero
      have hg := hand g
      rw [hzero, hbit, bit_pin, decide_eq_true rfl] at hg
      simp at hg
  | false =>
      have hzero : w &&& bit g = 0 := by
        apply BitVec.eq_of_getLsbD_eq
        intro k hk
        rw [hand, bit_getLsbD]
        by_cases hkg : k = g.val
        · rw [hkg, hbit]
          simp
        · simp [hkg]
      rw [hzero]
      rfl

theorem store_plain (c : Chip) {reg : Nat} (v : BitVec 32)
    (h : reg ≠ gpset0 ∧ reg ≠ gpclr0 ∧ reg ≠ gpeds0 ∧ reg ≠ gpeds1) :
    c.store reg v = { c with regs := Function.update c.regs reg v } := by
  rw [Chip.store, if_neg h.1, if_neg h.2.1, if_neg h.2.2.1, if_neg h.2.2.2]

theorem load_plain (c : Chip) {reg : Nat} (h : reg ≠ gplev0 ∧ reg ≠ gpeds0) :
    c.load reg = c.regs reg := by
  rw [Chip.load, if_neg h.1, if_neg h.2]

/-! ## One pin at a time -/

theorem board_pin {c c' : Chip} {g : Gpio} {f : Pin → Pin}
    (hpin : ∀ k, c'.pin k = if k = g then f (c.pin k) else c.pin k)
    (hpwm : c'.pwmRegs = c.pwmRegs) (hclk : c'.clkRegs = c.clkRegs) :
    c'.board = c.board.pin g f := by
  have hpins : c'.pin = Function.update c.pin g (f (c.pin g)) := by
    funext k
    rw [hpin, Function.update_apply]
    by_cases hk : k = g
    · rw [hk]
    · rw [if_neg hk, if_neg hk]
  have hchannels : c'.pwm = c.pwm := by
    funext ch
    rw [Chip.pwm, hpwm, Chip.pwm]
  rw [Chip.board, Board.pin, hpins, hchannels, hclk]
  rfl

theorem select_words (g : Gpio) : g.val / 10 < 3 := by
  have hg := g.isLt
  unfold rpiGpioNum at hg
  omega

theorem setSelect_regs (g : Gpio) (v : BitVec 32) (c : Chip) :
    rpi2711GpioSetSelect g v c = { c with regs := fsel.put c.regs g v } := by
  have hword := select_words g
  have hstore : g.val / 10 ≠ gpset0 ∧ g.val / 10 ≠ gpclr0 ∧ g.val / 10 ≠ gpeds0 ∧
      g.val / 10 ≠ gpeds1 := by
    simp only [gpset0, gpclr0, gpeds0, gpeds1]
    omega
  have hload : g.val / 10 ≠ gplev0 ∧ g.val / 10 ≠ gpeds0 := by
    simp only [gplev0, gpeds0]
    omega
  have hreg : fsel.word g = g.val / 10 := Nat.zero_add _
  simp only [rpi2711GpioSetSelect, store_plain c _ hstore, load_plain c hload, Packing.put, hreg]
  rfl

theorem select_fits {v : BitVec 32} (hv : v ≤ 7) (b : Nat) (hb : fsel.width ≤ b) :
    v.getLsbD b = false := by
  have hnat : v.toNat ≤ 7 := hv
  have hpow : 2 ^ 3 ≤ 2 ^ b := Nat.pow_le_pow_right (by decide) hb
  exact Nat.testBit_lt_two_pow (by omega)

/-! ## The operations -/

theorem setSelect_board (g : Gpio) {v : BitVec 32} (hv : v ≤ 7) (c : Chip) :
    (rpi2711GpioSetSelect g v c).board = board.setSelect g v c.board := by
  rw [setSelect_regs]
  change _ = c.board.pin g fun p => { p with func := v }
  refine board_pin (fun k => ?_) rfl rfl
  have hword := select_words g
  have hreg : fsel.word g = g.val / 10 := Nat.zero_add _
  have hplain : ∀ r, 3 ≤ r → fsel.put c.regs g v r = c.regs r := fun r hr =>
    fsel.put_of_ne c.regs (by omega)
  have hpull : gppud.get (fsel.put c.regs g v) k = gppud.get c.regs k := by
    have hlow : 3 ≤ gppud.word k := Nat.le_trans (by decide : 3 ≤ gppud0) (Nat.le_add_right _ _)
    rw [Packing.get, hplain _ hlow, Packing.get]
  simp only [Chip.pin, hpull, hplain gpren0 (by decide), hplain gpfen0 (by decide),
    hplain gphen0 (by decide), hplain gplen0 (by decide)]
  by_cases hk : k = g
  · rw [hk, if_pos rfl, fsel.get_put c.regs (select_fits hv)]
  · rw [if_neg hk, fsel.get_put_of_ne c.regs (select_fits hv) (fun h => hk (Fin.ext h))]

theorem getSelect_board (g : Gpio) (c : Chip) :
    rpi2711GpioGetSelect g c = board.getSelect g c.board := by
  have hword := select_words g
  have hload : g.val / 10 ≠ gplev0 ∧ g.val / 10 ≠ gpeds0 := by
    simp only [gplev0, gpeds0]
    omega
  have hreg : fsel.word g = g.val / 10 := Nat.zero_add _
  simp only [rpi2711GpioGetSelect, load_plain c hload]
  change _ = fsel.get c.regs g
  rw [Packing.get, hreg]
  rfl

theorem set_board (g : Gpio) (c : Chip) : (rpi2711GpioSet g c).board = board.set g c.board := by
  rw [rpi2711GpioSet, g.word, g.off]
  change _ = c.board.pin g fun p => { p with out := true }
  refine board_pin (fun k => ?_) rfl rfl
  change { c.pin k with out := (c.latch ||| bit g).getLsbD k } = _
  rw [set_bit]
  split <;> rfl

theorem clear_board (g : Gpio) (c : Chip) :
    (rpi2711GpioClear g c).board = board.clear g c.board := by
  rw [rpi2711GpioClear, g.word, g.off]
  change _ = c.board.pin g fun p => { p with out := false }
  refine board_pin (fun k => ?_) rfl rfl
  change { c.pin k with out := (c.latch &&& ~~~bit g).getLsbD k } = _
  rw [clear_bit]
  split <;> rfl

theorem eventClearDetect_board (g : Gpio) (c : Chip) :
    (rpi2711GpioEventClearDetect g c).board = board.eventClearDetect g c.board := by
  change _ = c.board.pin g fun p => { p with event := false }
  refine board_pin (fun k => ?_) rfl rfl
  change { c.pin k with event := (c.events &&& ~~~bit g).getLsbD k } = _
  rw [clear_bit]
  split <;> rfl

theorem eventDetected_board (g : Gpio) (c : Chip) :
    rpi2711GpioEventDetected g c = board.eventDetected g c.board :=
  test_bit c.events g

/-- The words of the selects and pulls are not among the cleared ones. -/
theorem clearAllEvents_board (c : Chip) :
    (rpi2711GpioClearAllEvents c).board = board.eventClearAllEvents c.board := by
  have hregs : ∀ r, r ∉ [gpeds1, gpren0, gpren1, gpfen0, gpfen1, gphen0, gphen1, gplen0, gplen1] →
      (rpi2711GpioClearAllEvents c).regs r = c.regs r := by
    intro r hr
    simp only [List.mem_cons, List.not_mem_nil, or_false, not_or] at hr
    simp [rpi2711GpioClearAllEvents, Chip.store, gpset0, gpclr0, gpeds0, gpeds1, gpren0, gpren1,
      gpfen0, gpfen1, gphen0, gphen1, gplen0, gplen1, Function.update_apply] at hr ⊢
    simp [hr]
  have hevents : (rpi2711GpioClearAllEvents c).events = 0 := by
    change c.events &&& ~~~0xffffffff = 0
    simp
  have hpins : (rpi2711GpioClearAllEvents c).pin = (board.eventClearAllEvents c.board).pins := by
    funext g
    have hselect : fsel.get (rpi2711GpioClearAllEvents c).regs g = fsel.get c.regs g := by
      have hword := select_words g
      have hlow : fsel.word g < 3 := by
        change 0 + g.val / 10 < 3
        omega
      rw [Packing.get, hregs, Packing.get]
      intro hmem
      have hhigh : ∀ r ∈ [gpeds1, gpren0, gpren1, gpfen0, gpfen1, gphen0, gphen1, gplen0, gplen1],
          3 ≤ r := by decide
      have hle := hhigh _ hmem
      omega
    have hpull : gppud.get (rpi2711GpioClearAllEvents c).regs g = gppud.get c.regs g := by
      have hhigh : gppud0 ≤ gppud.word g := Nat.le_add_right _ _
      rw [Packing.get, hregs, Packing.get]
      intro hmem
      have hlow : ∀ r ∈ [gpeds1, gpren0, gpren1, gpfen0, gpfen1, gphen0, gphen1, gplen0, gplen1],
          r < gppud0 := by decide
      exact absurd (hlow _ hmem) (Nat.not_lt.mpr hhigh)
    have hzero : ∀ r ∈ [gpren0, gpfen0, gphen0, gplen0],
        (rpi2711GpioClearAllEvents c).regs r = 0 := by
      simp [rpi2711GpioClearAllEvents, Chip.store, gpset0, gpclr0, gpeds0, gpeds1, gpren0, gpren1,
        gpfen0, gpfen1, gphen0, gphen1, gplen0, gplen1, Function.update_apply]
    simp only [Chip.pin, hselect, hpull, hevents, hzero gpren0 (by decide),
      hzero gpfen0 (by decide), hzero gphen0 (by decide), hzero gplen0 (by decide)]
    simp [board, Chip.board, Chip.pin, rpi2711GpioClearAllEvents, Chip.store, gpset0, gpclr0,
      gpeds0, gpeds1, gpren0, gpren1, gpfen0, gpfen1, gphen0, gphen1, gplen0, gplen1]
  rw [Chip.board, hpins]
  rfl

theorem read_board (g : Gpio) (c : Chip) : rpi2711GpioRead g c = board.read g c.board := by
  rw [rpi2711GpioRead, g.word, g.off]
  change (c.levels >>> g.val) &&& 1 = if c.levels.getLsbD g then 1 else 0
  apply BitVec.eq_of_getLsbD_eq
  intro b hb
  rw [BitVec.getLsbD_and, BitVec.getLsbD_ushiftRight]
  have hone : (1 : BitVec 32).getLsbD b = decide (b = 0) := by
    rw [show (1 : BitVec 32) = 1#32 from rfl, BitVec.getLsbD_one]
    simp
  rw [hone]
  by_cases hzero : b = 0
  · rw [hzero, Nat.add_zero]
    cases c.levels.getLsbD g <;> simp
  · rw [decide_eq_false hzero, Bool.and_false]
    cases c.levels.getLsbD g with
    | true => exact (hone.trans (decide_eq_false hzero)).symm
    | false => exact (BitVec.getLsbD_zero).symm

/-- The pins after a store between the selects and the pulls. -/
theorem pin_between (c : Chip) {reg : Nat} (v : BitVec 32) (h : 3 ≤ reg ∧ reg < gppud0)
    (k : Gpio) :
    ({ c with regs := Function.update c.regs reg v } : Chip).pin k =
      { c.pin k with
        rising := (Function.update c.regs reg v gpren0).getLsbD k
        falling := (Function.update c.regs reg v gpfen0).getLsbD k
        high := (Function.update c.regs reg v gphen0).getLsbD k
        low := (Function.update c.regs reg v gplen0).getLsbD k } := by
  have hword := select_words k
  have hselect : fsel.word k ≠ reg := by
    change 0 + k.val / 10 ≠ reg
    omega
  have hpull : gppud.word k ≠ reg := by
    change gppud0 + k.val / 16 ≠ reg
    omega
  simp only [Chip.pin, Packing.get, Function.update_of_ne hselect, Function.update_of_ne hpull]

/-- A switch in the word `reg` sets what the pins have there. -/
theorem detect_board (reg : Nat) (f : Bool → Pin → Pin) (g : Gpio) (enable : Bool) (c : Chip)
    (hreg : reg ∈ [gpren0, gpfen0, gphen0, gplen0])
    (hset : ∀ v (k : Gpio), ({ c with regs := Function.update c.regs reg v } : Chip).pin k =
      f (v.getLsbD k) (c.pin k))
    (hsame : ∀ k : Gpio, f ((c.regs reg).getLsbD k) (c.pin k) = c.pin k) :
    (rpi2711GpioDetect reg g enable c).board = c.board.pin g (f enable) := by
  have hplain : ∀ r ∈ [gpren0, gpfen0, gphen0, gplen0],
      (r ≠ gpset0 ∧ r ≠ gpclr0 ∧ r ≠ gpeds0 ∧ r ≠ gpeds1) ∧ (r ≠ gplev0 ∧ r ≠ gpeds0) := by decide
  obtain ⟨hstore, hload⟩ := hplain reg hreg
  have hregs : ∃ v, rpi2711GpioDetect reg g enable c =
        { c with regs := Function.update c.regs reg v } ∧
      ∀ k : Gpio, v.getLsbD k = if k = g then enable else (c.regs reg).getLsbD k := by
    rw [rpi2711GpioDetect, g.word, g.off, Nat.add_zero, load_plain c hload]
    cases enable with
    | true => exact ⟨_, store_plain c _ hstore, set_bit _ g⟩
    | false => exact ⟨_, store_plain c _ hstore, clear_bit _ g⟩
  obtain ⟨v, hregs, hbits⟩ := hregs
  rw [hregs]
  refine board_pin (fun k => ?_) rfl rfl
  rw [hset, hbits]
  split
  · rfl
  · exact hsame k

theorem detectRisingEdge_board (g : Gpio) (enable : Bool) (c : Chip) :
    (rpi2711GpioDetectRisingEdge g enable c).board = board.detectRisingEdge g enable c.board := by
  refine detect_board gpren0 (fun enable p => { p with rising := enable }) g enable c (by decide) ?_
    fun _ => rfl
  intro v k
  rw [pin_between c v (by decide), Function.update_self]
  rfl

theorem detectFallingEdge_board (g : Gpio) (enable : Bool) (c : Chip) :
    (rpi2711GpioDetectFallingEdge g enable c).board = board.detectFallingEdge g enable c.board := by
  refine detect_board gpfen0 (fun enable p => { p with falling := enable }) g enable c (by decide) ?_
    fun _ => rfl
  intro v k
  rw [pin_between c v (by decide), Function.update_self]
  rfl

theorem detectLevelHigh_board (g : Gpio) (enable : Bool) (c : Chip) :
    (rpi2711GpioDetectLevelHigh g enable c).board = board.detectLevelHigh g enable c.board := by
  refine detect_board gphen0 (fun enable p => { p with high := enable }) g enable c (by decide) ?_
    fun _ => rfl
  intro v k
  rw [pin_between c v (by decide), Function.update_self]
  rfl

theorem detectLevelLow_board (g : Gpio) (enable : Bool) (c : Chip) :
    (rpi2711GpioDetectLevelLow g enable c).board = board.detectLevelLow g enable c.board := by
  refine detect_board gplen0 (fun enable p => { p with low := enable }) g enable c (by decide) ?_
    fun _ => rfl
  intro v k
  rw [pin_between c v (by decide), Function.update_self]
  rfl

theorem pull_fits (pull : Pull) (b : Nat) (hb : gppud.width ≤ b) :
    (pudValueBcm2711 pull).getLsbD b = false := by
  have hpow : 2 ^ 2 ≤ 2 ^ b := Nat.pow_le_pow_right (by decide) hb
  have hval : (pudValueBcm2711 pull).toNat < 4 := by
    cases pull <;> decide
  exact Nat.testBit_lt_two_pow (by omega)

theorem setPud_board (g : Gpio) (pud : BitVec 32) (c : Chip) :
    (rpi2711GpioSetPudBcm2711 g pud c).map Chip.board = board.setPud g pud c.board := by
  change _ = (Pull.requested pud).map fun pull => c.board.pin g fun p => { p with pull }
  rw [rpi2711GpioSetPudBcm2711]
  cases Pull.requested pud with
  | none => rfl
  | some pull =>
      have hstore : gppud0 + g.val / 16 ≠ gpset0 ∧ gppud0 + g.val / 16 ≠ gpclr0 ∧
          gppud0 + g.val / 16 ≠ gpeds0 ∧ gppud0 + g.val / 16 ≠ gpeds1 := by
        simp only [gppud0, gpset0, gpclr0, gpeds0, gpeds1]
        omega
      have hload : gppud0 + g.val / 16 ≠ gplev0 ∧ gppud0 + g.val / 16 ≠ gpeds0 := by
        simp only [gppud0, gplev0, gpeds0]
        omega
      have hregs : (c.store (gppud0 + g.val / 16)
          (c.load (gppud0 + g.val / 16) &&& ~~~((3 : BitVec 32) <<< (g.val % 16 * 2)))).store
          (gppud0 + g.val / 16) ((c.store (gppud0 + g.val / 16)
            (c.load (gppud0 + g.val / 16) &&& ~~~((3 : BitVec 32) <<< (g.val % 16 * 2)))).load
            (gppud0 + g.val / 16) ||| (pudValueBcm2711 pull <<< (g.val % 16 * 2))) =
          { c with regs := gppud.put c.regs g (pudValueBcm2711 pull) } := by
        simp only [store_plain _ _ hstore, load_plain _ hload, Function.update_self,
          Function.update_idem]
        rfl
      simp only [Option.map_some, hregs, Option.some.injEq]
      refine board_pin (fun k => ?_) rfl rfl
      have hword := select_words k
      have hplain : ∀ r, r < gppud0 → gppud.put c.regs g (pudValueBcm2711 pull) r = c.regs r :=
        fun r hr => gppud.put_of_ne c.regs (by
          change r ≠ gppud0 + g.val / 16
          omega)
      have hselect : fsel.get (gppud.put c.regs g (pudValueBcm2711 pull)) k = fsel.get c.regs k := by
        have hlow : fsel.word k < gppud0 := by
          change 0 + k.val / 10 < 57
          omega
        rw [Packing.get, hplain _ hlow, Packing.get]
      simp only [Chip.pin, hselect, hplain gpren0 (by decide), hplain gpfen0 (by decide),
        hplain gphen0 (by decide), hplain gplen0 (by decide)]
      by_cases hk : k = g
      · rw [hk, if_pos rfl, gppud.get_put c.regs (pull_fits pull)]
        cases hpull : pull <;> rfl
      · rw [if_neg hk, gppud.get_put_of_ne c.regs (pull_fits pull) (fun h => hk (Fin.ext h))]

/-! ## Hardware PWM -/

theorem pwmEnable_bit (ch k : PwmChannel) (mode ctl : BitVec 32) :
    (pwmEnable ch mode ctl).getLsbD k.enableShift =
        (if k = ch then true else ctl.getLsbD k.enableShift) ∧
      (pwmEnable ch mode ctl).getLsbD (k.enableShift + 7) =
        (if k = ch then decide (mode = rpiPwmModeMs) else ctl.getLsbD (k.enableShift + 7)) := by
  unfold pwmEnable
  by_cases hmode : mode = rpiPwmModeMs
  · rw [if_pos hmode, decide_eq_true hmode]
    cases ch <;> cases k <;> simp [PwmChannel.enableShift]
  · rw [if_neg hmode, decide_eq_false hmode]
    cases ch <;> cases k <;> simp [PwmChannel.enableShift]

theorem divisor_read {n : Nat} (h : n < 4096) :
    (((0x5A000000#32 ||| (BitVec.ofNat 32 n <<< 12)) >>> 12) &&& 0xfff#32).toNat = n := by
  have hbits : ((0x5A000000#32 ||| (BitVec.ofNat 32 n <<< 12)) >>> 12) &&& 0xfff#32 =
      BitVec.ofNat 32 n := by
    have htag : ∀ b < 12, (0x5A000000#32).getLsbD (12 + b) = false := by decide
    apply BitVec.eq_of_getLsbD_eq
    intro b hb
    have hmask : (0xfff#32).getLsbD b = decide (b < 12) := by
      rw [show (0xfff#32) = BitVec.ofNat 32 (2 ^ 12 - 1) from rfl, BitVec.getLsbD_ofNat,
        Nat.testBit_two_pow_sub_one, decide_eq_true hb, Bool.true_and]
    rw [BitVec.getLsbD_and, BitVec.getLsbD_ushiftRight, BitVec.getLsbD_or,
      BitVec.getLsbD_shiftLeft, hmask, Nat.add_sub_cancel_left]
    by_cases hlow : b < 12
    · have hword : 12 + b < 32 := by omega
      rw [htag b hlow]
      simp [hlow, hword]
    · have hhigh : (BitVec.ofNat 32 n).getLsbD b = false := by
        have hpow : 2 ^ 12 ≤ 2 ^ b := Nat.pow_le_pow_right (by decide) (Nat.le_of_not_lt hlow)
        rw [BitVec.getLsbD_ofNat, Nat.testBit_lt_two_pow (by omega), Bool.and_false]
      simp [hlow, hhigh]
  rw [hbits, BitVec.toNat_ofNat]
  exact Nat.mod_eq_of_lt (by omega)

/-- A pulse-width unit whose control word, range and data are these. -/
theorem pwm_channel (c : Chip) (ch : PwmChannel) (mode range : BitVec 32) :
    ({ c with pwmRegs := Function.update (Function.update (Function.update c.pwmRegs regPwmCtl 0)
        (regPwmRng ch) range) regPwmCtl (pwmEnable ch mode (c.pwmRegs regPwmCtl)) } : Chip).pwm =
      Function.update c.pwm ch
        { c.pwm ch with enabled := true, markSpace := mode = rpiPwmModeMs, range } := by
  funext k
  have hbits := pwmEnable_bit ch k mode (c.pwmRegs regPwmCtl)
  have hrange : ∀ a, regPwmRng a ≠ regPwmCtl := by
    intro a
    cases a <;> decide
  have hdata : ∀ a b, regPwmData a ≠ regPwmCtl ∧ regPwmData a ≠ regPwmRng b := by
    intro a b
    cases a <;> cases b <;> decide
  simp only [Chip.pwm, Function.update_self, hbits.1, hbits.2, Function.update_of_ne (hrange k),
    Function.update_of_ne (hdata k ch).1, Function.update_of_ne (hdata k ch).2]
  by_cases hk : k = ch
  · subst hk
    simp only [Function.update_self, if_true]
  · have hrng : regPwmRng k ≠ regPwmRng ch := by
      revert hk
      cases k <;> cases ch <;> decide
    rw [if_neg hk, if_neg hk, Function.update_of_ne hrng, Function.update_of_ne hk,
      Function.update_of_ne (hrange k), Chip.pwm]

theorem setupPwmHard_board (hard : HardPwm) (msg : PwmMsg) (c : Chip) (hfunc : hard.func ≤ 7) :
    (rpi2711SetupPwmHard hard msg c).map Chip.board = board.setupPwmHard hard msg c.board := by
  simp only [rpi2711SetupPwmHard, board]
  cases hrefused : msg.refused with
  | some e => rfl
  | none =>
      simp only [Except.map, Except.ok.injEq]
      rw [setSelect_board hard.gpio hfunc]
      change Board.pin hard.gpio (fun p => { p with func := hard.func }) _ = _
      congr 1
      have hdivisor := divisor_read (PwmMsg.divi_lt hrefused)
      rw [Chip.board, Board.mk.injEq]
      refine ⟨rfl, pwm_channel c hard.channel msg.mode msg.range, ?_⟩
      simp only [Function.update_of_ne (show (41 : Nat) ≠ 40 by decide), Function.update_self]
      exact hdivisor

theorem setPwmDuty_board (hard : HardPwm) (duty : BitVec 32) (c : Chip) :
    (rpi2711SetPwmDuty hard duty c).board = board.setPwmDuty hard duty c.board := by
  have hpwm : (rpi2711SetPwmDuty hard duty c).pwm =
      Function.update c.pwm hard.channel { c.pwm hard.channel with data := duty } := by
    funext k
    have hplain : ∀ a b, regPwmCtl ≠ regPwmData b ∧ regPwmRng a ≠ regPwmData b := by
      intro a b
      cases a <;> cases b <;> decide
    simp only [Chip.pwm, rpi2711SetPwmDuty, Function.update_of_ne (hplain k hard.channel).1,
      Function.update_of_ne (hplain k hard.channel).2]
    by_cases hk : k = hard.channel
    · rw [hk, Function.update_self, Function.update_self]
    · have hdata : regPwmData k ≠ regPwmData hard.channel := by
        revert hk
        cases k <;> cases hard.channel <;> decide
      rw [Function.update_of_ne hdata, Function.update_of_ne hk, Chip.pwm]
  change Board.mk _ _ _ = Board.mk _ _ _
  rw [hpwm]
  rfl

theorem rpi4_refines : Refines gpioConfigRpi4 board Chip.board where
  maxFuncs := rfl
  setSelect g _ c hf := setSelect_board g hf c
  getSelect := getSelect_board
  set := set_board
  clear := clear_board
  read := read_board
  detectRisingEdge := detectRisingEdge_board
  detectFallingEdge := detectFallingEdge_board
  detectLevelHigh := detectLevelHigh_board
  detectLevelLow := detectLevelLow_board
  eventClearDetect := eventClearDetect_board
  eventClearAllEvents := clearAllEvents_board
  eventDetected := eventDetected_board
  setPud := setPud_board
  setupPwmHard hard msg c hf := setupPwmHard_board hard msg c hf
  setPwmDuty := setPwmDuty_board

theorem chipPins_refine : PinsRefine chipPins boardPins Chip.board where
  config := rpi4_refines
  armed _ _ := rfl
  raise g c := by
    change _ = c.board.pin g fun p => { p with event := true }
    refine board_pin (fun k => ?_) rfl rfl
    change { c.pin k with event := (c.events ||| bit g).getLsbD k } = _
    rw [set_bit]
    split <;> rfl
  setLevel g level c := by
    change _ = c.board.pin g fun p => { p with level }
    refine board_pin (fun k => ?_) rfl rfl
    cases level with
    | true =>
        change { c.pin k with level := (c.levels ||| bit g).getLsbD k } = _
        rw [set_bit]
        split <;> rfl
    | false =>
        change { c.pin k with level := (c.levels &&& ~~~bit g).getLsbD k } = _
        rw [clear_bit]
        split <;> rfl

end QnxHypervisor.GpioServer
