import QnxHypervisor.Foundation.BitFields
import QnxHypervisor.GpioServer.Board

/-! # The register file behind the table

The operations of the board's chip as stores to numbered registers. A register reads
back what was stored, except the ones that act on others: a one in a set or clear
register drives an output, and a one in the event register clears the event.
-/

namespace QnxHypervisor.GpioServer

open Foundation

structure Chip where
  regs : Nat → BitVec 32
  /-- outputs, driven through the set and clear registers -/
  latch : BitVec 32
  levels : BitVec 32
  events : BitVec 32
  pwmRegs : Nat → BitVec 32
  clkRegs : Nat → BitVec 32

def gpset0 : Nat := 7
def gpclr0 : Nat := 10
def gplev0 : Nat := 13
def gpeds0 : Nat := 16
def gpeds1 : Nat := 17
def gpren0 : Nat := 19
def gpren1 : Nat := 20
def gpfen0 : Nat := 22
def gpfen1 : Nat := 23
def gphen0 : Nat := 25
def gphen1 : Nat := 26
def gplen0 : Nat := 28
def gplen1 : Nat := 29
def gppud0 : Nat := 57

def Chip.load (c : Chip) (reg : Nat) : BitVec 32 :=
  if reg = gplev0 then c.levels else if reg = gpeds0 then c.events else c.regs reg

def Chip.store (c : Chip) (reg : Nat) (v : BitVec 32) : Chip :=
  if reg = gpset0 then { c with latch := c.latch ||| v }
  else if reg = gpclr0 then { c with latch := c.latch &&& ~~~v }
  else if reg = gpeds0 then { c with events := c.events &&& ~~~v }
  else if reg = gpeds1 then { c with regs := Function.update c.regs reg (c.regs reg &&& ~~~v) }
  else { c with regs := Function.update c.regs reg v }

/-! ## Operations -/

/-- `1 << n`. -/
def bit (n : Nat) : BitVec 32 := 1#32 <<< n

def rpi2711GpioSetSelect (g : Gpio) (value : BitVec 32) (c : Chip) : Chip :=
  let reg := g.val / 10
  let off := g.val % 10 * 3
  let val := c.load reg
  let val := val &&& ~~~((7 : BitVec 32) <<< off)
  let val := val ||| (value <<< off)
  c.store reg val

def rpi2711GpioGetSelect (g : Gpio) (c : Chip) : BitVec 32 :=
  let reg := g.val / 10
  let off := g.val % 10 * 3
  (c.load reg >>> off) &&& 7

def rpi2711GpioSet (g : Gpio) (c : Chip) : Chip := c.store (gpset0 + g.val / 32) (bit (g.val % 32))

def rpi2711GpioClear (g : Gpio) (c : Chip) : Chip := c.store (gpclr0 + g.val / 32) (bit (g.val % 32))

def rpi2711GpioRead (g : Gpio) (c : Chip) : BitVec 32 :=
  (c.load (gplev0 + g.val / 32) >>> (g.val % 32)) &&& 1

/-- The four detection switches differ in their first register only. -/
def rpi2711GpioDetect (reg0 : Nat) (g : Gpio) (enable : Bool) (c : Chip) : Chip :=
  let reg := reg0 + g.val / 32
  let off := g.val % 32
  if enable then c.store reg (c.load reg ||| bit off)
  else c.store reg (c.load reg &&& ~~~bit off)

def rpi2711GpioDetectRisingEdge : Gpio → Bool → Chip → Chip := rpi2711GpioDetect gpren0

def rpi2711GpioDetectFallingEdge : Gpio → Bool → Chip → Chip := rpi2711GpioDetect gpfen0

def rpi2711GpioDetectLevelHigh : Gpio → Bool → Chip → Chip := rpi2711GpioDetect gphen0

def rpi2711GpioDetectLevelLow : Gpio → Bool → Chip → Chip := rpi2711GpioDetect gplen0

/-- Pins from 32 on, which the board does not have, use the next register. -/
def rpi2711GpioEventClearDetect (g : Gpio) (c : Chip) : Chip := c.store gpeds0 (bit g.val)

def rpi2711GpioClearAllEvents (c : Chip) : Chip :=
  [(gpeds0, 0xffffffff), (gpeds1, 0xffffffff), (gpren0, 0), (gpren1, 0), (gpfen0, 0),
    (gpfen1, 0), (gphen0, 0), (gphen1, 0), (gplen0, 0), (gplen1, 0)].foldl
    (fun c (p : Nat × BitVec 32) => c.store p.1 p.2) c

def rpi2711GpioEventDetected (g : Gpio) (c : Chip) : Bool :=
  (c.load gpeds0 &&& bit g.val) != 0

/-- `pud_value_bcm2711`. -/
def pudValueBcm2711 : Pull → BitVec 32
  | .off => 0
  | .up => 1
  | .down => 2
  | .reserved => 3

def rpi2711GpioSetPudBcm2711 (g : Gpio) (pud : BitVec 32) (c : Chip) : Option Chip :=
  match Pull.requested pud with
  | none => none
  | some pull =>
      let reg := gppud0 + g.val / 16
      let off := g.val % 16 * 2
      let c := c.store reg (c.load reg &&& ~~~((3 : BitVec 32) <<< off))
      some (c.store reg (c.load reg ||| (pudValueBcm2711 pull <<< off)))

def regPwmCtl : Nat := 0

def regPwmRng : PwmChannel → Nat
  | .one => 4
  | .two => 8

def regPwmData : PwmChannel → Nat
  | .one => 5
  | .two => 9

def PwmChannel.enableShift : PwmChannel → Nat
  | .one => 0
  | .two => 8

/-- `pwm_enable`: the other channel's bits, and this channel's mode. -/
def pwmEnable (ch : PwmChannel) (mode ctl : BitVec 32) : BitVec 32 :=
  let kept := ctl &&& ((0xff00 : BitVec 32) >>> ch.enableShift)
  if mode = rpiPwmModeMs then kept ||| ((0x81 : BitVec 32) <<< ch.enableShift)
  else kept ||| ((1 : BitVec 32) <<< ch.enableShift)

/-- Without the wait for the clock to stop. -/
def rpi2711SetupPwmHard (hard : HardPwm) (msg : PwmMsg) (c : Chip) : Except Errno Chip :=
  match msg.refused with
  | some e => .error e
  | none =>
      let enable := pwmEnable hard.channel msg.mode (c.pwmRegs regPwmCtl)
      let c := { c with pwmRegs := Function.update c.pwmRegs regPwmCtl 0 }
      let c := { c with clkRegs := Function.update c.clkRegs 40 0x5A000001 }
      let divisor := 0x5A000000#32 ||| (BitVec.ofNat 32 msg.divi <<< 12)
      let c := { c with clkRegs := Function.update c.clkRegs 41 divisor }
      let c := { c with clkRegs := Function.update c.clkRegs 40 0x5A000011 }
      let c := { c with
        pwmRegs := Function.update c.pwmRegs (regPwmRng hard.channel) msg.range }
      let c := { c with pwmRegs := Function.update c.pwmRegs regPwmCtl enable }
      .ok (rpi2711GpioSetSelect hard.gpio hard.func c)

def rpi2711SetPwmDuty (hard : HardPwm) (duty : BitVec 32) (c : Chip) : Chip :=
  { c with pwmRegs := Function.update c.pwmRegs (regPwmData hard.channel) duty }

/-- `gpio_config_rpi4`. -/
def gpioConfigRpi4 : GpioConfig Chip where
  maxFuncs := 7
  setSelect := rpi2711GpioSetSelect
  getSelect := rpi2711GpioGetSelect
  set := rpi2711GpioSet
  clear := rpi2711GpioClear
  read := rpi2711GpioRead
  detectRisingEdge := rpi2711GpioDetectRisingEdge
  detectFallingEdge := rpi2711GpioDetectFallingEdge
  detectLevelHigh := rpi2711GpioDetectLevelHigh
  detectLevelLow := rpi2711GpioDetectLevelLow
  eventClearDetect := rpi2711GpioEventClearDetect
  eventClearAllEvents := rpi2711GpioClearAllEvents
  eventDetected := rpi2711GpioEventDetected
  setPud := rpi2711GpioSetPudBcm2711
  setupPwmHard := rpi2711SetupPwmHard
  setPwmDuty := rpi2711SetPwmDuty

def chipPins : Pins Chip where
  config := gpioConfigRpi4
  armed g c := (c.regs gpren0).getLsbD g || (c.regs gpfen0).getLsbD g ||
    (c.regs gphen0).getLsbD g || (c.regs gplen0).getLsbD g
  raise g c := { c with events := c.events ||| bit g }
  setLevel g level c :=
    { c with levels := if level then c.levels ||| bit g else c.levels &&& ~~~bit g }

def zeroChip : Chip := ⟨fun _ => 0, 0, 0, 0, fun _ => 0, fun _ => 0⟩

end QnxHypervisor.GpioServer
