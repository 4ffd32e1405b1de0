import Mathlib.Logic.Function.Basic

/-! # The table of pin operations

The resource manager reaches the pins through a table of functions, one for each
operation, and never through the registers. The table is kept generic over the state
it works on; `board` is what its comments say the operations do, one record a pin,
and `Refines` says that another table does the same to a state seen as a board.
-/

namespace QnxHypervisor.GpioServer

def rpiGpioNum : Nat := 28

abbrev Gpio := Fin rpiGpioNum

def pinZero : Gpio := ⟨0, by decide⟩

inductive Errno where
  | badMsg
  | perm
  | range
  | noDevice
  | busy
  | again
  | invalid
  | overflow
  deriving DecidableEq

/-! ## Messages about PWM -/

inductive PwmChannel where
  | one
  | two
  deriving DecidableEq

/-- A `pwm_t` with a channel: the pin and the function that drives it. -/
structure HardPwm where
  gpio : Gpio
  channel : PwmChannel
  func : BitVec 32
  deriving DecidableEq

def rpiPwmModePwm : BitVec 32 := 0
def rpiPwmModeMs : BitVec 32 := 1

/-- `rpi_gpio_pwm_t` behind its pin. -/
structure PwmMsg where
  frequency : BitVec 32
  range : BitVec 32
  mode : BitVec 32
  deriving DecidableEq

def oscillator : Nat := 54000000

/-- `(unsigned)divd`: both factors and their product are exact in a double, and a
quotient of so few bits does not round up to the next integer. -/
def PwmMsg.divi (msg : PwmMsg) : Nat := oscillator / (msg.frequency.toNat * msg.range.toNat)

/-- The checks of `setup_pwm_hard`, in its order. -/
def PwmMsg.refused (msg : PwmMsg) : Option Errno :=
  if 4095 < msg.range.toNat then some .invalid
  else if msg.mode ≠ rpiPwmModePwm ∧ msg.mode ≠ rpiPwmModeMs then some .invalid
  else if msg.divi < 1 ∨ 4095 < msg.divi then some .range
  else none

theorem PwmMsg.divi_lt {msg : PwmMsg} (h : msg.refused = none) : msg.divi < 4096 := by
  unfold refused at h
  split at h
  · cases h
  · split at h
    · cases h
    · split at h
      · cases h
      · omega

/-! ## The table -/

/-- `gpio_config_t`. `setPud` is `none` for false. -/
structure GpioConfig (C : Type) where
  maxFuncs : BitVec 32
  setSelect : Gpio → BitVec 32 → C → C
  getSelect : Gpio → C → BitVec 32
  set : Gpio → C → C
  clear : Gpio → C → C
  read : Gpio → C → BitVec 32
  detectRisingEdge : Gpio → Bool → C → C
  detectFallingEdge : Gpio → Bool → C → C
  detectLevelHigh : Gpio → Bool → C → C
  detectLevelLow : Gpio → Bool → C → C
  eventClearDetect : Gpio → C → C
  eventClearAllEvents : C → C
  eventDetected : Gpio → C → Bool
  setPud : Gpio → BitVec 32 → C → Option C
  setupPwmHard : HardPwm → PwmMsg → C → Except Errno C
  setPwmDuty : HardPwm → BitVec 32 → C → C

/-! ## The board -/

inductive Pull where
  | off
  | up
  | down
  | reserved
  deriving DecidableEq

/-- The values of a pull request: `RPI_GPIO_PUD_OFF`, `_DOWN` and `_UP`. -/
def Pull.requested (pud : BitVec 32) : Option Pull :=
  if pud = 0 then some .off
  else if pud = 1 then some .down
  else if pud = 2 then some .up
  else none

structure Pin where
  func : BitVec 32
  pull : Pull
  /-- the level driven by an output -/
  out : Bool
  level : Bool
  /-- an event was detected and not cleared -/
  event : Bool
  rising : Bool
  falling : Bool
  high : Bool
  low : Bool

structure Pwm where
  enabled : Bool
  markSpace : Bool
  range : BitVec 32
  data : BitVec 32

structure Board where
  pins : Gpio → Pin
  pwm : PwmChannel → Pwm
  /-- of the clock that the channels share -/
  divisor : Nat

def Board.pin (g : Gpio) (f : Pin → Pin) (b : Board) : Board :=
  { b with pins := Function.update b.pins g (f (b.pins g)) }

def Board.channel (ch : PwmChannel) (f : Pwm → Pwm) (b : Board) : Board :=
  { b with pwm := Function.update b.pwm ch (f (b.pwm ch)) }

/-- What a table's operations do to the pins. -/
def board : GpioConfig Board where
  maxFuncs := 7
  setSelect g f := Board.pin g fun p => { p with func := f }
  getSelect g b := (b.pins g).func
  set g := Board.pin g fun p => { p with out := true }
  clear g := Board.pin g fun p => { p with out := false }
  read g b := if (b.pins g).level then 1 else 0
  detectRisingEdge g enable := Board.pin g fun p => { p with rising := enable }
  detectFallingEdge g enable := Board.pin g fun p => { p with falling := enable }
  detectLevelHigh g enable := Board.pin g fun p => { p with high := enable }
  detectLevelLow g enable := Board.pin g fun p => { p with low := enable }
  eventClearDetect g := Board.pin g fun p => { p with event := false }
  eventClearAllEvents b :=
    { b with pins := fun g => { b.pins g with
        event := false, rising := false, falling := false, high := false, low := false } }
  eventDetected g b := (b.pins g).event
  setPud g pud b := (Pull.requested pud).map fun pull => b.pin g fun p => { p with pull }
  setupPwmHard hard msg b :=
    match msg.refused with
    | some e => .error e
    | none =>
        let pwm := b.channel hard.channel fun ch =>
          { ch with enabled := true, markSpace := msg.mode = rpiPwmModeMs, range := msg.range }
        .ok ({ pwm with divisor := msg.divi }.pin hard.gpio fun p => { p with func := hard.func })
  setPwmDuty hard duty := Board.channel hard.channel fun ch => { ch with data := duty }

/-! ## Refinement -/

/-- `abs` sees each operation of `impl` as the operation of `spec`. A function is
selected within the table's own bound. -/
structure Refines {C B : Type} (impl : GpioConfig C) (spec : GpioConfig B) (abs : C → B) :
    Prop where
  maxFuncs : impl.maxFuncs = spec.maxFuncs
  setSelect : ∀ g f c, f ≤ impl.maxFuncs → abs (impl.setSelect g f c) = spec.setSelect g f (abs c)
  getSelect : ∀ g c, impl.getSelect g c = spec.getSelect g (abs c)
  set : ∀ g c, abs (impl.set g c) = spec.set g (abs c)
  clear : ∀ g c, abs (impl.clear g c) = spec.clear g (abs c)
  read : ∀ g c, impl.read g c = spec.read g (abs c)
  detectRisingEdge : ∀ g enable c,
    abs (impl.detectRisingEdge g enable c) = spec.detectRisingEdge g enable (abs c)
  detectFallingEdge : ∀ g enable c,
    abs (impl.detectFallingEdge g enable c) = spec.detectFallingEdge g enable (abs c)
  detectLevelHigh : ∀ g enable c,
    abs (impl.detectLevelHigh g enable c) = spec.detectLevelHigh g enable (abs c)
  detectLevelLow : ∀ g enable c,
    abs (impl.detectLevelLow g enable c) = spec.detectLevelLow g enable (abs c)
  eventClearDetect : ∀ g c, abs (impl.eventClearDetect g c) = spec.eventClearDetect g (abs c)
  eventClearAllEvents : ∀ c, abs (impl.eventClearAllEvents c) = spec.eventClearAllEvents (abs c)
  eventDetected : ∀ g c, impl.eventDetected g c = spec.eventDetected g (abs c)
  setPud : ∀ g pud c, (impl.setPud g pud c).map abs = spec.setPud g pud (abs c)
  setupPwmHard : ∀ hard msg c, hard.func ≤ impl.maxFuncs →
    (impl.setupPwmHard hard msg c).map abs = spec.setupPwmHard hard msg (abs c)
  setPwmDuty : ∀ hard duty c, abs (impl.setPwmDuty hard duty c) = spec.setPwmDuty hard duty (abs c)

/-- A table with what the chip does by itself: `raise` latches an event of a pin,
`setLevel` is a change on its wire. -/
structure Pins (C : Type) where
  config : GpioConfig C
  armed : Gpio → C → Bool
  raise : Gpio → C → C
  setLevel : Gpio → Bool → C → C

def boardPins : Pins Board where
  config := board
  armed g b := (b.pins g).rising || (b.pins g).falling || (b.pins g).high || (b.pins g).low
  raise g := Board.pin g fun p => { p with event := true }
  setLevel g level := Board.pin g fun p => { p with level }

structure PinsRefine {C B : Type} (P : Pins C) (Q : Pins B) (abs : C → B) : Prop where
  config : Refines P.config Q.config abs
  armed : ∀ g c, P.armed g c = Q.armed g (abs c)
  raise : ∀ g c, abs (P.raise g c) = Q.raise g (abs c)
  setLevel : ∀ g level c, abs (P.setLevel g level c) = Q.setLevel g level (abs c)

end QnxHypervisor.GpioServer
