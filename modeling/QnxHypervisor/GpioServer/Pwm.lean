import QnxHypervisor.GpioServer.Events

/-! # Pulse-width modulation

Pins driven by pulse width: four by the chip's channels, any other by one of eight
slots of the software timer, which a client's setup takes and its disconnect returns.
-/

namespace QnxHypervisor.GpioServer

def numSoftPwm : Nat := 8

abbrev SoftSlot := Fin numSoftPwm

/-- The pins with a channel, in the order of `rpi2711_pwm_init`. -/
def hardPwms : List HardPwm :=
  [⟨⟨12, by decide⟩, .one, 4⟩, ⟨⟨13, by decide⟩, .two, 4⟩, ⟨⟨18, by decide⟩, .one, 2⟩,
    ⟨⟨19, by decide⟩, .two, 2⟩]

abbrev HardSlot := Fin hardPwms.length

def hardPwm (h : HardSlot) : HardPwm := hardPwms.get h

/-- Where a `pwm_t` stands. -/
inductive PwmRef where
  | soft (i : SoftSlot)
  | hard (h : HardSlot)
  deriving DecidableEq

/-- `pwm_t`; channel and function are those of its place. -/
structure PwmEntry where
  ci : ClientInfo
  gpio : Gpio
  frequency : BitVec 32
  range : BitVec 32
  duty : BitVec 32
  mode : BitVec 32
  state : Bool
  timeOn : BitVec 32
  timeOff : BitVec 32
  lastChange : BitVec 32
  deriving DecidableEq

/-- What the server keeps: the pins, the event table, and pulse width. -/
structure Manager (C : Type) where
  chip : C
  table : EventTable
  entries : PwmRef → PwmEntry
  map : Gpio → Option PwmRef
  /-- `timer_intr_id` is set -/
  timerAttached : Bool
  /-- what `pthread_create` answers at present -/
  spawnError : Option Errno
  timerReady : Bool
  /-- the system timer and its comparator -/
  time : BitVec 32
  compare : BitVec 32
  timerMatch : Bool
  timerIntrs : BitVec 32

variable {C : Type} (config : GpioConfig C)

def Manager.put (s : Manager C) (r : PwmRef) (f : PwmEntry → PwmEntry) : Manager C :=
  { s with entries := Function.update s.entries r (f (s.entries r)) }

/-! ## Setup -/

def Manager.firstFree (s : Manager C) : Option SoftSlot :=
  (List.finRange numSoftPwm).find? fun i => decide (clientInfoIsUnused (s.entries (.soft i)).ci)

/-- The `pwm_t` that a setup of the pin uses; a free slot gets the pin's number. -/
def Manager.findPwm (s : Manager C) (ci : ClientInfo) (g : Gpio) :
    Except Errno (PwmRef × Manager C) :=
  match s.map g with
  | none =>
      match s.firstFree with
      | none => .error .again
      | some i => .ok (.soft i, s.put (.soft i) fun e => { e with gpio := g })
  | some r =>
      if ¬ clientInfoIsUnused (s.entries r).ci ∧ ¬ clientInfoMatch (s.entries r).ci ci then
        .error .busy
      else .ok (r, s)

/-- The end of a setup. -/
def Manager.install (s : Manager C) (r : PwmRef) (ci : ClientInfo) (g : Gpio) (msg : PwmMsg) :
    Manager C :=
  { s.put r fun e => { e with
      mode := msg.mode, ci := ci, range := msg.range, frequency := msg.frequency } with
    map := Function.update s.map g (some r) }

/-- `pwm_setup`: the error, if any, and the state it leaves. -/
def pwmSetup (ci : ClientInfo) (g : Gpio) (msg : PwmMsg) (s : Manager C) :
    Option Errno × Manager C :=
  match s.findPwm ci g with
  | .error e => (some e, s)
  | .ok (r, s) =>
      match r with
      | .hard h =>
          match config.setupPwmHard (hardPwm h) msg s.chip with
          | .error e => (some e, s)
          | .ok chip => (none, { s with chip }.install r ci g msg)
      | .soft _ =>
          if msg.mode ≠ rpiPwmModePwm ∧ msg.mode ≠ rpiPwmModeMs then (some .invalid, s)
          else (none, { s with chip := config.setSelect g 1 s.chip }.install r ci g msg)

/-! ## Duty -/

/-- On and off times in ticks of the timer, by mode, frequency, range and duty: two
products in double precision, cut to integers. -/
abbrev PwmTimes := BitVec 32 → BitVec 32 → BitVec 32 → BitVec 32 → BitVec 32 × BitVec 32

def timerIntrCheckDone (s : Manager C) : Manager C :=
  if s.timerAttached = false then s
  else if (List.finRange numSoftPwm).any fun i => (s.entries (.soft i)).duty != 0 then s
  else { s with timerReady := false }

/-- The thread that attaches the interrupt is started when it is not attached. -/
def timerIntrInit (time : BitVec 32) (s : Manager C) : Option Errno × Manager C :=
  if s.timerAttached = false ∧ s.spawnError.isSome then (s.spawnError, s)
  else
    let next := s.time - s.compare
    let s := if time < next then { s with compare := s.time + time } else s
    (none, { s with timerReady := true })

/-- `pwm_set_duty_cycle` on a pin that has a `pwm_t`. -/
def setDuty (times : PwmTimes) (r : PwmRef) (g : Gpio) (duty : BitVec 32) (s : Manager C) :
    Option Errno × Manager C :=
  match r with
  | .hard h => (none, { s with chip := config.setPwmDuty (hardPwm h) duty s.chip })
  | .soft _ =>
      let e := s.entries r
      if duty = 0 ∨ e.range ≤ duty then
        let s := s.put r fun e => { e with duty := 0 }
        let chip := if duty = 0 then config.clear g s.chip else config.set g s.chip
        (none, timerIntrCheckDone { s with chip })
      else
        let (on, off) := times e.mode e.frequency e.range duty
        let s := { s with chip := config.set g s.chip }
        let s := s.put r fun e => { e with
          timeOn := on, timeOff := off, state := true, lastChange := s.time, duty := duty }
        timerIntrInit on s

/-- `pwm_set_duty_cycle`. On a pin without a `pwm_t` the setup is made, but the pointer
is still null: `none` is the fault behind it. -/
def pwmSetDutyCycle (times : PwmTimes) (ci : ClientInfo) (g : Gpio) (duty : BitVec 32)
    (s : Manager C) : Option (Option Errno × Manager C) :=
  match s.map g with
  | none =>
      match pwmSetup config ci g ⟨1000, 1024, 0⟩ s with
      | (some e, s) => some (some e, s)
      | (none, _) => none
  | some r => some (setDuty config times r g duty s)

/-! ## Disconnect -/

/-- One turn of `pwm_remove_client`. -/
def pwmRemovePin (times : PwmTimes) (ci : ClientInfo) (s : Manager C) (g : Gpio) : Manager C :=
  match s.map g with
  | none => s
  | some r =>
      if clientInfoMatch (s.entries r).ci ci then
        let s := (setDuty config times r g 0 s).2
        let s := s.put r fun e => { e with ci := unusedClient }
        match r with
        | .hard _ => s
        | .soft _ => { s with map := Function.update s.map g none }
      else s

def pwmRemoveClient (times : PwmTimes) (ci : ClientInfo) (s : Manager C) : Manager C :=
  (List.finRange rpiGpioNum).foldl (pwmRemovePin config times ci) s

/-! ## The timer's interrupt -/

def minIntrInterval : BitVec 32 := 20

/-- One slot of `timer_isr` at time `now`: what it does to the pin, the slot after it,
and its next change. -/
def PwmEntry.tick (now : BitVec 32) (e : PwmEntry) : Option (Bool × PwmEntry) × BitVec 32 :=
  let pwmTime := if e.state then e.timeOn else e.timeOff
  if pwmTime < now - e.lastChange then
    let e := { e with state := !e.state, lastChange := e.lastChange + pwmTime }
    (some (e.state, e), if e.state then e.timeOn else e.timeOff)
  else (none, (e.lastChange + pwmTime) - now)

/-- One turn of the loop in `timer_isr`. -/
def timerSlot (now : BitVec 32) (p : Manager C × BitVec 32) (i : SoftSlot) :
    Manager C × BitVec 32 :=
  let (s, nextMin) := p
  let e := s.entries (.soft i)
  if e.gpio.val = 0 then p
  else if e.duty = 0 then p
  else
    let (change, next) := e.tick now
    let s := match change with
      | none => s
      | some (on, e') =>
          { s.put (.soft i) fun _ => e' with
            chip := if on then config.set e.gpio s.chip else config.clear e.gpio s.chip }
    (s, if next < nextMin then next else nextMin)

/-- `timer_isr`, which takes `spent` ticks; the cast of its comparison is `toInt`. -/
def timerIsr (spent : BitVec 32) (s : Manager C) : Manager C :=
  if s.timerMatch = false then s
  else if s.timerReady = false then { s with timerMatch := false }
  else
    let (s, nextMin) := (List.finRange numSoftPwm).foldl (timerSlot config s.time) (s, -1)
    let nextMin := if nextMin.toInt < minIntrInterval.toInt then minIntrInterval else nextMin
    let s := { s with time := s.time + spent }
    { s with
      compare := s.time + nextMin
      timerMatch := false
      timerIntrs := s.timerIntrs + 1 }

end QnxHypervisor.GpioServer
