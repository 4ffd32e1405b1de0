import QnxHypervisor.Foundation.Simulation
import QnxHypervisor.GpioServer.ChipBoard
import QnxHypervisor.GpioServer.Events

/-! # The interrupt thread beside the main thread

The main thread writes detection registers and, under the mutex, the table; the
interrupt thread holds the mutex for a whole pass over the pins. A step is one register
write, one table update or one access of the pass, and between any two of them the
chip may latch an event of a pin whose detection is on.
-/

namespace QnxHypervisor.GpioServer

open Foundation

/-! ## States -/

/-- Where the interrupt thread stands; it holds the mutex unless it waits. -/
inductive Ist where
  | waiting
  /-- about to look at pin `n` -/
  | scanning (n : Nat)
  /-- `detected` was read -/
  | seen (g : Gpio) (detected : Bool)
  /-- the edge kinds are cleared -/
  | cleared (g : Gpio) (detected : Bool)
  /-- the event, if one was detected, is dispatched -/
  | dispatched (g : Gpio)
  deriving DecidableEq

/-- Who may be told about a pin, and what was asked for. -/
structure Registration where
  ci : ClientInfo
  detect : BitVec 32
  deriving DecidableEq

/-- What happened on a pin; the last three count from its registration. -/
structure Tally where
  /-- events latched in a clear bit -/
  latched : Nat
  /-- of these, cleared by a pass that had not seen them -/
  lost : Nat
  dispatched : Nat
  since : Nat
  matched : Nat
  delivered : Nat
  deriving DecidableEq

/-- Both threads, and what happened. -/
structure EventServer (C : Type) where
  chip : C
  table : EventTable
  /-- the main thread's writes still to be done -/
  todo : List EventOp
  ist : Ist
  registry : Gpio → Option Registration
  tally : Gpio → Tally
  /-- each with the registration it was made under -/
  deliveries : List (Delivery × Option Registration)

inductive EventStep where
  | add (client : Client) (g : Gpio) (msg : EventMsg)
  | remove (client : Client)
  /-- the main thread's next write -/
  | write
  /-- the interrupt thread's next access -/
  | pass (accepted : Bool)
  /-- the chip latches an event -/
  | latch (g : Gpio)

/-! ## Steps -/

variable {C : Type} (P : Pins C)

def EventServer.tallyOf (s : EventServer C) (g : Gpio) (f : Tally → Tally) : Gpio → Tally :=
  Function.update s.tally g (f (s.tally g))

def EventOp.applyRegistry (op : EventOp) (registry : Gpio → Option Registration) :
    Gpio → Option Registration :=
  match op with
  | .record g entry => Function.update registry g (some ⟨entry.ci, entry.detect⟩)
  | .release ci => fun g => (registry g).filter fun r => !decide (clientInfoMatch r.ci ci)
  | _ => registry

def EventOp.applyTally (op : EventOp) (tally : Gpio → Tally) : Gpio → Tally :=
  match op with
  | .record g _ =>
      Function.update tally g { tally g with since := 0, matched := 0, delivered := 0 }
  | _ => tally

def EventServer.write (s : EventServer C) : Option (EventServer C) :=
  match s.todo with
  | [] => none
  | op :: rest =>
      if op.locks = true ∧ s.ist ≠ .waiting then none
      else some { s with
        chip := op.applyChip P.config s.chip
        table := op.applyTable s.table
        todo := rest
        registry := op.applyRegistry s.registry
        tally := op.applyTally s.tally }

/-- `rpi_gpio_event_clear_detect`; the pass has answered for the bit if `answered`. -/
def EventServer.clearDetect (s : EventServer C) (g : Gpio) (answered : Bool) : EventServer C :=
  { s with
    chip := P.config.eventClearDetect g s.chip
    tally := s.tallyOf g fun t =>
      if P.config.eventDetected g s.chip = true ∧ answered = false then
        { t with lost := t.lost + 1 } else t }

def EventServer.dispatch (s : EventServer C) (g : Gpio) (accepted : Bool) : EventServer C :=
  let (table, delivery) := dispatchEvent P.config g accepted s.chip s.table
  let full := ((s.table g).counted g (P.config.read g s.chip)).2
  { s with
    table
    tally := s.tallyOf g fun t =>
      { t with
        dispatched := t.dispatched + 1
        since := t.since + 1
        matched := if full then t.matched + 1 else t.matched
        delivered := t.delivered + delivery.toList.length }
    deliveries := s.deliveries ++ delivery.toList.map fun d => (d, s.registry g) }

def EventServer.pass (s : EventServer C) (accepted : Bool) : EventServer C :=
  match s.ist with
  | .waiting => { s with ist := .scanning 0 }
  | .scanning n =>
      if h : n < rpiGpioNum then
        if (s.table ⟨n, h⟩).detect = rpiEventNone then { s with ist := .scanning (n + 1) }
        else { s with ist := .seen ⟨n, h⟩ (P.config.eventDetected ⟨n, h⟩ s.chip) }
      else { s with ist := .waiting }
  | .seen g detected =>
      let s := if asksEdge (s.table g).detect then s.clearDetect P g detected else s
      { s with ist := .cleared g detected }
  | .cleared g detected =>
      let s := if detected then s.dispatch P g accepted else s
      { s with ist := .dispatched g }
  | .dispatched g =>
      let s := if asksLevel (s.table g).detect then s.clearDetect P g false else s
      { s with ist := .scanning (g + 1) }

def eventStep (s : EventServer C) : EventStep → Option (EventServer C)
  | .add client g msg =>
      match s.todo, eventAdd s.table client.info g msg with
      | [], .ok ops => some { s with todo := ops }
      | [], .error _ => some s
      | _, _ => none
  | .remove client =>
      match s.todo with
      | [] => some { s with todo := eventRemoveClient s.table client.info }
      | _ => none
  | .write => s.write P
  | .pass accepted => some (s.pass P accepted)
  | .latch g =>
      if P.armed g s.chip then
        some { s with
          chip := P.raise g s.chip
          tally := s.tallyOf g fun t =>
            if P.config.eventDetected g s.chip then t else { t with latched := t.latched + 1 } }
      else none

/-- `event_init` has run on a table of zeros. -/
def eventsStarted (c : C) : EventServer C where
  chip := P.config.eventClearAllEvents c
  table _ := ⟨unusedClient, 0, 0, 0, 0, ⟨false, 0, 0⟩⟩
  todo := []
  ist := .waiting
  registry _ := none
  tally _ := ⟨0, 0, 0, 0, 0, 0⟩
  deliveries := []

def eventMachine : Machine (EventServer C) EventStep :=
  ⟨fun s => ∃ c, s = eventsStarted P c, eventStep P⟩

end QnxHypervisor.GpioServer
