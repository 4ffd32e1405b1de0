import QnxHypervisor.Foundation.Text
import QnxHypervisor.GpioServer.Pwm

/-! # The resource manager

Messages to the message node, reads and writes of the pins' own nodes, and closed
connections, each handled to its end by the main thread. A table update runs here
with the mutex free; the interrupt thread beside it has its own module.
-/

namespace QnxHypervisor.GpioServer

open Foundation

variable {C : Type}

/-! ## Messages -/

/-- The sizes of the message structures and the manager's id, as the headers of the
target have them. -/
structure MsgAbi where
  iomgr : Nat
  msgSize : Nat
  eventSize : Nat
  pwmSize : Nat

/-- What a message's structure holds behind the pin, by subtype. -/
inductive MsgBody where
  | setSelect (value : BitVec 32)
  | getSelect
  | write (value : BitVec 32)
  | read
  | addEvent (msg : EventMsg)
  | pwmSetup (msg : PwmMsg)
  | pwmDuty (value : BitVec 32)
  | pud (value : BitVec 32)
  /-- any other subtype -/
  | other

def MsgBody.reads : MsgBody → Bool
  | .getSelect | .read => true
  | _ => false

def MsgBody.needs (abi : MsgAbi) : MsgBody → Nat
  | .addEvent _ => abi.eventSize
  | .pwmSetup _ => abi.pwmSize
  | _ => abi.msgSize

/-- A message with the context it came in. -/
structure IoMsg where
  mgrid : Nat
  offset : Nat
  size : Nat
  readable : Bool
  writable : Bool
  /-- the pin of the node it was sent to; the message node has none -/
  node : Option Gpio
  client : Client
  gpio : BitVec 32
  body : MsgBody

/-- The checks of `msg_gpio` before the subtypes, in order. -/
def IoMsg.accepted (abi : MsgAbi) (msg : IoMsg) : Except Errno Gpio :=
  if msg.mgrid ≠ abi.iomgr then .error .badMsg
  else if msg.offset ≠ 0 then .error .badMsg
  else if (if msg.body.reads then msg.readable else msg.writable) = false then .error .perm
  else if msg.size < msg.body.needs abi then .error .badMsg
  else if h : msg.gpio.toNat < rpiGpioNum then
    if msg.node.isSome then .error .noDevice else .ok ⟨msg.gpio.toNat, h⟩
  else .error .range

inductive Reply where
  | done
  | value (v : BitVec 32)
  /-- the level of a pin, as a digit -/
  | level (high : Bool)
  | failed (e : Errno)
  deriving DecidableEq

def Reply.ofError : Option Errno → Reply
  | none => .done
  | some e => .failed e

/-- All the writes of a request. -/
def EventOp.run (config : GpioConfig C) (s : Manager C) (op : EventOp) : Manager C :=
  { s with chip := op.applyChip config s.chip, table := op.applyTable s.table }

/-- The switch of `msg_gpio`. -/
def serveBody (config : GpioConfig C) (times : PwmTimes) (ci : ClientInfo) (g : Gpio)
    (s : Manager C) : MsgBody → Option (Reply × Manager C)
  | .setSelect value =>
      if config.maxFuncs < value then some (.failed .range, s)
      else
        let prev := config.getSelect g s.chip
        some (.value prev, { s with chip := config.setSelect g value s.chip })
  | .getSelect => some (.value (config.getSelect g s.chip), s)
  | .write value =>
      if config.getSelect g s.chip = 1 then
        some (.done, { s with
          chip := if value ≠ 0 then config.set g s.chip else config.clear g s.chip })
      else some (.failed .noDevice, s)
  | .read =>
      if config.getSelect g s.chip &&& 1 = 0 then some (.value (config.read g s.chip), s)
      else some (.failed .noDevice, s)
  | .addEvent msg =>
      match eventAdd s.table ci g msg with
      | .error e => some (.failed e, s)
      | .ok ops => some (.done, ops.foldl (EventOp.run config) s)
  | .pwmSetup msg =>
      let p := pwmSetup config ci g msg s
      some (.ofError p.1, p.2)
  | .pwmDuty value =>
      (pwmSetDutyCycle config times ci g value s).map fun p => (.ofError p.1, p.2)
  | .pud value =>
      match config.setPud g value s.chip with
      | none => some (.failed .invalid, s)
      | some chip => some (.done, { s with chip })
  | .other => some (.failed .invalid, s)

def msgGpio (config : GpioConfig C) (times : PwmTimes) (abi : MsgAbi) (msg : IoMsg)
    (s : Manager C) : Option (Reply × Manager C) :=
  match msg.accepted abi with
  | .error e => some (.failed e, s)
  | .ok g => serveBody config times msg.client.info g s msg.body

/-! ## Nodes -/

/-- The command in the bytes of a write: up to 15 of them, less a newline at the end,
and up to the first zero. -/
def nodeCommand (bytes : Bytes) : Except Errno Bytes :=
  if 15 < bytes.length then .error .overflow
  else
    let cmd := if bytes.getLast? = some 10 then bytes.dropLast else bytes
    .ok (cmd.takeWhile (· != 0))

/-- `write_gpio` on a pin's node. -/
def writePin (config : GpioConfig C) (g : Gpio) (bytes : Bytes) (s : Manager C) :
    Reply × Manager C :=
  match nodeCommand bytes with
  | .error e => (.failed e, s)
  | .ok cmd =>
      if cmd = utf8 "out" then (.done, { s with chip := config.setSelect g 1 s.chip })
      else if cmd = utf8 "in" then (.done, { s with chip := config.setSelect g 0 s.chip })
      else if cmd = utf8 "on" then
        if config.getSelect g s.chip &&& 1 ≠ 0 then
          (.done, { s with chip := config.set g s.chip })
        else (.failed .noDevice, s)
      else if cmd = utf8 "off" then
        if config.getSelect g s.chip &&& 1 ≠ 0 then
          (.done, { s with chip := config.clear g s.chip })
        else (.failed .noDevice, s)
      -- "pwm" prints, anything else is reported on the error stream
      else (.done, s)

/-- `write_gpio`; the message node, which has no pin, cannot be written. -/
def writeGpio (config : GpioConfig C) (node : Option Gpio) (bytes : Bytes) (s : Manager C) :
    Reply × Manager C :=
  match node with
  | none => (.failed .noDevice, s)
  | some g => writePin config g bytes s

/-- `read_gpio` of a node from its beginning. -/
def readGpio (config : GpioConfig C) (node : Option Gpio) (s : Manager C) : Reply :=
  match node with
  | none => .failed .noDevice
  | some g =>
      if config.getSelect g s.chip &&& 1 ≠ 0 then .failed .noDevice
      else .level (config.read g s.chip != 0)

def closeGpio (config : GpioConfig C) (times : PwmTimes) (client : Client) (s : Manager C) :
    Manager C :=
  let s := (eventRemoveClient s.table client.info).foldl (EventOp.run config) s
  pwmRemoveClient config times client.info s

/-! ## Runs -/

inductive Request where
  | msg (m : IoMsg)
  | writeNode (node : Option Gpio) (bytes : Bytes)
  | readNode (node : Option Gpio)
  | close (client : Client)
  | level (g : Gpio) (high : Bool)
  /-- time passes -/
  | clock (ticks : BitVec 32)
  /-- the timer's interrupt thread runs, maybe after a match -/
  | timer (matched : Bool) (spent : BitVec 32)
  | attached
  /-- threads can no longer be created, or can again -/
  | spawns (e : Option Errno)

/-- The reply, if the request has one, and the state behind it; `none` if the server
faulted. -/
def serve (P : Pins C) (times : PwmTimes) (abi : MsgAbi) (s : Manager C) :
    Request → Option (Option Reply × Manager C)
  | .msg m => (msgGpio P.config times abi m s).map fun p => (some p.1, p.2)
  | .writeNode node bytes =>
      let p := writeGpio P.config node bytes s
      some (some p.1, p.2)
  | .readNode node => some (some (readGpio P.config node s), s)
  | .close client => some (none, closeGpio P.config times client s)
  | .level g high => some (none, { s with chip := P.setLevel g high s.chip })
  | .clock ticks => some (none, { s with time := s.time + ticks })
  | .timer matched spent => some (none, timerIsr P.config spent { s with timerMatch := matched })
  | .attached => some (none, { s with timerAttached := true })
  | .spawns e => some (none, { s with spawnError := e })

/-- The replies to a sequence of requests and the state behind them. -/
def serveAll (P : Pins C) (times : PwmTimes) (abi : MsgAbi) :
    Manager C → List Request → Option (List (Option Reply) × Manager C)
  | s, [] => some ([], s)
  | s, r :: rs =>
      (serve P times abi s r).bind fun p =>
        (serveAll P times abi p.2 rs).map fun q => (p.1 :: q.1, q.2)

end QnxHypervisor.GpioServer
