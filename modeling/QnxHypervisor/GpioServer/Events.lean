import QnxHypervisor.GpioServer.Board

/-! # Registered events

The event table, one entry a pin, and what the two threads do with it: requests of the
main thread as their single register writes and table updates, and the dispatch of one
detected event by the interrupt thread.
-/

namespace QnxHypervisor.GpioServer

/-! ## Clients -/

structure ClientInfo where
  rcvid : Int
  scoid : Int
  coid : Int
  deriving DecidableEq

def clientInfoMatch (a b : ClientInfo) : Prop := a.scoid = b.scoid ∧ a.coid = b.coid

instance (a b : ClientInfo) : Decidable (clientInfoMatch a b) := inferInstanceAs (Decidable (_ ∧ _))

/-- What `client_info_reset` leaves. -/
def unusedClient : ClientInfo := ⟨0, -1, -1⟩

def clientInfoIsUnused (ci : ClientInfo) : Prop := ci = unusedClient

instance (ci : ClientInfo) : Decidable (clientInfoIsUnused ci) := inferInstanceAs (Decidable (_ = _))

/-- A client as a message's context names it. -/
structure Client where
  info : ClientInfo
  received : 0 < info.rcvid
  connected : 0 ≤ info.scoid

theorem Client.used (c : Client) : ¬ clientInfoIsUnused c.info := by
  intro h
  have hrcvid := congrArg ClientInfo.rcvid h
  have hpos := c.received
  rw [hrcvid] at hpos
  exact absurd hpos (by decide)

theorem Client.match_used (c : Client) {ci : ClientInfo} (h : clientInfoMatch ci c.info) :
    ¬ clientInfoIsUnused ci := by
  rintro rfl
  have hscoid : (-1 : Int) = c.info.scoid := h.1
  have hpos := c.connected
  omega

def someClient : Client := ⟨⟨5, 1, 3⟩, by decide, by decide⟩

def otherClient : Client := ⟨⟨6, 2, 3⟩, by decide, by decide⟩

/-! ## The table -/

def rpiEventNone : BitVec 32 := 0
def rpiEventEdgeRising : BitVec 32 := 1
def rpiEventEdgeFalling : BitVec 32 := 2
def rpiEventLevelHigh : BitVec 32 := 4
def rpiEventLevelLow : BitVec 32 := 8

/-- `detect & kind`. -/
def asks (detect kind : BitVec 32) : Bool := detect &&& kind != 0

def asksEdge (detect : BitVec 32) : Bool :=
  asks detect rpiEventEdgeRising || asks detect rpiEventEdgeFalling

def asksLevel (detect : BitVec 32) : Bool :=
  asks detect rpiEventLevelHigh || asks detect rpiEventLevelLow

structure Sigevent where
  /-- `sigev_notify` is `SIGEV_NONE` -/
  silent : Bool
  value : Int
  /-- the fields that say whom and how to notify -/
  target : Nat
  deriving DecidableEq

/-- `event_entry_t`; `matching` is its `match`. -/
structure EventEntry where
  ci : ClientInfo
  detect : BitVec 32
  count : BitVec 32
  matching : BitVec 32
  matchCount : BitVec 32
  sigev : Sigevent
  deriving DecidableEq

abbrev EventTable := Gpio → EventEntry

/-- `rpi_gpio_event_t` behind its pin. -/
structure EventMsg where
  detect : BitVec 32
  event : Sigevent
  matching : BitVec 32
  deriving DecidableEq

/-! ## Requests of the main thread -/

variable {C : Type} (config : GpioConfig C)

/-- One register write, or one update under the mutex. -/
inductive EventOp where
  | rising (g : Gpio) (enable : Bool)
  | falling (g : Gpio) (enable : Bool)
  | high (g : Gpio) (enable : Bool)
  | low (g : Gpio) (enable : Bool)
  | record (g : Gpio) (entry : EventEntry)
  | release (ci : ClientInfo)

/-- The mutex is taken for this. -/
def EventOp.locks : EventOp → Bool
  | .record _ _ | .release _ => true
  | _ => false

def EventOp.applyChip : EventOp → C → C
  | .rising g enable => config.detectRisingEdge g enable
  | .falling g enable => config.detectFallingEdge g enable
  | .high g enable => config.detectLevelHigh g enable
  | .low g enable => config.detectLevelLow g enable
  | .record _ _ | .release _ => id

def EventOp.applyTable (op : EventOp) (table : EventTable) : EventTable :=
  match op with
  | .record g entry => Function.update table g entry
  | .release ci => fun g =>
      if clientInfoMatch (table g).ci ci then { table g with ci := unusedClient } else table g
  | _ => table

def disableAll (g : Gpio) : List EventOp :=
  [.rising g false, .falling g false, .high g false, .low g false]

def enableAsked (g : Gpio) (detect : BitVec 32) : List EventOp :=
  (if asks detect rpiEventEdgeRising then [.rising g true] else []) ++
    (if asks detect rpiEventEdgeFalling then [.falling g true] else []) ++
    (if asks detect rpiEventLevelHigh then [.high g true] else []) ++
    (if asks detect rpiEventLevelLow then [.low g true] else [])

/-- The entry that `event_add` records. -/
def EventMsg.entry (ci : ClientInfo) (msg : EventMsg) : EventEntry where
  ci
  detect := msg.detect
  count := 0
  matching := if msg.matching = 0 then 1 else msg.matching
  matchCount := 0
  sigev := msg.event

/-- `event_add` up to its last write: refused, or the writes in their order. -/
def eventAdd (table : EventTable) (ci : ClientInfo) (g : Gpio) (msg : EventMsg) :
    Except Errno (List EventOp) :=
  if ¬ clientInfoIsUnused (table g).ci ∧ ¬ clientInfoMatch (table g).ci ci then .error .busy
  else .ok (disableAll g ++ [.record g (msg.entry ci)] ++ enableAsked g msg.detect)

/-- The writes of `event_remove_client` in their order. -/
def eventRemoveClient (table : EventTable) (ci : ClientInfo) : List EventOp :=
  ((List.finRange rpiGpioNum).filter fun g => decide (clientInfoMatch (table g).ci ci)).flatMap
    disableAll ++ [.release ci]

/-! ## Dispatch -/

/-- A call of `MsgDeliverEvent`. -/
structure Delivery where
  gpio : Gpio
  rcvid : Int
  sigev : Sigevent
  deriving DecidableEq

/-- An entry after one more dispatch, and whether it has now counted to its match. -/
def EventEntry.counted (e : EventEntry) (g : Gpio) (value : BitVec 32) : EventEntry × Bool :=
  let e := { e with
    sigev := { e.sigev with value := if value ≠ 0 then (g.val : Int) else -(g.val : Int) } }
  let e := { e with count := e.count + 1, matchCount := e.matchCount + 1 }
  if e.matchCount < e.matching then (e, false) else ({ e with matchCount := 0 }, true)

/-- `dispatch_event`; `accepted` is the result of the delivery, if there is one. -/
def dispatchEvent (g : Gpio) (accepted : Bool) (c : C) (table : EventTable) :
    EventTable × Option Delivery :=
  if (table g).detect = rpiEventNone then (table, none)
  else
    let (e, full) := (table g).counted g (config.read g c)
    if full = true ∧ e.sigev.silent = false then
      let e' := if accepted then e else { e with detect := rpiEventNone }
      (Function.update table g e', some ⟨g, e.ci.rcvid, e.sigev⟩)
    else (Function.update table g e, none)

end QnxHypervisor.GpioServer
