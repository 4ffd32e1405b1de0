import QnxHypervisor.MotorController.Pending

/-! # The STM32 end of the command link

The peer as `motor_wire.h` documents it: it hears the controller's transmit
buffer on every transfer, keeps the last command it heard, processes it at the
next block boundary, and latches number and verdict on every later frame. Which
payloads its range check refuses is left to the events.
-/

namespace QnxHypervisor.CommandLink

open Foundation MotorWire MotorController

/-! ## Verdicts -/

inductive NackReason where
  | range
  | crc
  | version
  | opcode
  deriving DecidableEq

def NackReason.bit : NackReason → UInt16
  | .range => motorFlagNackRange
  | .crc => motorFlagNackCrc
  | .version => motorFlagNackVer
  | .opcode => motorFlagNackCmd

/-- What the ACK bits of `flags` say about the last processed command. -/
inductive Ack where
  | none
  | ok
  | nack (reason : NackReason)
  deriving DecidableEq

def Ack.flags : Ack → UInt16
  | .none => 0
  | .ok => motorFlagAckOk
  | .nack reason => motorFlagAckNack ||| reason.bit

/-- A command as it was read off the receive buffer. -/
structure HeardCommand where
  header : CmdHeader
  payload : ConfigPayload
  intact : Bool

def heardCommand (b : XferBuffer) : HeardCommand :=
  { header := cmdHeader b, payload := cmdPayload b
    intact := decide (CrcMatches b.val cmdCoveredBytes) }

/-- A damaged command is refused; an intact one gets the firmware's verdict. -/
def HeardCommand.judge (verdict : Option NackReason) (c : HeardCommand) : Ack :=
  if c.intact then verdict.elim .ok .nack else .nack .crc

/-! ## State -/

structure Block where
  seq : UInt32
  timestamp : UInt64
  rows : Nat → MotorRow

structure Stm32 where
  powerUp : ConfigPayload
  accepted : Option ConfigPayload
  waiting : Option HeardCommand
  ackSeq : UInt16
  ack : Ack
  /-- the frame the next transfer clocks out -/
  out : XferBuffer

namespace Stm32

def running (m : Stm32) : ConfigPayload := m.accepted.getD m.powerUp

/-- Frame a block under the running configuration and the latched verdict. -/
def emit (first : UInt16) (b : Block) (m : Stm32) : Stm32 :=
  { m with
    out := wireFrame (dataHeader b.seq b.timestamp (m.ack.flags ||| first) m.running.blockRows
      m.ackSeq) b.rows }

/-- No command seen yet: `_reserved` is 0 and no ACK bit is set. -/
def powerOn (p : ConfigPayload) (b : Block) : Stm32 :=
  emit 0 b { powerUp := p, accepted := none, waiting := none, ackSeq := 0, ack := .none
             out := Buffer.zero _ }

/-- Without the command magic the whole buffer is ignored. -/
def hear (b : XferBuffer) (m : Stm32) : Stm32 :=
  if (cmdHeader b).magic = motorCmdMagic then { m with waiting := some (heardCommand b) } else m

/-- The command kept is accepted now. -/
def accepts (verdict : Option NackReason) (m : Stm32) : Bool :=
  m.waiting.any fun c => c.judge verdict = .ok

/-- Process the command kept, if any. -/
def apply (verdict : Option NackReason) (m : Stm32) : Stm32 :=
  match m.waiting with
  | none => m
  | some c =>
      { m with
        accepted := if c.judge verdict = .ok then some c.payload else m.accepted
        waiting := none, ackSeq := c.header.cmdSeq, ack := c.judge verdict }

/-- The block boundary: process, then frame the block; CONFIG_APPLIED rides the
first frame under a new configuration. -/
def boundary (verdict : Option NackReason) (b : Block) (m : Stm32) : Stm32 :=
  (m.apply verdict).emit (if m.accepts verdict then motorFlagConfigApplied else 0) b

/-! ## The latch -/

/-- The prepared frame shows the latched number and verdict. -/
structure Latched (m : Stm32) : Prop where
  reserved : (frameHeader m.out).reserved = m.ackSeq
  ok : hasFlag (frameHeader m.out).flags motorFlagAckOk = decide (m.ack = .ok)

theorem ack_flags_ok (a : Ack) (applied : Bool) :
    hasFlag (a.flags ||| if applied then motorFlagConfigApplied else 0) motorFlagAckOk =
      decide (a = .ok) := by
  cases a with
  | none => cases applied <;> decide
  | ok => cases applied <;> decide
  | nack reason => cases reason <;> cases applied <;> decide

theorem latched_emit (applied : Bool) (b : Block) (m : Stm32) :
    (m.emit (if applied then motorFlagConfigApplied else 0) b).Latched := by
  constructor
  · simp [emit, dataHeader]
  · simp only [emit, frameHeader_wireFrame, dataHeader]
    exact ack_flags_ok m.ack applied

theorem latched_powerOn (p : ConfigPayload) (b : Block) : (powerOn p b).Latched :=
  latched_emit false b _

theorem latched_boundary (verdict : Option NackReason) (b : Block) (m : Stm32) :
    (m.boundary verdict b).Latched :=
  latched_emit _ b _

theorem Latched.of_acksOk {m : Stm32} (h : m.Latched) {seq : UInt16}
    (hack : AcksOk (frameHeader m.out) seq) : m.ackSeq = seq ∧ m.ack = .ok := by
  refine ⟨h.reserved.symm.trans hack.1, ?_⟩
  have hok := h.ok
  rw [hack.2] at hok
  exact of_decide_eq_true hok.symm

/-! ## Hearing a transfer -/

theorem hear_magic {b : XferBuffer} (h : (cmdHeader b).magic = motorCmdMagic) (m : Stm32) :
    m.hear b = { m with waiting := some (heardCommand b) } := by
  simp [hear, h]

theorem hear_noise {b : XferBuffer} (h : (cmdHeader b).magic ≠ motorCmdMagic) (m : Stm32) :
    m.hear b = m := by
  simp [hear, h]

/-- Hearing changes the command kept and nothing else. -/
theorem hear_fields (b : XferBuffer) (m : Stm32) :
    (m.hear b).accepted = m.accepted ∧ (m.hear b).ackSeq = m.ackSeq ∧
      (m.hear b).ack = m.ack ∧ (m.hear b).out = m.out := by
  by_cases h : (cmdHeader b).magic = motorCmdMagic
  · simp [hear_magic h]
  · simp [hear_noise h]

theorem latched_hear {m : Stm32} (h : m.Latched) (b : XferBuffer) : (m.hear b).Latched := by
  obtain ⟨-, hseq, hack, hout⟩ := hear_fields b m
  exact ⟨by rw [hout, hseq]; exact h.reserved, by rw [hout, hack]; exact h.ok⟩

/-! ## Processing -/

@[simp] theorem boundary_accepted (verdict : Option NackReason) (b : Block) (m : Stm32) :
    (m.boundary verdict b).accepted = (m.apply verdict).accepted := rfl

@[simp] theorem boundary_waiting (verdict : Option NackReason) (b : Block) (m : Stm32) :
    (m.boundary verdict b).waiting = (m.apply verdict).waiting := rfl

@[simp] theorem boundary_ackSeq (verdict : Option NackReason) (b : Block) (m : Stm32) :
    (m.boundary verdict b).ackSeq = (m.apply verdict).ackSeq := rfl

@[simp] theorem boundary_ack (verdict : Option NackReason) (b : Block) (m : Stm32) :
    (m.boundary verdict b).ack = (m.apply verdict).ack := rfl

/-- Without a command kept, nothing changes. -/
theorem apply_none {m : Stm32} (h : m.waiting = none) (verdict : Option NackReason) :
    m.apply verdict = m := by
  simp [apply, h]

theorem apply_some {m : Stm32} {c : HeardCommand} (h : m.waiting = some c)
    (verdict : Option NackReason) :
    m.apply verdict = { m with
      accepted := if c.judge verdict = .ok then some c.payload else m.accepted
      waiting := none, ackSeq := c.header.cmdSeq, ack := c.judge verdict } := by
  simp [apply, h]

theorem apply_waiting (verdict : Option NackReason) (m : Stm32) :
    (m.apply verdict).waiting = none := by
  cases h : m.waiting with
  | none => rw [apply_none h, h]
  | some c => rw [apply_some h]

end Stm32

theorem HeardCommand.judge_ok {verdict : Option NackReason} {c : HeardCommand}
    (h : c.judge verdict = .ok) : c.intact = true := by
  by_contra hbroken
  simp [judge, hbroken] at h

end QnxHypervisor.CommandLink
