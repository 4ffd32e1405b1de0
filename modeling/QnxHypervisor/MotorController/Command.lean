import QnxHypervisor.MotorWire.Frame
import QnxHypervisor.MotorController.Config

/-! # The command transmitter

The `g_cmd` state machine: one outstanding SET_CONFIG rides every exchange
until it is acknowledged, refused, or its retry budget is gone. The functions
below are the only ones of the controller that touch `g_cmd`.
-/

namespace QnxHypervisor.MotorController

open Foundation MotorWire

/-- `controller_stats_t` -/
structure ControllerStats where
  framesOk : UInt64 := 0
  seqDrops : UInt64 := 0
  crcErr : UInt64 := 0
  magicErr : UInt64 := 0
  versionErr : UInt64 := 0
  sizeErr : UInt64 := 0
  duplicates : UInt64 := 0
  resets : UInt64 := 0
  timeouts : UInt64 := 0
  spiErr : UInt64 := 0
  cfgReloads : UInt64 := 0
  cfgAcksOk : UInt64 := 0
  cfgNacks : UInt64 := 0
  deriving DecidableEq

def cmdMaxRetries : UInt16 := 32

inductive CmdPhase where
  | idle
  | pending
  deriving DecidableEq

theorem CmdPhase.ne_pending_iff (p : CmdPhase) : p ≠ .pending ↔ p = .idle := by
  cases p <;> simp

/-- `g_cmd`. -/
structure CommandState where
  state : CmdPhase
  seq : UInt16
  retriesLeft : UInt16
  frame : Buffer motorCmdFrameBytes
  payload : ConfigPayload
  deriving DecidableEq

/-- An all-zero `config_payload_t`; as `active_stm` it means "unknown". -/
def zeroPayload : ConfigPayload :=
  { blockRows := 0, reserved0 := 0, source := 0, runState := 0, sampleRateHz := 0
    imuRateHz := 0, reserved := Vector.replicate 12 0 }

def hasFlag (flags bit : UInt16) : Bool := flags &&& bit ≠ 0

def cmdInit : CommandState :=
  { state := .idle, seq := 0, retriesLeft := 0, frame := Buffer.zero _, payload := zeroPayload }

/-- The header of a SET_CONFIG frame numbered `seq`. -/
def setConfigHeader (seq : UInt16) : CmdHeader :=
  { magic := motorCmdMagic, cmd := motorCmdSetConfig, schemaVersion := motorConfigSchemaVersion
    cmdSeq := seq, pad := 0 }

def setConfigFrame (seq : UInt16) (p : ConfigPayload) : Buffer motorCmdFrameBytes :=
  ⟨sealBytes (commandBody (setConfigHeader seq) p.zeroReserved), sealed_command_length _ _⟩

def cmdBuildSetConfig (p : ConfigPayload) (g : CommandState) : CommandState :=
  let seq := g.seq + 1
  { g with seq, frame := setConfigFrame seq p }

def cmdQueueSetConfig (p : ConfigPayload) (g : CommandState) : CommandState :=
  { cmdBuildSetConfig p { g with payload := p } with
    state := .pending, retriesLeft := cmdMaxRetries }

def cmdFillTx (g : CommandState) : XferBuffer :=
  if g.state = .pending then Buffer.fill _ g.frame.val else Buffer.zero _

def cmdCountAttempt (g : CommandState) : CommandState :=
  if g.state = .pending ∧ 0 < g.retriesLeft then { g with retriesLeft := g.retriesLeft - 1 }
  else g

def cmdRefreshAfterReinit (g : CommandState) : CommandState :=
  if g.state = .pending then { g with retriesLeft := cmdMaxRetries } else g

/-- What `cmd_observe` returns and updates. -/
structure Observation where
  applied : Bool
  cmd : CommandState
  activeStm : ConfigPayload
  st : ControllerStats

def cmdObserve (h : FrameHeader) (g : CommandState) (active : ConfigPayload)
    (st : ControllerStats) : Observation :=
  if g.state ≠ .pending then ⟨false, g, active, st⟩
  else if h.reserved ≠ g.seq then
    -- not our ACK; give up once the budget is gone
    if g.retriesLeft = 0 then
      ⟨false, { g with state := .idle }, active, { st with cfgNacks := st.cfgNacks + 1 }⟩
    else ⟨false, g, active, st⟩
  else if hasFlag h.flags motorFlagAckOk then
    ⟨true, { g with state := .idle }, g.payload, { st with cfgAcksOk := st.cfgAcksOk + 1 }⟩
  else if hasFlag h.flags motorFlagAckNack then
    ⟨false, { g with state := .idle }, active, { st with cfgNacks := st.cfgNacks + 1 }⟩
  else
    -- the number matches but no verdict yet: the apply is still in progress
    ⟨false, g, active, st⟩

/-! ## Queueing and transmitting -/

@[simp] theorem cmdQueue_seq (p : ConfigPayload) (g : CommandState) :
    (cmdQueueSetConfig p g).seq = g.seq + 1 := rfl

@[simp] theorem cmdQueue_payload (p : ConfigPayload) (g : CommandState) :
    (cmdQueueSetConfig p g).payload = p := rfl

/-- While a command is pending its frame is the one built for its number and
payload, and the payload is fit to be sent unchanged. -/
structure CommandState.Framed (g : CommandState) : Prop where
  frame : g.state = .pending → g.frame = setConfigFrame g.seq g.payload
  payload : g.state = .pending → StmPayloadOk g.payload

theorem framed_queue {p : ConfigPayload} (hp : StmPayloadOk p) (g : CommandState) :
    (cmdQueueSetConfig p g).Framed :=
  ⟨fun _ => rfl, fun _ => hp⟩

/-- An update of the phase towards idle and of the budget keeps the frame. -/
theorem CommandState.Framed.of_fields {g g' : CommandState} (h : g.Framed)
    (hstate : g'.state = .pending → g.state = .pending) (hseq : g'.seq = g.seq)
    (hframe : g'.frame = g.frame) (hpayload : g'.payload = g.payload) : g'.Framed := by
  refine ⟨fun hp => ?_, fun hp => ?_⟩
  · rw [hframe, hseq, hpayload]
    exact h.frame (hstate hp)
  · rw [hpayload]
    exact h.payload (hstate hp)

theorem cmdFillTx_pending {g : CommandState} (h : g.Framed) (hp : g.state = .pending) :
    cmdFillTx g = wireCommand (setConfigHeader g.seq) g.payload := by
  rw [cmdFillTx, if_pos hp, h.frame hp]
  simp only [setConfigFrame, wireCommand, (h.payload hp).zeroReserved]

theorem cmdFillTx_idle {g : CommandState} (hp : g.state = .idle) :
    cmdFillTx g = Buffer.zero _ := by
  simp [cmdFillTx, hp]

/-! ## The budget -/

/-- Counting an attempt and refreshing the budget touch the budget only. -/
structure SameCommand (g g' : CommandState) : Prop where
  state : g'.state = g.state
  seq : g'.seq = g.seq
  frame : g'.frame = g.frame
  payload : g'.payload = g.payload

theorem SameCommand.refl (g : CommandState) : SameCommand g g := ⟨rfl, rfl, rfl, rfl⟩

theorem SameCommand.trans {g₁ g₂ g₃ : CommandState} (h : SameCommand g₁ g₂)
    (h' : SameCommand g₂ g₃) : SameCommand g₁ g₃ :=
  ⟨h'.state.trans h.state, h'.seq.trans h.seq, h'.frame.trans h.frame, h'.payload.trans h.payload⟩

theorem SameCommand.framed {g g' : CommandState} (h : SameCommand g g') (hf : g.Framed) :
    g'.Framed :=
  hf.of_fields (fun hp => h.state ▸ hp) h.seq h.frame h.payload

theorem cmdCountAttempt_same (g : CommandState) : SameCommand g (cmdCountAttempt g) := by
  unfold cmdCountAttempt
  split <;> exact ⟨rfl, rfl, rfl, rfl⟩

theorem cmdCountAttempt_retriesLeft {g : CommandState} (hp : g.state = .pending)
    (hleft : 0 < g.retriesLeft.toNat) :
    (cmdCountAttempt g).retriesLeft.toNat = g.retriesLeft.toNat - 1 := by
  have hpos : 0 < g.retriesLeft := UInt16.lt_iff_toNat_lt.mpr hleft
  have hone : (1 : UInt16) ≤ g.retriesLeft := UInt16.le_iff_toNat_le.mpr hleft
  rw [cmdCountAttempt, if_pos ⟨hp, hpos⟩]
  exact UInt16.toNat_sub_of_le _ _ hone

theorem cmdRefreshAfterReinit_same (g : CommandState) :
    SameCommand g (cmdRefreshAfterReinit g) := by
  unfold cmdRefreshAfterReinit
  split <;> exact ⟨rfl, rfl, rfl, rfl⟩

/-! ## Observing a frame -/

/-- The frame header acknowledges the command numbered `seq`. -/
def AcksOk (h : FrameHeader) (seq : UInt16) : Prop :=
  h.reserved = seq ∧ hasFlag h.flags motorFlagAckOk = true

/-- A pending command ends here without an ACK: it is refused, or the frame is
not about it and the budget is gone. -/
def EndsUnacked (h : FrameHeader) (g : CommandState) : Prop :=
  g.state = .pending ∧
    ((h.reserved ≠ g.seq ∧ g.retriesLeft = 0) ∨
      (h.reserved = g.seq ∧ hasFlag h.flags motorFlagAckOk = false ∧
        hasFlag h.flags motorFlagAckNack = true))

instance (h : FrameHeader) (seq : UInt16) : Decidable (AcksOk h seq) :=
  inferInstanceAs (Decidable (_ ∧ _))

instance (h : FrameHeader) (g : CommandState) : Decidable (EndsUnacked h g) :=
  inferInstanceAs (Decidable (_ ∧ _))

/-- Everything `cmd_observe` can do to the command and to `active_stm`. -/
theorem cmdObserve_cases (h : FrameHeader) (g : CommandState) (active : ConfigPayload)
    (st : ControllerStats) :
    (g.state = .pending ∧ AcksOk h g.seq ∧
      (cmdObserve h g active st).cmd = { g with state := .idle } ∧
      (cmdObserve h g active st).activeStm = g.payload) ∨
    (EndsUnacked h g ∧ (cmdObserve h g active st).cmd = { g with state := .idle } ∧
      (cmdObserve h g active st).activeStm = active) ∨
    (¬ (g.state = .pending ∧ AcksOk h g.seq) ∧ ¬ EndsUnacked h g ∧
      (cmdObserve h g active st).cmd = g ∧ (cmdObserve h g active st).activeStm = active) := by
  unfold cmdObserve
  split
  next hp => exact .inr (.inr ⟨fun hc => hp hc.1, fun hc => hp hc.1, rfl, rfl⟩)
  next hp =>
    have hp : g.state = .pending := by simpa using hp
    split
    next hseq =>
      split
      next hbudget => exact .inr (.inl ⟨⟨hp, .inl ⟨hseq, hbudget⟩⟩, rfl, rfl⟩)
      next hbudget =>
        refine .inr (.inr ⟨fun hc => hseq hc.2.1, fun hc => ?_, rfl, rfl⟩)
        rcases hc.2 with ⟨-, hb⟩ | ⟨he, -⟩
        · exact hbudget hb
        · exact hseq he
    next hseq =>
      have hseq : h.reserved = g.seq := by simpa using hseq
      split
      next hok => exact .inl ⟨hp, ⟨hseq, hok⟩, rfl, rfl⟩
      next hok =>
        have hok : hasFlag h.flags motorFlagAckOk = false := by simpa using hok
        split
        next hnack => exact .inr (.inl ⟨⟨hp, .inr ⟨hseq, hok, hnack⟩⟩, rfl, rfl⟩)
        next hnack =>
          refine .inr (.inr ⟨fun hc => ?_, fun hc => ?_, rfl, rfl⟩)
          · simp [AcksOk, hok] at hc
          · rcases hc.2 with ⟨he, -⟩ | ⟨-, -, hn⟩
            · exact he hseq
            · exact hnack hn

theorem cmdObserve_ack {h : FrameHeader} {g : CommandState} (hp : g.state = .pending)
    (hack : AcksOk h g.seq) (active : ConfigPayload) (st : ControllerStats) :
    (cmdObserve h g active st).cmd = { g with state := .idle } ∧
      (cmdObserve h g active st).activeStm = g.payload := by
  simp [cmdObserve, hp, hack.1, hack.2]

/-- `cmd_observe` returns true exactly on a matching ACK_OK. -/
theorem cmdObserve_applied_iff (h : FrameHeader) (g : CommandState) (active : ConfigPayload)
    (st : ControllerStats) :
    (cmdObserve h g active st).applied = true ↔ g.state = .pending ∧ AcksOk h g.seq := by
  unfold cmdObserve AcksOk
  by_cases hp : g.state = .pending <;> by_cases hseq : h.reserved = g.seq <;>
    by_cases hok : hasFlag h.flags motorFlagAckOk = true <;> simp [hp, hseq, hok]
  · split <;> rfl
  · split <;> rfl
  · split <;> rfl

theorem EndsUnacked.not_acksOk {h : FrameHeader} {g : CommandState} (hend : EndsUnacked h g) :
    ¬ AcksOk h g.seq := by
  rintro ⟨hseq, hok⟩
  rcases hend.2 with ⟨hne, -⟩ | ⟨-, hno, -⟩
  · exact hne hseq
  · rw [hok] at hno
    cases hno

end QnxHypervisor.MotorController
