import QnxHypervisor.CommandLink.Stm32

/-! # Controller and STM32 over a lossy link

One machine for both ends: any number of controller lifetimes against one
STM32. A transfer may be lost or damaged in either direction; what passes a
checksum is what was sent. Beside the two parties the state keeps a history of
what happened, which no step reads.
-/

namespace QnxHypervisor.CommandLink

open Foundation MotorWire MotorShm MotorController

/-! ## Channels -/

/-- A data frame that passes its checksum is the frame that was sent. -/
def FrameChannel (sent got : XferBuffer) : Prop :=
  FrameWellFormed got → frameHeader got = frameHeader sent ∧
    ∀ i < (frameHeader got).nRows.toNat, rowAt got i = rowAt sent i

/-- A command that passes its checksum is the command that was sent. -/
def CommandChannel (sent got : XferBuffer) : Prop :=
  CommandWellFormed got → cmdHeader got = cmdHeader sent ∧ cmdPayload got = cmdPayload sent

instance (sent got : XferBuffer) : Decidable (FrameChannel sent got) := by
  unfold FrameChannel
  infer_instance

instance (sent got : XferBuffer) : Decidable (CommandChannel sent got) := by
  unfold CommandChannel
  infer_instance

theorem FrameChannel.refl (sent : XferBuffer) : FrameChannel sent sent :=
  fun _ => ⟨rfl, fun _ _ => rfl⟩

theorem CommandChannel.refl (sent : XferBuffer) : CommandChannel sent sent :=
  fun _ => ⟨rfl, rfl⟩

theorem FrameChannel.lost (sent : XferBuffer) : FrameChannel sent (Buffer.zero _) :=
  fun h => absurd h zero_not_wellFormed

theorem CommandChannel.lost (sent : XferBuffer) : CommandChannel sent (Buffer.zero _) :=
  fun h => absurd h.magic zero_not_command

/-! ## State -/

/-- A command the STM32 has processed, with its place among all commands queued. -/
structure Processed where
  number : Nat
  payload : ConfigPayload
  ack : Ack

/-- What has happened on the link so far. -/
structure History where
  /-- commands queued -/
  commands : Nat
  /-- the number of the command the STM32 keeps -/
  waitingNo : Nat
  last : Option Processed
  /-- commands queued since the STM32 processed one -/
  sinceLast : Nat
  /-- payloads accepted during this controller lifetime -/
  acceptedHere : List ConfigPayload
  /-- the payload accepted last, unless the controller has seen an ACK_OK since -/
  unseen : Option ConfigPayload

namespace History

def queue (h : History) : History :=
  { h with commands := h.commands + 1, sinceLast := h.sinceLast + 1 }

def restart (h : History) : History := { h.queue with acceptedHere := [] }

def hear (b : XferBuffer) (h : History) : History :=
  if (cmdHeader b).magic = motorCmdMagic then { h with waitingNo := h.commands } else h

def process (verdict : Option NackReason) (waiting : Option HeardCommand) (h : History) :
    History :=
  match waiting with
  | none => h
  | some c =>
      let processed := { h with
        last := some ⟨h.waitingNo, c.payload, c.judge verdict⟩, sinceLast := 0 }
      if c.judge verdict = .ok then
        { processed with acceptedHere := c.payload :: h.acceptedHere, unseen := some c.payload }
      else processed

def confirm (h : History) : History := { h with unseen := none }

@[simp] theorem process_commands (verdict : Option NackReason) (waiting : Option HeardCommand)
    (h : History) : (h.process verdict waiting).commands = h.commands := by
  cases waiting with
  | none => rfl
  | some c =>
      simp only [process]
      split <;> rfl

@[simp] theorem process_last (verdict : Option NackReason) (c : HeardCommand) (h : History) :
    (h.process verdict (some c)).last =
      some ⟨h.waitingNo, c.payload, c.judge verdict⟩ := by
  simp only [process]
  split <;> rfl

end History

structure Link where
  ctrl : Controller
  stm : Stm32
  hist : History

/-! ## Steps -/

inductive LinkEvent where
  | restart (doc : Option Json) (env : StartupEnv)
  | reload (doc : Option Json) (env : ReloadEnv)
  | noData (interrupted : Bool)
  | exchangeFailed (interrupted : Bool) (heard : XferBuffer)
  | exchange (rx heard : XferBuffer)
  | boundary (verdict : Option NackReason) (b : Block)

/-- `cmd_observe` returns true on `rx`: the pending command completes. -/
def completes (rx : XferBuffer) (c : Controller) : Bool :=
  decide (validateFrame c.activeStm rx = .accepted) &&
    (cmdObserve (frameHeader rx) (cmdCountAttempt c.cmd) c.activeStm c.st).applied

def linkStep (s : Link) : LinkEvent → Option Link
  | .restart doc env =>
      (startup doc env).ctrl.map fun c => { s with ctrl := c, hist := s.hist.restart }
  | .reload doc env =>
      let queued := (configLoadFile doc).any fun next => configStmDiffers next.stm s.ctrl.cfg.stm
      some { s with
        ctrl := loopStep s.ctrl (.reload doc env)
        hist := if queued then s.hist.queue else s.hist }
  | .noData interrupted => some { s with ctrl := loopStep s.ctrl (.noData interrupted) }
  | .exchangeFailed interrupted heard =>
      if CommandChannel (cmdFillTx s.ctrl.cmd) heard then
        some { ctrl := loopStep s.ctrl (.exchangeFailed interrupted)
               stm := s.stm.hear heard, hist := s.hist.hear heard }
      else none
  | .exchange rx heard =>
      if FrameChannel s.stm.out rx ∧ CommandChannel (cmdFillTx s.ctrl.cmd) heard then
        let hist := s.hist.hear heard
        some { ctrl := loopStep s.ctrl (.exchange rx), stm := s.stm.hear heard
               hist := if completes rx s.ctrl then hist.confirm else hist }
      else none
  | .boundary verdict b =>
      some { s with
        stm := s.stm.boundary verdict b, hist := s.hist.process verdict s.stm.waiting }

/-- A started controller has queued its first command; the STM32 has seen none. -/
structure LinkStart (s : Link) : Prop where
  ctrl : ∃ doc env, (startup doc env).ctrl = some s.ctrl
  stm : ∃ p b, s.stm = Stm32.powerOn p b
  hist : s.hist = { commands := 1, waitingNo := 0, last := none, sinceLast := 1
                    acceptedHere := [], unseen := none }

def linkMachine : Machine Link LinkEvent where
  initial := LinkStart
  step := linkStep

theorem reachable_link {ok : Link → LinkEvent → Prop} {s s' : Link} {e : LinkEvent}
    (hr : linkMachine.ReachableBy ok s) (hs : linkStep s e = some s') (hok : ok s e) :
    linkMachine.ReachableBy ok s' :=
  hr.step hok hs

/-! ## What one step does -/

def startupStm (doc : Option Json) : ConfigPayload := ((configLoadFile doc).getD configDefaults).stm

/-- The frame gets through and ends the pending command without an ACK_OK. -/
def Abandons (rx : XferBuffer) (c : Controller) : Prop :=
  FrameWellFormed rx ∧ sizeLocked c.activeStm (frameHeader rx) = false ∧
    EndsUnacked (frameHeader rx) (cmdCountAttempt c.cmd)

theorem receiveFrame_cases (rx : XferBuffer) (c : Controller) :
    (completes rx c = true ∧ c.cmd.state = .pending ∧ FrameWellFormed rx ∧
      AcksOk (frameHeader rx) c.cmd.seq ∧ (receiveFrame rx c).cmd.state = .idle ∧
      (receiveFrame rx c).cmd.seq = c.cmd.seq ∧ (receiveFrame rx c).cmd.payload = c.cmd.payload ∧
      (receiveFrame rx c).activeStm = c.cmd.payload) ∨
    (completes rx c = false ∧ Abandons rx c ∧ (receiveFrame rx c).cmd.state = .idle ∧
      (receiveFrame rx c).cmd.seq = c.cmd.seq ∧ (receiveFrame rx c).cmd.payload = c.cmd.payload ∧
      (receiveFrame rx c).activeStm = c.activeStm) ∨
    (completes rx c = false ∧ SameCommand c.cmd (receiveFrame rx c).cmd ∧
      (receiveFrame rx c).activeStm = c.activeStm) := by
  have hsame := cmdCountAttempt_same c.cmd
  obtain ⟨-, hacc, hrej⟩ := receiveFrame_fields rx c
  by_cases hv : validateFrame c.activeStm rx = .accepted
  · obtain ⟨hcmd, hact⟩ := hacc hv
    obtain ⟨hwf, hlock⟩ := (validateFrame_accepted_iff _ _).mp hv
    have hcompletes : completes rx c =
        (cmdObserve (frameHeader rx) (cmdCountAttempt c.cmd) c.activeStm c.st).applied := by
      simp [completes, hv]
    have happlied := cmdObserve_applied_iff (frameHeader rx) (cmdCountAttempt c.cmd) c.activeStm
      c.st
    rw [← hcompletes] at happlied
    rcases cmdObserve_cases (frameHeader rx) (cmdCountAttempt c.cmd) c.activeStm c.st with
      ⟨hp, hack, hobs, hpay⟩ | ⟨hend, hobs, hkeep⟩ | ⟨hno, -, hobs, hkeep⟩
    · refine .inl ⟨happlied.mpr ⟨hp, hack⟩, hsame.state ▸ hp, hwf, hsame.seq ▸ hack, ?_⟩
      rw [hcmd, hact, hobs, hpay]
      exact ⟨rfl, hsame.seq, hsame.payload, hsame.payload⟩
    · refine .inr (.inl ⟨?_, ⟨hwf, hlock, hend⟩, ?_⟩)
      · by_contra hc
        exact hend.not_acksOk (happlied.mp (by simpa using hc)).2
      · rw [hcmd, hact, hobs, hkeep]
        exact ⟨rfl, hsame.seq, hsame.payload, rfl⟩
    · refine .inr (.inr ⟨?_, ?_, ?_⟩)
      · by_contra hc
        exact hno (happlied.mp (by simpa using hc))
      · rw [hcmd, hobs]
        exact hsame
      · rw [hact, hkeep]
  · obtain ⟨hcmd, hact⟩ := hrej hv
    exact .inr (.inr ⟨by simp [completes, hv], hcmd ▸ hsame, hact⟩)

/-- The command is over, its number and payload still in place. -/
structure EndedCommand (g g' : CommandState) : Prop where
  state : g'.state = .idle
  seq : g'.seq = g.seq
  payload : g'.payload = g.payload

/-- The STM32 and the number it keeps after a transfer: it ignored the buffer,
or keeps a command, the pending one unless the transfer damaged it. -/
inductive Heard (s : Link) : Stm32 → Nat → Prop
  | nothing : Heard s s.stm s.hist.waitingNo
  | command (c : HeardCommand)
      (ours : c.intact = true → s.ctrl.cmd.state = .pending ∧
        c.header.cmdSeq = s.ctrl.cmd.seq ∧ c.payload = s.ctrl.cmd.payload) :
      Heard s { s.stm with waiting := some c } s.hist.commands

theorem Heard.latch {s : Link} {m : Stm32} {n : Nat} (h : Heard s m n) :
    m.ack = s.stm.ack ∧ m.ackSeq = s.stm.ackSeq ∧ m.accepted = s.stm.accepted := by
  cases h <;> exact ⟨rfl, rfl, rfl⟩

theorem heard_of_channel {s : Link} (hf : s.ctrl.cmd.Framed) {heard : XferBuffer}
    (hchan : CommandChannel (cmdFillTx s.ctrl.cmd) heard) :
    Heard s (s.stm.hear heard) (s.hist.hear heard).waitingNo := by
  by_cases hm : (cmdHeader heard).magic = motorCmdMagic
  · rw [Stm32.hear_magic hm, History.hear, if_pos hm]
    refine .command _ fun hintact => ?_
    obtain ⟨hheader, hpayload⟩ := hchan ⟨hm, of_decide_eq_true hintact⟩
    by_cases hp : s.ctrl.cmd.state = .pending
    · rw [cmdFillTx_pending hf hp, cmdHeader_wireCommand] at hheader
      rw [cmdFillTx_pending hf hp, cmdPayload_wireCommand] at hpayload
      exact ⟨hp, congrArg CmdHeader.cmdSeq hheader, hpayload⟩
    · -- an idle controller sends zeros, which carry no command
      rw [cmdFillTx_idle ((CmdPhase.ne_pending_iff _).mp hp)] at hheader
      exact absurd (hheader ▸ hm) zero_not_command
  · rw [Stm32.hear_noise hm, History.hear, if_neg hm]
    exact .nothing

/-- The pending command completes on the frame the STM32 had prepared. -/
structure Completion (s s' : Link) : Prop where
  pending : s.ctrl.cmd.state = .pending
  acks : AcksOk (frameHeader s.stm.out) s.ctrl.cmd.seq
  ended : EndedCommand s.ctrl.cmd s'.ctrl.cmd
  active : s'.ctrl.activeStm = s.ctrl.cmd.payload
  heard : Heard s s'.stm s'.hist.waitingNo
  hist : s'.hist = { s.hist.confirm with waitingNo := s'.hist.waitingNo }

/-- Everything one step can do to the command, `active_stm`, the STM32 and the
history. -/
inductive Effect (s s' : Link) : LinkEvent → Prop
  | restarted {doc : Option Json} {env : StartupEnv}
      (hcmd : s'.ctrl.cmd = cmdQueueSetConfig (startupStm doc) cmdInit)
      (hact : s'.ctrl.activeStm = zeroPayload) (hstm : s'.stm = s.stm)
      (hhist : s'.hist = s.hist.restart) : Effect s s' (.restart doc env)
  | requeued {doc : Option Json} {env : ReloadEnv} {next : FullConfig} {g : CommandState}
      (hload : configLoadFile doc = some next) (hne : next.stm ≠ s.ctrl.cfg.stm)
      (hg : SameCommand s.ctrl.cmd g) (hcmd : s'.ctrl.cmd = cmdQueueSetConfig next.stm g)
      (hact : s'.ctrl.activeStm = s.ctrl.activeStm) (hstm : s'.stm = s.stm)
      (hhist : s'.hist = s.hist.queue) : Effect s s' (.reload doc env)
  | kept {e : LinkEvent} (hcmd : SameCommand s.ctrl.cmd s'.ctrl.cmd)
      (hact : s'.ctrl.activeStm = s.ctrl.activeStm) (hstm : s'.stm = s.stm)
      (hhist : s'.hist = s.hist) : Effect s s' e
  | carried {e : LinkEvent} (hcmd : SameCommand s.ctrl.cmd s'.ctrl.cmd)
      (hact : s'.ctrl.activeStm = s.ctrl.activeStm) (hheard : Heard s s'.stm s'.hist.waitingNo)
      (hhist : s'.hist = { s.hist with waitingNo := s'.hist.waitingNo }) : Effect s s' e
  | completed {rx heard : XferBuffer} (hdone : Completion s s') : Effect s s' (.exchange rx heard)
  | abandoned {rx heard : XferBuffer} (hend : Abandons rx s.ctrl)
      (hcmd : EndedCommand s.ctrl.cmd s'.ctrl.cmd)
      (hact : s'.ctrl.activeStm = s.ctrl.activeStm) (hstm : s'.stm = s.stm.hear heard)
      (hheard : Heard s s'.stm s'.hist.waitingNo)
      (hhist : s'.hist = { s.hist with waitingNo := s'.hist.waitingNo }) :
      Effect s s' (.exchange rx heard)
  | framed {verdict : Option NackReason} {b : Block} (hctrl : s'.ctrl = s.ctrl)
      (hstm : s'.stm = s.stm.boundary verdict b)
      (hhist : s'.hist = s.hist.process verdict s.stm.waiting) : Effect s s' (.boundary verdict b)

/-- The controller is a reachable one and the prepared frame shows the latch. -/
structure LinkInv (s : Link) : Prop where
  ctrl : controllerMachine.Reachable s.ctrl
  latched : s.stm.Latched

theorem LinkInv.framed {s : Link} (h : LinkInv s) : s.ctrl.cmd.Framed :=
  (controllerInv_reachable h.ctrl).framed

theorem History.hear_eq (b : XferBuffer) (h : History) :
    h.hear b = { h with waitingNo := (h.hear b).waitingNo } := by
  by_cases hm : (cmdHeader b).magic = motorCmdMagic <;> simp [History.hear, hm]

theorem linkStep_reload {s s' : Link} {doc : Option Json} {env : ReloadEnv}
    (h : linkStep s (.reload doc env) = some s') : Effect s s' (.reload doc env) := by
  obtain rfl := Option.some.inj h
  rcases handleReload_cases doc env s.ctrl with ⟨hnone, -, hc⟩ | ⟨next, hload, -, -, hact, hcmd⟩
  · refine .kept ?_ ?_ rfl (by simp [hnone])
    · simp only [loopStep, hc]
      exact SameCommand.refl _
    · simp only [loopStep, hc]
  · rcases hcmd with ⟨hne, g, hg, hq⟩ | ⟨hsame, hkeep⟩
    · refine .requeued hload hne hg hq hact rfl ?_
      simp [hload, (configStmDiffers_iff _ _).mpr hne]
    · refine .kept hkeep hact rfl ?_
      have hno : ¬ configStmDiffers next.stm s.ctrl.cfg.stm = true := fun hd =>
        (configStmDiffers_iff _ _).mp hd hsame
      simp [hload, hno]

theorem linkStep_exchange {s s' : Link} (hinv : LinkInv s) {rx heard : XferBuffer}
    (h : linkStep s (.exchange rx heard) = some s') :
    (completes rx s.ctrl = true → Completion s s') ∧ Effect s s' (.exchange rx heard) := by
  simp only [linkStep] at h
  split at h
  next hchan =>
    obtain ⟨hframe, hcommand⟩ := hchan
    obtain rfl := Option.some.inj h
    have hheard := heard_of_channel hinv.framed hcommand
    have hno := History.hear_eq heard s.hist
    rcases receiveFrame_cases rx s.ctrl with ⟨hdone, hp, hwf, hack, hidle, hseq, hpay, hact⟩ |
      ⟨hdone, hend, hidle, hseq, hpay, hact⟩ | ⟨hdone, hsame, hact⟩
    · have hheader := (hframe hwf).1
      have hcompletion : Completion s
          { ctrl := loopStep s.ctrl (.exchange rx), stm := s.stm.hear heard
            hist := if completes rx s.ctrl then (s.hist.hear heard).confirm
              else s.hist.hear heard } := by
        refine ⟨hp, hheader ▸ hack, ⟨hidle, hseq, hpay⟩, hact, ?_, ?_⟩
        · simpa [hdone, History.confirm] using hheard
        · simp only [hdone, if_true]
          rw [hno]
          rfl
      exact ⟨fun _ => hcompletion, .completed hcompletion⟩
    · refine ⟨fun hc => absurd hc (by simp [hdone]),
        .abandoned hend ⟨hidle, hseq, hpay⟩ hact rfl ?_ ?_⟩
      · simpa [hdone] using hheard
      · simpa [hdone] using hno
    · refine ⟨fun hc => absurd hc (by simp [hdone]), .carried hsame hact ?_ ?_⟩
      · simpa [hdone] using hheard
      · simpa [hdone] using hno
  next => cases h

/-- The inversion lemma of `linkStep`. -/
theorem linkStep_effect {s s' : Link} {e : LinkEvent} (hinv : LinkInv s)
    (h : linkStep s e = some s') : Effect s s' e := by
  cases e with
  | restart doc env =>
      simp only [linkStep, Option.map_eq_some_iff] at h
      obtain ⟨c, hc, rfl⟩ := h
      obtain ⟨hcfg, hact, hcmd⟩ := startup_ctrl hc
      refine .restarted ?_ hact rfl rfl
      rw [hcmd, hcfg]
      rfl
  | reload doc env => exact linkStep_reload h
  | noData interrupted =>
      obtain rfl := Option.some.inj h
      cases interrupted <;> exact .kept (SameCommand.refl _) rfl rfl rfl
  | exchangeFailed interrupted heard =>
      simp only [linkStep] at h
      split at h
      next hchan =>
        obtain rfl := Option.some.inj h
        have hheard := heard_of_channel hinv.framed hchan
        have hno := History.hear_eq heard s.hist
        cases interrupted <;> exact .carried (SameCommand.refl _) rfl hheard hno
      next => cases h
  | exchange rx heard => exact (linkStep_exchange hinv h).2
  | boundary verdict b =>
      obtain rfl := Option.some.inj h
      exact .framed rfl rfl rfl

theorem linkInv_start {s : Link} (h : LinkStart s) : LinkInv s := by
  obtain ⟨p, b, hstm⟩ := h.stm
  exact ⟨.initial h.ctrl, hstm ▸ Stm32.latched_powerOn p b⟩

theorem linkInv_step {s s' : Link} {e : LinkEvent} (hinv : LinkInv s)
    (h : linkStep s e = some s') : LinkInv s' := by
  cases e with
  | restart doc env =>
      simp only [linkStep, Option.map_eq_some_iff] at h
      obtain ⟨c, hc, rfl⟩ := h
      exact ⟨.initial ⟨doc, env, hc⟩, hinv.latched⟩
  | reload doc env =>
      obtain rfl := Option.some.inj h
      exact ⟨reachable_loop hinv.ctrl (.reload doc env), hinv.latched⟩
  | noData interrupted =>
      obtain rfl := Option.some.inj h
      exact ⟨reachable_loop hinv.ctrl (.noData interrupted), hinv.latched⟩
  | exchangeFailed interrupted heard =>
      simp only [linkStep] at h
      split at h
      next =>
        obtain rfl := Option.some.inj h
        exact ⟨reachable_loop hinv.ctrl (.exchangeFailed interrupted),
          Stm32.latched_hear hinv.latched heard⟩
      next => cases h
  | exchange rx heard =>
      simp only [linkStep] at h
      split at h
      next =>
        obtain rfl := Option.some.inj h
        exact ⟨reachable_loop hinv.ctrl (.exchange rx), Stm32.latched_hear hinv.latched heard⟩
      next => cases h
  | boundary verdict b =>
      obtain rfl := Option.some.inj h
      exact ⟨hinv.ctrl, Stm32.latched_boundary verdict b s.stm⟩

theorem linkInv_reachable {ok : Link → LinkEvent → Prop} {s : Link}
    (h : linkMachine.ReachableBy ok s) : LinkInv s :=
  h.invariant (fun _ => linkInv_start) fun _ _ _ _ hinv _ hs => linkInv_step hinv hs

/-! ## Particular steps -/

/-- The command the STM32 keeps once the pending one got through. -/
def sentCommand (g : CommandState) : HeardCommand :=
  { header := setConfigHeader g.seq, payload := g.payload, intact := true }

theorem hear_pending {g : CommandState} (hf : g.Framed) (hp : g.state = .pending)
    (m : Stm32) : m.hear (cmdFillTx g) = { m with waiting := some (sentCommand g) } := by
  have hwf := wireCommand_wellFormed (setConfigHeader g.seq) g.payload rfl
  rw [cmdFillTx_pending hf hp, Stm32.hear_magic hwf.magic]
  simp only [heardCommand, cmdHeader_wireCommand, cmdPayload_wireCommand, hwf.crc, decide_true,
    sentCommand]

theorem hear_pending_no {g : CommandState} (hf : g.Framed) (hp : g.state = .pending)
    (h : History) : h.hear (cmdFillTx g) = { h with waitingNo := h.commands } := by
  have hwf := wireCommand_wellFormed (setConfigHeader g.seq) g.payload rfl
  rw [cmdFillTx_pending hf hp, History.hear, if_pos hwf.magic]

theorem completes_lost (c : Controller) : completes (Buffer.zero _) c = false := by
  have hv : validateFrame c.activeStm (Buffer.zero _) ≠ .accepted := fun h =>
    zero_not_wellFormed ((validateFrame_accepted_iff _ _).mp h).1
  simp [completes, hv]

theorem receiveFrame_lost (c : Controller) :
    (receiveFrame (Buffer.zero _) c).cmd = cmdCountAttempt c.cmd ∧
      (receiveFrame (Buffer.zero _) c).activeStm = c.activeStm ∧
      (receiveFrame (Buffer.zero _) c).cfg = c.cfg := by
  obtain ⟨hcmd, hact⟩ := receiveFrame_dropped (c := c) (Buffer.zero _)
    fun h => zero_not_wellFormed h.1
  exact ⟨hcmd, hact, (receiveFrame_fields _ c).1⟩

/-- Nothing gets through in either direction. -/
theorem linkStep_lost (s : Link) :
    ∃ s', linkStep s (.exchange (Buffer.zero _) (Buffer.zero _)) = some s' ∧
      s'.ctrl = receiveFrame (Buffer.zero _) s.ctrl ∧ s'.stm = s.stm := by
  refine ⟨{ s with ctrl := receiveFrame (Buffer.zero _) s.ctrl }, ?_, rfl, rfl⟩
  have hstm : s.stm.hear (Buffer.zero _) = s.stm := Stm32.hear_noise zero_not_command _
  have hhist : s.hist.hear (Buffer.zero _) = s.hist := by
    rw [History.hear, if_neg zero_not_command]
  simp only [linkStep, FrameChannel.lost, CommandChannel.lost, and_self, if_true, hstm, hhist,
    loopStep, completes_lost, Bool.false_eq_true, if_false]

/-- The command gets through, the frame on the way back does not. -/
theorem linkStep_deliver {s : Link} (hinv : LinkInv s) (hp : s.ctrl.cmd.state = .pending) :
    ∃ t, linkStep s (.exchange (Buffer.zero _) (cmdFillTx s.ctrl.cmd)) = some t ∧
      t.ctrl.cmd = cmdCountAttempt s.ctrl.cmd ∧ t.ctrl.activeStm = s.ctrl.activeStm ∧
      t.ctrl.cfg = s.ctrl.cfg ∧
      t.stm = { s.stm with waiting := some (sentCommand s.ctrl.cmd) } ∧
      t.hist = { s.hist with waitingNo := s.hist.commands } := by
  obtain ⟨hcmd, hact, hcfg⟩ := receiveFrame_lost s.ctrl
  refine ⟨{ ctrl := receiveFrame (Buffer.zero _) s.ctrl
            stm := { s.stm with waiting := some (sentCommand s.ctrl.cmd) }
            hist := { s.hist with waitingNo := s.hist.commands } }, ?_, hcmd, hact, hcfg, rfl, rfl⟩
  simp only [linkStep, FrameChannel.lost, CommandChannel.refl, and_self, if_true, completes_lost,
    loopStep, hear_pending hinv.framed hp, hear_pending_no hinv.framed hp, Bool.false_eq_true,
    if_false]

theorem linkStep_both {s : Link} (hinv : LinkInv s) (hp : s.ctrl.cmd.state = .pending) :
    ∃ t, linkStep s (.exchange s.stm.out (cmdFillTx s.ctrl.cmd)) = some t ∧
      t.ctrl = receiveFrame s.stm.out s.ctrl ∧
      t.stm = { s.stm with waiting := some (sentCommand s.ctrl.cmd) } := by
  simp only [linkStep, FrameChannel.refl, CommandChannel.refl, and_self, if_true, loopStep,
    hear_pending hinv.framed hp]
  exact ⟨_, rfl, rfl, rfl⟩

/-- The prepared frame gets through while the transmit side is lost. -/
theorem linkStep_frame (s : Link) :
    linkStep s (.exchange s.stm.out (Buffer.zero _)) =
      some { ctrl := receiveFrame s.stm.out s.ctrl, stm := s.stm
             hist := if completes s.stm.out s.ctrl then s.hist.confirm else s.hist } := by
  have hstm : s.stm.hear (Buffer.zero _) = s.stm := Stm32.hear_noise zero_not_command _
  have hhist : s.hist.hear (Buffer.zero _) = s.hist := by
    rw [History.hear, if_neg zero_not_command]
  simp only [linkStep, FrameChannel.refl, CommandChannel.lost, and_self, if_true, hstm, hhist,
    loopStep]

theorem linkStep_restart (s : Link) {doc : Option Json} {env : StartupEnv} {c : Controller}
    (h : (startup doc env).ctrl = some c) :
    ∃ s', linkStep s (.restart doc env) = some s' ∧ s'.ctrl = c ∧ s'.stm = s.stm ∧
      s'.hist = s.hist.restart := by
  simp only [linkStep, h, Option.map_some]
  exact ⟨_, rfl, rfl, rfl, rfl⟩

theorem linkStep_requeue (s : Link) {doc : Option Json} {next : FullConfig}
    (hload : configLoadFile doc = some next) (hne : next.stm ≠ s.ctrl.cfg.stm)
    (env : ReloadEnv) :
    ∃ s', linkStep s (.reload doc env) = some s' ∧ s'.ctrl.cmd.state = .pending ∧
      s'.ctrl.cmd.seq = s.ctrl.cmd.seq + 1 ∧ s'.ctrl.cmd.payload = next.stm ∧
      s'.ctrl.cmd.retriesLeft = cmdMaxRetries ∧ s'.ctrl.cfg = next ∧
      s'.ctrl.activeStm = s.ctrl.activeStm ∧ s'.stm = s.stm ∧
      s'.hist = s.hist.queue := by
  obtain ⟨hp, hseq, hpay, hleft, hcfg, hact⟩ := handleReload_queues hload hne env
  refine ⟨_, rfl, hp, hseq, hpay, hleft, hcfg, hact, rfl, ?_⟩
  simp [hload, (configStmDiffers_iff _ _).mpr hne]

/-- The first frame after command `seq` was accepted, with blocks of `nRows` rows. -/
def ackFrame (seq nRows : UInt16) (b : Block) : XferBuffer :=
  wireFrame (dataHeader b.seq b.timestamp (motorFlagAckOk ||| motorFlagConfigApplied) nRows seq)
    b.rows

/-- The STM32 once it has accepted the command of `g`. -/
def Stm32.afterAccept (g : CommandState) (b : Block) (m : Stm32) : Stm32 :=
  { m with
    accepted := some g.payload, waiting := none, ackSeq := g.seq, ack := .ok
    out := ackFrame g.seq g.payload.blockRows b }

theorem linkStep_accept {s : Link} {g : CommandState} {m : Stm32}
    (hstm : s.stm = { m with waiting := some (sentCommand g) }) (b : Block) :
    ∃ t, linkStep s (.boundary none b) = some t ∧ t.ctrl = s.ctrl ∧
      t.stm = m.afterAccept g b ∧
      t.hist = { s.hist with
        last := some ⟨s.hist.waitingNo, g.payload, .ok⟩, sinceLast := 0
        acceptedHere := g.payload :: s.hist.acceptedHere, unseen := some g.payload } := by
  refine ⟨_, rfl, rfl, ?_, ?_⟩
  · rw [hstm]
    rfl
  · rw [hstm]
    rfl

theorem linkStep_ack {s : Link} (nRows : UInt16) (b : Block) (hp : s.ctrl.cmd.state = .pending)
    (hpos : 1 ≤ nRows.toNat) (hle : nRows.toNat ≤ motorMaxRowsPerBlock)
    (hout : s.stm.out = ackFrame s.ctrl.cmd.seq nRows b) :
    ∃ s', linkStep s (.exchange s.stm.out (Buffer.zero _)) = some s' ∧
      completes s.stm.out s.ctrl = true ∧ s'.ctrl.activeStm = s.ctrl.cmd.payload ∧
      s'.ctrl.cmd.state = .idle ∧ s'.ctrl.cmd.seq = s.ctrl.cmd.seq ∧
      s'.ctrl.cfg = s.ctrl.cfg ∧ s'.stm = s.stm ∧ s'.hist = s.hist.confirm := by
  have hwf : FrameWellFormed s.stm.out := by
    rw [hout]
    exact dataFrame_wellFormed _ _ _ _ _ hpos hle
  have hheader : frameHeader s.stm.out = dataHeader b.seq b.timestamp
      (motorFlagAckOk ||| motorFlagConfigApplied) nRows s.ctrl.cmd.seq := by
    rw [hout, ackFrame, frameHeader_wireFrame]
  have hok : hasFlag (motorFlagAckOk ||| motorFlagConfigApplied) motorFlagAckOk = true := by decide
  have happlied : hasFlag (motorFlagAckOk ||| motorFlagConfigApplied) motorFlagConfigApplied =
      true := by decide
  have hack : AcksOk (frameHeader s.stm.out) s.ctrl.cmd.seq := by
    rw [hheader]
    exact ⟨rfl, hok⟩
  have hlock : sizeLocked s.ctrl.activeStm (frameHeader s.stm.out) = false := by
    rw [sizeLocked_eq_false_iff, hheader]
    exact .inr (.inr happlied)
  obtain ⟨hact, hidle, hseq⟩ := receiveFrame_ack s.stm.out hp hwf hlock hack
  have hdone : completes s.stm.out s.ctrl = true := by
    rcases receiveFrame_cases s.stm.out s.ctrl with ⟨hdone, -⟩ | ⟨-, hend, -⟩ | ⟨-, hsame, -⟩
    · exact hdone
    · exact absurd ((cmdCountAttempt_same s.ctrl.cmd).seq ▸ hack) hend.2.2.not_acksOk
    · rw [hsame.state, hp] at hidle
      cases hidle
  refine ⟨_, linkStep_frame s, hdone, hact, hidle, hseq, (receiveFrame_fields _ _).1, rfl, ?_⟩
  simp only [hdone, if_true]

/-! ## A started link -/

def zeroBlockData : Block := { seq := 0, timestamp := 0, rows := fun _ => zeroRow }

/-- A controller on built-in defaults next to an STM32 that was just powered on. -/
def startedLink : Link where
  ctrl := defaultController
  stm := Stm32.powerOn configDefaults.stm zeroBlockData
  hist := { commands := 1, waitingNo := 0, last := none, sinceLast := 1, acceptedHere := []
            unseen := none }

theorem startedLink_start : LinkStart startedLink :=
  ⟨⟨none, faultlessStartup, defaultController_startup⟩, ⟨_, _, rfl⟩, rfl⟩

theorem startedLink_last : startedLink.hist.last = none := rfl

theorem startedLink_pending : startedLink.ctrl.cmd.state = .pending := rfl

end QnxHypervisor.CommandLink
