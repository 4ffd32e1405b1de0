import QnxHypervisor.MotorController.Pending

/-! # What the controller clocks out

The loop of the controller with its history beside it: the commands queued so
far, every transmit buffer handed to the SPI driver, and those that completed
exchanges carried since the current command was queued and the bus last
reopened.
-/

namespace QnxHypervisor.MotorController

open Foundation MotorWire MotorShm

/-! ## The loop with its history -/

structure QueuedCommand where
  seq : UInt16
  payload : ConfigPayload

/-- A transmit buffer handed to the SPI driver, and the place of the command in
flight among those queued. -/
structure Transmission where
  command : Option Nat
  tx : XferBuffer

structure Sender where
  ctrl : Controller
  queued : List QueuedCommand
  sent : List Transmission
  carried : List XferBuffer

def reloadQueues (doc : Option Json) (c : Controller) : Bool :=
  (configLoadFile doc).any fun next => configStmDiffers next.stm c.cfg.stm

def reloadReopens (doc : Option Json) (c : Controller) : Bool :=
  (configLoadFile doc).any fun next => configSpiWireDiffers next.pi c.cfg.pi

namespace Sender

def inFlight (s : Sender) : Option Nat :=
  if s.ctrl.cmd.state = .pending then some (s.queued.length - 1) else none

def transmission (s : Sender) : Transmission := ⟨s.inFlight, cmdFillTx s.ctrl.cmd⟩

def started (c : Controller) : Sender :=
  { ctrl := c, queued := [⟨c.cmd.seq, c.cmd.payload⟩], sent := [], carried := [] }

end Sender

def senderStep (s : Sender) (e : LoopEvent) : Sender :=
  let c := loopStep s.ctrl e
  match e with
  | .reload doc _ =>
      { s with
        ctrl := c
        queued := if reloadQueues doc s.ctrl then s.queued ++ [⟨c.cmd.seq, c.cmd.payload⟩]
          else s.queued
        carried := if reloadQueues doc s.ctrl || reloadReopens doc s.ctrl then [] else s.carried }
  | .noData _ => { s with ctrl := c }
  | .exchangeFailed _ => { s with ctrl := c, sent := s.sent ++ [s.transmission] }
  | .exchange _ =>
      { s with
        ctrl := c, sent := s.sent ++ [s.transmission]
        carried := s.carried ++ [cmdFillTx s.ctrl.cmd] }

def senderMachine : Machine Sender LoopEvent where
  initial s := ∃ doc env c, (startup doc env).ctrl = some c ∧ s = .started c
  step s e := some (senderStep s e)

/-! ## Reloads and exchanges seen from the command -/

/-- The bounce refreshes the budget before a new command may be queued. -/
theorem handleReload_cmd (doc : Option Json) (env : ReloadEnv) (c : Controller) :
    (handleReload doc env c).ctrl.cmd =
      match configLoadFile doc with
      | none => c.cmd
      | some next =>
          let g := if configSpiWireDiffers next.pi c.cfg.pi then cmdRefreshAfterReinit c.cmd
            else c.cmd
          if configStmDiffers next.stm c.cfg.stm then cmdQueueSetConfig next.stm g else g := by
  unfold handleReload
  cases configLoadFile doc with
  | none => rfl
  | some next =>
      have hpin := reloadPinTier_fields env next.pi (reloadSpiTier env next.pi c).1
      have hcfg := hpin.1.trans (reloadSpiTier_fields env next.pi c).1
      have hspi : (reloadSpiTier env next.pi c).1.cmd =
          if configSpiWireDiffers next.pi c.cfg.pi then cmdRefreshAfterReinit c.cmd
          else c.cmd := by
        unfold reloadSpiTier
        split <;> rfl
      by_cases hstm : configStmDiffers next.stm c.cfg.stm = true
      · simp only [reloadStmTier, hcfg, hstm, if_true]
        rw [hpin.2.2, hspi]
      · simp only [reloadStmTier, hcfg, if_neg hstm]
        rw [hpin.2.2, hspi]

theorem reload_cases (doc : Option Json) (env : ReloadEnv) (c : Controller) :
    (reloadQueues doc c = true ∧ ∃ p g, StmPayloadOk p ∧ SameCommand c.cmd g ∧
      (handleReload doc env c).ctrl.cmd = cmdQueueSetConfig p g) ∨
    (reloadQueues doc c = false ∧ reloadReopens doc c = true ∧
      (handleReload doc env c).ctrl.cmd = cmdRefreshAfterReinit c.cmd) ∨
    (reloadQueues doc c = false ∧ reloadReopens doc c = false ∧
      (handleReload doc env c).ctrl.cmd = c.cmd) := by
  have hcmd := handleReload_cmd doc env c
  unfold reloadQueues reloadReopens
  cases hload : configLoadFile doc with
  | none =>
      rw [hload] at hcmd
      exact .inr (.inr ⟨rfl, rfl, hcmd⟩)
  | some next =>
      rw [hload] at hcmd
      dsimp only at hcmd
      by_cases hspi : configSpiWireDiffers next.pi c.cfg.pi = true
      · rw [if_pos hspi] at hcmd
        by_cases hstm : configStmDiffers next.stm c.cfg.stm = true
        · rw [if_pos hstm] at hcmd
          exact .inl ⟨hstm, next.stm, _, configLoadFile_stm_ok hload,
            cmdRefreshAfterReinit_same c.cmd, hcmd⟩
        · rw [if_neg hstm] at hcmd
          exact .inr (.inl ⟨Bool.not_eq_true _ ▸ hstm, hspi, hcmd⟩)
      · rw [if_neg hspi] at hcmd
        by_cases hstm : configStmDiffers next.stm c.cfg.stm = true
        · rw [if_pos hstm] at hcmd
          exact .inl ⟨hstm, next.stm, _, configLoadFile_stm_ok hload, SameCommand.refl _, hcmd⟩
        · rw [if_neg hstm] at hcmd
          exact .inr (.inr ⟨Bool.not_eq_true _ ▸ hstm, Bool.not_eq_true _ ▸ hspi, hcmd⟩)

theorem receiveFrame_cmd (rx : XferBuffer) (c : Controller) :
    (receiveFrame rx c).cmd = cmdCountAttempt c.cmd ∨
      (receiveFrame rx c).cmd = { cmdCountAttempt c.cmd with state := .idle } := by
  obtain ⟨-, hacc, hrej⟩ := receiveFrame_fields rx c
  by_cases hv : validateFrame c.activeStm rx = .accepted
  · rw [(hacc hv).1]
    rcases cmdObserve_cases (frameHeader rx) (cmdCountAttempt c.cmd) c.activeStm c.st with
      ⟨-, -, hobs, -⟩ | ⟨-, hobs, -⟩ | ⟨-, -, hobs, -⟩
    · exact .inr hobs
    · exact .inr hobs
    · exact .inl hobs
  · exact .inl (hrej hv).1

theorem cmdCountAttempt_sub {g : CommandState} (hp : g.state = .pending) :
    (cmdCountAttempt g).retriesLeft.toNat = g.retriesLeft.toNat - 1 := by
  rcases Nat.eq_zero_or_pos g.retriesLeft.toNat with hzero | hpos
  · have hnone : ¬ (g.state = .pending ∧ 0 < g.retriesLeft) := by
      rintro ⟨-, hlt⟩
      have hlt := UInt16.lt_iff_toNat_lt.mp hlt
      rw [hzero] at hlt
      exact Nat.lt_irrefl 0 hlt
    rw [cmdCountAttempt, if_neg hnone, hzero]
  · exact cmdCountAttempt_retriesLeft hp hpos

theorem cmdCountAttempt_le (g : CommandState) :
    (cmdCountAttempt g).retriesLeft.toNat ≤ g.retriesLeft.toNat := by
  by_cases hp : g.state = .pending
  · rw [cmdCountAttempt_sub hp]
    exact Nat.sub_le _ _
  · rw [cmdCountAttempt, if_neg (fun h => hp h.1)]

/-! ## What the history says of the command -/

/-- An idle transmitter sent zeros, a pending one the frame of a queued command. -/
def SentAs (queued : List QueuedCommand) (t : Transmission) : Prop :=
  match t.command with
  | none => t.tx = Buffer.zero _
  | some i => ∃ q, queued[i]? = some q ∧ t.tx = wireCommand (setConfigHeader q.seq) q.payload

theorem SentAs.later {queued : List QueuedCommand} {t : Transmission} (h : SentAs queued t)
    (q : QueuedCommand) : SentAs (queued ++ [q]) t := by
  unfold SentAs at h ⊢
  cases hcmd : t.command with
  | none =>
      rw [hcmd] at h
      exact h
  | some i =>
      rw [hcmd] at h
      obtain ⟨q', hq', htx⟩ := h
      have hi : i < queued.length := (List.getElem?_eq_some_iff.mp hq').1
      exact ⟨q', by rw [List.getElem?_append_left hi, hq'], htx⟩

structure SenderInv (s : Sender) : Prop where
  ctrl : ControllerInv s.ctrl
  numbered : ∀ i q, s.queued[i]? = some q → q.seq = UInt16.ofNat (i + 1)
  seq : s.ctrl.cmd.seq = UInt16.ofNat s.queued.length
  current : s.queued.getLast? = some ⟨s.ctrl.cmd.seq, s.ctrl.cmd.payload⟩
  sent : ∀ t ∈ s.sent, SentAs s.queued t
  bounded : s.ctrl.cmd.retriesLeft.toNat ≤ cmdMaxRetries.toNat
  counted : s.ctrl.cmd.state = .pending →
    s.ctrl.cmd.retriesLeft.toNat = cmdMaxRetries.toNat - s.carried.length
  carried : s.ctrl.cmd.state = .pending → ∀ tx ∈ s.carried, tx = cmdFillTx s.ctrl.cmd

theorem SenderInv.transmission {s : Sender} (h : SenderInv s) :
    SentAs s.queued s.transmission := by
  by_cases hp : s.ctrl.cmd.state = .pending
  · have hcommand : s.transmission.command = some (s.queued.length - 1) := if_pos hp
    have hlast : s.queued[s.queued.length - 1]? =
        some ⟨s.ctrl.cmd.seq, s.ctrl.cmd.payload⟩ := by
      rw [← List.getLast?_eq_getElem?, h.current]
    have htx := cmdFillTx_pending h.ctrl.framed hp
    rw [SentAs, hcommand]
    exact ⟨_, hlast, htx⟩
  · have hcommand : s.transmission.command = none := if_neg hp
    rw [SentAs, hcommand]
    exact cmdFillTx_idle ((CmdPhase.ne_pending_iff _).mp hp)

theorem SameCommand.fillTx {g g' : CommandState} (h : SameCommand g g') :
    cmdFillTx g' = cmdFillTx g := by
  rw [cmdFillTx, cmdFillTx, h.state, h.frame]

theorem senderInv_started {doc : Option Json} {env : StartupEnv} {c : Controller}
    (h : (startup doc env).ctrl = some c) : SenderInv (.started c) := by
  have hcmd := (startup_ctrl h).2.2
  have hseq : c.cmd.seq = 1 := by rw [hcmd]; rfl
  have hretries : c.cmd.retriesLeft = cmdMaxRetries := by rw [hcmd]; rfl
  refine
    { ctrl := controllerInv_startup h
      numbered := fun i q hq => ?_
      seq := hseq
      current := rfl
      sent := fun t ht => by cases ht
      bounded := by rw [Sender.started, hretries]
      counted := fun _ => by rw [Sender.started, hretries]; rfl
      carried := fun _ tx htx => by cases htx }
  cases i with
  | zero =>
      obtain rfl := Option.some.inj hq
      exact hseq
  | succ i => simp [Sender.started] at hq

/-! ## One step -/

/-- Nothing was queued, reopened or carried; `sent` may have grown. -/
theorem SenderInv.quiet {s s' : Sender} (h : SenderInv s) (hctrl : ControllerInv s'.ctrl)
    (hcmd : s'.ctrl.cmd = s.ctrl.cmd) (hqueued : s'.queued = s.queued)
    (hsent : s'.sent = s.sent ∨ s'.sent = s.sent ++ [s.transmission])
    (hcarried : s'.carried = s.carried) : SenderInv s' where
  ctrl := hctrl
  numbered := hqueued ▸ h.numbered
  seq := by rw [hcmd, hqueued, h.seq]
  current := by rw [hcmd, hqueued, h.current]
  sent := fun t ht => by
    rw [hqueued]
    rcases hsent with hsent | hsent <;> rw [hsent] at ht
    · exact h.sent t ht
    · rcases List.mem_append.mp ht with ht | ht
      · exact h.sent t ht
      · obtain rfl := List.mem_singleton.mp ht
        exact h.transmission
  bounded := by rw [hcmd]; exact h.bounded
  counted := by rw [hcmd, hcarried]; exact h.counted
  carried := by rw [hcmd, hcarried]; exact h.carried

theorem senderInv_queue {s : Sender} (h : SenderInv s) {c : Controller} {p : ConfigPayload}
    {g : CommandState} (hctrl : ControllerInv c) (hsame : SameCommand s.ctrl.cmd g)
    (hcmd : c.cmd = cmdQueueSetConfig p g) :
    SenderInv { s with
      ctrl := c, queued := s.queued ++ [⟨c.cmd.seq, c.cmd.payload⟩], carried := [] } := by
  have hseq : c.cmd.seq = UInt16.ofNat (s.queued.length + 1) := by
    rw [hcmd, cmdQueue_seq, hsame.seq, h.seq]
    simp
  have hretries : c.cmd.retriesLeft = cmdMaxRetries := by rw [hcmd]; rfl
  refine
    { ctrl := hctrl
      numbered := fun i q hq => ?_
      seq := by rw [hseq, List.length_append]; rfl
      current := by rw [List.getLast?_append]; rfl
      sent := fun t ht => (h.sent t ht).later _
      bounded := by rw [hretries]
      counted := fun _ => by rw [hretries]; rfl
      carried := fun _ tx htx => by cases htx }
  rcases Nat.lt_or_ge i s.queued.length with hi | hi
  · rw [List.getElem?_append_left hi] at hq
    exact h.numbered i q hq
  · rw [List.getElem?_append_right hi] at hq
    have hlast : i - s.queued.length = 0 := by
      by_contra hne
      rw [List.getElem?_eq_none (by simp; omega)] at hq
      cases hq
    have hi : i = s.queued.length := by omega
    rw [hlast] at hq
    obtain rfl := Option.some.inj hq
    rw [hi]
    exact hseq

theorem senderInv_refresh {s : Sender} (h : SenderInv s) {c : Controller}
    (hctrl : ControllerInv c) (hcmd : c.cmd = cmdRefreshAfterReinit s.ctrl.cmd) :
    SenderInv { s with ctrl := c, carried := [] } := by
  have hsame := cmdRefreshAfterReinit_same s.ctrl.cmd
  rw [← hcmd] at hsame
  have hretries : c.cmd.state = .pending → c.cmd.retriesLeft = cmdMaxRetries := by
    rw [hsame.state, hcmd]
    intro hp
    rw [cmdRefreshAfterReinit, if_pos hp]
  refine
    { ctrl := hctrl
      numbered := h.numbered
      seq := hsame.seq.trans h.seq
      current := by rw [hsame.seq, hsame.payload]; exact h.current
      sent := h.sent
      bounded := ?_
      counted := fun hp => by rw [hretries hp]; rfl
      carried := fun _ tx htx => by cases htx }
  change c.cmd.retriesLeft.toNat ≤ _
  rw [hcmd, cmdRefreshAfterReinit]
  split
  · exact Nat.le_refl _
  · exact h.bounded

theorem senderInv_exchange {s : Sender} (h : SenderInv s) (rx : XferBuffer) :
    SenderInv (senderStep s (.exchange rx)) := by
  have hsame := cmdCountAttempt_same s.ctrl.cmd
  have hcmd := receiveFrame_cmd rx s.ctrl
  have hseq : (receiveFrame rx s.ctrl).cmd.seq = s.ctrl.cmd.seq := by
    rcases hcmd with hcmd | hcmd <;> rw [hcmd] <;> exact hsame.seq
  have hpayload : (receiveFrame rx s.ctrl).cmd.payload = s.ctrl.cmd.payload := by
    rcases hcmd with hcmd | hcmd <;> rw [hcmd] <;> exact hsame.payload
  have hretries : (receiveFrame rx s.ctrl).cmd.retriesLeft =
      (cmdCountAttempt s.ctrl.cmd).retriesLeft := by
    rcases hcmd with hcmd | hcmd <;> rw [hcmd]
  have hpending : (receiveFrame rx s.ctrl).cmd.state = .pending →
      (receiveFrame rx s.ctrl).cmd = cmdCountAttempt s.ctrl.cmd ∧ s.ctrl.cmd.state = .pending := by
    intro hp
    rcases hcmd with hcmd | hcmd
    · rw [hcmd, hsame.state] at hp
      exact ⟨hcmd, hp⟩
    · rw [hcmd] at hp
      cases hp
  refine
    { ctrl := controllerInv_receive h.ctrl rx
      numbered := h.numbered
      seq := hseq.trans h.seq
      current := by
        change s.queued.getLast? = _
        rw [h.current]
        rw [← hseq, ← hpayload]
        rfl
      sent := fun t ht => ?_
      bounded := ?_
      counted := fun hp => ?_
      carried := fun hp tx htx => ?_ }
  · rcases List.mem_append.mp ht with ht | ht
    · exact h.sent t ht
    · obtain rfl := List.mem_singleton.mp ht
      exact h.transmission
  · change (receiveFrame rx s.ctrl).cmd.retriesLeft.toNat ≤ _
    rw [hretries]
    exact Nat.le_trans (cmdCountAttempt_le s.ctrl.cmd) h.bounded
  · obtain ⟨-, hp'⟩ := hpending hp
    change (receiveFrame rx s.ctrl).cmd.retriesLeft.toNat =
      cmdMaxRetries.toNat - (s.carried ++ [cmdFillTx s.ctrl.cmd]).length
    rw [hretries, cmdCountAttempt_sub hp', h.counted hp', List.length_append, List.length_singleton]
    omega
  · obtain ⟨hcmd, hp'⟩ := hpending hp
    change tx = cmdFillTx (receiveFrame rx s.ctrl).cmd
    rw [hcmd, hsame.fillTx]
    rcases List.mem_append.mp htx with htx | htx
    · exact h.carried hp' tx htx
    · exact List.mem_singleton.mp htx

theorem senderInv_step {s : Sender} (h : SenderInv s) (e : LoopEvent) :
    SenderInv (senderStep s e) := by
  have hctrl := controllerInv_step h.ctrl e
  cases e with
  | reload doc env =>
      rcases reload_cases doc env s.ctrl with ⟨hq, p, g, -, hsame, hcmd⟩ | ⟨hq, hr, hcmd⟩ |
        ⟨hq, hr, hcmd⟩
      · have hnext := senderInv_queue h hctrl hsame hcmd
        simpa [senderStep, hq] using hnext
      · have hnext := senderInv_refresh h hctrl hcmd
        simpa [senderStep, hq, hr] using hnext
      · exact h.quiet hctrl hcmd (by simp [senderStep, hq]) (.inl rfl)
          (by simp [senderStep, hq, hr])
  | noData interrupted =>
      exact h.quiet hctrl (by cases interrupted <;> rfl) rfl (.inl rfl) rfl
  | exchangeFailed interrupted =>
      exact h.quiet hctrl (by cases interrupted <;> rfl) rfl (.inr rfl) rfl
  | exchange rx => exact senderInv_exchange h rx

theorem senderInv_reachable {s : Sender} (h : senderMachine.Reachable s) : SenderInv s := by
  refine h.invariant ?_ ?_
  · rintro s ⟨doc, env, c, hc, rfl⟩
    exact senderInv_started hc
  · intro s e s' _ hinv _ hs
    obtain rfl := Option.some.inj hs
    exact senderInv_step hinv e

/-! ## Frames on the wire -/

/-- The transmit buffer holds this command, sealed, and zeros behind it. -/
structure CarriesCommand (g : CommandState) (tx : XferBuffer) : Prop where
  magic : (cmdHeader tx).magic = motorCmdMagic
  cmd : (cmdHeader tx).cmd = motorCmdSetConfig
  schema : (cmdHeader tx).schemaVersion = motorConfigSchemaVersion
  seq : (cmdHeader tx).cmdSeq = g.seq
  payload : cmdPayload tx = g.payload
  reserved : (cmdPayload tx).reserved = Vector.replicate 12 0
  crc : CrcMatches tx.val cmdCoveredBytes
  padding : tx.val.drop motorCmdFrameBytes =
    List.replicate (motorMaxFrameBytes - motorCmdFrameBytes) 0

theorem carriesCommand_fillTx {g : CommandState} (h : g.Framed) (hp : g.state = .pending) :
    CarriesCommand g (cmdFillTx g) := by
  rw [cmdFillTx_pending h hp]
  have hheader := cmdHeader_wireCommand (setConfigHeader g.seq) g.payload
  have hpayload := cmdPayload_wireCommand (setConfigHeader g.seq) g.payload
  refine
    { magic := by rw [hheader]; rfl
      cmd := by rw [hheader]; rfl
      schema := by rw [hheader]; rfl
      seq := by rw [hheader]; rfl
      payload := hpayload
      reserved := ?_
      crc := (wireCommand_wellFormed _ _ rfl).crc
      padding := ?_ }
  · rw [hpayload, ← (h.payload hp).zeroReserved]
    rfl
  · rw [wireCommand_val, ← sealed_command_length (setConfigHeader g.seq) g.payload,
      List.drop_left]

theorem started_reachable : senderMachine.Reachable (.started defaultController) :=
  .initial ⟨none, faultlessStartup, defaultController, defaultController_startup, rfl⟩

theorem SenderInv.numbers_apart {s : Sender} (h : SenderInv s) {i j : Nat} {q q' : QueuedCommand}
    (hq : s.queued[i]? = some q) (hq' : s.queued[j]? = some q') (hlt : i < j)
    (hnear : j < i + 65536) : q.seq ≠ q'.seq := by
  intro heq
  rw [h.numbered i q hq, h.numbered j q' hq', ← UInt16.toNat_inj] at heq
  simp only [UInt16.toNat_ofNat'] at heq
  omega

/-- An idle transmitter sends zeros and a pending one its command; all
transmissions of one command are the frame it was queued with, and commands
queued fewer than 65536 apart are numbered differently. -/
theorem transmissions_carry_commands {s : Sender} (hr : senderMachine.Reachable s) :
    ((s.ctrl.cmd.state = .idle ∧ cmdFillTx s.ctrl.cmd = Buffer.zero _) ∨
      (s.ctrl.cmd.state = .pending ∧ CarriesCommand s.ctrl.cmd (cmdFillTx s.ctrl.cmd))) ∧
    (∀ t, t = s.transmission ∨ t ∈ s.sent → SentAs s.queued t) ∧
    (∀ t ∈ s.sent, ∀ t' ∈ s.sent, t.command = t'.command → t.tx = t'.tx) ∧
    ∀ t ∈ s.sent, ∀ t' ∈ s.sent, ∀ i j, t.command = some i → t'.command = some j → i < j →
      j < i + 65536 → (cmdHeader t.tx).cmdSeq ≠ (cmdHeader t'.tx).cmdSeq := by
  have hinv := senderInv_reachable hr
  refine ⟨?_, ?_, ?_, ?_⟩
  · by_cases hp : s.ctrl.cmd.state = .pending
    · exact .inr ⟨hp, carriesCommand_fillTx hinv.ctrl.framed hp⟩
    · have hidle := (CmdPhase.ne_pending_iff _).mp hp
      exact .inl ⟨hidle, cmdFillTx_idle hidle⟩
  · rintro t (rfl | ht)
    · exact hinv.transmission
    · exact hinv.sent t ht
  · intro t ht t' ht' heq
    have hsent := hinv.sent t ht
    have hsent' := hinv.sent t' ht'
    unfold SentAs at hsent hsent'
    rw [← heq] at hsent'
    cases hcommand : t.command with
    | none =>
        rw [hcommand] at hsent hsent'
        exact hsent.trans hsent'.symm
    | some i =>
        rw [hcommand] at hsent hsent'
        obtain ⟨q, hq, htx⟩ := hsent
        obtain ⟨q', hq', htx'⟩ := hsent'
        rw [hq] at hq'
        obtain rfl := Option.some.inj hq'
        rw [htx, htx']
  · intro t ht t' ht' i j hi hj hlt hnear
    have hsent := hinv.sent t ht
    have hsent' := hinv.sent t' ht'
    rw [SentAs, hi] at hsent
    rw [SentAs, hj] at hsent'
    obtain ⟨q, hq, htx⟩ := hsent
    obtain ⟨q', hq', htx'⟩ := hsent'
    rw [htx, htx', cmdHeader_wireCommand, cmdHeader_wireCommand]
    exact hinv.numbers_apart hq hq' hlt hnear

/-- The first command after a failed exchange. -/
theorem transmissions_carry_first_command :
    CarriesCommand defaultController.cmd (cmdFillTx defaultController.cmd) ∧
      (senderStep (.started defaultController) (.exchangeFailed false)).sent.length = 1 := by
  have hreach : senderMachine.Reachable
      (senderStep (.started defaultController) (.exchangeFailed false)) :=
    started_reachable.step (e := .exchangeFailed false) trivial rfl
  rcases (transmissions_carry_commands hreach).1 with ⟨hidle, -⟩ | ⟨-, hcarries⟩
  · cases hidle
  · exact ⟨hcarries, rfl⟩

/-! ## The retry budget -/

/-- The exchange ends a pending command with a frame that is not about it. -/
def GivesUp (c : Controller) (rx : XferBuffer) : Prop :=
  c.cmd.state = .pending ∧ (receiveFrame rx c).cmd.state = .idle ∧
    (frameHeader rx).reserved ≠ c.cmd.seq

theorem GivesUp.budget_gone {c : Controller} {rx : XferBuffer} (h : GivesUp c rx) :
    (cmdCountAttempt c.cmd).retriesLeft = 0 := by
  obtain ⟨hp, hidle, hother⟩ := h
  have hsame := cmdCountAttempt_same c.cmd
  obtain ⟨-, hacc, hrej⟩ := receiveFrame_fields rx c
  by_cases hv : validateFrame c.activeStm rx = .accepted
  · rw [(hacc hv).1] at hidle
    rcases cmdObserve_cases (frameHeader rx) (cmdCountAttempt c.cmd) c.activeStm c.st with
      ⟨-, hack, -⟩ | ⟨hend, -⟩ | ⟨-, -, hobs, -⟩
    · exact absurd (hack.1.trans hsame.seq) hother
    · rcases hend.2 with ⟨-, hgone⟩ | ⟨hnumber, -⟩
      · exact hgone
      · exact absurd (hnumber.trans hsame.seq) hother
    · rw [hobs, hsame.state, hp] at hidle
      cases hidle
  · rw [(hrej hv).1, hsame.state, hp] at hidle
    cases hidle

theorem budget_not_consumed {s : Sender} (hinv : SenderInv s) {e : LoopEvent}
    (he : ∀ rx, e ≠ .exchange rx) :
    s.ctrl.cmd.retriesLeft ≤ (loopStep s.ctrl e).cmd.retriesLeft := by
  have hbound : s.ctrl.cmd.retriesLeft ≤ cmdMaxRetries := UInt16.le_iff_toNat_le.mpr hinv.bounded
  cases e with
  | reload doc env =>
      change _ ≤ (handleReload doc env s.ctrl).ctrl.cmd.retriesLeft
      rcases reload_cases doc env s.ctrl with ⟨-, p, g, -, -, hcmd⟩ | ⟨-, -, hcmd⟩ | ⟨-, -, hcmd⟩
      · rw [hcmd]
        exact hbound
      · rw [hcmd, cmdRefreshAfterReinit]
        split
        · exact hbound
        · exact UInt16.le_refl _
      · rw [hcmd]
        exact UInt16.le_refl _
  | noData interrupted => cases interrupted <;> exact UInt16.le_refl _
  | exchangeFailed interrupted => cases interrupted <;> exact UInt16.le_refl _
  | exchange rx => exact absurd rfl (he rx)

theorem exhausted_command_ends {c : Controller} {rx : XferBuffer} (hp : c.cmd.state = .pending)
    (hgone : (cmdCountAttempt c.cmd).retriesLeft = 0)
    (hv : validateFrame c.activeStm rx = .accepted)
    (hother : (frameHeader rx).reserved ≠ c.cmd.seq) : (receiveFrame rx c).cmd.state = .idle := by
  have hsame := cmdCountAttempt_same c.cmd
  have hend : EndsUnacked (frameHeader rx) (cmdCountAttempt c.cmd) :=
    ⟨hsame.state.trans hp, .inl ⟨fun heq => hother (heq.trans hsame.seq), hgone⟩⟩
  rw [((receiveFrame_fields rx c).2.1 hv).1]
  rcases cmdObserve_cases (frameHeader rx) (cmdCountAttempt c.cmd) c.activeStm c.st with
    ⟨-, -, hobs, -⟩ | ⟨-, hobs, -⟩ | ⟨-, hnot, -⟩
  · rw [hobs]
  · rw [hobs]
  · exact absurd hend hnot

/-- A command is given up only after a whole budget of completed exchanges that
carried its frame, only such exchanges use the budget, which never wraps, and a
used up budget ends the command with the next frame that is not about it. -/
theorem retry_budget {s : Sender} (hr : senderMachine.Reachable s) :
    (∀ rx, GivesUp s.ctrl rx →
      cmdMaxRetries.toNat ≤ (senderStep s (.exchange rx)).carried.length ∧
        ∀ tx ∈ (senderStep s (.exchange rx)).carried, tx = Buffer.fill _ s.ctrl.cmd.frame.val) ∧
    (∀ e, (∀ rx, e ≠ .exchange rx) →
      s.ctrl.cmd.retriesLeft ≤ (loopStep s.ctrl e).cmd.retriesLeft) ∧
    (∀ rx, s.ctrl.cmd.state = .pending →
      (receiveFrame rx s.ctrl).cmd.retriesLeft.toNat = s.ctrl.cmd.retriesLeft.toNat - 1) ∧
    s.ctrl.cmd.retriesLeft ≤ cmdMaxRetries ∧
    ∀ rx, s.ctrl.cmd.state = .pending → (cmdCountAttempt s.ctrl.cmd).retriesLeft = 0 →
      validateFrame s.ctrl.activeStm rx = .accepted →
      (frameHeader rx).reserved ≠ s.ctrl.cmd.seq →
      (receiveFrame rx s.ctrl).cmd.state = .idle := by
  have hinv := senderInv_reachable hr
  refine ⟨fun rx hgive => ?_, fun e he => budget_not_consumed hinv he, fun rx hp => ?_,
    UInt16.le_iff_toNat_le.mpr hinv.bounded, fun rx hp hgone hv hother =>
      exhausted_command_ends hp hgone hv hother⟩
  · have hp := hgive.1
    have hfill : cmdFillTx s.ctrl.cmd = Buffer.fill _ s.ctrl.cmd.frame.val := if_pos hp
    have hleft := cmdCountAttempt_sub hp
    rw [hgive.budget_gone, hinv.counted hp] at hleft
    have hzero : (0 : UInt16).toNat = 0 := rfl
    have hpos : 0 < cmdMaxRetries.toNat := by decide
    refine ⟨?_, fun tx htx => ?_⟩
    · change _ ≤ (s.carried ++ [cmdFillTx s.ctrl.cmd]).length
      rw [List.length_append, List.length_singleton]
      omega
    · rw [← hfill]
      rcases List.mem_append.mp htx with htx | htx
      · exact hinv.carried hp tx htx
      · exact List.mem_singleton.mp htx
  · have hretries : (receiveFrame rx s.ctrl).cmd.retriesLeft =
        (cmdCountAttempt s.ctrl.cmd).retriesLeft := by
      rcases receiveFrame_cmd rx s.ctrl with hcmd | hcmd <;> rw [hcmd]
    rw [hretries, cmdCountAttempt_sub hp]

/-- One exchange on a silent line takes one attempt from the first command. -/
theorem retry_budget_first :
    (receiveFrame (Buffer.zero _) defaultController).cmd.retriesLeft.toNat = 31 :=
  (retry_budget started_reachable).2.2.1 (Buffer.zero _) rfl

end QnxHypervisor.MotorController
