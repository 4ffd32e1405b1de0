import QnxHypervisor.MotorController.Loop

/-! # The pending command and the adopted configuration

What one exchange does to a pending command, and what one reload does to the
configuration the controller asks for, over every reachable controller state.
-/

namespace QnxHypervisor.MotorController

open Foundation MotorWire MotorShm

/-! ## Reachable controllers -/

/-- The pending command carries the configuration last asked for, in a frame
built for exactly that payload. -/
structure ControllerInv (c : Controller) : Prop where
  framed : c.cmd.Framed
  asked : c.cmd.state = .pending → c.cmd.payload = c.cfg.stm
  stmOk : StmPayloadOk c.cfg.stm

theorem ControllerInv.of_same {c c' : Controller} (h : ControllerInv c)
    (hcmd : SameCommand c.cmd c'.cmd) (hstm : c'.cfg.stm = c.cfg.stm) : ControllerInv c' where
  framed := hcmd.framed h.framed
  asked := fun hp => by
    rw [hcmd.payload, hstm]
    exact h.asked (hcmd.state ▸ hp)
  stmOk := hstm ▸ h.stmOk

theorem ControllerInv.of_idle {c c' : Controller} (h : ControllerInv c)
    (hidle : c'.cmd.state = .idle) (hstm : c'.cfg.stm = c.cfg.stm) : ControllerInv c' where
  framed := ⟨fun hp => by simp [hidle] at hp, fun hp => by simp [hidle] at hp⟩
  asked := fun hp => by simp [hidle] at hp
  stmOk := hstm ▸ h.stmOk

theorem controllerInv_startup {doc : Option Json} {env : StartupEnv} {c : Controller}
    (h : (startup doc env).ctrl = some c) : ControllerInv c := by
  obtain ⟨hcfg, -, hcmd⟩ := startup_ctrl h
  have hok : StmPayloadOk c.cfg.stm := by
    rw [hcfg]
    cases hload : configLoadFile doc with
    | none => exact configDefaults_stm_ok
    | some next => exact configLoadFile_stm_ok hload
  exact ⟨hcmd ▸ framed_queue hok cmdInit, fun _ => by rw [hcmd]; rfl, hok⟩

theorem controllerInv_reload {c : Controller} (h : ControllerInv c) (doc : Option Json)
    (env : ReloadEnv) : ControllerInv (handleReload doc env c).ctrl := by
  rcases handleReload_cases doc env c with ⟨-, -, hc⟩ | ⟨next, hload, -, hcfg, -, hcmd⟩
  · rwa [hc]
  · rcases hcmd with ⟨-, g, -, hq⟩ | ⟨hsame, hq⟩
    · have hok := configLoadFile_stm_ok hload
      exact ⟨hq ▸ framed_queue hok g, fun _ => by rw [hq, hcfg]; rfl, hcfg ▸ hok⟩
    · exact h.of_same hq (by rw [hcfg, hsame])

theorem controllerInv_receive {c : Controller} (h : ControllerInv c) (rx : XferBuffer) :
    ControllerInv (receiveFrame rx c) := by
  obtain ⟨hcfg, hacc, hrej⟩ := receiveFrame_fields rx c
  have hsame := cmdCountAttempt_same c.cmd
  by_cases hv : validateFrame c.activeStm rx = .accepted
  · have hcmd := (hacc hv).1
    rcases cmdObserve_cases (frameHeader rx) (cmdCountAttempt c.cmd) c.activeStm c.st with
      ⟨-, -, hobs, -⟩ | ⟨-, hobs, -⟩ | ⟨-, -, hobs, -⟩ <;> rw [hobs] at hcmd
    · exact h.of_idle (by rw [hcmd]) (by rw [hcfg])
    · exact h.of_idle (by rw [hcmd]) (by rw [hcfg])
    · exact h.of_same (hcmd ▸ hsame) (by rw [hcfg])
  · exact h.of_same ((hrej hv).1 ▸ hsame) (by rw [hcfg])

theorem controllerInv_step {c : Controller} (h : ControllerInv c) (e : LoopEvent) :
    ControllerInv (loopStep c e) := by
  cases e with
  | reload doc env => exact controllerInv_reload h doc env
  | noData interrupted => cases interrupted <;> exact h.of_same (SameCommand.refl _) rfl
  | exchangeFailed interrupted => cases interrupted <;> exact h.of_same (SameCommand.refl _) rfl
  | exchange rx => exact controllerInv_receive h rx

theorem controllerInv_reachable {c : Controller} (h : controllerMachine.Reachable c) :
    ControllerInv c := by
  refine h.invariant ?_ ?_
  · rintro c ⟨doc, env, hc⟩
    exact controllerInv_startup hc
  · intro c e c' _ hc _ hs
    obtain rfl := Option.some.inj hs
    exact controllerInv_step hc e

theorem reachable_loop {c : Controller} (h : controllerMachine.Reachable c) (e : LoopEvent) :
    controllerMachine.Reachable (loopStep c e) :=
  h.step trivial rfl

theorem reachable_exchange {c : Controller} (h : controllerMachine.Reachable c)
    (rx : XferBuffer) : controllerMachine.Reachable (receiveFrame rx c) :=
  reachable_loop h (.exchange rx)

theorem reachable_reload {c : Controller} (h : controllerMachine.Reachable c)
    (doc : Option Json) (env : ReloadEnv) :
    controllerMachine.Reachable (handleReload doc env c).ctrl :=
  reachable_loop h (.reload doc env)

theorem handleReload_queues {c : Controller} {doc : Option Json} {next : FullConfig}
    (hload : configLoadFile doc = some next) (hne : next.stm ≠ c.cfg.stm) (env : ReloadEnv) :
    (handleReload doc env c).ctrl.cmd.state = .pending ∧
      (handleReload doc env c).ctrl.cmd.seq = c.cmd.seq + 1 ∧
      (handleReload doc env c).ctrl.cmd.payload = next.stm ∧
      (handleReload doc env c).ctrl.cmd.retriesLeft = cmdMaxRetries ∧
      (handleReload doc env c).ctrl.cfg = next ∧
      (handleReload doc env c).ctrl.activeStm = c.activeStm := by
  rcases handleReload_cases doc env c with ⟨hnone, -, -⟩ | ⟨next', hnext, -, hcfg, hact, hcmd⟩
  · rw [hload] at hnone
    cases hnone
  rw [hload] at hnext
  obtain rfl := Option.some.inj hnext
  rcases hcmd with ⟨-, g, hg, hq⟩ | ⟨hsame, -⟩
  · rw [hq]
    exact ⟨rfl, by rw [cmdQueue_seq, hg.seq], rfl, rfl, hcfg, hact⟩
  · exact absurd hsame hne

/-- A reload of the payload already asked for queues nothing. -/
theorem handleReload_keeps {c : Controller} {doc : Option Json} {next : FullConfig}
    (hload : configLoadFile doc = some next) (heq : next.stm = c.cfg.stm) (env : ReloadEnv) :
    (handleReload doc env c).rc = 0 ∧ SameCommand c.cmd (handleReload doc env c).ctrl.cmd ∧
      (handleReload doc env c).ctrl.cfg = next ∧
      (handleReload doc env c).ctrl.activeStm = c.activeStm := by
  rcases handleReload_cases doc env c with ⟨hnone, -, -⟩ | ⟨next', hnext, hrc, hcfg, hact, hcmd⟩
  · rw [hload] at hnone
    cases hnone
  rw [hload] at hnext
  obtain rfl := Option.some.inj hnext
  rcases hcmd with ⟨hne, -⟩ | ⟨-, hsame⟩
  · exact absurd heq hne
  · exact ⟨hrc, hsame, hcfg, hact⟩

/-! ## A started controller

The concrete runs below start from built-in defaults with every driver call
succeeding on a fresh shared-memory object.
-/

def faultlessStartup : StartupEnv :=
  { shmOk := true, applyOk := true, openOk := true, gpioSetupOk := true, gpioEventOk := true
    leftover := zeroRegion }

def faultlessReload : ReloadEnv :=
  { applyOk := true, openOk := fun _ => true, gpioSetupOk := true, gpioEventOk := true }

/-- The controller `main` enters its loop with when there is no usable file. -/
def defaultController : Controller := (startup none faultlessStartup).ctrl.get rfl

theorem defaultController_startup :
    (startup none faultlessStartup).ctrl = some defaultController :=
  (Option.some_get _).symm

theorem defaultController_reachable : controllerMachine.Reachable defaultController :=
  .initial ⟨none, faultlessStartup, defaultController_startup⟩

theorem defaultController_cfg : defaultController.cfg = configDefaults := rfl
theorem defaultController_activeStm : defaultController.activeStm = zeroPayload := rfl
theorem defaultController_cmd :
    defaultController.cmd = cmdQueueSetConfig configDefaults.stm cmdInit := rfl

/-- A document that sets the row count and nothing else. -/
def blockRowsDoc (n : Nat) : Json :=
  .object [("stm", .object [("block_rows", .number n)])]

/-- The defaults with another row count. -/
def blockRowsConfig (n : Nat) : FullConfig :=
  { configDefaults with stm := { configDefaults.stm with blockRows := UInt16.ofNat n } }

theorem load_blockRowsDoc {n : Nat} (hpos : 1 ≤ n) (hle : n ≤ motorMaxRowsPerBlock) :
    configLoadFile (some (blockRowsDoc n)) = some (blockRowsConfig n) := by
  have hneg : ¬ ((n : ℚ) < 0) := Rat.not_lt.mpr Rat.natCast_nonneg
  have htrunc : truncate (n : ℚ) = n := by simp [truncate]
  have hrange : ¬ (n = 0 ∨ motorMaxRowsPerBlock < n) := by omega
  simp [configLoadFile, blockRowsDoc, loadSection, Json.item, Json.isObject, loadStm, jUint,
    jSource, jRunState, hneg, htrunc, hrange, blockRowsConfig, ConfigPayload.zeroReserved,
    configDefaults]

/-! ## Progress of the handshake -/

theorem acksOk_wireFrame (h : FrameHeader) (rows : Nat → MotorRow) (seq : UInt16) :
    AcksOk (frameHeader (wireFrame h rows)) seq ↔
      h.reserved = seq ∧ hasFlag h.flags motorFlagAckOk = true := by
  rw [frameHeader_wireFrame]
  rfl

theorem receiveFrame_ack {c : Controller} (rx : XferBuffer) (hp : c.cmd.state = .pending)
    (hwf : FrameWellFormed rx) (hlock : sizeLocked c.activeStm (frameHeader rx) = false)
    (hack : AcksOk (frameHeader rx) c.cmd.seq) :
    (receiveFrame rx c).activeStm = c.cmd.payload ∧ (receiveFrame rx c).cmd.state = .idle ∧
      (receiveFrame rx c).cmd.seq = c.cmd.seq := by
  have hsame := cmdCountAttempt_same c.cmd
  have hv := (validateFrame_accepted_iff c.activeStm rx).mpr ⟨hwf, hlock⟩
  obtain ⟨hcmd, hact⟩ := (receiveFrame_fields rx c).2.1 hv
  obtain ⟨hidle, hpay⟩ := cmdObserve_ack (hsame.state.trans hp) (hsame.seq ▸ hack) c.activeStm c.st
  rw [hcmd, hact, hidle, hpay]
  exact ⟨hsame.payload, rfl, hsame.seq⟩

/-- A frame the validation lets through ends the command without an ACK when it
refuses it, or is not about it once the budget is gone. -/
theorem receiveFrame_unacked {c : Controller} (rx : XferBuffer) (hwf : FrameWellFormed rx)
    (hlock : sizeLocked c.activeStm (frameHeader rx) = false)
    (hend : EndsUnacked (frameHeader rx) (cmdCountAttempt c.cmd)) :
    (receiveFrame rx c).activeStm = c.activeStm ∧ (receiveFrame rx c).cmd.state = .idle ∧
      (receiveFrame rx c).cmd.seq = c.cmd.seq := by
  have hv := (validateFrame_accepted_iff c.activeStm rx).mpr ⟨hwf, hlock⟩
  obtain ⟨hcmd, hact⟩ := (receiveFrame_fields rx c).2.1 hv
  rcases cmdObserve_cases (frameHeader rx) (cmdCountAttempt c.cmd) c.activeStm c.st with
    ⟨-, hack, -, -⟩ | ⟨-, hidle, hkeep⟩ | ⟨-, hno, -, -⟩
  · rcases hend.2 with ⟨hne, -⟩ | ⟨-, hok, -⟩
    · exact absurd hack.1 hne
    · rw [hack.2] at hok
      cases hok
  · rw [hcmd, hact, hidle, hkeep]
    exact ⟨rfl, rfl, (cmdCountAttempt_same c.cmd).seq⟩
  · exact absurd hend hno

/-- A frame the validation drops leaves command and `active_stm` as they were,
but for the counted attempt. -/
theorem receiveFrame_dropped {c : Controller} (rx : XferBuffer)
    (h : ¬ (FrameWellFormed rx ∧ sizeLocked c.activeStm (frameHeader rx) = false)) :
    (receiveFrame rx c).cmd = cmdCountAttempt c.cmd ∧
      (receiveFrame rx c).activeStm = c.activeStm :=
  (receiveFrame_fields rx c).2.2 fun hv => h ((validateFrame_accepted_iff _ _).mp hv)

theorem sizeLocked_eq_false_iff (active : ConfigPayload) (h : FrameHeader) :
    sizeLocked active h = false ↔
      active.blockRows = 0 ∨ h.nRows = active.blockRows ∨
        hasFlag h.flags motorFlagConfigApplied = true := by
  by_cases h1 : active.blockRows = 0 <;> by_cases h2 : h.nRows = active.blockRows <;>
    simp [sizeLocked, h1, h2]

/-- An acknowledging frame completes the pending command exactly when it passes
the size lock: no configuration is locked in yet, the row count is the locked
one, or the frame still carries CONFIG_APPLIED. -/
theorem pending_ack_completes_iff (c : Controller) (rx : XferBuffer)
    (hp : c.cmd.state = .pending) (hwf : FrameWellFormed rx)
    (hack : AcksOk (frameHeader rx) c.cmd.seq) :
    ((receiveFrame rx c).activeStm = c.cmd.payload ∧ (receiveFrame rx c).cmd.state = .idle) ↔
      (c.activeStm.blockRows = 0 ∨ (frameHeader rx).nRows = c.activeStm.blockRows ∨
        hasFlag (frameHeader rx).flags motorFlagConfigApplied = true) := by
  rw [← sizeLocked_eq_false_iff]
  constructor
  · rintro ⟨-, hidle⟩
    by_contra hlock
    have hcmd := (receiveFrame_dropped (c := c) rx fun h => hlock h.2).1
    rw [hcmd, (cmdCountAttempt_same c.cmd).state, hp] at hidle
    cases hidle
  · intro hlock
    obtain ⟨hact, hidle, -⟩ := receiveFrame_ack rx hp hwf hlock hack
    exact ⟨hact, hidle⟩

/-- The first frame of a started controller acknowledges its first command. -/
theorem default_ack_completes :
    let rx := wireFrame (dataHeader 0 0 motorFlagAckOk 200 1) fun _ => zeroRow
    (receiveFrame rx defaultController).activeStm = defaultController.cmd.payload ∧
      (receiveFrame rx defaultController).cmd.state = .idle :=
  (pending_ack_completes_iff defaultController
    (wireFrame (dataHeader 0 0 motorFlagAckOk 200 1) fun _ => zeroRow) rfl
    (dataFrame_wellFormed 0 0 motorFlagAckOk 1 _ (by decide) (by decide))
    ⟨by rw [frameHeader_wireFrame]; rfl, by rw [frameHeader_wireFrame]; decide⟩).mpr (.inl rfl)

/-- After 200-row blocks are acknowledged, a reload to 100 rows whose first
frame was lost: the ACK latched on every later frame never completes it. -/
theorem latched_ack_never_completes :
    ¬ ∀ (c : Controller) (rx : XferBuffer), controllerMachine.Reachable c →
      c.cmd.state = .pending → FrameWellFormed rx → AcksOk (frameHeader rx) c.cmd.seq →
      (receiveFrame rx c).activeStm = c.cmd.payload ∧ (receiveFrame rx c).cmd.state = .idle := by
  intro hall
  -- the first command is acknowledged and locks the row count in
  obtain ⟨locked, hlocked⟩ : ∃ c, c = receiveFrame
      (wireFrame (dataHeader 0 0 motorFlagAckOk 200 1) fun _ => zeroRow) defaultController :=
    ⟨_, rfl⟩
  have hack := receiveFrame_ack (c := defaultController)
    (wireFrame (dataHeader 0 0 motorFlagAckOk 200 1) fun _ => zeroRow) rfl
    (dataFrame_wellFormed 0 0 motorFlagAckOk 1 _ (by decide) (by decide))
    ((sizeLocked_eq_false_iff _ _).mpr (.inl rfl)) ((acksOk_wireFrame _ _ _).mpr ⟨rfl, by decide⟩)
  have hcfg := (receiveFrame_fields
    (wireFrame (dataHeader 0 0 motorFlagAckOk 200 1) fun _ => zeroRow) defaultController).1
  have hreach := reachable_exchange defaultController_reachable
    (wireFrame (dataHeader 0 0 motorFlagAckOk 200 1) fun _ => zeroRow)
  rw [← hlocked] at hack hcfg hreach
  obtain ⟨hact, -, hseq⟩ := hack
  -- the reload asks for another row count
  have hne : (blockRowsConfig 100).stm ≠ locked.cfg.stm := by
    rw [hcfg, defaultController_cfg]
    decide
  obtain ⟨hp, hnum, hpay, -, -, hkeep⟩ := handleReload_queues (c := locked)
    (load_blockRowsDoc (by decide) (by decide)) hne faultlessReload
  have hreach := reachable_reload hreach (some (blockRowsDoc 100)) faultlessReload
  rw [hseq, defaultController_cmd] at hnum
  rw [hact, defaultController_cmd] at hkeep
  -- the next frame has the new row count and the latched ACK only
  have hdone := hall _ (wireFrame (dataHeader 1 0 motorFlagAckOk 100 2) fun _ => zeroRow) hreach hp
    (dataFrame_wellFormed 1 0 motorFlagAckOk 2 _ (by decide) (by decide))
    ((acksOk_wireFrame _ _ _).mpr ⟨by rw [hnum]; rfl, by decide⟩)
  have hdrop := receiveFrame_dropped (c := (handleReload (some (blockRowsDoc 100)) faultlessReload
      locked).ctrl) (wireFrame (dataHeader 1 0 motorFlagAckOk 100 2) fun _ => zeroRow) (by
    rw [hkeep, frameHeader_wireFrame]
    rintro ⟨-, hlock⟩
    revert hlock
    decide)
  rw [hdrop.2, hkeep, hpay] at hdone
  exact hne (hdone.1.symm.trans (by rw [hcfg]; rfl))

/-! ## Reloads keep what they load -/

/-- A SET_CONFIG for `p` is in flight. -/
structure CarriesConfig (g : CommandState) (p : ConfigPayload) : Prop where
  state : g.state = .pending
  payload : g.payload = p
  frame : g.frame = setConfigFrame g.seq p

/-- After an accepted reload the loaded payload is in flight or active exactly
when it is new, or the earlier command for it has not ended without an ACK. -/
theorem reload_keeps_config_iff {c : Controller} (hc : controllerMachine.Reachable c)
    {doc : Option Json} {next : FullConfig} (hload : configLoadFile doc = some next)
    (env : ReloadEnv) :
    (handleReload doc env c).rc = 0 ∧
    ((CarriesConfig (handleReload doc env c).ctrl.cmd next.stm ∨
        (handleReload doc env c).ctrl.activeStm = next.stm) ↔
      (next.stm ≠ c.cfg.stm ∨ c.cmd.state = .pending ∨ c.activeStm = c.cfg.stm)) := by
  have hinv := controllerInv_reachable hc
  rcases handleReload_cases doc env c with ⟨hnone, -, -⟩ | ⟨next', hload', hrc, -, hact, hcmd⟩
  · rw [hload] at hnone
    cases hnone
  rw [hload] at hload'
  obtain rfl := Option.some.inj hload'
  refine ⟨hrc, ?_⟩
  rcases hcmd with ⟨hne, g, -, hq⟩ | ⟨hsame, hq⟩
  · have hcarries : CarriesConfig (handleReload doc env c).ctrl.cmd next.stm := by
      rw [hq]
      exact ⟨rfl, rfl, rfl⟩
    exact ⟨fun _ => .inl hne, fun _ => .inl hcarries⟩
  · constructor
    · rintro (hcarries | hactive)
      · exact .inr (.inl (hq.state ▸ hcarries.state))
      · exact .inr (.inr (by rw [← hact, hactive, hsame]))
    · rintro (hne | hp | hactive)
      · exact absurd hsame hne
      · have hp' : (handleReload doc env c).ctrl.cmd.state = .pending := hq.state.trans hp
        have hpay : (handleReload doc env c).ctrl.cmd.payload = next.stm := by
          rw [hq.payload, hinv.asked hp, hsame]
        exact .inl ⟨hp', hpay, hpay ▸ (hq.framed hinv.framed).frame hp'⟩
      · exact .inr (by rw [hact, hactive, hsame])

/-- A reload of another row count is always picked up by a fresh controller. -/
theorem default_reload_queues :
    (handleReload (some (blockRowsDoc 100)) faultlessReload defaultController).rc = 0 ∧
    ((CarriesConfig
          (handleReload (some (blockRowsDoc 100)) faultlessReload defaultController).ctrl.cmd
          (blockRowsConfig 100).stm ∨
        (handleReload (some (blockRowsDoc 100)) faultlessReload defaultController).ctrl.activeStm =
          (blockRowsConfig 100).stm) ↔
      ((blockRowsConfig 100).stm ≠ defaultController.cfg.stm ∨
        defaultController.cmd.state = .pending ∨
        defaultController.activeStm = defaultController.cfg.stm)) :=
  reload_keeps_config_iff defaultController_reachable
    (load_blockRowsDoc (by decide) (by decide)) faultlessReload

/-- A refused configuration is not asked for again when its file is reloaded. -/
theorem refused_config_not_requeued :
    ¬ ∀ (c : Controller) (doc : Option Json) (env : ReloadEnv) (next : FullConfig),
      controllerMachine.Reachable c → configLoadFile doc = some next →
      (handleReload doc env c).rc = 0 →
      CarriesConfig (handleReload doc env c).ctrl.cmd next.stm ∨
        (handleReload doc env c).ctrl.activeStm = next.stm := by
  intro hall
  -- the first command is refused
  obtain ⟨refused, hrefused⟩ : ∃ c, c = receiveFrame
      (wireFrame (dataHeader 0 0 (motorFlagAckNack ||| motorFlagNackRange) 200 1) fun _ => zeroRow)
      defaultController := ⟨_, rfl⟩
  have hnack := receiveFrame_unacked (c := defaultController)
    (wireFrame (dataHeader 0 0 (motorFlagAckNack ||| motorFlagNackRange) 200 1)
      fun _ => zeroRow)
    (dataFrame_wellFormed 0 0 _ 1 _ (by decide) (by decide))
    ((sizeLocked_eq_false_iff _ _).mpr (.inl rfl))
    (by rw [frameHeader_wireFrame]; decide)
  have hcfg := (receiveFrame_fields
    (wireFrame (dataHeader 0 0 (motorFlagAckNack ||| motorFlagNackRange) 200 1) fun _ => zeroRow)
    defaultController).1
  have hreach := reachable_exchange defaultController_reachable
    (wireFrame (dataHeader 0 0 (motorFlagAckNack ||| motorFlagNackRange) 200 1) fun _ => zeroRow)
  rw [← hrefused] at hnack hcfg hreach
  obtain ⟨hact, hidle, -⟩ := hnack
  -- its file is loaded once more
  have hload : configLoadFile (some (blockRowsDoc 200)) = some configDefaults :=
    load_blockRowsDoc (n := 200) (by decide) (by decide)
  obtain ⟨hrc, hsame, -, hkeep⟩ := handleReload_keeps (c := refused) hload
    (by rw [hcfg, defaultController_cfg]) faultlessReload
  rcases hall refused (some (blockRowsDoc 200)) faultlessReload configDefaults hreach hload hrc
    with hcarries | hactive
  · have hpending := hcarries.state
    rw [hsame.state, hidle] at hpending
    cases hpending
  · rw [hkeep, hact, defaultController_activeStm] at hactive
    have hrows := congrArg ConfigPayload.blockRows hactive
    revert hrows
    decide

end QnxHypervisor.MotorController
