import QnxHypervisor.Foundation.Machine
import QnxHypervisor.MotorController.Command
import QnxHypervisor.MotorShm.Region

/-! # The controller process

Start-up, `handle_reload` and the loop body of `main`. What drivers and the
operating system answer is part of the event; the calls made to them are
returned beside the new state, in order. The diagnostic copies of the last
row and header, which only the status log prints, are left out, and so is the
pulse channel of `dataready_t`, which no function changes after start-up.
-/

namespace QnxHypervisor.MotorController

open Foundation MotorWire MotorShm

/-! ## Drivers -/

inductive DriverCall where
  | setRealtimePriority (prio : Int)
  | spiApplyConf (pi : PiConfig) (ok : Bool)
  | spiConfigureDevice (bus dev mode : Int) (clockHz : UInt32) (ok : Bool)
  | spiCleanupDevice (bus dev : Int)
  | gpioSetup (pin : Int) (ok : Bool)
  | gpioAddEventDetect (pin : Int) (ok : Bool)
  deriving DecidableEq

/-- `spi_link_t`: the pair really configured, for the close. -/
structure SpiLink where
  bus : Int
  dev : Int
  configured : Bool
  deriving DecidableEq

def openSpi (pi : PiConfig) (ok : Bool) (s : SpiLink) : SpiLink × List DriverCall :=
  let call := .spiConfigureDevice pi.spiBus pi.spiDev pi.spiMode pi.spiClockHz ok
  if ok then (⟨pi.spiBus, pi.spiDev, true⟩, [call]) else ({ s with configured := false }, [call])

def closeSpi (s : SpiLink) : SpiLink × List DriverCall :=
  if s.configured then ({ s with configured := false }, [.spiCleanupDevice s.bus s.dev])
  else (s, [])

/-- The reopen loop: attempt `i` succeeds when `openOk i`; `tries` are left. -/
def reopenSpi (pi : PiConfig) (openOk : Nat → Bool) : Nat → Nat → SpiLink →
    SpiLink × List DriverCall
  | 0, _, s => (s, [])
  | tries + 1, i, s =>
      let r := openSpi pi (openOk i) s
      if openOk i then r
      else
        let rest := reopenSpi pi openOk tries (i + 1) r.1
        (rest.1, r.2 ++ rest.2)

structure DataReady where
  pin : Int
  deriving DecidableEq

/-- `dataready_arm_pin`: the pin is recorded before the two calls that can fail. -/
def datareadyArmPin (pi : PiConfig) (setupOk eventOk : Bool) (_d : DataReady) :
    Bool × DataReady × List DriverCall :=
  let d : DataReady := { pin := pi.datareadyPin }
  if ¬ setupOk then (false, d, [.gpioSetup d.pin false])
  else (eventOk, d, [.gpioSetup d.pin true, .gpioAddEventDetect d.pin eventOk])

/-! ## Process state -/

structure Controller where
  cfg : FullConfig
  activeStm : ConfigPayload
  cmd : CommandState
  spi : SpiLink
  dr : DataReady
  st : ControllerStats
  lastSeq : UInt32
  haveLast : Bool
  region : ShmRegion MotorRow

/-- Answers of the outside world during start-up. -/
structure StartupEnv where
  shmOk : Bool
  applyOk : Bool
  openOk : Bool
  gpioSetupOk : Bool
  gpioEventOk : Bool
  /-- what the shared-memory object held before -/
  leftover : ShmRegion MotorRow

structure StartupResult where
  ctrl : Option Controller
  calls : List DriverCall

/-- `main` up to its loop; no controller when a step it needs fails. -/
def startup (doc : Option Json) (env : StartupEnv) : StartupResult :=
  let cfg := (configLoadFile doc).getD configDefaults
  let prio := [.setRealtimePriority cfg.pi.rtPriority]
  if ¬ env.shmOk then ⟨none, prio⟩
  else
    let calls := prio ++ [.spiApplyConf cfg.pi env.applyOk]
    let spi := openSpi cfg.pi env.openOk ⟨0, 0, false⟩
    if ¬ env.openOk then ⟨none, calls ++ spi.2⟩
    else
      let dr := datareadyArmPin cfg.pi env.gpioSetupOk env.gpioEventOk ⟨cfg.pi.datareadyPin⟩
      if ¬ dr.1 then ⟨none, calls ++ spi.2 ++ dr.2.2 ++ (closeSpi spi.1).2⟩
      else
        ⟨some
          { cfg, activeStm := zeroPayload, cmd := cmdQueueSetConfig cfg.stm cmdInit
            spi := spi.1, dr := dr.2.1, st := {}, lastSeq := 0, haveLast := false
            region := motorShmRegionInit (UInt32.ofNat motorRowBytes) env.leftover },
          calls ++ spi.2 ++ dr.2.2⟩

/-! ## Reload -/

/-- Answers of the drivers during one reload. -/
structure ReloadEnv where
  applyOk : Bool
  openOk : Nat → Bool
  gpioSetupOk : Bool
  gpioEventOk : Bool

structure ReloadResult where
  rc : Int
  ctrl : Controller
  calls : List DriverCall

def piApplyLive (pi prev : PiConfig) : List DriverCall :=
  if pi.rtPriority ≠ prev.rtPriority then [.setRealtimePriority pi.rtPriority] else []

/-- Close, rewrite `spi.conf`, reopen; only when a wire field changed. -/
def reloadSpiTier (env : ReloadEnv) (next : PiConfig) (c : Controller) :
    Controller × List DriverCall :=
  if configSpiWireDiffers next c.cfg.pi then
    let closed := closeSpi c.spi
    let opened := reopenSpi next env.openOk 5 0 closed.1
    ({ c with spi := opened.1, haveLast := false, cmd := cmdRefreshAfterReinit c.cmd },
      closed.2 ++ [.spiApplyConf next env.applyOk] ++ opened.2)
  else (c, [])

/-- Move the edge subscription; only when the pin changed. -/
def reloadPinTier (env : ReloadEnv) (next : PiConfig) (c : Controller) :
    Controller × List DriverCall :=
  if next.datareadyPin ≠ c.cfg.pi.datareadyPin then
    let armed := datareadyArmPin next env.gpioSetupOk env.gpioEventOk c.dr
    ({ c with dr := armed.2.1 }, armed.2.2)
  else (c, [])

/-- Push a SET_CONFIG; only when the payload differs from the one last asked for. -/
def reloadStmTier (next : ConfigPayload) (c : Controller) : Controller :=
  if configStmDiffers next c.cfg.stm then
    { c with cfg := { c.cfg with stm := next }, cmd := cmdQueueSetConfig next c.cmd }
  else c

def handleReload (doc : Option Json) (env : ReloadEnv) (c : Controller) : ReloadResult :=
  match configLoadFile doc with
  | none => ⟨-1, c, []⟩
  | some next =>
      let live := piApplyLive next.pi c.cfg.pi
      let spi := reloadSpiTier env next.pi c
      let pin := reloadPinTier env next.pi spi.1
      let adopted := { pin.1 with cfg := { pin.1.cfg with pi := next.pi } }
      let pushed := reloadStmTier next.stm adopted
      ⟨0, { pushed with st := { pushed.st with cfgReloads := pushed.st.cfgReloads + 1 } },
        live ++ spi.2 ++ pin.2⟩

/-! ## Received frames -/

inductive FrameVerdict where
  | badMagic
  | badVersion
  | badSize
  | badCrc
  | accepted
  deriving DecidableEq

/-- The row count breaks the lock on the acknowledged `block_rows`; only the
first frame under a new configuration may. -/
def sizeLocked (active : ConfigPayload) (h : FrameHeader) : Bool :=
  decide (active.blockRows ≠ 0) && decide (h.nRows ≠ active.blockRows) &&
    !hasFlag h.flags motorFlagConfigApplied

/-- The validation cascade, in the order of the source. -/
def validateFrame (active : ConfigPayload) (rx : XferBuffer) : FrameVerdict :=
  let h := frameHeader rx
  if h.magic ≠ motorFrameMagic then .badMagic
  else if h.version ≠ motorContractVersion then .badVersion
  else if h.nRows = 0 ∨ motorMaxRowsPerBlock < h.nRows.toNat then .badSize
  else if sizeLocked active h then .badSize
  else if motorMaxFrameBytes < coveredBytes h + frameCrcBytes then .badSize
  else if ¬ CrcMatches rx.val (coveredBytes h) then .badCrc
  else .accepted

/-- Sequence accounting: whether to publish, and the updated baseline. -/
def accountSequence (h : FrameHeader) (c : Controller) : Bool × Controller :=
  if ¬ c.haveLast then (true, { c with haveLast := true, lastSeq := h.seq })
  else
    let diff := (h.seq - c.lastSeq).toInt32.toInt
    if diff = 0 then (false, { c with st := { c.st with duplicates := c.st.duplicates + 1 } })
    else if diff = 1 then (true, { c with lastSeq := h.seq })
    else if 1 < diff then
      (true, { c with
        st := { c.st with seqDrops := c.st.seqDrops + .ofNat (diff - 1).toNat }
        lastSeq := h.seq })
    else
      (true, { c with st := { c.st with resets := c.st.resets + 1 }, lastSeq := h.seq })

def publishFrame (rx : XferBuffer) (c : Controller) : Controller :=
  let h := frameHeader rx
  let last := rowAt rx (h.nRows.toNat - 1)
  { c with
    region := { c.region with
      snapshot := motorSnapshotPublish c.region.snapshot last h.seq h.timestamp h.flags
      ring := motorRingPublish motorMaxRowsPerBlock c.region.ring h (rowAt rx) }
    st := { c.st with framesOk := c.st.framesOk + 1 } }

def acceptFrame (rx : XferBuffer) (c : Controller) : Controller :=
  let h := frameHeader rx
  let o := cmdObserve h c.cmd c.activeStm c.st
  let counted := accountSequence h { c with cmd := o.cmd, activeStm := o.activeStm, st := o.st }
  if counted.1 then publishFrame rx counted.2 else counted.2

/-- The loop body after a successful exchange that received `rx`. -/
def receiveFrame (rx : XferBuffer) (c : Controller) : Controller :=
  let c := { c with cmd := cmdCountAttempt c.cmd }
  match validateFrame c.activeStm rx with
  | .badMagic => { c with st := { c.st with magicErr := c.st.magicErr + 1 } }
  | .badVersion => { c with st := { c.st with versionErr := c.st.versionErr + 1 } }
  | .badSize => { c with st := { c.st with sizeErr := c.st.sizeErr + 1 } }
  | .badCrc => { c with st := { c.st with crcErr := c.st.crcErr + 1 } }
  | .accepted => acceptFrame rx c

/-! ## The loop as a machine -/

/-- What happens at one place of the loop: a reload at its top, a wait without
data, or an exchange. -/
inductive LoopEvent where
  | reload (doc : Option Json) (env : ReloadEnv)
  | noData (interrupted : Bool)
  | exchangeFailed (interrupted : Bool)
  | exchange (rx : XferBuffer)

def loopStep (c : Controller) : LoopEvent → Controller
  | .reload doc env => (handleReload doc env c).ctrl
  | .noData interrupted =>
      if interrupted then c else { c with st := { c.st with timeouts := c.st.timeouts + 1 } }
  | .exchangeFailed interrupted =>
      if interrupted then c else { c with st := { c.st with spiErr := c.st.spiErr + 1 } }
  | .exchange rx => receiveFrame rx c

/-- The controller after these events. -/
def loopRun (c : Controller) (es : List LoopEvent) : Controller := es.foldl loopStep c

def LoopEvent.adopted : LoopEvent → Option FullConfig
  | .reload doc _ => configLoadFile doc
  | _ => none

def loopCalls (c : Controller) : LoopEvent → List DriverCall
  | .reload doc env => (handleReload doc env c).calls
  | _ => []

def controllerMachine : Machine Controller LoopEvent where
  initial c := ∃ doc env, (startup doc env).ctrl = some c
  step c e := some (loopStep c e)

/-! ## What the pieces leave alone -/

theorem validateFrame_accepted_iff (active : ConfigPayload) (rx : XferBuffer) :
    validateFrame active rx = .accepted ↔
      FrameWellFormed rx ∧ sizeLocked active (frameHeader rx) = false := by
  have hfit : (frameHeader rx).nRows.toNat ≤ motorMaxRowsPerBlock →
      coveredBytes (frameHeader rx) + frameCrcBytes ≤ motorMaxFrameBytes := by
    intro hle
    simp only [coveredBytes, motorMaxFrameBytes, frameHeaderBytes, motorRowBytes, frameCrcBytes,
      motorMaxRowsPerBlock] at hle ⊢
    omega
  have hzero : (frameHeader rx).nRows = 0 ↔ (frameHeader rx).nRows.toNat = 0 := by
    rw [← UInt16.toNat_inj]
    rfl
  constructor
  · intro h
    simp only [validateFrame] at h
    split at h <;> try cases h
    rename_i hmagic
    split at h <;> try cases h
    rename_i hversion
    split at h <;> try cases h
    rename_i hrows
    split at h <;> try cases h
    rename_i hlock
    split at h <;> try cases h
    split at h <;> try cases h
    rename_i hcrc
    obtain ⟨hrow0, hrow1⟩ := not_or.mp hrows
    rw [hzero] at hrow0
    refine ⟨⟨?_, ?_, ?_, ?_, ?_⟩, by simpa using hlock⟩
    · simpa using hmagic
    · simpa using hversion
    · exact Nat.pos_of_ne_zero hrow0
    · exact Nat.not_lt.mp hrow1
    · simpa using hcrc
  · rintro ⟨⟨hm, hv, hpos, hle, hcrc⟩, hlock⟩
    have hn0 : (frameHeader rx).nRows ≠ 0 := by
      intro h0
      have := hzero.mp h0
      omega
    have hfit := hfit hle
    simp [validateFrame, hm, hv, hn0, hlock, hcrc, Nat.not_lt.mpr hle, Nat.not_lt.mpr hfit]

theorem accountSequence_fields (h : FrameHeader) (c : Controller) :
    (accountSequence h c).2.cfg = c.cfg ∧ (accountSequence h c).2.cmd = c.cmd ∧
      (accountSequence h c).2.activeStm = c.activeStm := by
  unfold accountSequence
  split
  · exact ⟨rfl, rfl, rfl⟩
  · dsimp only
    split_ifs <;> exact ⟨rfl, rfl, rfl⟩

theorem acceptFrame_fields (rx : XferBuffer) (c : Controller) :
    (acceptFrame rx c).cfg = c.cfg ∧
      (acceptFrame rx c).cmd = (cmdObserve (frameHeader rx) c.cmd c.activeStm c.st).cmd ∧
      (acceptFrame rx c).activeStm =
        (cmdObserve (frameHeader rx) c.cmd c.activeStm c.st).activeStm := by
  unfold acceptFrame
  dsimp only
  split <;> exact accountSequence_fields _ _

/-- The effect of an exchange on command and configuration: only an accepted
frame is shown to `cmd_observe`. -/
theorem receiveFrame_fields (rx : XferBuffer) (c : Controller) :
    (receiveFrame rx c).cfg = c.cfg ∧
    (validateFrame c.activeStm rx = .accepted →
      (receiveFrame rx c).cmd =
        (cmdObserve (frameHeader rx) (cmdCountAttempt c.cmd) c.activeStm c.st).cmd ∧
      (receiveFrame rx c).activeStm =
        (cmdObserve (frameHeader rx) (cmdCountAttempt c.cmd) c.activeStm c.st).activeStm) ∧
    (validateFrame c.activeStm rx ≠ .accepted →
      (receiveFrame rx c).cmd = cmdCountAttempt c.cmd ∧
      (receiveFrame rx c).activeStm = c.activeStm) := by
  unfold receiveFrame
  dsimp only
  cases hv : validateFrame c.activeStm rx <;> simp only [reduceCtorEq, false_implies,
    not_true_eq_false, ne_eq, not_false_eq_true, forall_const, and_self, and_true]
  exact acceptFrame_fields rx { c with cmd := cmdCountAttempt c.cmd }

theorem reloadSpiTier_fields (env : ReloadEnv) (next : PiConfig) (c : Controller) :
    (reloadSpiTier env next c).1.cfg = c.cfg ∧
      (reloadSpiTier env next c).1.activeStm = c.activeStm ∧
      SameCommand c.cmd (reloadSpiTier env next c).1.cmd := by
  unfold reloadSpiTier
  split
  · exact ⟨rfl, rfl, cmdRefreshAfterReinit_same c.cmd⟩
  · exact ⟨rfl, rfl, SameCommand.refl c.cmd⟩

theorem reloadPinTier_fields (env : ReloadEnv) (next : PiConfig) (c : Controller) :
    (reloadPinTier env next c).1.cfg = c.cfg ∧
      (reloadPinTier env next c).1.activeStm = c.activeStm ∧
      (reloadPinTier env next c).1.cmd = c.cmd := by
  unfold reloadPinTier
  split <;> exact ⟨rfl, rfl, rfl⟩

theorem handleReload_cases (doc : Option Json) (env : ReloadEnv) (c : Controller) :
    (configLoadFile doc = none ∧ (handleReload doc env c).rc = -1 ∧
      (handleReload doc env c).ctrl = c) ∨
    ∃ next, configLoadFile doc = some next ∧ (handleReload doc env c).rc = 0 ∧
      (handleReload doc env c).ctrl.cfg = next ∧
      (handleReload doc env c).ctrl.activeStm = c.activeStm ∧
      ((next.stm ≠ c.cfg.stm ∧ ∃ g, SameCommand c.cmd g ∧
          (handleReload doc env c).ctrl.cmd = cmdQueueSetConfig next.stm g) ∨
        (next.stm = c.cfg.stm ∧ SameCommand c.cmd (handleReload doc env c).ctrl.cmd)) := by
  unfold handleReload
  cases hload : configLoadFile doc with
  | none => exact .inl ⟨rfl, rfl, rfl⟩
  | some next =>
      refine .inr ⟨next, rfl, rfl, ?_⟩
      have hspi := reloadSpiTier_fields env next.pi c
      have hpin := reloadPinTier_fields env next.pi (reloadSpiTier env next.pi c).1
      obtain ⟨hpcfg, hpact, hpcmd⟩ := hpin
      obtain ⟨hscfg, hsact, hscmd⟩ := hspi
      rw [hscfg] at hpcfg
      rw [hsact] at hpact
      rw [← hpcmd] at hscmd
      simp only [reloadStmTier]
      split
      next hdiff =>
        rw [configStmDiffers_iff, hpcfg] at hdiff
        exact ⟨rfl, hpact, .inl ⟨hdiff, _, hscmd, rfl⟩⟩
      next hsame =>
        have hsame : next.stm = c.cfg.stm := by
          by_contra hne
          exact hsame ((configStmDiffers_iff _ _).mpr (by rwa [hpcfg]))
        refine ⟨?_, hpact, .inr ⟨hsame, hscmd⟩⟩
        simp only [hpcfg, ← hsame]

theorem startup_ctrl {doc : Option Json} {env : StartupEnv} {c : Controller}
    (h : (startup doc env).ctrl = some c) :
    c.cfg = (configLoadFile doc).getD configDefaults ∧ c.activeStm = zeroPayload ∧
      c.cmd = cmdQueueSetConfig c.cfg.stm cmdInit := by
  simp only [startup] at h
  split at h
  · cases h
  · split at h
    · cases h
    · split at h
      · cases h
      · obtain rfl := Option.some.inj h
        exact ⟨rfl, rfl, rfl⟩

end QnxHypervisor.MotorController
