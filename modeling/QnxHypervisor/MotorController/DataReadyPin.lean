import QnxHypervisor.MotorController.BusRecovery

/-! # The data-ready pin over reloads

The pin whose level is read against the pins an edge subscription was armed on.
`dataready_arm_pin` records the new pin before the two calls that can fail, and
the reload adopts the file all the same, so a failed move leaves a pin in use
that no subscription was armed on.
-/

namespace QnxHypervisor.MotorController

open Foundation MotorWire

/-! ## The law -/

def armedPins (calls : List DriverCall) : List Int :=
  calls.filterMap fun
    | .gpioAddEventDetect pin true => some pin
    | _ => none

/-- A controller with the driver calls made since its start. -/
structure Traced where
  ctrl : Controller
  calls : List DriverCall

def Traced.step (s : Traced) (e : LoopEvent) : Traced :=
  ⟨loopStep s.ctrl e, s.calls ++ loopCalls s.ctrl e⟩

/-- The pin in use is an armed one. -/
def Traced.Live (s : Traced) : Prop := s.ctrl.dr.pin ∈ armedPins s.calls

/-- The event adopts a file with another data-ready pin. -/
def MovesPin (c : Controller) (e : LoopEvent) (pin : Int) : Prop :=
  ∃ next ∈ e.adopted, next.pi.datareadyPin = pin ∧ pin ≠ c.cfg.pi.datareadyPin

/-- One of the two calls that arm a pin fails. -/
def LoopEvent.armFails : LoopEvent → Prop
  | .reload _ env => ¬ (env.gpioSetupOk = true ∧ env.gpioEventOk = true)
  | _ => False

/-- The same event with other answers of the drivers. -/
def LoopEvent.again (env : ReloadEnv) : LoopEvent → LoopEvent
  | .reload doc _ => .reload doc env
  | e => e

/-- The pin in use is armed after the step; a move that fails keeps the old pin,
and the same file reloaded tries to arm the new one again. -/
structure PinLaw (s : Traced) (e : LoopEvent) : Prop where
  live : (s.step e).Live
  kept : ∀ pin, MovesPin s.ctrl e pin → e.armFails → (s.step e).ctrl.dr.pin = s.ctrl.dr.pin
  retried : ∀ pin, MovesPin s.ctrl e pin → e.armFails → ∀ env,
    ∃ ok, .gpioSetup pin ok ∈ loopCalls (s.step e).ctrl (e.again env)

/-- No move to another pin fails. -/
def MoveSucceeds (s : Traced) (e : LoopEvent) : Prop :=
  ∀ pin, MovesPin s.ctrl e pin → ¬ e.armFails

/-! ## One reload -/

theorem armedPins_append (calls more : List DriverCall) :
    armedPins (calls ++ more) = armedPins calls ++ armedPins more :=
  List.filterMap_append

theorem armedPins_piApplyLive (pi prev : PiConfig) : armedPins (piApplyLive pi prev) = [] := by
  unfold piApplyLive
  split <;> rfl

theorem armedPins_reopenSpi (pi : PiConfig) (openOk : Nat → Bool) (tries i : Nat) (s : SpiLink) :
    armedPins (reopenSpi pi openOk tries i s).2 = [] := by
  induction tries generalizing i s with
  | zero => rfl
  | succ tries ih =>
      unfold reopenSpi
      cases hok : openOk i with
      | true => simp [openSpi, armedPins]
      | false =>
          simp only [Bool.false_eq_true, if_false, armedPins_append, ih, List.append_nil]
          rfl

theorem reloadSpiTier_pin (env : ReloadEnv) (next : PiConfig) (c : Controller) :
    (reloadSpiTier env next c).1.dr = c.dr ∧ armedPins (reloadSpiTier env next c).2 = [] := by
  unfold reloadSpiTier
  split
  · refine ⟨rfl, ?_⟩
    simp only [armedPins_append, armedPins_reopenSpi, List.append_nil]
    unfold closeSpi
    split <;> rfl
  · exact ⟨rfl, rfl⟩

/-- A move records the new pin, tries to arm it, and arms it when both calls
succeed. -/
theorem reloadPinTier_moves {env : ReloadEnv} {next : PiConfig} {c : Controller}
    (h : next.datareadyPin ≠ c.cfg.pi.datareadyPin) :
    (reloadPinTier env next c).1.dr.pin = next.datareadyPin ∧
      (∃ ok, .gpioSetup next.datareadyPin ok ∈ (reloadPinTier env next c).2) ∧
      (env.gpioSetupOk = true ∧ env.gpioEventOk = true →
        next.datareadyPin ∈ armedPins (reloadPinTier env next c).2) := by
  simp only [reloadPinTier, if_pos h, datareadyArmPin]
  cases hsetup : env.gpioSetupOk with
  | false => exact ⟨rfl, ⟨false, by simp⟩, fun hok => by cases hok.1⟩
  | true =>
      refine ⟨rfl, ⟨true, by simp⟩, fun hok => ?_⟩
      simp [armedPins, hok.2]

theorem reloadPinTier_stays {env : ReloadEnv} {next : PiConfig} {c : Controller}
    (h : next.datareadyPin = c.cfg.pi.datareadyPin) : reloadPinTier env next c = (c, []) := by
  simp [reloadPinTier, h]

theorem handleReload_pin {doc : Option Json} {next : FullConfig}
    (hload : configLoadFile doc = some next) (env : ReloadEnv) (c : Controller) :
    (handleReload doc env c).ctrl.dr =
        (reloadPinTier env next.pi (reloadSpiTier env next.pi c).1).1.dr ∧
      (∀ call ∈ (reloadPinTier env next.pi (reloadSpiTier env next.pi c).1).2,
        call ∈ (handleReload doc env c).calls) ∧
      armedPins (handleReload doc env c).calls =
        armedPins (reloadPinTier env next.pi (reloadSpiTier env next.pi c).1).2 := by
  have hstm : ∀ c' : Controller, (reloadStmTier next.stm c').dr = c'.dr := by
    intro c'
    unfold reloadStmTier
    split <;> rfl
  simp only [handleReload, hload]
  refine ⟨hstm _, fun call hmem => List.mem_append_right _ hmem, ?_⟩
  rw [armedPins_append, armedPins_append, armedPins_piApplyLive,
    (reloadSpiTier_pin env next.pi c).2]
  rfl

/-- The pin in use is the one of the adopted configuration, armed or not. -/
def PinAdopted (c : Controller) : Prop := c.dr.pin = c.cfg.pi.datareadyPin

theorem pinAdopted_reload {c : Controller} (h : PinAdopted c) (doc : Option Json)
    (env : ReloadEnv) : PinAdopted (handleReload doc env c).ctrl := by
  rcases handleReload_cases doc env c with ⟨-, -, hc⟩ | ⟨next, hload, -, hcfg, -⟩
  · rwa [hc]
  unfold PinAdopted
  rw [(handleReload_pin hload env c).1, hcfg]
  have hcfg' := (reloadSpiTier_fields env next.pi c).1
  by_cases hmove : next.pi.datareadyPin = c.cfg.pi.datareadyPin
  · rw [reloadPinTier_stays (by rw [hcfg', hmove]), (reloadSpiTier_pin env next.pi c).1, hmove]
    exact h
  · exact (reloadPinTier_moves (by rwa [hcfg'])).1

theorem pinAdopted_step {c : Controller} (h : PinAdopted c) (e : LoopEvent) :
    PinAdopted (loopStep c e) := by
  cases e with
  | reload doc env => exact pinAdopted_reload h doc env
  | noData interrupted => cases interrupted <;> exact h
  | exchangeFailed interrupted => cases interrupted <;> exact h
  | exchange rx =>
      have hcfg := (receiveFrame_fields rx c).1
      unfold PinAdopted loopStep
      rw [(receiveFrame_drivers rx c).2, hcfg]
      exact h

theorem startup_pin {doc : Option Json} {env : StartupEnv} {c : Controller}
    (h : (startup doc env).ctrl = some c) :
    PinAdopted c ∧ Traced.Live ⟨c, (startup doc env).calls⟩ := by
  simp only [startup] at h
  split at h
  · cases h
  next hshm =>
    split at h
    · cases h
    next hopen =>
      split at h
      · cases h
      next harm =>
        obtain rfl := Option.some.inj h
        have hsetup : env.gpioSetupOk = true := by
          by_contra hfail
          simp [datareadyArmPin, hfail] at harm
        have hevent : env.gpioEventOk = true := by simpa [datareadyArmPin, hsetup] using harm
        simp only [Traced.Live, startup, if_neg hshm, if_neg hopen, if_neg harm, armedPins_append]
        simp [PinAdopted, datareadyArmPin, hsetup, hevent, armedPins]

theorem live_step {s : Traced} (h : s.Live) {e : LoopEvent} (hmove : MoveSucceeds s e) :
    (s.step e).Live := by
  have hkeep : (loopStep s.ctrl e).dr.pin = s.ctrl.dr.pin → (s.step e).Live := by
    intro hsame
    unfold Traced.Live Traced.step
    rw [hsame, armedPins_append]
    exact List.mem_append_left _ h
  cases e with
  | noData interrupted => cases interrupted <;> exact hkeep rfl
  | exchangeFailed interrupted => cases interrupted <;> exact hkeep rfl
  | exchange rx => exact hkeep (by rw [loopStep, (receiveFrame_drivers rx s.ctrl).2])
  | reload doc env =>
      rcases handleReload_cases doc env s.ctrl with ⟨-, -, hc⟩ | ⟨next, hload, -, -, -⟩
      · exact hkeep (by rw [loopStep, hc])
      have hcfg := (reloadSpiTier_fields env next.pi s.ctrl).1
      obtain ⟨hdr, -, harmed⟩ := handleReload_pin hload env s.ctrl
      by_cases hsame : next.pi.datareadyPin = s.ctrl.cfg.pi.datareadyPin
      · refine hkeep ?_
        rw [loopStep, hdr, reloadPinTier_stays (by rw [hcfg, hsame]),
          (reloadSpiTier_pin env next.pi s.ctrl).1]
      · obtain ⟨hpin, -, harm⟩ := @reloadPinTier_moves env next.pi
          (reloadSpiTier env next.pi s.ctrl).1 (by rwa [hcfg])
        have hok : env.gpioSetupOk = true ∧ env.gpioEventOk = true := by
          by_contra hfail
          exact hmove next.pi.datareadyPin ⟨next, hload, rfl, hsame⟩ hfail
        unfold Traced.Live Traced.step loopStep loopCalls
        rw [hdr, hpin, armedPins_append, harmed]
        exact List.mem_append_right _ (harm hok)

/-- What a run keeps as long as no move fails. -/
structure PinInv (s : Traced) : Prop where
  adopted : PinAdopted s.ctrl
  live : s.Live

theorem pinLaw_iff {s : Traced} (h : PinInv s) (e : LoopEvent) : PinLaw s e ↔ MoveSucceeds s e := by
  constructor
  · rintro hlaw pin ⟨next, hnext, rfl, hne⟩ hfail
    have hkept := hlaw.kept _ ⟨next, hnext, rfl, hne⟩ hfail
    have hafter : PinAdopted (s.step e).ctrl := pinAdopted_step h.adopted e
    have hcfg : (s.step e).ctrl.cfg = next := by
      cases e with
      | reload doc env =>
          rcases handleReload_cases doc env s.ctrl with ⟨hnone, -, -⟩ | ⟨next', hload, -, hcfg, -⟩
          · cases hnone.symm.trans hnext
          · obtain rfl : next' = next := Option.some.inj (hload.symm.trans hnext)
            exact hcfg
      | noData interrupted => cases hnext
      | exchangeFailed interrupted => cases hnext
      | exchange rx => cases hnext
    rw [PinAdopted, hkept, hcfg, h.adopted] at hafter
    exact hne hafter.symm
  · intro hmove
    exact ⟨live_step h.live hmove, fun pin hpin hfail => absurd hfail (hmove pin hpin),
      fun pin hpin hfail => absurd hfail (hmove pin hpin)⟩

theorem pinInv_step {s : Traced} (h : PinInv s) {e : LoopEvent} (hlaw : PinLaw s e) :
    PinInv (s.step e) :=
  ⟨pinAdopted_step h.adopted e, hlaw.live⟩

/-! ## Runs -/

/-- A started controller has armed the pin it reads, and in exactly the runs in
which no move to another pin fails the pin in use stays an armed one, with failed
moves keeping the old pin and being tried again. -/
theorem dataready_pin_iff {doc : Option Json} {env : StartupEnv} {c : Controller}
    (hstart : (startup doc env).ctrl = some c) (es : List LoopEvent) :
    Traced.Live ⟨c, (startup doc env).calls⟩ ∧
      (StepsMeet Traced.step PinLaw ⟨c, (startup doc env).calls⟩ es ↔
        StepsMeet Traced.step MoveSucceeds ⟨c, (startup doc env).calls⟩ es) := by
  obtain ⟨hadopted, hlive⟩ := startup_pin hstart
  refine ⟨hlive, stepsMeet_congr (I := PinInv) ?_ ?_ ⟨hadopted, hlive⟩ es⟩
  · exact fun s e h => pinLaw_iff h e
  · exact fun s e h hlaw => pinInv_step h hlaw

/-! ## The defect -/

/-- A document that sets the data-ready pin and nothing else. -/
def pinDoc (pin : Nat) : Json := .object [("pi", .object [("dataready_pin", .number pin)])]

def pinConfig (pin : Nat) : FullConfig :=
  { configDefaults with pi := { configDefaults.pi with datareadyPin := pin } }

theorem load_pinDoc : configLoadFile (some (pinDoc 5)) = some (pinConfig 5) := rfl

/-- A move to another pin that succeeds. -/
theorem dataready_pin_moves :
    StepsMeet Traced.step PinLaw ⟨defaultController, (startup none faultlessStartup).calls⟩
      [.reload (some (pinDoc 5)) faultlessReload] := by
  refine (dataready_pin_iff defaultController_startup _).2.mpr ⟨?_, trivial⟩
  exact fun _ _ hfail => hfail ⟨rfl, rfl⟩

/-- The setup call fails on the new pin: it is in use all the same, no pin is
armed but the old one, and the file is not tried again. -/
theorem failed_move_takes_pin :
    ¬ ∀ (doc : Option Json) (env : StartupEnv) (c : Controller) (es : List LoopEvent),
      (startup doc env).ctrl = some c →
        StepsMeet Traced.step PinLaw ⟨c, (startup doc env).calls⟩ es := by
  intro hall
  let e : LoopEvent := .reload (some (pinDoc 5)) { faultlessReload with gpioSetupOk := false }
  have hlaw := hall none faultlessStartup defaultController [e] defaultController_startup
  obtain ⟨hadopted, hlive⟩ := startup_pin defaultController_startup
  refine (pinLaw_iff ⟨hadopted, hlive⟩ e).mp hlaw.1 5 ⟨pinConfig 5, load_pinDoc, rfl, ?_⟩ fun hok => ?_
  · rw [defaultController_cfg]
    decide
  · cases hok.1

end QnxHypervisor.MotorController
