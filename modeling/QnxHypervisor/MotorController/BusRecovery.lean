import QnxHypervisor.Foundation.EventRun
import QnxHypervisor.MotorController.Pending

/-! # The SPI bus over reloads

What a run of reloads makes of the bus: where it is configured, and whether a
bus left down by a failed reopen is tried again. The reopen is gated on the wire
fields of the adopted configuration, which is adopted whether or not the bus came
up, so the file that failed once is not tried again.
-/

namespace QnxHypervisor.MotorController

open Foundation MotorWire

/-! ## The law -/

def DriverCall.opensSpi : DriverCall → Bool
  | .spiConfigureDevice .. => true
  | _ => false

/-- A configured link is the one the adopted configuration names. -/
def LinkAdopted (c : Controller) : Prop :=
  c.spi.configured = true → c.spi.bus = c.cfg.pi.spiBus ∧ c.spi.dev = c.cfg.pi.spiDev

/-- A reload that returns 0 leaves a configured link on the adopted pair, and
tries to open a bus that is down. -/
structure BusLaw (c : Controller) (e : LoopEvent) : Prop where
  adopted : ∀ doc env, e = .reload doc env → (handleReload doc env c).rc = 0 →
    LinkAdopted (handleReload doc env c).ctrl
  retried : ∀ doc env, e = .reload doc env → (handleReload doc env c).rc = 0 →
    c.spi.configured = false → ∃ call ∈ (handleReload doc env c).calls, call.opensSpi = true

/-- A file that is adopted while the bus is down differs in a wire field from the
one adopted before. -/
def NewWire (c : Controller) (e : LoopEvent) : Prop :=
  ∀ next ∈ e.adopted, c.spi.configured = false → configSpiWireDiffers next.pi c.cfg.pi = true

/-! ## One step -/

theorem reopenSpi_opened (pi : PiConfig) (openOk : Nat → Bool) (tries i : Nat) (s : SpiLink)
    (hs : s.configured = false) :
    (reopenSpi pi openOk tries i s).1.configured = true →
      (reopenSpi pi openOk tries i s).1.bus = pi.spiBus ∧
      (reopenSpi pi openOk tries i s).1.dev = pi.spiDev := by
  induction tries generalizing i s with
  | zero =>
      intro hup
      rw [show (reopenSpi pi openOk 0 i s).1 = s from rfl, hs] at hup
      cases hup
  | succ tries ih =>
      unfold reopenSpi
      cases hok : openOk i with
      | true => exact fun _ => ⟨rfl, rfl⟩
      | false => exact ih (i + 1) _ rfl

theorem reopenSpi_tries (pi : PiConfig) (openOk : Nat → Bool) (tries i : Nat) (s : SpiLink) :
    ∃ call ∈ (reopenSpi pi openOk (tries + 1) i s).2, call.opensSpi = true := by
  refine ⟨.spiConfigureDevice pi.spiBus pi.spiDev pi.spiMode pi.spiClockHz (openOk i), ?_, rfl⟩
  cases hok : openOk i <;> simp [reopenSpi, openSpi, hok]

theorem closeSpi_configured (s : SpiLink) : (closeSpi s).1.configured = false := by
  unfold closeSpi
  split
  · rfl
  · next hdown => simpa using hdown

theorem accountSequence_drivers (h : FrameHeader) (c : Controller) :
    (accountSequence h c).2.spi = c.spi ∧ (accountSequence h c).2.dr = c.dr := by
  unfold accountSequence
  split
  · exact ⟨rfl, rfl⟩
  · dsimp only
    split_ifs <;> exact ⟨rfl, rfl⟩

/-- An exchange leaves link and data-ready pin alone. -/
theorem receiveFrame_drivers (rx : XferBuffer) (c : Controller) :
    (receiveFrame rx c).spi = c.spi ∧ (receiveFrame rx c).dr = c.dr := by
  unfold receiveFrame
  dsimp only
  cases validateFrame c.activeStm rx with
  | accepted =>
      unfold acceptFrame
      dsimp only
      split <;> exact accountSequence_drivers _ _
  | badMagic => exact ⟨rfl, rfl⟩
  | badVersion => exact ⟨rfl, rfl⟩
  | badSize => exact ⟨rfl, rfl⟩
  | badCrc => exact ⟨rfl, rfl⟩

theorem piApplyLive_opens (pi prev : PiConfig) :
    ∀ call ∈ piApplyLive pi prev, call.opensSpi = false := by
  unfold piApplyLive
  split <;> simp [DriverCall.opensSpi]

theorem reloadPinTier_spi (env : ReloadEnv) (next : PiConfig) (c : Controller) :
    (reloadPinTier env next c).1.spi = c.spi ∧
      ∀ call ∈ (reloadPinTier env next c).2, call.opensSpi = false := by
  unfold reloadPinTier datareadyArmPin
  split
  · refine ⟨rfl, ?_⟩
    dsimp only
    split <;> simp [DriverCall.opensSpi]
  · exact ⟨rfl, by simp⟩

/-- The link is changed, and the bus opened, by the wire tier alone. -/
theorem handleReload_spi {doc : Option Json} {next : FullConfig}
    (hload : configLoadFile doc = some next) (env : ReloadEnv) (c : Controller) :
    (handleReload doc env c).ctrl.spi = (reloadSpiTier env next.pi c).1.spi ∧
      ∀ call, call.opensSpi = true →
        (call ∈ (handleReload doc env c).calls ↔ call ∈ (reloadSpiTier env next.pi c).2) := by
  have hlive := piApplyLive_opens next.pi c.cfg.pi
  obtain ⟨hpin, hpincalls⟩ := reloadPinTier_spi env next.pi (reloadSpiTier env next.pi c).1
  have hstm : ∀ c' : Controller, (reloadStmTier next.stm c').spi = c'.spi := by
    intro c'
    unfold reloadStmTier
    split <;> rfl
  simp only [handleReload, hload]
  refine ⟨(hstm _).trans hpin, fun call hopens => ?_⟩
  simp only [List.mem_append]
  constructor
  · rintro ((hmem | hmem) | hmem)
    · rw [hlive call hmem] at hopens
      cases hopens
    · exact hmem
    · rw [hpincalls call hmem] at hopens
      cases hopens
  · exact fun hmem => .inl (.inr hmem)

theorem handleReload_rc {doc : Option Json} {env : ReloadEnv} {c : Controller}
    (h : (handleReload doc env c).rc = 0) :
    ∃ next, configLoadFile doc = some next ∧ (handleReload doc env c).ctrl.cfg = next := by
  rcases handleReload_cases doc env c with ⟨-, hrc, -⟩ | ⟨next, hload, -, hcfg, -⟩
  · rw [h] at hrc
    cases hrc
  · exact ⟨next, hload, hcfg⟩

theorem linkAdopted_reload {c : Controller} (h : LinkAdopted c) (doc : Option Json)
    (env : ReloadEnv) : LinkAdopted (handleReload doc env c).ctrl := by
  rcases handleReload_cases doc env c with ⟨-, -, hc⟩ | ⟨next, hload, -, hcfg, -⟩
  · rwa [hc]
  unfold LinkAdopted
  rw [(handleReload_spi hload env c).1, hcfg]
  unfold reloadSpiTier
  split
  · exact reopenSpi_opened next.pi env.openOk 5 0 _ (closeSpi_configured c.spi)
  · next hsame =>
    have hwire : next.pi.spiBus = c.cfg.pi.spiBus ∧ next.pi.spiDev = c.cfg.pi.spiDev := by
      simp only [configSpiWireDiffers, decide_eq_true_eq, not_or, ne_eq, not_not] at hsame
      exact ⟨hsame.1, hsame.2.1⟩
    rw [hwire.1, hwire.2]
    exact h

theorem linkAdopted_step {c : Controller} (h : LinkAdopted c) (e : LoopEvent) :
    LinkAdopted (loopStep c e) := by
  cases e with
  | reload doc env => exact linkAdopted_reload h doc env
  | noData interrupted => cases interrupted <;> exact h
  | exchangeFailed interrupted => cases interrupted <;> exact h
  | exchange rx =>
      have hcfg := (receiveFrame_fields rx c).1
      unfold LinkAdopted loopStep
      rw [(receiveFrame_drivers rx c).1, hcfg]
      exact h

theorem linkAdopted_startup {doc : Option Json} {env : StartupEnv} {c : Controller}
    (h : (startup doc env).ctrl = some c) : LinkAdopted c := by
  simp only [startup] at h
  split at h
  · cases h
  · split at h
    · cases h
    · next hopen =>
      split at h
      · cases h
      · obtain rfl := Option.some.inj h
        have hok : env.openOk = true := by simpa using hopen
        intro _
        simp [openSpi, hok]

theorem busLaw_iff {c : Controller} (h : LinkAdopted c) (e : LoopEvent) :
    BusLaw c e ↔ NewWire c e := by
  constructor
  · intro hlaw next hnext hdown
    cases e with
    | reload doc env =>
        have hload : configLoadFile doc = some next := hnext
        have hrc : (handleReload doc env c).rc = 0 := by
          simp only [handleReload, hload]
        obtain ⟨call, hmem, hopens⟩ := hlaw.retried doc env rfl hrc hdown
        rw [(handleReload_spi hload env c).2 call hopens] at hmem
        unfold reloadSpiTier at hmem
        split at hmem
        · next hdiff => exact hdiff
        · cases hmem
    | noData interrupted => cases hnext
    | exchangeFailed interrupted => cases hnext
    | exchange rx => cases hnext
  · intro hnew
    refine ⟨fun doc env _ _ => linkAdopted_reload h doc env, fun doc env he hrc hdown => ?_⟩
    obtain ⟨next, hload, -⟩ := handleReload_rc hrc
    have hdiff := hnew next (by rw [he]; exact hload) hdown
    obtain ⟨call, hmem, hopens⟩ := reopenSpi_tries next.pi env.openOk 4 0 (closeSpi c.spi).1
    refine ⟨call, ((handleReload_spi hload env c).2 call hopens).mpr ?_, hopens⟩
    simp only [reloadSpiTier, if_pos hdiff]
    exact List.mem_append_right _ hmem

/-! ## Runs -/

/-- In exactly the runs in which no file adopted while the bus is down repeats
the wire fields of the one before, every such reload tries the bus again and
every reload leaves a configured link on the adopted pair. -/
theorem bus_recovery_iff {doc : Option Json} {env : StartupEnv} {c : Controller}
    (hstart : (startup doc env).ctrl = some c) (es : List LoopEvent) :
    StepsMeet loopStep BusLaw c es ↔ StepsMeet loopStep NewWire c es :=
  stepsMeet_congr (I := LinkAdopted) (fun _ e hlink => busLaw_iff hlink e)
    (fun _ e hlink _ => linkAdopted_step hlink e) (linkAdopted_startup hstart) es

/-! ## The defect -/

/-- The reload environment of a bus that does not come up. -/
def deadBus : ReloadEnv := { faultlessReload with openOk := fun _ => false }

/-- A document that sets the SPI mode and nothing else. -/
def spiModeDoc (mode : Nat) : Json := .object [("pi", .object [("spi_mode", .number mode)])]

def spiModeConfig (mode : Nat) : FullConfig :=
  { configDefaults with pi := { configDefaults.pi with spiMode := mode } }

theorem load_spiMode_one : configLoadFile (some (spiModeDoc 1)) = some (spiModeConfig 1) := rfl

theorem load_spiMode_two : configLoadFile (some (spiModeDoc 2)) = some (spiModeConfig 2) := rfl

theorem deadBus_down :
    let c := (handleReload (some (spiModeDoc 1)) deadBus defaultController).ctrl
    c.spi.configured = false ∧ c.cfg = spiModeConfig 1 := by
  obtain ⟨next, hnext, hcfg⟩ := @handleReload_rc (some (spiModeDoc 1)) deadBus defaultController
    (by simp only [handleReload, load_spiMode_one])
  obtain rfl := Option.some.inj (load_spiMode_one.symm.trans hnext)
  refine ⟨?_, hcfg⟩
  have hdiff : configSpiWireDiffers (spiModeConfig 1).pi defaultController.cfg.pi = true := by
    simp [configSpiWireDiffers, spiModeConfig, defaultController_cfg, configDefaults]
  rw [(handleReload_spi load_spiMode_one deadBus defaultController).1]
  simp only [reloadSpiTier, if_pos hdiff]
  rfl

/-- Two reloads with different wire fields, the first of which leaves the bus down. -/
theorem bus_recovery_new_wire :
    StepsMeet loopStep BusLaw defaultController
      [.reload (some (spiModeDoc 1)) deadBus, .reload (some (spiModeDoc 2)) faultlessReload] := by
  refine (bus_recovery_iff defaultController_startup _).mpr ⟨?_, ?_, trivial⟩
  · intro _ _ hdown
    cases hdown
  · intro next hnext _
    obtain ⟨-, hcfg⟩ := deadBus_down
    obtain rfl := Option.some.inj (load_spiMode_two.symm.trans hnext)
    simp only [loopStep, hcfg]
    decide

/-- The bus does not come up, and a second reload of the same file, which returns
0, does not try it again. -/
theorem same_file_leaves_bus_down :
    ¬ ∀ (doc : Option Json) (env : StartupEnv) (c : Controller) (es : List LoopEvent),
      (startup doc env).ctrl = some c → StepsMeet loopStep BusLaw c es := by
  intro hall
  let doc := some (spiModeDoc 1)
  have hlaw := hall none faultlessStartup defaultController
    [.reload doc deadBus, .reload doc faultlessReload] defaultController_startup
  obtain ⟨hdown, hcfg⟩ := deadBus_down
  have hlink : LinkAdopted (loopStep defaultController (.reload doc deadBus)) :=
    linkAdopted_step (linkAdopted_startup defaultController_startup) _
  have hnew := (busLaw_iff hlink _).mp hlaw.2.1 (spiModeConfig 1) load_spiMode_one hdown
  simp only [loopStep, doc, hcfg] at hnew
  exact absurd hnew (by decide)

end QnxHypervisor.MotorController
