import QnxHypervisor.MotorController.BusRecovery
import QnxHypervisor.MotorController.ConfigExact

/-! # Slots of the SPI table

`rpi_spi` keeps a descriptor for each of six buses with ten devices and takes bus and device
as an index without a check. The loader lets bus numbers up to 7 through.
-/

namespace QnxHypervisor.MotorController

open Foundation

/-! ## The table and its users -/

def maxSpiBuses : Int := 6
def maxSpiBusDevices : Int := 10

/-- An index pair of `spi_device_fd`. -/
structure SpiSlot where
  bus : Int
  dev : Int
  deriving DecidableEq

def SpiSlot.InTable (slot : SpiSlot) : Prop :=
  (0 ≤ slot.bus ∧ slot.bus < maxSpiBuses) ∧ 0 ≤ slot.dev ∧ slot.dev < maxSpiBusDevices

/-- The slot that a driver call uses. -/
def DriverCall.slot : DriverCall → Option SpiSlot
  | .spiConfigureDevice bus dev .. => some ⟨bus, dev⟩
  | .spiCleanupDevice bus dev => some ⟨bus, dev⟩
  | _ => none

def callSlots (calls : List DriverCall) : List SpiSlot := calls.filterMap DriverCall.slot

def PiConfig.slot (pi : PiConfig) : SpiSlot := ⟨pi.spiBus, pi.spiDev⟩

/-- `rpi_spi_write_read_data`, whether it succeeds or not. -/
def exchangeSlots (c : Controller) : LoopEvent → List SpiSlot
  | .exchange _ => [c.cfg.pi.slot]
  | .exchangeFailed _ => [c.cfg.pi.slot]
  | _ => []

def eventSlots (c : Controller) (e : LoopEvent) : List SpiSlot :=
  callSlots (loopCalls c e) ++ exchangeSlots c e

def runSlots : Controller → List LoopEvent → List SpiSlot
  | _, [] => []
  | c, e :: es => eventSlots c e ++ runSlots (loopStep c e) es

/-- The slots of a whole process: start-up, its loop and the close at the end. -/
def processSlots (doc : Option Json) (env : StartupEnv) (es : List LoopEvent) : List SpiSlot :=
  callSlots (startup doc env).calls ++
    match (startup doc env).ctrl with
    | none => []
    | some c => runSlots c es ++ callSlots (closeSpi (loopRun c es).spi).2

/-! ## When all slots are in the table -/

def startConfig (doc : Option Json) : FullConfig := (configLoadFile doc).getD configDefaults

/-- Nothing that the loop needs fails. -/
def StartupEnv.EntersLoop (env : StartupEnv) : Prop :=
  env.shmOk = true ∧ env.openOk = true ∧ env.gpioSetupOk = true ∧ env.gpioEventOk = true

/-- Every configuration that comes to the bus names one of the first six buses. -/
structure BusesInTable (doc : Option Json) (env : StartupEnv) (es : List LoopEvent) : Prop where
  start : env.shmOk = true → (startConfig doc).pi.spiBus < maxSpiBuses
  adopted : env.EntersLoop → ∀ e ∈ es, ∀ next ∈ e.adopted, next.pi.spiBus < maxSpiBuses

/-! ## What the loader lets through -/

variable {doc : Option Json} {env : StartupEnv} {c : Controller} {e : LoopEvent} {cfg : FullConfig}
  {slot : SpiSlot}

theorem intField_within {o : Json} {name : String} {lo hi dflt : Int}
    (hok : NumberField.Ok ⟨name, false, within lo hi⟩ o) (hdflt : within lo hi dflt) :
    within lo hi (o.intField name dflt) := by
  unfold Json.intField
  split
  · rename_i q hq
    obtain ⟨q', hq', -, hwithin⟩ := hok _ hq
    cases hq'
    exact hwithin
  · exact hdflt

theorem loaded_slot (h : configLoadFile doc = some cfg) :
    cfg.pi.slot.InTable ↔ cfg.pi.spiBus < maxSpiBuses := by
  obtain ⟨root, -, haccepted, rfl⟩ := configLoadFile_iff.mp h
  have hbus : within 0 7 ((root.objectAt "pi").intField "spi_bus" 0) :=
    intField_within (haccepted.pi _ (by simp [piFields])) ⟨by decide, by decide⟩
  have hdev : within 0 7 ((root.objectAt "pi").intField "spi_dev" 0) :=
    intField_within (haccepted.pi _ (by simp [piFields])) ⟨by decide, by decide⟩
  have hseven : (7 : Int) < maxSpiBusDevices := by decide
  exact ⟨fun hin => hin.1.2, fun hlt => ⟨⟨hbus.1, hlt⟩, hdev.1, Int.lt_of_le_of_lt hdev.2 hseven⟩⟩

theorem startConfig_slot (doc : Option Json) :
    (startConfig doc).pi.slot.InTable ↔ (startConfig doc).pi.spiBus < maxSpiBuses := by
  unfold startConfig
  cases hload : configLoadFile doc with
  | none => exact iff_of_true ⟨by decide, by decide⟩ (by decide)
  | some cfg => exact loaded_slot hload

/-! ## The slots of one event -/

theorem callSlots_append (calls more : List DriverCall) :
    callSlots (calls ++ more) = callSlots calls ++ callSlots more :=
  List.filterMap_append

theorem piApplyLive_slots (pi prev : PiConfig) : callSlots (piApplyLive pi prev) = [] := by
  unfold piApplyLive
  split <;> rfl

theorem datareadyArmPin_slots (pi : PiConfig) (setupOk eventOk : Bool) (d : DataReady) :
    callSlots (datareadyArmPin pi setupOk eventOk d).2.2 = [] := by
  unfold datareadyArmPin
  dsimp only
  split <;> rfl

theorem reloadPinTier_slots (env : ReloadEnv) (next : PiConfig) (c : Controller) :
    callSlots (reloadPinTier env next c).2 = [] := by
  unfold reloadPinTier
  split
  · exact datareadyArmPin_slots ..
  · rfl

theorem mem_closeSpi_slots {s : SpiLink} (h : slot ∈ callSlots (closeSpi s).2) :
    s.configured = true ∧ slot = ⟨s.bus, s.dev⟩ := by
  unfold closeSpi at h
  split at h
  · next hup => exact ⟨hup, List.mem_singleton.mp h⟩
  · cases h

theorem reopenSpi_slots (pi : PiConfig) (openOk : Nat → Bool) (tries i : Nat) (s : SpiLink) :
    ∀ slot ∈ callSlots (reopenSpi pi openOk tries i s).2, slot = pi.slot := by
  induction tries generalizing i s with
  | zero => exact fun slot hslot => nomatch hslot
  | succ tries ih =>
      have hopen : ∀ slot ∈ callSlots (openSpi pi (openOk i) s).2, slot = pi.slot := by
        unfold openSpi
        dsimp only
        split <;> exact fun slot hslot => List.mem_singleton.mp hslot
      unfold reopenSpi
      split
      · exact hopen
      · intro slot hslot
        rw [callSlots_append, List.mem_append] at hslot
        exact hslot.elim (hopen slot) (ih (i + 1) _ slot)

theorem reopenSpi_slot_mem (pi : PiConfig) (openOk : Nat → Bool) (tries i : Nat) (s : SpiLink) :
    pi.slot ∈ callSlots (reopenSpi pi openOk (tries + 1) i s).2 := by
  cases hok : openOk i <;> simp [reopenSpi, openSpi, hok, callSlots, DriverCall.slot, PiConfig.slot]

theorem handleReload_slots {next : FullConfig} (hload : configLoadFile doc = some next)
    (env : ReloadEnv) (c : Controller) :
    callSlots (handleReload doc env c).calls =
      if configSpiWireDiffers next.pi c.cfg.pi then
        callSlots (closeSpi c.spi).2 ++
          callSlots (reopenSpi next.pi env.openOk 5 0 (closeSpi c.spi).1).2
      else [] := by
  simp only [handleReload, hload, callSlots_append, piApplyLive_slots, reloadPinTier_slots,
    List.nil_append, List.append_nil]
  unfold reloadSpiTier
  split
  · simp only [callSlots_append, show callSlots [.spiApplyConf next.pi env.applyOk] = [] from rfl,
      List.append_nil]
  · rfl

theorem slot_of_same_wire {next prev : PiConfig} (h : ¬ configSpiWireDiffers next prev = true) :
    next.slot = prev.slot := by
  simp only [configSpiWireDiffers, decide_eq_true_eq, not_or, ne_eq, not_not] at h
  rw [PiConfig.slot, PiConfig.slot, h.1, h.2.1]

theorem closeSpi_inTable (hlink : LinkAdopted c) (hin : c.cfg.pi.slot.InTable)
    (h : slot ∈ callSlots (closeSpi c.spi).2) : slot.InTable := by
  obtain ⟨hup, rfl⟩ := mem_closeSpi_slots h
  obtain ⟨hbus, hdev⟩ := hlink hup
  rw [hbus, hdev]
  exact hin

theorem reload_inTable_iff (hlink : LinkAdopted c) (hin : c.cfg.pi.slot.InTable)
    {next : FullConfig} (hload : configLoadFile doc = some next) (env : ReloadEnv) :
    (∀ slot ∈ callSlots (handleReload doc env c).calls, slot.InTable) ↔
      next.pi.spiBus < maxSpiBuses := by
  rw [handleReload_slots hload, ← loaded_slot hload]
  split
  case isTrue =>
    constructor
    · intro hall
      exact hall _ (List.mem_append_right _ (reopenSpi_slot_mem next.pi env.openOk 4 0 _))
    · intro hnext slot hslot
      rcases List.mem_append.mp hslot with hclose | hopen
      · exact closeSpi_inTable hlink hin hclose
      · rw [reopenSpi_slots _ _ _ _ _ slot hopen]
        exact hnext
  case isFalse hsame =>
    rw [slot_of_same_wire hsame]
    exact iff_of_true (fun slot hslot => nomatch hslot) hin

theorem event_inTable_iff (hlink : LinkAdopted c) (hin : c.cfg.pi.slot.InTable) (e : LoopEvent) :
    (∀ slot ∈ eventSlots c e, slot.InTable) ↔ ∀ next ∈ e.adopted, next.pi.spiBus < maxSpiBuses := by
  have hnone : (∀ next ∈ (none : Option FullConfig), next.pi.spiBus < maxSpiBuses) := by
    rintro next ⟨⟩
  have hempty : ∀ slot ∈ ([] : List SpiSlot), slot.InTable := by
    rintro slot ⟨⟩
  have hexchange : ∀ slot ∈ [c.cfg.pi.slot], slot.InTable := fun slot hslot => by
    rw [List.mem_singleton.mp hslot]
    exact hin
  cases e with
  | reload doc env =>
      have hslots : eventSlots c (.reload doc env) = callSlots (handleReload doc env c).calls :=
        List.append_nil _
      rw [hslots]
      show _ ↔ ∀ next ∈ configLoadFile doc, _
      cases hload : configLoadFile doc with
      | none =>
          have hcalls : (handleReload doc env c).calls = [] := by simp only [handleReload, hload]
          rw [hcalls]
          exact iff_of_true hempty hnone
      | some next =>
          rw [reload_inTable_iff hlink hin hload env]
          exact ⟨fun h n hn => Option.some.inj hn ▸ h, fun h => h next rfl⟩
  | noData interrupted => exact iff_of_true hempty hnone
  | exchangeFailed interrupted => exact iff_of_true hexchange hnone
  | exchange rx => exact iff_of_true hexchange hnone

/-! ## The slots of a process -/

theorem slot_inTable_step (hin : c.cfg.pi.slot.InTable) (e : LoopEvent)
    (hadopted : ∀ next ∈ e.adopted, next.pi.spiBus < maxSpiBuses) :
    (loopStep c e).cfg.pi.slot.InTable := by
  cases e with
  | reload doc env =>
      show (handleReload doc env c).ctrl.cfg.pi.slot.InTable
      rcases handleReload_cases doc env c with ⟨-, -, hc⟩ | ⟨next, hload, -, hcfg, -⟩
      · rwa [hc]
      · rw [hcfg]
        exact (loaded_slot hload).mpr (hadopted next hload)
  | noData interrupted => cases interrupted <;> exact hin
  | exchangeFailed interrupted => cases interrupted <;> exact hin
  | exchange rx =>
      show (receiveFrame rx c).cfg.pi.slot.InTable
      rwa [(receiveFrame_fields rx c).1]

theorem run_inTable_iff (hlink : LinkAdopted c) (hin : c.cfg.pi.slot.InTable)
    (es : List LoopEvent) :
    (∀ slot ∈ runSlots c es ++ callSlots (closeSpi (loopRun c es).spi).2, slot.InTable) ↔
      ∀ e ∈ es, ∀ next ∈ e.adopted, next.pi.spiBus < maxSpiBuses := by
  induction es generalizing c with
  | nil =>
      refine iff_of_true (fun slot hslot => ?_) (fun e he => nomatch he)
      exact closeSpi_inTable hlink hin hslot
  | cons e es ih =>
      have hsplit : runSlots c (e :: es) ++ callSlots (closeSpi (loopRun c (e :: es)).spi).2 =
          eventSlots c e ++ (runSlots (loopStep c e) es ++
            callSlots (closeSpi (loopRun (loopStep c e) es).spi).2) :=
        List.append_assoc ..
      rw [hsplit, List.forall_mem_cons, List.forall_mem_append, event_inTable_iff hlink hin e]
      constructor
      · rintro ⟨hfirst, hrest⟩
        exact ⟨hfirst, (ih (linkAdopted_step hlink e) (slot_inTable_step hin e hfirst)).mp hrest⟩
      · rintro ⟨hfirst, hrest⟩
        exact ⟨hfirst, (ih (linkAdopted_step hlink e) (slot_inTable_step hin e hfirst)).mpr hrest⟩

theorem startup_slots (doc : Option Json) (env : StartupEnv) :
    (env.shmOk = true → (startConfig doc).pi.slot ∈ callSlots (startup doc env).calls) ∧
      ∀ slot ∈ callSlots (startup doc env).calls,
        env.shmOk = true ∧ slot = (startConfig doc).pi.slot := by
  obtain ⟨shmOk, applyOk, openOk, gpioSetupOk, gpioEventOk, leftover⟩ := env
  cases shmOk with
  | false => exact ⟨nofun, fun slot hslot => nomatch hslot⟩
  | true =>
      cases openOk with
      | false => simp [startup, startConfig, openSpi, callSlots, DriverCall.slot, PiConfig.slot]
      | true =>
          cases gpioSetupOk <;> cases gpioEventOk <;>
            simp [startup, startConfig, openSpi, closeSpi, datareadyArmPin, callSlots,
              DriverCall.slot, PiConfig.slot]

theorem startup_entersLoop (doc : Option Json) (env : StartupEnv) :
    (startup doc env).ctrl.isSome = true ↔ env.EntersLoop := by
  obtain ⟨shmOk, applyOk, openOk, gpioSetupOk, gpioEventOk, leftover⟩ := env
  cases shmOk <;> cases openOk <;> cases gpioSetupOk <;> cases gpioEventOk <;>
    simp [startup, StartupEnv.EntersLoop, datareadyArmPin]

theorem spi_slots_in_table_iff (doc : Option Json) (env : StartupEnv) (es : List LoopEvent) :
    (∀ slot ∈ processSlots doc env es, slot.InTable) ↔ BusesInTable doc env es := by
  obtain ⟨hused, honly⟩ := startup_slots doc env
  have hstart : (∀ slot ∈ callSlots (startup doc env).calls, slot.InTable) ↔
      (env.shmOk = true → (startConfig doc).pi.spiBus < maxSpiBuses) := by
    rw [← startConfig_slot]
    constructor
    · exact fun hall hshm => hall _ (hused hshm)
    · intro hin slot hslot
      obtain ⟨hshm, rfl⟩ := honly slot hslot
      exact hin hshm
  rw [processSlots, List.forall_mem_append, hstart]
  have hloop := startup_entersLoop doc env
  cases hctrl : (startup doc env).ctrl with
  | none =>
      have henters : ¬ env.EntersLoop := by
        rw [← hloop, hctrl]
        decide
      constructor
      · exact fun h => ⟨h.1, fun hin => absurd hin henters⟩
      · exact fun h => ⟨h.start, fun slot hslot => nomatch hslot⟩
  | some c =>
      have henters : env.EntersLoop := by
        rw [← hloop, hctrl]
        rfl
      have hcfg : c.cfg = startConfig doc := (startup_ctrl hctrl).1
      have hlink : LinkAdopted c := linkAdopted_startup hctrl
      constructor
      · rintro ⟨hfirst, hrest⟩
        have hin : c.cfg.pi.slot.InTable := by
          rw [hcfg]
          exact (startConfig_slot doc).mpr (hfirst henters.1)
        exact ⟨hfirst, fun _ => (run_inTable_iff hlink hin es).mp hrest⟩
      · rintro ⟨hfirst, hrest⟩
        have hin : c.cfg.pi.slot.InTable := by
          rw [hcfg]
          exact (startConfig_slot doc).mpr (hfirst henters.1)
        exact ⟨hfirst, (run_inTable_iff hlink hin es).mpr (hrest henters)⟩

/-! ## The defect -/

/-- A document that sets the bus and nothing else. -/
def spiBusDoc (bus : Nat) : Json := .object [("pi", .object [("spi_bus", .number bus)])]

/-- Bus 6 is accepted, and the first call is outside the table. -/
theorem bus_six_outside_table :
    ¬ ∀ (doc : Option Json) (env : StartupEnv) (es : List LoopEvent),
      ∀ slot ∈ processSlots doc env es, slot.InTable := by
  intro hall
  have hmem : (⟨6, 0⟩ : SpiSlot) ∈ processSlots (some (spiBusDoc 6)) faultlessStartup [] :=
    List.mem_append_left _ ((startup_slots (some (spiBusDoc 6)) faultlessStartup).1 rfl)
  exact absurd (hall _ _ _ _ hmem).1.2 (by decide)

end QnxHypervisor.MotorController
