import QnxHypervisor.MotorController.Pending

/-! # What the configuration loader accepts

The acceptance rule of `config_load_file` as a table of fields, and the loader
against it: a document is loaded exactly when every field that is present obeys
its row, and the result is the defaults with just these fields replaced.
-/

namespace QnxHypervisor.MotorController

open Foundation MotorWire

/-! ## The rule -/

/-- A number field of the document: what its value must be once truncated, and
whether it must be non-negative before. -/
structure NumberField where
  name : String
  unsigned : Bool
  allowed : Int → Prop

def NumberField.Ok (f : NumberField) (o : Json) : Prop :=
  ∀ v ∈ o.item f.name, ∃ q, v = .number q ∧ (f.unsigned = true → 0 ≤ q) ∧ f.allowed (truncate q)

/-- The values from `lo` to `hi`. -/
def within (lo hi v : Int) : Prop := lo ≤ v ∧ v ≤ hi

def piFields : List NumberField :=
  [⟨"spi_bus", false, within 0 7⟩, ⟨"spi_dev", false, within 0 7⟩,
    ⟨"spi_mode", false, within 0 3⟩, ⟨"spi_clock_hz", true, within 100000 50000000⟩,
    ⟨"spi_cpha", false, within 0 1⟩, ⟨"spi_word_width", false, fun v => v = 8 ∨ v = 16 ∨ v = 32⟩,
    ⟨"spi_idle_insert", false, within 0 1⟩, ⟨"rt_priority", false, within 1 63⟩,
    ⟨"dataready_pin", false, within 0 27⟩]

def stmFields : List NumberField :=
  [⟨"block_rows", true, within 1 motorMaxRowsPerBlock⟩,
    ⟨"sample_rate_hz", true, fun v => v = 0 ∨ within 100 100000 v⟩,
    ⟨"imu_rate_hz", true, fun v => v = 0 ∨ within 10 1000 v⟩]

def scalingFields : List String :=
  ["current_scale", "current_offset", "vib_scale", "vib_offset", "rpm_scale", "rpm_offset"]

/-- Scaling constants are not truncated. -/
def ScalingOk (o : Json) (name : String) : Prop :=
  ∀ v ∈ o.item name, ∃ q, v = .number q ∧ -1000000 ≤ q ∧ q ≤ 1000000

def SourceOk (o : Json) : Prop :=
  ∀ v ∈ o.item "source", v = .string "adc" ∨ ∃ q, v = .number q ∧ truncate q = motorSourceAdc.toNat

def RunStateOk (o : Json) : Prop :=
  ∀ v ∈ o.item "run_state", v = .string "run" ∨ v = .string "stop" ∨
    ∃ q, v = .number q ∧ (truncate q = 0 ∨ truncate q = 1)

def Json.objectAt (name : String) (root : Json) : Json :=
  match root.item name with
  | some s => if s.isObject then s else .object []
  | none => .object []

structure ConfigAccepted (root : Json) : Prop where
  pi : ∀ f ∈ piFields, f.Ok (root.objectAt "pi")
  scaling : ∀ name ∈ scalingFields, ScalingOk ((root.objectAt "pi").objectAt "scaling") name
  stm : ∀ f ∈ stmFields, f.Ok (root.objectAt "stm")
  source : SourceOk (root.objectAt "stm")
  runState : RunStateOk (root.objectAt "stm")

/-! ## The result -/

def Json.intField (o : Json) (name : String) (dflt : Int) : Int :=
  match o.item name with
  | some (.number q) => truncate q
  | _ => dflt

def Json.uintField (o : Json) (name : String) (dflt : UInt32) : UInt32 :=
  match o.item name with
  | some (.number q) => UInt32.ofNat (truncate q).toNat
  | _ => dflt

def Json.scalingField (o : Json) (name : String) (dflt : ℚ) : ℚ :=
  match o.item name with
  | some (.number q) => q
  | _ => dflt

def Json.runState (o : Json) (dflt : UInt16) : UInt16 :=
  match o.item "run_state" with
  | some (.string s) => if s = "run" then motorRunRun else motorRunStop
  | some (.number q) => UInt16.ofNat (truncate q).toNat
  | _ => dflt

def overriddenPi (pi : Json) : PiConfig :=
  let d := configDefaults.pi
  let sc := pi.objectAt "scaling"
  { spiBus := pi.intField "spi_bus" d.spiBus
    spiDev := pi.intField "spi_dev" d.spiDev
    spiMode := pi.intField "spi_mode" d.spiMode
    spiClockHz := pi.uintField "spi_clock_hz" d.spiClockHz
    spiCpha := pi.intField "spi_cpha" d.spiCpha
    spiWordWidth := pi.intField "spi_word_width" d.spiWordWidth
    spiIdleInsert := pi.intField "spi_idle_insert" d.spiIdleInsert
    rtPriority := pi.intField "rt_priority" d.rtPriority
    datareadyPin := pi.intField "dataready_pin" d.datareadyPin
    currentScale := sc.scalingField "current_scale" d.currentScale
    currentOffset := sc.scalingField "current_offset" d.currentOffset
    vibScale := sc.scalingField "vib_scale" d.vibScale
    vibOffset := sc.scalingField "vib_offset" d.vibOffset
    rpmScale := sc.scalingField "rpm_scale" d.rpmScale
    rpmOffset := sc.scalingField "rpm_offset" d.rpmOffset }

/-- The defaults of the STM32 tier with the fields that are present; the only
source is the default one. -/
def overriddenStm (stm : Json) : ConfigPayload :=
  let d := configDefaults.stm
  { blockRows := (stm.uintField "block_rows" (UInt32.ofNat d.blockRows.toNat)).toUInt16
    reserved0 := d.reserved0
    source := d.source
    runState := stm.runState d.runState
    sampleRateHz := stm.uintField "sample_rate_hz" d.sampleRateHz
    imuRateHz := stm.uintField "imu_rate_hz" d.imuRateHz
    reserved := Vector.replicate 12 0 }

def overriddenConfig (root : Json) : FullConfig :=
  ⟨overriddenPi (root.objectAt "pi"), overriddenStm (root.objectAt "stm")⟩

/-! ## Field by field -/

theorem jInt_iff {o : Json} {name : String} {dst lo hi v : Int} :
    jInt o name dst lo hi false = some v ↔
      NumberField.Ok ⟨name, false, within lo hi⟩ o ∧ v = o.intField name dst := by
  unfold jInt NumberField.Ok Json.intField within
  cases o.item name with
  | none => simp [eq_comm]
  | some x =>
      cases x with
      | number q =>
          by_cases hrange : truncate q < lo ∨ hi < truncate q
          · simp [hrange]
            omega
          · have hok : lo ≤ truncate q ∧ truncate q ≤ hi := by omega
            simp [hrange, hok, eq_comm]
      | null => simp
      | bool b => simp
      | string s => simp
      | array items => simp
      | object members => simp

theorem truncate_nonneg {q : ℚ} (h : 0 ≤ q) : 0 ≤ truncate q :=
  Int.tdiv_nonneg (Rat.num_nonneg.mpr h) (Int.natCast_nonneg q.den)

theorem jUint_iff {o : Json} {name : String} {dst v : UInt32} {lo hi : Nat} :
    jUint o name dst lo hi false = some v ↔
      NumberField.Ok ⟨name, true, within lo hi⟩ o ∧ v = o.uintField name dst := by
  unfold jUint NumberField.Ok Json.uintField within
  cases o.item name with
  | none => simp [eq_comm]
  | some x =>
      cases x with
      | number q =>
          by_cases hneg : q < 0
          · simp [hneg, Rat.not_le.mpr hneg]
          · have hpos : 0 ≤ q := Rat.not_lt.mp hneg
            have htrunc := truncate_nonneg hpos
            by_cases hrange : (truncate q).toNat < lo ∨ hi < (truncate q).toNat
            · have hbad : ¬ ((lo : Int) ≤ truncate q ∧ truncate q ≤ hi) := by omega
              simp only [hneg, if_false, hrange, if_true, reduceCtorEq, Option.mem_def,
                Option.some.injEq, false_iff, not_and]
              intro hok
              obtain ⟨q', hq, -, hwithin⟩ := hok _ rfl
              cases hq
              exact absurd hwithin hbad
            · have hok : (lo : Int) ≤ truncate q ∧ truncate q ≤ hi := by omega
              simp only [if_neg hneg, if_neg hrange]
              simp [hpos, hok, @eq_comm _ v]
      | null => simp
      | bool b => simp
      | string s => simp
      | array items => simp
      | object members => simp

theorem jFloat_iff {o : Json} {name : String} {dst v : ℚ} :
    jFloat o name dst (-1000000) 1000000 false = some v ↔
      ScalingOk o name ∧ v = o.scalingField name dst := by
  unfold jFloat ScalingOk Json.scalingField
  cases o.item name with
  | none => simp [eq_comm]
  | some x =>
      cases x with
      | number q =>
          by_cases hrange : q < -1000000 ∨ 1000000 < q
          · have hbad : ¬ (-1000000 ≤ q ∧ q ≤ 1000000) := by
              rintro ⟨hlo, hhi⟩
              rcases hrange with hlt | hlt
              · exact Rat.not_le.mpr hlt hlo
              · exact Rat.not_le.mpr hlt hhi
            simp [hrange, hbad]
          · obtain ⟨hlo, hhi⟩ := not_or.mp hrange
            simp [hrange, Rat.not_lt.mp hlo, Rat.not_lt.mp hhi, eq_comm]
      | null => simp
      | bool b => simp
      | string s => simp
      | array items => simp
      | object members => simp

theorem jSource_iff {o : Json} {v : UInt16} :
    jSource o motorSourceAdc = some v ↔ SourceOk o ∧ v = motorSourceAdc := by
  unfold jSource SourceOk
  cases o.item "source" with
  | none => simp [eq_comm]
  | some x =>
      cases x with
      | string s =>
          by_cases hs : s = "adc"
          · simp [hs, eq_comm]
          · simp [hs]
      | number q =>
          by_cases hq : truncate q = motorSourceAdc.toNat
          · simp [hq, eq_comm]
          · simp [hq]
      | null => simp
      | bool b => simp
      | array items => simp
      | object members => simp

theorem jRunState_iff {o : Json} {dst v : UInt16} :
    jRunState o dst = some v ↔ RunStateOk o ∧ v = o.runState dst := by
  unfold jRunState RunStateOk Json.runState
  cases o.item "run_state" with
  | none => simp [eq_comm]
  | some x =>
      cases x with
      | string s =>
          by_cases hrun : s = "run"
          · simp [hrun, eq_comm]
          · by_cases hstop : s = "stop"
            · simp [hstop, eq_comm]
            · simp [hrun, hstop]
      | number q =>
          by_cases hbad : truncate q ≠ 0 ∧ truncate q ≠ 1
          · simp [hbad]
          · have hok : truncate q = 0 ∨ truncate q = 1 := by omega
            simp only [if_neg hbad]
            simp [hok, @eq_comm _ v]
      | null => simp
      | bool b => simp
      | array items => simp
      | object members => simp

/-! ## Section by section -/

theorem exists_field {α : Type} {P : Prop} {x : α} {Q : α → Prop} :
    (∃ a, (P ∧ a = x) ∧ Q a) ↔ P ∧ Q x := by
  constructor
  · rintro ⟨a, ⟨hp, rfl⟩, hq⟩
    exact ⟨hp, hq⟩
  · rintro ⟨hp, hq⟩
    exact ⟨x, ⟨hp, rfl⟩, hq⟩

theorem loadSection_eq {α : Type} {root : Json} {name : String} {load : Json → α → Option α}
    {d : α} (hempty : load (.object []) d = some d) :
    loadSection root name load d = load (root.objectAt name) d := by
  unfold loadSection Json.objectAt
  cases root.item name with
  | none => exact hempty.symm
  | some s =>
      dsimp only
      cases hobj : s.isObject with
      | true => rfl
      | false => exact hempty.symm

theorem loadScaling_iff {sc : Json} {d p : PiConfig} :
    loadScaling sc d = some p ↔ (∀ name ∈ scalingFields, ScalingOk sc name) ∧
      p = { d with
        currentScale := sc.scalingField "current_scale" d.currentScale
        currentOffset := sc.scalingField "current_offset" d.currentOffset
        vibScale := sc.scalingField "vib_scale" d.vibScale
        vibOffset := sc.scalingField "vib_offset" d.vibOffset
        rpmScale := sc.scalingField "rpm_scale" d.rpmScale
        rpmOffset := sc.scalingField "rpm_offset" d.rpmOffset } := by
  simp only [loadScaling, bind, Option.bind_eq_some_iff, jFloat_iff, exists_field]
  simp only [scalingFields, List.forall_mem_cons, List.not_mem_nil, false_implies, implies_true,
    and_true, and_assoc, Option.some.injEq, @eq_comm _ _ p]

theorem wordWidth_iff {o : Json} {v : Int} (hv : v = o.intField "spi_word_width" 8) :
    NumberField.Ok ⟨"spi_word_width", false, within 8 32⟩ o ∧ ¬ (v ≠ 8 ∧ v ≠ 16 ∧ v ≠ 32) ↔
      NumberField.Ok ⟨"spi_word_width", false, fun v => v = 8 ∨ v = 16 ∨ v = 32⟩ o := by
  subst hv
  unfold NumberField.Ok Json.intField within
  cases o.item "spi_word_width" with
  | none => simp
  | some x =>
      cases x with
      | number q =>
          simp
          omega
      | null => simp
      | bool b => simp
      | string s => simp
      | array items => simp
      | object members => simp

/-- A rate passes range and lower bound when it is 0 or in the range of the rule. -/
theorem rate_iff {o : Json} {name : String} {dst v : UInt32} {lo hi : Nat} (hlo : 0 < lo)
    (hle : lo ≤ hi) (hhi : hi < 2 ^ 32) (hdst : lo ≤ dst.toNat) (hv : v = o.uintField name dst) :
    NumberField.Ok ⟨name, true, within (0 : Nat) hi⟩ o ∧ ¬ (v ≠ 0 ∧ v < UInt32.ofNat lo) ↔
      NumberField.Ok ⟨name, true, fun v => v = 0 ∨ within lo hi v⟩ o := by
  subst hv
  have hsmall : lo < 2 ^ 32 := by omega
  unfold NumberField.Ok Json.uintField within
  cases o.item name with
  | none =>
      have hlow : ¬ dst < UInt32.ofNat lo := by
        rw [UInt32.lt_iff_toNat_lt, UInt32.toNat_ofNat_of_lt' hsmall]
        omega
      simp [hlow]
  | some x =>
      cases x with
      | number q =>
          have hword : truncate q ≤ hi → (UInt32.ofNat (truncate q).toNat).toNat = (truncate q).toNat :=
            fun h => UInt32.toNat_ofNat_of_lt' (show (truncate q).toNat < 2 ^ 32 by omega)
          simp only [Option.mem_def, Option.some.injEq, forall_eq', Json.number.injEq,
            exists_eq_left', forall_const, ne_eq, UInt32.lt_iff_toNat_lt, ← UInt32.toNat_inj,
            UInt32.toNat_ofNat_of_lt' hsmall, UInt32.toNat_zero]
          constructor
          · rintro ⟨⟨hpos, hnonneg, hle'⟩, hlow⟩
            rw [hword hle'] at hlow
            exact ⟨hpos, by omega⟩
          · rintro ⟨hpos, hrange⟩
            have htop : truncate q ≤ hi := by omega
            rw [hword htop]
            exact ⟨⟨hpos, truncate_nonneg hpos, htop⟩, by omega⟩
      | null => simp
      | bool b => simp
      | string s => simp
      | array items => simp
      | object members => simp

theorem loadScaling_empty (d : PiConfig) : loadScaling (.object []) d = some d := rfl

theorem loadPi_iff {o : Json} {p : PiConfig} :
    loadPi o configDefaults.pi = some p ↔
      ((∀ f ∈ piFields, f.Ok o) ∧
        ∀ name ∈ scalingFields, ScalingOk (o.objectAt "scaling") name) ∧ p = overriddenPi o := by
  simp only [loadPi, bind, Option.bind_eq_some_iff, jInt_iff, jUint_iff, exists_field,
    loadSection_eq (loadScaling_empty _), Option.ite_none_left_eq_some, loadScaling_iff]
  simp only [piFields, List.forall_mem_cons, List.not_mem_nil, false_implies, implies_true,
    and_true, ← wordWidth_iff rfl]
  constructor
  · rintro ⟨h₁, h₂, h₃, h₄, h₅, h₆, h₇, h₈, h₉, hwidth, hscaling, rfl⟩
    exact ⟨⟨⟨h₁, h₂, h₃, h₄, h₅, ⟨h₆, hwidth⟩, h₇, h₈, h₉⟩, hscaling⟩, rfl⟩
  · rintro ⟨⟨⟨h₁, h₂, h₃, h₄, h₅, ⟨h₆, hwidth⟩, h₇, h₈, h₉⟩, hscaling⟩, rfl⟩
    exact ⟨h₁, h₂, h₃, h₄, h₅, h₆, h₇, h₈, h₉, hwidth, hscaling, rfl⟩

theorem loadStm_iff {o : Json} {p : ConfigPayload} :
    loadStm o configDefaults.stm = some p ↔
      ((∀ f ∈ stmFields, f.Ok o) ∧ SourceOk o ∧ RunStateOk o) ∧ p = overriddenStm o := by
  have hsample := @rate_iff o "sample_rate_hz" configDefaults.stm.sampleRateHz _ 100 100000
    (by decide) (by decide) (by decide) (by decide) rfl
  have himu := @rate_iff o "imu_rate_hz" configDefaults.stm.imuRateHz _ 10 1000
    (by decide) (by decide) (by decide) (by decide) rfl
  have hsource : ∀ v, jSource o configDefaults.stm.source = some v ↔
      SourceOk o ∧ v = configDefaults.stm.source := fun _ => jSource_iff
  simp only [loadStm, bind, Option.bind_eq_some_iff, jUint_iff, hsource, jRunState_iff,
    exists_field, Option.ite_none_left_eq_some]
  simp only [stmFields, List.forall_mem_cons, List.not_mem_nil, false_implies, implies_true,
    and_true]
  constructor
  · rintro ⟨hrows, hsrc, hrun, hs, hslow, hi, hilow, hp⟩
    obtain rfl := Option.some.inj hp
    exact ⟨⟨⟨hrows, hsample.mp ⟨hs, hslow⟩, himu.mp ⟨hi, hilow⟩⟩, hsrc, hrun⟩, rfl⟩
  · rintro ⟨⟨⟨hrows, hs, hi⟩, hsrc, hrun⟩, rfl⟩
    obtain ⟨hs, hslow⟩ := hsample.mpr hs
    obtain ⟨hi, hilow⟩ := himu.mpr hi
    exact ⟨hrows, hsrc, hrun, hs, hslow, hi, hilow, rfl⟩

theorem configLoadFile_iff {doc : Option Json} {cfg : FullConfig} :
    configLoadFile doc = some cfg ↔
      ∃ root, doc = some root ∧ ConfigAccepted root ∧ cfg = overriddenConfig root := by
  have hpi : loadPi (.object []) configDefaults.pi = some configDefaults.pi := rfl
  have hstm : loadStm (.object []) configDefaults.stm = some configDefaults.stm := rfl
  simp only [configLoadFile, bind, Option.bind_eq_some_iff, loadSection_eq hpi,
    loadSection_eq hstm, loadPi_iff, loadStm_iff, exists_field]
  constructor
  · rintro ⟨root, rfl, ⟨hfields, hscaling⟩, ⟨hstmfields, hsource, hrun⟩, hcfg⟩
    obtain rfl := Option.some.inj hcfg
    exact ⟨root, rfl, ⟨hfields, hscaling, hstmfields, hsource, hrun⟩, rfl⟩
  · rintro ⟨root, rfl, h, rfl⟩
    exact ⟨root, rfl, ⟨h.pi, h.scaling⟩, ⟨h.stm, h.source, h.runState⟩, rfl⟩

/-! ## All or nothing -/

/-- `config_load_file`'s result and `*out`, which was `out` before. -/
def configLoadFileInto (doc : Option Json) (out : FullConfig) : Int × FullConfig :=
  match configLoadFile doc with
  | some cfg => (0, cfg)
  | none => (-1, out)

/-- A document that obeys the rule is loaded as the defaults with its fields;
any other leaves `*out`, and a reload of it the whole controller, as they were. -/
theorem config_load_exact (doc : Option Json) :
    (∀ root, doc = some root → ConfigAccepted root →
      (overriddenConfig root).stm.reserved = Vector.replicate 12 0 ∧
      ∀ out, configLoadFileInto doc out = (0, overriddenConfig root)) ∧
    ((∀ root, doc = some root → ¬ ConfigAccepted root) →
      (∀ out, configLoadFileInto doc out = (-1, out)) ∧
      ∀ env c, handleReload doc env c = ⟨-1, c, []⟩) := by
  constructor
  · rintro root rfl h
    refine ⟨rfl, fun out => ?_⟩
    have hload := configLoadFile_iff.mpr ⟨root, rfl, h, rfl⟩
    simp only [configLoadFileInto, hload]
  · intro hbad
    have hload : configLoadFile doc = none := by
      cases hsome : configLoadFile doc with
      | none => rfl
      | some cfg =>
          obtain ⟨root, hdoc, h, -⟩ := configLoadFile_iff.mp hsome
          exact absurd h (hbad root hdoc)
    refine ⟨fun out => ?_, fun env c => ?_⟩
    · simp only [configLoadFileInto, hload]
    · simp only [handleReload, hload]

/-- A hundred rows are loaded, and without a file nothing is. -/
theorem config_load_exact_rows :
    (∀ out, configLoadFileInto (some (blockRowsDoc 100)) out =
      (0, overriddenConfig (blockRowsDoc 100))) ∧
    ∀ out, configLoadFileInto none out = (-1, out) := by
  obtain ⟨root, hroot, haccepted, -⟩ :=
    configLoadFile_iff.mp (load_blockRowsDoc (n := 100) (by decide) (by decide))
  obtain rfl := Option.some.inj hroot
  exact ⟨((config_load_exact _).1 _ rfl haccepted).2, ((config_load_exact none).2 (by simp)).1⟩

end QnxHypervisor.MotorController
