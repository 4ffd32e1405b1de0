import Mathlib.Data.Rat.Defs
import QnxHypervisor.MotorWire.Layout

/-! # Runtime configuration of the motor controller

`config.h` and the loader of `config.c`. A document is the JSON tree cJSON
built from the file; numbers are rationals, so the casts to `int` and
`uint32_t` are truncations toward zero, and the scaling constants stand for
values already rounded to `float`. Diagnostics go to stderr and are left out.
-/

namespace QnxHypervisor.MotorController

open Foundation MotorWire

/-! ## The two tiers -/

/-- `pi_config_t`: applied locally, never sent. -/
structure PiConfig where
  spiBus : Int
  spiDev : Int
  spiMode : Int
  spiClockHz : UInt32
  spiCpha : Int
  spiWordWidth : Int
  spiIdleInsert : Int
  rtPriority : Int
  datareadyPin : Int
  currentScale : ℚ
  currentOffset : ℚ
  vibScale : ℚ
  vibOffset : ℚ
  rpmScale : ℚ
  rpmOffset : ℚ
  deriving DecidableEq

/-- `full_config_t`: the local tier and the one mirrored to the STM32. -/
structure FullConfig where
  pi : PiConfig
  stm : ConfigPayload
  deriving DecidableEq

def configDefaults : FullConfig where
  pi :=
    { spiBus := 0, spiDev := 0, spiMode := 0, spiClockHz := 4000000, spiCpha := 0
      spiWordWidth := 8, spiIdleInsert := 0, rtPriority := 30, datareadyPin := 17
      currentScale := 1, currentOffset := 0, vibScale := 1, vibOffset := 0
      rpmScale := 1, rpmOffset := 0 }
  stm :=
    { blockRows := 200, reserved0 := 0, source := motorSourceAdc, runState := motorRunRun
      sampleRateHz := 20000, imuRateHz := 1000, reserved := Vector.replicate 12 0 }

/-! ## Differences -/

/-- `memcmp` over the packed payload. -/
def configStmDiffers (a b : ConfigPayload) : Bool := decide (a.toBytes ≠ b.toBytes)

theorem configStmDiffers_iff (a b : ConfigPayload) : configStmDiffers a b = true ↔ a ≠ b := by
  simp only [configStmDiffers, decide_eq_true_eq]
  exact not_congr ⟨ConfigPayload.toBytes_injective, congrArg _⟩

def configSpiWireDiffers (a b : PiConfig) : Bool :=
  decide (a.spiBus ≠ b.spiBus ∨ a.spiDev ≠ b.spiDev ∨ a.spiMode ≠ b.spiMode ∨
    a.spiClockHz ≠ b.spiClockHz ∨ a.spiCpha ≠ b.spiCpha ∨ a.spiWordWidth ≠ b.spiWordWidth ∨
    a.spiIdleInsert ≠ b.spiIdleInsert)

/-! ## JSON helpers -/

inductive Json where
  | null
  | bool (b : Bool)
  | number (q : ℚ)
  | string (s : String)
  | array (items : List Json)
  | object (members : List (String × Json))

/-- `cJSON_GetObjectItemCaseSensitive`: the first member of that name. -/
def Json.item (name : String) : Json → Option Json
  | .object members => (members.find? fun m => m.1 = name).map (·.2)
  | _ => none

def Json.isObject : Json → Bool
  | .object _ => true
  | _ => false

/-- A C cast of a floating value to an integer type. -/
def truncate (q : ℚ) : Int := q.num.tdiv q.den

/-- A missing member keeps `dst` unless it is required. -/
def jInt (root : Json) (name : String) (dst lo hi : Int) (required : Bool) : Option Int :=
  match root.item name with
  | none => if required then none else some dst
  | some (.number q) =>
      let v := truncate q
      if v < lo ∨ hi < v then none else some v
  | some _ => none

def jUint (root : Json) (name : String) (dst : UInt32) (lo hi : Nat) (required : Bool) :
    Option UInt32 :=
  match root.item name with
  | none => if required then none else some dst
  | some (.number q) =>
      if q < 0 then none
      else
        let v := (truncate q).toNat
        if v < lo ∨ hi < v then none else some (UInt32.ofNat v)
  | some _ => none

def jFloat (root : Json) (name : String) (dst lo hi : ℚ) (required : Bool) : Option ℚ :=
  match root.item name with
  | none => if required then none else some dst
  | some (.number q) => if q < lo ∨ hi < q then none else some q
  | some _ => none

/-- `"adc"` or its number; `"synth"` is refused since schema v2. -/
def jSource (root : Json) (dst : UInt16) : Option UInt16 :=
  match root.item "source" with
  | none => some dst
  | some (.string s) => if s = "adc" then some motorSourceAdc else none
  | some (.number q) =>
      if truncate q ≠ motorSourceAdc.toNat then none else some motorSourceAdc
  | some _ => none

def jRunState (root : Json) (dst : UInt16) : Option UInt16 :=
  match root.item "run_state" with
  | none => some dst
  | some (.string s) =>
      if s = "run" then some motorRunRun else if s = "stop" then some motorRunStop else none
  | some (.number q) =>
      let v := truncate q
      if v ≠ 0 ∧ v ≠ 1 then none else some (UInt16.ofNat v.toNat)
  | some _ => none

/-! ## Loader -/

/-- Run `load` on an optional section that counts only when it is an object. -/
def loadSection {α : Type} (root : Json) (name : String) (load : Json → α → Option α) (d : α) :
    Option α :=
  match root.item name with
  | none => some d
  | some s => if s.isObject then load s d else some d

def loadScaling (sc : Json) (d : PiConfig) : Option PiConfig := do
  let currentScale ← jFloat sc "current_scale" d.currentScale (-1000000) 1000000 false
  let currentOffset ← jFloat sc "current_offset" d.currentOffset (-1000000) 1000000 false
  let vibScale ← jFloat sc "vib_scale" d.vibScale (-1000000) 1000000 false
  let vibOffset ← jFloat sc "vib_offset" d.vibOffset (-1000000) 1000000 false
  let rpmScale ← jFloat sc "rpm_scale" d.rpmScale (-1000000) 1000000 false
  let rpmOffset ← jFloat sc "rpm_offset" d.rpmOffset (-1000000) 1000000 false
  some { d with currentScale, currentOffset, vibScale, vibOffset, rpmScale, rpmOffset }

def loadPi (pi : Json) (d : PiConfig) : Option PiConfig := do
  let spiBus ← jInt pi "spi_bus" d.spiBus 0 7 false
  let spiDev ← jInt pi "spi_dev" d.spiDev 0 7 false
  let spiMode ← jInt pi "spi_mode" d.spiMode 0 3 false
  let spiClockHz ← jUint pi "spi_clock_hz" d.spiClockHz 100000 50000000 false
  let spiCpha ← jInt pi "spi_cpha" d.spiCpha 0 1 false
  let spiWordWidth ← jInt pi "spi_word_width" d.spiWordWidth 8 32 false
  let spiIdleInsert ← jInt pi "spi_idle_insert" d.spiIdleInsert 0 1 false
  let rtPriority ← jInt pi "rt_priority" d.rtPriority 1 63 false
  let datareadyPin ← jInt pi "dataready_pin" d.datareadyPin 0 27 false
  -- the range check alone leaves widths such as 13 reachable
  if spiWordWidth ≠ 8 ∧ spiWordWidth ≠ 16 ∧ spiWordWidth ≠ 32 then none
  else
    loadSection pi "scaling" loadScaling
      { d with
        spiBus, spiDev, spiMode, spiClockHz, spiCpha, spiWordWidth, spiIdleInsert
        rtPriority, datareadyPin }

def loadStm (stm : Json) (d : ConfigPayload) : Option ConfigPayload := do
  let br ← jUint stm "block_rows" (UInt32.ofNat d.blockRows.toNat) 1 motorMaxRowsPerBlock false
  let source ← jSource stm d.source
  let runState ← jRunState stm d.runState
  let sampleRateHz ← jUint stm "sample_rate_hz" d.sampleRateHz 0 100000 false
  if sampleRateHz ≠ 0 ∧ sampleRateHz < 100 then none
  else
    let imuRateHz ← jUint stm "imu_rate_hz" d.imuRateHz 0 1000 false
    if imuRateHz ≠ 0 ∧ imuRateHz < 10 then none
    else some { d with blockRows := br.toUInt16, source, runState, sampleRateHz, imuRateHz }

/-- `config_load_file`. `none` as document: the file could not be opened, read
or parsed. `none` as result: -1, and the caller's configuration is untouched. -/
def configLoadFile (doc : Option Json) : Option FullConfig := do
  let root ← doc
  let pi ← loadSection root "pi" loadPi configDefaults.pi
  let stm ← loadSection root "stm" loadStm configDefaults.stm
  some { pi, stm := stm.zeroReserved }

/-! ## What a loaded payload satisfies -/

theorem jUint_range {root : Json} {name : String} {dst v : UInt32} {lo hi : Nat}
    {required : Bool} (hhi : hi < 2 ^ 32) (h : jUint root name dst lo hi required = some v) :
    v = dst ∨ (lo ≤ v.toNat ∧ v.toNat ≤ hi) := by
  unfold jUint at h
  split at h
  · split at h <;> simp_all
  · rename_i q _
    split at h
    · cases h
    · dsimp only at h
      split at h
      · cases h
      · rename_i hrange
        obtain rfl := Option.some.inj h
        right
        rw [UInt32.toNat_ofNat_of_lt' (show (truncate q).toNat < 2 ^ 32 by omega)]
        omega
  · cases h

/-- Payloads the controller may queue: reserved bytes zero, a row count that
fits a frame. -/
structure StmPayloadOk (p : ConfigPayload) : Prop where
  reserved : p.reserved = Vector.replicate 12 0
  rows_pos : 1 ≤ p.blockRows.toNat
  rows_le : p.blockRows.toNat ≤ motorMaxRowsPerBlock

theorem StmPayloadOk.zeroReserved {p : ConfigPayload} (h : StmPayloadOk p) :
    p.zeroReserved = p := by
  cases p
  simp_all [ConfigPayload.zeroReserved, h.reserved.symm]

theorem configDefaults_stm_ok : StmPayloadOk configDefaults.stm :=
  ⟨rfl, by decide, by decide⟩

theorem loadStm_rows {stm : Json} {d p : ConfigPayload} (hd : StmPayloadOk d)
    (h : loadStm stm d = some p) :
    1 ≤ p.blockRows.toNat ∧ p.blockRows.toNat ≤ motorMaxRowsPerBlock := by
  simp only [loadStm, bind, Option.bind_eq_some_iff] at h
  obtain ⟨br, hbr, source, -, runState, -, rate, -, h⟩ := h
  have hrows : p.blockRows = br.toUInt16 := by
    split at h
    · cases h
    · simp only [Option.bind_eq_some_iff] at h
      obtain ⟨imu, -, h⟩ := h
      split at h
      · cases h
      · rw [← Option.some.inj h]
  have hrange : 1 ≤ br.toNat ∧ br.toNat ≤ motorMaxRowsPerBlock := by
    rcases jUint_range (by decide) hbr with rfl | hr
    · have hlt := d.blockRows.toNat_lt
      rw [UInt32.toNat_ofNat_of_lt' (show d.blockRows.toNat < 2 ^ 32 by omega)]
      exact ⟨hd.rows_pos, hd.rows_le⟩
    · exact hr
  have hsmall : motorMaxRowsPerBlock < 2 ^ 16 := by decide
  rw [hrows, UInt32.toNat_toUInt16, Nat.mod_eq_of_lt (by omega)]
  exact hrange

/-- Every accepted document yields a payload with zero reserved bytes whose
block fits a frame. -/
theorem configLoadFile_stm_ok {doc : Option Json} {c : FullConfig}
    (h : configLoadFile doc = some c) : StmPayloadOk c.stm := by
  simp only [configLoadFile, bind, Option.bind_eq_some_iff] at h
  obtain ⟨root, -, pi, -, stm, hstm, h⟩ := h
  rw [← Option.some.inj h]
  have hrows : 1 ≤ stm.blockRows.toNat ∧ stm.blockRows.toNat ≤ motorMaxRowsPerBlock := by
    unfold loadSection at hstm
    split at hstm
    · rw [← Option.some.inj hstm]
      decide
    · split at hstm
      · exact loadStm_rows configDefaults_stm_ok hstm
      · rw [← Option.some.inj hstm]
        decide
  exact ⟨rfl, hrows.1, hrows.2⟩

end QnxHypervisor.MotorController
