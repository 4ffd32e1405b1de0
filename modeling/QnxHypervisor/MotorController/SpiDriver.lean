import QnxHypervisor.Foundation.Machine
import QnxHypervisor.MotorController.SpiConf

/-! # Keeping spi-dwc in step with spi.conf

`spi_apply_conf` compares the wanted values with the file, renames the
rewritten file into place and only then restarts the driver. The driver is
represented by the text it was started from, and every call that can fail is
answered from outside.
-/

namespace QnxHypervisor.MotorController

open Foundation

/-! ## Source functions -/

/-- How the respawn ends. The command is put in the background, so `system`
reports 0 also for a driver that exits right away. -/
inductive Respawn where
  | runs
  | exits
  | refused
  deriving DecidableEq

/-- `system`'s value for the respawn command. -/
def Respawn.rc : Respawn → Int
  | .refused => 1
  | _ => 0

structure SpiEnv where
  /-- `fopen` in `read_current_kv`, by key -/
  canRead : Bytes → Bool
  rewrite : RewriteEnv
  /-- `slay` ended the running driver -/
  slain : Bool
  respawn : Respawn

structure SpiSystem where
  conf : Bytes
  /-- the spi.conf the running spi-dwc was started from -/
  driver : Option Bytes
  /-- the outcome of the last restart -/
  restart : Option Respawn

/-- `bounce_spi_dwc`. The result of `slay` is ignored. -/
def bounceSpiDwc (env : SpiEnv) (s : SpiSystem) : Int × SpiSystem :=
  let left := if env.slain then none else s.driver
  let driver := if env.respawn = .runs then some s.conf else left
  (if env.respawn.rc ≠ 0 then -1 else 0, { s with driver, restart := some env.respawn })

/-- The file already holds the value. -/
def Holds (env : SpiEnv) (conf : Bytes) (e : SpiKv) : Prop :=
  readCurrentKv (env.canRead e.key) conf e.key = some e.val

instance (env : SpiEnv) (conf : Bytes) (e : SpiKv) : Decidable (Holds env conf e) :=
  inferInstanceAs (Decidable (_ = _))

/-- `any_diff`: some key differs or cannot be read. -/
def anyDiff (env : SpiEnv) (pi : PiConfig) (conf : Bytes) : Bool :=
  (spiWant pi).any fun e => decide (¬ Holds env conf e)

/-- The result of `spi_apply_conf` and whether it came to a restart. -/
structure SpiApplied where
  rc : Int
  sys : SpiSystem
  bounced : Bool

def spiApplyConf (env : SpiEnv) (pi : PiConfig) (s : SpiSystem) : SpiApplied :=
  if anyDiff env pi s.conf then
    let rewritten := rewriteSpiConf env.rewrite (spiWant pi) s.conf
    let s := { s with conf := rewritten.2 }
    if rewritten.1 ≠ 0 then ⟨-1, s, false⟩
    else
      let bounced := bounceSpiDwc env s
      if bounced.1 ≠ 0 then ⟨-1, bounced.2, true⟩ else ⟨0, bounced.2, true⟩
  else ⟨0, s, false⟩

/-! ## Sequences of calls -/

structure SpiCall where
  pi : PiConfig
  env : SpiEnv

def spiStep (s : SpiSystem) (c : SpiCall) : Option SpiSystem :=
  some (spiApplyConf c.env c.pi s).sys

/-- A driver started from the current spi.conf. -/
structure SpiStart (s : SpiSystem) : Prop where
  driver : s.driver = some s.conf
  restart : s.restart = none

def spiMachine : Machine SpiSystem SpiCall where
  initial := SpiStart
  step := spiStep

/-- The running driver was started from a file with the values of `pi`. -/
def StartedWith (pi : PiConfig) (s : SpiSystem) : Prop :=
  ∃ conf, s.driver = some conf ∧ ∀ e ∈ spiWant pi, readCurrentKv true conf e.key = some e.val

/-- The call tried to restart the driver and the restart was refused. -/
def RestartFailed (c : SpiCall) (s : SpiSystem) : Prop :=
  (spiApplyConf c.env c.pi s).bounced = true ∧ c.env.respawn = .refused

/-- Every call of `rewrite_spi_conf` succeeds. -/
structure RewriteEnv.AllOk (env : RewriteEnv) : Prop where
  openOk : env.openOk = true
  mkstempOk : env.mkstempOk = true
  fdopenOk : env.fdopenOk = true
  closeOk : env.closeOk = true
  renameOk : env.renameOk = true

theorem rewriteSpiConf_cases (env : RewriteEnv) (kv : List SpiKv) (conf : Bytes) :
    env.AllOk ∧ rewriteSpiConf env kv conf = (0, rewrittenConf kv conf) ∨
      ¬ env.AllOk ∧ rewriteSpiConf env kv conf = (-1, conf) := by
  rcases env with ⟨o, m, f, c, r⟩
  cases o
  · exact .inr ⟨fun h => Bool.noConfusion h.openOk, rfl⟩
  cases m
  · exact .inr ⟨fun h => Bool.noConfusion h.mkstempOk, rfl⟩
  cases f
  · exact .inr ⟨fun h => Bool.noConfusion h.fdopenOk, rfl⟩
  cases c
  · exact .inr ⟨fun h => Bool.noConfusion h.closeOk, rfl⟩
  cases r
  · exact .inr ⟨fun h => Bool.noConfusion h.renameOk, rfl⟩
  · exact .inl ⟨⟨rfl, rfl, rfl, rfl, rfl⟩, rfl⟩

theorem anyDiff_eq_false {env : SpiEnv} {pi : PiConfig} {conf : Bytes}
    (h : anyDiff env pi conf = false) :
    ∀ e ∈ spiWant pi, readCurrentKv true conf e.key = some e.val := by
  intro e he
  have hholds : Holds env conf e := by
    simpa using List.any_eq_false.mp h e he
  unfold Holds readCurrentKv at hholds
  split at hholds
  · simpa [readCurrentKv] using hholds
  · cases hholds

/-- The three ways through `spi_apply_conf`. -/
theorem spiApplyConf_cases (env : SpiEnv) (pi : PiConfig) (s : SpiSystem) :
    anyDiff env pi s.conf = false ∧ spiApplyConf env pi s = ⟨0, s, false⟩ ∨
    anyDiff env pi s.conf = true ∧ ¬ env.rewrite.AllOk ∧
      spiApplyConf env pi s = ⟨-1, s, false⟩ ∨
    anyDiff env pi s.conf = true ∧ env.rewrite.AllOk ∧
      spiApplyConf env pi s =
        ⟨if env.respawn = .refused then -1 else 0,
          (bounceSpiDwc env { s with conf := rewrittenConf (spiWant pi) s.conf }).2, true⟩ := by
  cases hdiff : anyDiff env pi s.conf with
  | false => exact .inl ⟨rfl, by simp [spiApplyConf, hdiff]⟩
  | true =>
      right
      rcases rewriteSpiConf_cases env.rewrite (spiWant pi) s.conf with ⟨hok, hrw⟩ | ⟨hok, hrw⟩
      · refine .inr ⟨rfl, hok, ?_⟩
        cases hr : env.respawn <;> simp [spiApplyConf, hdiff, hrw, bounceSpiDwc, hr, Respawn.rc]
      · exact .inl ⟨rfl, hok, by simp [spiApplyConf, hdiff, hrw]⟩

/-! ## When a zero result is true of the running driver -/

/-- The call gets as far as restarting the driver. -/
def Restarts (c : SpiCall) (s : SpiSystem) : Prop :=
  anyDiff c.env c.pi s.conf = true ∧ c.env.rewrite.AllOk

/-- A call that keeps driver and file together: a file found unchanged was not
left behind by a refused restart, and a restart reported as done runs on a file
with a line for each key. -/
structure InStep (s : SpiSystem) (c : SpiCall) : Prop where
  settled : anyDiff c.env c.pi s.conf = false → s.restart ≠ some .refused
  reported : Restarts c s → c.env.respawn ≠ .exits
  text : Restarts c s → c.env.respawn = .runs → (0 : UInt8) ∉ s.conf
  keys : Restarts c s → c.env.respawn = .runs → ∀ e ∈ spiWant c.pi, HasKey s.conf e.key

/-- Unless the last restart was refused, the driver runs on the file as it is. -/
def Synced (s : SpiSystem) : Prop := s.restart ≠ some .refused → s.driver = some s.conf

theorem bounceSpiDwc_synced {env : SpiEnv} (s : SpiSystem) (h : env.respawn ≠ .exits) :
    Synced (bounceSpiDwc env s).2 := by
  intro hrun
  cases hr : env.respawn with
  | runs => simp [bounceSpiDwc, hr]
  | exits => exact absurd hr h
  | refused => exact absurd (by simp [bounceSpiDwc, hr]) hrun

theorem synced_step {s s' : SpiSystem} {c : SpiCall} (hi : Synced s) (hok : InStep s c)
    (hs : spiStep s c = some s') : Synced s' := by
  obtain rfl := Option.some.inj hs
  rcases spiApplyConf_cases c.env c.pi s with ⟨-, h⟩ | ⟨-, -, h⟩ | ⟨hdiff, hall, h⟩
  · rwa [h]
  · rwa [h]
  · rw [h]
    exact bounceSpiDwc_synced _ (hok.reported ⟨hdiff, hall⟩)

theorem synced_reachable {s : SpiSystem} (h : spiMachine.ReachableBy InStep s) : Synced s :=
  h.invariant (fun _ hs _ => hs.driver) fun _ _ _ _ hi hok hs => synced_step hi hok hs

theorem startedWith_restarted {env : SpiEnv} {pi : PiConfig} {s : SpiSystem}
    (hrun : env.respawn = .runs) (htext : (0 : UInt8) ∉ s.conf)
    (hkeys : ∀ e ∈ spiWant pi, HasKey s.conf e.key) :
    StartedWith pi
      (bounceSpiDwc env { s with conf := rewrittenConf (spiWant pi) s.conf }).2 := by
  refine ⟨rewrittenConf (spiWant pi) s.conf, by simp [bounceSpiDwc, hrun], fun e he => ?_⟩
  exact readCurrentKv_rewrittenConf (spiWant_plain pi) htext he (hkeys e he)

/-- Whenever `spi_apply_conf` returns 0 the running driver was started from a
file with the values asked for, and after a refused restart the same values are
not reported as applied without another one. -/
theorem applied_values_run {s : SpiSystem} {c : SpiCall} (h : spiMachine.ReachableBy InStep s)
    (hok : InStep s c) :
    ((spiApplyConf c.env c.pi s).rc = 0 → StartedWith c.pi (spiApplyConf c.env c.pi s).sys) ∧
    ∀ c' : SpiCall, c'.pi = c.pi → RestartFailed c s → InStep (spiApplyConf c.env c.pi s).sys c' →
      (spiApplyConf c'.env c'.pi (spiApplyConf c.env c.pi s).sys).rc = 0 →
      (spiApplyConf c'.env c'.pi (spiApplyConf c.env c.pi s).sys).bounced = true := by
  constructor
  · intro hrc
    rcases spiApplyConf_cases c.env c.pi s with ⟨hdiff, h'⟩ | ⟨-, -, h'⟩ | ⟨hdiff, hall, h'⟩
    · rw [h']
      exact ⟨s.conf, synced_reachable h (hok.settled hdiff), anyDiff_eq_false hdiff⟩
    · rw [h'] at hrc
      simp at hrc
    · rw [h'] at hrc ⊢
      have hrun : c.env.respawn = .runs := by
        cases hr : c.env.respawn with
        | runs => rfl
        | exits => exact absurd hr (hok.reported ⟨hdiff, hall⟩)
        | refused => simp [hr] at hrc
      exact startedWith_restarted hrun (hok.text ⟨hdiff, hall⟩ hrun) (hok.keys ⟨hdiff, hall⟩ hrun)
  · intro c' _ hfailed hok' hrc
    rcases spiApplyConf_cases c'.env c'.pi (spiApplyConf c.env c.pi s).sys with
      ⟨hdiff, h'⟩ | ⟨-, -, h'⟩ | ⟨-, -, h'⟩
    · -- an unchanged file after the refused restart is what the guard excludes
      refine absurd ?_ (hok'.settled hdiff)
      rcases spiApplyConf_cases c.env c.pi s with ⟨-, hc⟩ | ⟨-, -, hc⟩ | ⟨-, -, hc⟩
      · exact absurd hfailed.1 (by simp [hc])
      · exact absurd hfailed.1 (by simp [hc])
      · rw [hc]
        simp [bounceSpiDwc, hfailed.2]
    · rw [h'] at hrc
      simp at hrc
    · rw [h']

/-! ## The defect -/

def sampleSpiConf : Bytes := utf8 "clock_rate=4000000\ncpha=0\nword_width=8\nidle_insert=0\n"

/-- The driver as it was started from the sample file. -/
def sampleSpi : SpiSystem := ⟨sampleSpiConf, some sampleSpiConf, none⟩

def slowPi : PiConfig := { configDefaults.pi with spiClockHz := 1000000 }

def respawnEnv (respawn : Respawn) : SpiEnv where
  canRead := fun _ => true
  rewrite := ⟨true, true, true, true, true⟩
  slain := true
  respawn := respawn

theorem applied_values_run_slow :
    StartedWith slowPi (spiApplyConf (respawnEnv .runs) slowPi sampleSpi).sys :=
  (applied_values_run (c := ⟨slowPi, respawnEnv .runs⟩) (.initial ⟨rfl, rfl⟩)
    ⟨fun _ => by decide, fun _ => by decide, fun _ _ => by decide,
      fun _ _ => by unfold HasKey; decide⟩).1 (by decide)

/-- The respawn is refused after the file was renamed; the next call finds the
file as wanted and reports success with no driver running. -/
theorem unrestarted_driver_reported :
    ¬ ∀ (s : SpiSystem) (c : SpiCall), spiMachine.Reachable s →
      (spiApplyConf c.env c.pi s).rc = 0 → StartedWith c.pi (spiApplyConf c.env c.pi s).sys := by
  intro hall
  let c : SpiCall := ⟨slowPi, respawnEnv .refused⟩
  have hreach : spiMachine.Reachable (spiApplyConf c.env c.pi sampleSpi).sys :=
    .step (e := c) (.initial ⟨rfl, rfl⟩) trivial rfl
  obtain ⟨conf, hdriver, -⟩ := hall _ c hreach (by decide)
  have hnone : (spiApplyConf c.env c.pi (spiApplyConf c.env c.pi sampleSpi).sys).sys.driver = none :=
    by decide
  rw [hnone] at hdriver
  cases hdriver

end QnxHypervisor.MotorController
