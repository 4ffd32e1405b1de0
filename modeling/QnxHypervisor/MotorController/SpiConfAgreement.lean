import QnxHypervisor.MotorController.SpiDriver

/-! # Whether spi.conf agrees after a call

`spi_apply_conf` against its contract: the four keys read back as wanted, and a
repeated call finds nothing to do. The rewrite replaces lines and adds none, so
both hold of exactly the files that have a line for each key.
-/

namespace QnxHypervisor.MotorController

open Foundation

/-! ## The contract -/

/-- After a call that succeeds the keys read back as wanted, and repeated at once,
with a file that can be opened, the call neither rewrites it nor restarts the
driver, whatever a rewrite or a restart would have come to. -/
def ApplyAgrees (env : SpiEnv) (pi : PiConfig) (s : SpiSystem) : Prop :=
  (spiApplyConf env pi s).rc = 0 →
    (∀ e ∈ spiWant pi, readCurrentKv true (spiApplyConf env pi s).sys.conf e.key = some e.val) ∧
    ∀ env', (∀ e ∈ spiWant pi, env'.canRead e.key = true) →
      spiApplyConf env' pi (spiApplyConf env pi s).sys = ⟨0, (spiApplyConf env pi s).sys, false⟩

theorem hasKey_of_read {conf key : Bytes} {v : UInt32}
    (h : readCurrentKv true conf key = some v) : HasKey conf key := by
  rw [readCurrentKv, if_pos rfl] at h
  obtain ⟨line, hline, -⟩ := Option.map_eq_some_iff.mp h
  exact ⟨line, List.mem_of_find?_eq_some hline, List.find?_some hline⟩

theorem hasKey_of_rewritten {kv : List SpiKv} (hkv : PlainEntries kv) {conf : Bytes}
    (htext : (0 : UInt8) ∉ conf) {e : SpiKv} (he : e ∈ kv)
    (h : HasKey (rewrittenConf kv conf) e.key) : HasKey conf e.key := by
  obtain ⟨line, hline, hkey⟩ := h
  rw [linesOf_rewrittenConf hkv htext] at hline
  obtain ⟨old, hold, rfl⟩ := List.mem_map.mp hline
  rw [keyIn_rewriteLine hkv he fun hnul => htext (mem_of_mem_line hold hnul)] at hkey
  exact ⟨old, hold, hkey⟩

/-- A file that holds the wanted values is left alone. -/
theorem spiApplyConf_settled {env : SpiEnv} {pi : PiConfig} {s : SpiSystem}
    (hopens : ∀ e ∈ spiWant pi, env.canRead e.key = true)
    (hread : ∀ e ∈ spiWant pi, readCurrentKv true s.conf e.key = some e.val) :
    spiApplyConf env pi s = ⟨0, s, false⟩ := by
  have hsame : anyDiff env pi s.conf = false := by
    refine List.any_eq_false.mpr fun e he => ?_
    have hholds : Holds env s.conf e := by
      rw [Holds, hopens e he]
      exact hread e he
    simp [hholds]
  rcases spiApplyConf_cases env pi s with ⟨-, h⟩ | ⟨hdiff, -, -⟩ | ⟨hdiff, -, -⟩
  · exact h
  · rw [hsame] at hdiff
    cases hdiff
  · rw [hsame] at hdiff
    cases hdiff

/-- What a successful call on a file with all keys leaves in it. -/
theorem spiApplyConf_reads {env : SpiEnv} {pi : PiConfig} {s : SpiSystem}
    (htext : (0 : UInt8) ∉ s.conf) (hkeys : ∀ e ∈ spiWant pi, HasKey s.conf e.key)
    (hrc : (spiApplyConf env pi s).rc = 0) :
    ∀ e ∈ spiWant pi, readCurrentKv true (spiApplyConf env pi s).sys.conf e.key = some e.val := by
  rcases spiApplyConf_cases env pi s with ⟨hdiff, h⟩ | ⟨-, -, h⟩ | ⟨-, -, h⟩
  · rw [h]
    exact anyDiff_eq_false hdiff
  · rw [h] at hrc
    cases hrc
  · rw [h]
    exact fun e he => readCurrentKv_rewrittenConf (spiWant_plain pi) htext he (hkeys e he)

/-- The contract holds of every call on a text exactly when the text has a line
for each of the four keys. -/
theorem spi_conf_agreement_iff {conf : Bytes} (htext : (0 : UInt8) ∉ conf) (pi : PiConfig) :
    (∀ env s, s.conf = conf → ApplyAgrees env pi s) ↔ ∀ e ∈ spiWant pi, HasKey conf e.key := by
  constructor
  · intro hall e he
    let s : SpiSystem := ⟨conf, none, none⟩
    rcases spiApplyConf_cases (respawnEnv .runs) pi s with ⟨hdiff, -⟩ | ⟨-, hok, -⟩ | ⟨-, -, h⟩
    · exact hasKey_of_read (anyDiff_eq_false hdiff e he)
    · exact absurd ⟨rfl, rfl, rfl, rfl, rfl⟩ hok
    · have hread := (hall (respawnEnv .runs) s rfl (by rw [h]; rfl)).1 e he
      rw [h] at hread
      exact hasKey_of_rewritten (spiWant_plain pi) htext he (hasKey_of_read hread)
  · rintro hkeys env s rfl hrc
    have hread := spiApplyConf_reads htext hkeys hrc
    exact ⟨hread, fun env' hopens => spiApplyConf_settled hopens hread⟩

/-! ## The defect -/

theorem spi_conf_agrees_sample :
    ApplyAgrees (respawnEnv .runs) slowPi sampleSpi :=
  (@spi_conf_agreement_iff sampleSpiConf (by decide) slowPi).mpr
    (by unfold HasKey; decide) _ sampleSpi rfl

/-- A file without a line for the phase. -/
def shortSpi : SpiSystem := ⟨utf8 "clock_rate=4000000\n", none, none⟩

/-- A file without a line for `cpha` is reported as applied, has none afterwards,
and is rewritten again by the repeated call. -/
theorem missing_key_stays_missing :
    ¬ ∀ (env : SpiEnv) (pi : PiConfig) (s : SpiSystem), (0 : UInt8) ∉ s.conf →
      ApplyAgrees env pi s := by
  intro hall
  have hread := (hall (respawnEnv .runs) configDefaults.pi shortSpi (by decide) (by decide)).1
    ⟨utf8 "cpha", 0⟩ (List.mem_cons_of_mem _ List.mem_cons_self)
  exact absurd hread (by decide)

end QnxHypervisor.MotorController
