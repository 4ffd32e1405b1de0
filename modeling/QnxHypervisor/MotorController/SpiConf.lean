import Mathlib.Data.List.Find
import Mathlib.Data.List.Nodup
import QnxHypervisor.Foundation.Text
import QnxHypervisor.MotorController.Config

/-! # The spi.conf rewrite

`spi-dwc` takes clock rate, phase, word width and idle insertion from
`/system/etc/spi.conf` only, so `config.c` edits that file and restarts the
driver. This file has the text side: reading one key, rewriting the lines of
given keys, and what a rewritten file reads back as. Write failures surface at
`fclose`; diagnostics go to stderr and are left out.
-/

namespace QnxHypervisor.MotorController

open Foundation

/-! ## Source functions -/

/-- `spi_kv_t`. -/
structure SpiKv where
  key : Bytes
  val : UInt32

/-- `char line[256]` holds 255 bytes of a line. -/
def spiLineRoom : Nat := 255

/-- `read_current_kv`: the first line of that key. `opened` is `fopen`'s answer. -/
def readCurrentKv (opened : Bool) (conf key : Bytes) : Option UInt32 :=
  if opened then
    ((linesOf spiLineRoom conf).find? (keyIn key)).map fun line =>
      (strtoul ((lineText line).drop (key.length + 1))).toUInt32
  else none

/-- One pass of the copy loop: the first entry whose key the line bears replaces it. -/
def rewriteLine (kv : List SpiKv) (line : Bytes) : Bytes :=
  match kv.find? fun e => keyIn e.key line with
  | some e => keyLine e.key (decimal e.val.toNat)
  | none => cString line

/-- `hit[16]` bounds the entries that are looked at. -/
def rewrittenConf (kv : List SpiKv) (conf : Bytes) : Bytes :=
  ((linesOf spiLineRoom conf).map (rewriteLine (kv.take 16))).flatten

/-- What the calls of `rewrite_spi_conf` answer. -/
structure RewriteEnv where
  openOk : Bool
  mkstempOk : Bool
  fdopenOk : Bool
  closeOk : Bool
  renameOk : Bool

/-- `rewrite_spi_conf`: its result and the file left under the name. -/
def rewriteSpiConf (env : RewriteEnv) (kv : List SpiKv) (conf : Bytes) : Int × Bytes :=
  if ¬ env.openOk then (-1, conf)
  else if ¬ env.mkstempOk then (-1, conf)
  else if ¬ env.fdopenOk then (-1, conf)
  else if ¬ env.closeOk then (-1, conf)
  else if ¬ env.renameOk then (-1, conf)
  else (0, rewrittenConf kv conf)

/-- The values `spi_apply_conf` wants in the file. -/
def spiWant (pi : PiConfig) : List SpiKv :=
  [⟨utf8 "clock_rate", pi.spiClockHz⟩, ⟨utf8 "cpha", UInt32.ofInt pi.spiCpha⟩,
    ⟨utf8 "word_width", UInt32.ofInt pi.spiWordWidth⟩,
    ⟨utf8 "idle_insert", UInt32.ofInt pi.spiIdleInsert⟩]

/-! ## Keys and their lines -/

/-- Entries with plain and pairwise different keys, no more than `hit` has room for. -/
structure PlainEntries (kv : List SpiKv) : Prop where
  few : kv.length ≤ 16
  plain : ∀ e ∈ kv, PlainKey e.key
  distinct : ∀ e ∈ kv, ∀ e' ∈ kv, e.key = e'.key → e = e'

theorem spiWant_keys (pi : PiConfig) : ∀ e ∈ spiWant pi, PlainKey e.key := by
  simp only [spiWant, List.forall_mem_cons, List.not_mem_nil, false_implies, implies_true,
    and_true]
  exact ⟨by decide, by decide, by decide, by decide⟩

theorem spiWant_plain (pi : PiConfig) : PlainEntries (spiWant pi) where
  few := by simp [spiWant]
  plain := spiWant_keys pi
  distinct := by
    have hkeys : ((spiWant pi).map SpiKv.key).Nodup := by
      change [utf8 "clock_rate", utf8 "cpha", utf8 "word_width", utf8 "idle_insert"].Nodup
      decide
    exact fun e he e' he' => List.inj_on_of_nodup_map hkeys he he'

theorem keyText_value {key : Bytes} (hnul : (0 : UInt8) ∉ key)
    (hkey : ∀ b ∈ key.head?, isBlank b = false) (v : UInt32) :
    (strtoul ((lineText (keyLine key (decimal v.toNat))).drop (key.length + 1))).toUInt32 = v := by
  have hdrop : (lineText (keyLine key (decimal v.toNat))).drop (key.length + 1) =
      decimal v.toNat ++ [newline] := by
    rw [lineText_keyText hnul hkey (decimal_no_nul _)]
    simp
  have hstop : ∀ b ∈ [newline].head?, isDigit b = false := by simp [newline, isDigit]
  have hlt := v.toNat_lt
  rw [hdrop, strtoul_decimal (by omega) hstop]
  apply UInt32.toNat_inj.mp
  rw [UInt64.toNat_toUInt32, UInt64.toNat_ofNat_of_lt' (by simp only [UInt64.size]; omega),
    Nat.mod_eq_of_lt hlt]

theorem keyLine_value {key : Bytes} (hkey : PlainKey key) (v : UInt32) :
    (strtoul ((lineText (keyLine key (decimal v.toNat))).drop (key.length + 1))).toUInt32 = v :=
  keyText_value hkey.noNul hkey.noBlank v

theorem kvLine_full {key : Bytes} (hkey : PlainKey key) (v : UInt32) :
    FullLine spiLineRoom (keyLine key (decimal v.toNat)) := by
  have hlt := v.toNat_lt
  have hdec : (decimal v.toNat).length ≤ 10 := decimal_length_le (by decide) (by omega)
  exact keyLine_full hkey (decimal_no_newline _) (by simp only [spiLineRoom]; omega)

/-! ## Reading back a rewritten file -/

theorem rewriteLine_of_key {kv : List SpiKv} (hkv : PlainEntries kv) {e : SpiKv} (he : e ∈ kv)
    {line : Bytes} (hline : keyIn e.key line = true) :
    rewriteLine kv line = keyLine e.key (decimal e.val.toNat) := by
  unfold rewriteLine
  cases hfind : kv.find? fun e => keyIn e.key line with
  | none => exact absurd hline (List.find?_eq_none.mp hfind e he)
  | some e' =>
      have hmem := List.mem_of_find?_eq_some hfind
      have hkey : keyIn e'.key line = true := by simpa using List.find?_some hfind
      have hsame : e'.key = e.key :=
        startsWithKey_unique (hkv.plain e' hmem).noEquals (hkv.plain e he).noEquals hkey hline
      rw [hkv.distinct e' hmem e he hsame]

theorem keyIn_rewriteLine {kv : List SpiKv} (hkv : PlainEntries kv) {e : SpiKv} (he : e ∈ kv)
    {line : Bytes} (hnul : (0 : UInt8) ∉ line) :
    keyIn e.key (rewriteLine kv line) = keyIn e.key line := by
  unfold rewriteLine
  cases hfind : kv.find? fun e => keyIn e.key line with
  | none => simp only [cString_of_no_nul hnul]
  | some e' =>
      have hmem := List.mem_of_find?_eq_some hfind
      have hkey : keyIn e'.key line = true := by simpa using List.find?_some hfind
      have hnew : keyIn e'.key (keyLine e'.key (decimal e'.val.toNat)) = true := by
        rw [keyIn, lineText_keyLine (hkv.plain e' hmem) (decimal_no_nul _)]
        exact startsWithKey_append _ _
      have hof : ∀ l, keyIn e'.key l = true → (keyIn e.key l = true ↔ e.key = e'.key) := by
        intro l hl
        refine ⟨fun h => ?_, fun h => h ▸ hl⟩
        exact startsWithKey_unique (hkv.plain e he).noEquals (hkv.plain e' hmem).noEquals h hl
      exact Bool.eq_iff_iff.mpr ((hof _ hnew).trans (hof _ hkey).symm)

theorem linesOf_rewrittenConf {kv : List SpiKv} (hkv : PlainEntries kv) {conf : Bytes}
    (htext : (0 : UInt8) ∉ conf) :
    linesOf spiLineRoom (rewrittenConf kv conf) =
      (linesOf spiLineRoom conf).map (rewriteLine kv) := by
  rw [rewrittenConf, List.take_of_length_le hkv.few]
  refine linesOf_map (by decide) fun line hline => ?_
  unfold rewriteLine
  cases hfind : kv.find? fun e => keyIn e.key line with
  | none => exact .inl (cString_of_no_nul fun h => htext (mem_of_mem_line hline h))
  | some e => exact .inr (kvLine_full (hkv.plain e (List.mem_of_find?_eq_some hfind)) e.val)

/-- Some line of the file bears the key. -/
def HasKey (conf key : Bytes) : Prop := ∃ line ∈ linesOf spiLineRoom conf, keyIn key line = true

theorem readCurrentKv_rewrittenConf {kv : List SpiKv} (hkv : PlainEntries kv) {conf : Bytes}
    (htext : (0 : UInt8) ∉ conf) {e : SpiKv} (he : e ∈ kv) (hhas : HasKey conf e.key) :
    readCurrentKv true (rewrittenConf kv conf) e.key = some e.val := by
  obtain ⟨line, hline, hkey⟩ := hhas
  have hfind : ((linesOf spiLineRoom conf).find? (keyIn e.key)).isSome :=
    List.find?_isSome.mpr ⟨line, hline, hkey⟩
  obtain ⟨first, hfirst⟩ := Option.isSome_iff_exists.mp hfind
  have hbears : keyIn e.key first = true := List.find?_some hfirst
  have hsame : (linesOf spiLineRoom conf).find? (keyIn e.key ∘ rewriteLine kv) = some first := by
    rw [← hfirst]
    exact List.find?_congr fun l hl =>
      keyIn_rewriteLine hkv he fun h => htext (mem_of_mem_line hl h)
  rw [readCurrentKv, if_pos rfl, linesOf_rewrittenConf hkv htext, List.find?_map, hsame]
  simp only [Option.map_some, Option.some.injEq]
  rw [rewriteLine_of_key hkv he hbears]
  exact keyLine_value (hkv.plain e he) e.val

end QnxHypervisor.MotorController
