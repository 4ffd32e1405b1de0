import QnxHypervisor.MotorController.SpiConf

/-! # What the rewrite leaves alone

`rewrite_spi_conf` line by line on a file whose lines fit the buffer, for keys
of any length: the lines of the given keys are replaced and no others, and what
`read_current_kv` finds afterwards. A written line that outgrows the buffer is
cut when it is read back, which is the only way a wanted value gets lost.
-/

namespace QnxHypervisor.MotorController

open Foundation

/-! ## Files and keys -/

/-- A line of the file: no NUL, ended by its only newline, within the buffer. -/
structure ConfLine (line : Bytes) : Prop where
  ended : ∃ body, line = body ++ [newline] ∧ newline ∉ body
  noNul : (0 : UInt8) ∉ line
  short : line.length ≤ spiLineRoom

structure ConfKey (key : Bytes) : Prop where
  nonempty : key ≠ []
  noNul : (0 : UInt8) ∉ key
  noEquals : equalsSign ∉ key
  noBlank : ∀ b ∈ key, isBlank b = false

/-- Distinct keys, no more than `hit` has room for. -/
structure KeyList (kv : List SpiKv) : Prop where
  few : kv.length ≤ 16
  keys : ∀ e ∈ kv, ConfKey e.key
  distinct : (kv.map SpiKv.key).Nodup

/-- The line that is written for an entry. -/
def SpiKv.line (e : SpiKv) : Bytes := keyLine e.key (decimal e.val.toNat)

/-- A line of a wanted key becomes the line of its entry, any other stays. -/
def Replaced (kv : List SpiKv) (old new : Bytes) : Prop :=
  (∃ e ∈ kv, BearsKey e.key old ∧ new = e.line) ∨ (∀ e ∈ kv, ¬ BearsKey e.key old) ∧ new = old

theorem ConfKey.head {key : Bytes} (h : ConfKey key) : ∀ b ∈ key.head?, isBlank b = false :=
  fun b hb => h.noBlank b (List.mem_of_head? hb)

theorem ConfLine.full {line : Bytes} (h : ConfLine line) : FullLine spiLineRoom line := by
  obtain ⟨body, rfl, hbody⟩ := h.ended
  have hshort := h.short
  simp only [List.length_append, List.length_singleton] at hshort
  exact ⟨body, newline, rfl, hbody, by omega, .inl rfl⟩

theorem linesOf_confLines {lines : List Bytes} (h : ∀ line ∈ lines, ConfLine line) :
    linesOf spiLineRoom lines.flatten = lines :=
  linesOf_of_wellCut (wellCut_of_full fun line hline => (h line hline).full)

theorem ConfLine.keyIn_iff {line key : Bytes} (h : ConfLine line) (hkey : ConfKey key) :
    keyIn key line = true ↔ BearsKey key line :=
  keyIn_iff_bearsKey hkey.head h.noNul

/-! ## The lines of the new file -/

theorem rewriteLine_replaced {kv : List SpiKv} (hkv : KeyList kv) {line : Bytes}
    (h : ConfLine line) : Replaced kv line (rewriteLine kv line) := by
  unfold rewriteLine
  cases hfind : kv.find? fun e => keyIn e.key line with
  | none =>
      refine .inr ⟨fun e he hbears => ?_, cString_of_no_nul h.noNul⟩
      exact List.find?_eq_none.mp hfind e he ((h.keyIn_iff (hkv.keys e he)).mpr hbears)
  | some e =>
      have hmem := List.mem_of_find?_eq_some hfind
      have hkey : keyIn e.key line = true := by simpa using List.find?_some hfind
      exact .inl ⟨e, hmem, (h.keyIn_iff (hkv.keys e hmem)).mp hkey, rfl⟩

theorem rewrittenConf_lines {kv : List SpiKv} (hkv : KeyList kv) {lines : List Bytes}
    (h : ∀ line ∈ lines, ConfLine line) :
    rewrittenConf kv lines.flatten = (lines.map (rewriteLine kv)).flatten := by
  rw [rewrittenConf, linesOf_confLines h, List.take_of_length_le hkv.few]

theorem ConfLine.bears_unique {line k₁ k₂ : Bytes} (h : ConfLine line) (h₁ : ConfKey k₁)
    (h₂ : ConfKey k₂) (hb₁ : BearsKey k₁ line) (hb₂ : BearsKey k₂ line) : k₁ = k₂ :=
  startsWithKey_unique h₁.noEquals h₂.noEquals ((h.keyIn_iff h₁).mpr hb₁) ((h.keyIn_iff h₂).mpr hb₂)

/-- A key that starts a line of the file is one line's text and fits the buffer
with its equals sign. -/
theorem ConfLine.key_fits {line key : Bytes} (h : ConfLine line) (hb : BearsKey key line) :
    newline ∉ key ∧ key.length + 2 ≤ spiLineRoom := by
  obtain ⟨blanks, value, hline, -⟩ := hb
  obtain ⟨body, hbody, hnone⟩ := h.ended
  have hshort := h.short
  rcases List.eq_nil_or_concat value with rfl | ⟨init, last, rfl⟩
  · have hlast := congrArg List.getLast? (hbody.symm.trans hline)
    rw [← List.append_assoc] at hlast
    simp only [List.getLast?_append, List.getLast?_singleton, Option.some_or] at hlast
    exact absurd (Option.some.inj hlast) (by decide)
  · have hsplit : body ++ [newline] = (blanks ++ (key ++ equalsSign :: init)) ++ [last] := by
      rw [← hbody, hline]
      simp
    obtain ⟨rfl, -⟩ := List.append_inj' hsplit rfl
    simp only [List.mem_append, not_or] at hnone
    rw [hline] at hshort
    simp only [List.length_append, List.length_cons, List.concat_eq_append] at hshort
    exact ⟨hnone.2.1, by omega⟩

/-! ## Reading line by line -/

/-- The value that `read_current_kv` takes from the part of the file that is this line. -/
def lineValue (key line : Bytes) : Option UInt32 :=
  ((linesOf spiLineRoom line).find? (keyIn key)).map fun chunk =>
    (strtoul ((lineText chunk).drop (key.length + 1))).toUInt32

theorem readCurrentKv_lines {lines : List Bytes} (key : Bytes)
    (h : ∀ line ∈ lines, ∃ body, line = body ++ [newline] ∧ newline ∉ body) :
    readCurrentKv true lines.flatten key = lines.findSome? (lineValue key) := by
  rw [readCurrentKv, if_pos rfl, linesOf_terminated (by decide) fun line hline =>
    (h line hline).imp fun _ hbody => hbody.1, List.find?_flatMap, List.map_findSome?]
  rfl

theorem findSome?_congr {α β : Type} {f g : α → Option β} {l : List α}
    (h : ∀ a ∈ l, f a = g a) : l.findSome? f = l.findSome? g := by
  induction l with
  | nil => rfl
  | cons a l ih =>
      rw [List.findSome?_cons, List.findSome?_cons, h a List.mem_cons_self,
        ih fun b hb => h b (List.mem_cons_of_mem _ hb)]

theorem findSome?_const {α β : Type} {p : α → Bool} {v : β} {l : List α}
    (h : ∃ a ∈ l, p a = true) :
    (l.findSome? fun a => if p a = true then some v else none) = some v := by
  induction l with
  | nil =>
      obtain ⟨a, ha, -⟩ := h
      cases ha
  | cons a l ih =>
      rw [List.findSome?_cons]
      by_cases ha : p a = true
      · rw [if_pos ha]
      · rw [if_neg ha]
        obtain ⟨b, hb, hpb⟩ := h
        rcases List.mem_cons.mp hb with rfl | hrest
        · exact absurd hpb ha
        · exact ih ⟨b, hrest, hpb⟩

theorem equals_of_keyIn {key chunk : Bytes} (h : keyIn key chunk = true) : equalsSign ∈ chunk := by
  obtain ⟨value, hvalue⟩ := startsWithKey_iff.mp h
  have hmem : equalsSign ∈ lineText chunk := by
    rw [hvalue]
    simp
  exact (List.takeWhile_sublist _).mem ((List.dropWhile_sublist _).mem hmem)

theorem lineValue_other {key line : Bytes} (hkey : ConfKey key) (h : ConfLine line)
    (hno : ¬ BearsKey key line) : lineValue key line = none := by
  have hone : linesOf spiLineRoom line = [line] := linesOf_fullLine h.full
  have hfalse : ¬ keyIn key line = true := fun hin => hno ((h.keyIn_iff hkey).mp hin)
  simp [lineValue, hone, hfalse]

theorem entryLine_chunks {e : SpiKv} (hline : newline ∉ e.key)
    (hshort : e.key.length + 2 ≤ spiLineRoom) :
    ∃ tail more, linesOf spiLineRoom e.line = (e.key ++ equalsSign :: tail) :: more ∧
      (0 : UInt8) ∉ tail ∧ ∀ chunk ∈ more, equalsSign ∉ chunk := by
  have htext : e.line = (e.key ++ [equalsSign]) ++ (decimal e.val.toNat ++ [newline]) := by
    simp [SpiKv.line, keyLine]
  have hrun : newline ∉ e.key ++ [equalsSign] := by
    simp only [List.mem_append, List.mem_singleton, not_or]
    exact ⟨hline, by decide⟩
  obtain ⟨tail, more, hcut⟩ := @linesFrom_head spiLineRoom spiLineRoom _
    (decimal e.val.toNat ++ [newline]) (by simp) hrun
    (by simp only [List.length_append, List.length_singleton]; omega)
  rw [← htext] at hcut
  have hflat : tail ++ more.flatten = decimal e.val.toNat ++ [newline] := by
    have hall := linesFrom_flatten spiLineRoom spiLineRoom e.line
    rw [hcut, htext, List.flatten_cons, List.append_assoc] at hall
    exact List.append_cancel_left hall
  have hmem : ∀ b ∈ tail ++ more.flatten, isDigit b = true ∨ b = newline := by
    intro b hb
    rw [hflat] at hb
    rcases List.mem_append.mp hb with hdigit | hend
    · exact .inl (decimal_isDigit _ b hdigit)
    · exact .inr (List.mem_singleton.mp hend)
  refine ⟨tail, more, by rw [linesOf, hcut]; simp, fun hnul => ?_, fun chunk hchunk heq => ?_⟩
  · rcases hmem 0 (List.mem_append_left _ hnul) with hbad | hbad <;> exact absurd hbad (by decide)
  · rcases hmem equalsSign (List.mem_append_right _ (List.mem_flatten.mpr ⟨chunk, hchunk, heq⟩))
      with hbad | hbad <;> exact absurd hbad (by decide)

/-- A written line contributes nothing to other keys, also when it is cut. -/
theorem lineValue_entry_other {e : SpiKv} {key : Bytes} (he : ConfKey e.key) (hkey : ConfKey key)
    (hne : e.key ≠ key) (hline : newline ∉ e.key) (hshort : e.key.length + 2 ≤ spiLineRoom) :
    lineValue key e.line = none := by
  obtain ⟨tail, more, hcut, hnul, hmore⟩ := entryLine_chunks hline hshort
  have hfind : (linesOf spiLineRoom e.line).find? (keyIn key) = none := by
    rw [hcut, List.find?_eq_none]
    intro chunk hchunk hin
    rcases List.mem_cons.mp hchunk with rfl | hrest
    · have htext : lineText (e.key ++ equalsSign :: tail) = e.key ++ equalsSign :: tail := by
        refine lineText_of_head ?_ (head_keyText he.head)
        simp only [List.mem_append, List.mem_cons, not_or]
        exact ⟨he.noNul, by decide, hnul⟩
      rw [keyIn, htext] at hin
      exact hne (startsWithKey_unique he.noEquals hkey.noEquals (startsWithKey_append _ _) hin)
    · exact hmore chunk hrest (equals_of_keyIn hin)
  rw [lineValue, hfind, Option.map_none]

theorem lineValue_entry {e : SpiKv} (he : ConfKey e.key) (hline : newline ∉ e.key)
    (hfits : e.line.length ≤ spiLineRoom) : lineValue e.key e.line = some e.val := by
  have hconf : FullLine spiLineRoom e.line := by
    refine ⟨e.key ++ [equalsSign] ++ decimal e.val.toNat, newline, rfl, ?_, ?_, .inl rfl⟩
    · simp only [List.mem_append, List.mem_singleton, not_or]
      exact ⟨⟨hline, by decide⟩, decimal_no_newline _⟩
    · simp only [SpiKv.line, keyLine, List.length_append, List.length_singleton] at hfits ⊢
      omega
  have hone : linesOf spiLineRoom e.line = [e.line] := by
    have hcut := linesOf_of_wellCut (.cons hconf .nil)
    simpa using hcut
  have htext : lineText e.line = e.key ++ equalsSign :: (decimal e.val.toNat ++ [newline]) :=
    lineText_keyText he.noNul he.head (decimal_no_nul _)
  have hin : keyIn e.key e.line = true := by
    rw [keyIn, htext]
    exact startsWithKey_append _ _
  rw [lineValue, hone, List.find?_cons_of_pos hin, Option.map_some]
  exact congrArg some (keyText_value he.noNul he.head e.val)

/-! ## Reading the new file -/

variable {kv : List SpiKv} {lines : List Bytes}

theorem lineValue_rewriteLine (hkv : KeyList kv) {line key : Bytes} (h : ConfLine line)
    (hkey : ConfKey key) (hother : ∀ e ∈ kv, e.key = key → ¬ BearsKey key line) :
    lineValue key (rewriteLine kv line) = lineValue key line := by
  rcases rewriteLine_replaced hkv h with ⟨e, he, hbears, hnew⟩ | ⟨-, hsame⟩
  · have hne : e.key ≠ key := by
      rintro rfl
      exact hother e he rfl hbears
    have hno : ¬ BearsKey key line := fun hb =>
      hne (h.bears_unique (hkv.keys e he) hkey hbears hb)
    obtain ⟨hline, hshort⟩ := h.key_fits hbears
    rw [hnew, lineValue_entry_other (hkv.keys e he) hkey hne hline hshort,
      lineValue_other hkey h hno]
  · rw [hsame]

theorem rewriteLine_ended {line : Bytes} (hkv : KeyList kv) (h : ConfLine line) :
    ∃ body, rewriteLine kv line = body ++ [newline] ∧ newline ∉ body := by
  rcases rewriteLine_replaced hkv h with ⟨e, -, hbears, hnew⟩ | ⟨-, hsame⟩
  · refine ⟨e.key ++ [equalsSign] ++ decimal e.val.toNat, hnew, ?_⟩
    simp only [List.mem_append, List.mem_singleton, not_or]
    exact ⟨⟨(h.key_fits hbears).1, by decide⟩, decimal_no_newline _⟩
  · rw [hsame]
    exact h.ended

theorem readCurrentKv_new (hkv : KeyList kv) (h : ∀ line ∈ lines, ConfLine line) (key : Bytes) :
    readCurrentKv true (rewrittenConf kv lines.flatten) key =
      lines.findSome? fun line => lineValue key (rewriteLine kv line) := by
  rw [rewrittenConf_lines hkv h, readCurrentKv_lines key, List.findSome?_map]
  · rfl
  · intro line hline
    obtain ⟨old, hold, rfl⟩ := List.mem_map.mp hline
    exact rewriteLine_ended hkv (h old hold)

theorem readCurrentKv_other (hkv : KeyList kv) (h : ∀ line ∈ lines, ConfLine line) {key : Bytes}
    (hkey : ConfKey key)
    (hother : ∀ e ∈ kv, e.key = key → ∀ line ∈ lines, ¬ BearsKey key line) :
    readCurrentKv true (rewrittenConf kv lines.flatten) key =
      readCurrentKv true lines.flatten key := by
  rw [readCurrentKv_new hkv h, readCurrentKv_lines key fun line hline => (h line hline).ended]
  exact findSome?_congr fun line hline =>
    lineValue_rewriteLine hkv (h line hline) hkey fun e he heq => hother e he heq line hline

theorem readCurrentKv_wanted (hkv : KeyList kv) (h : ∀ line ∈ lines, ConfLine line) {e : SpiKv}
    (he : e ∈ kv) (hhas : ∃ line ∈ lines, BearsKey e.key line)
    (hfits : e.line.length ≤ spiLineRoom) :
    readCurrentKv true (rewrittenConf kv lines.flatten) e.key = some e.val := by
  have hkey := hkv.keys e he
  have hvalue : ∀ line ∈ lines, lineValue e.key (rewriteLine kv line) =
      if keyIn e.key line = true then some e.val else none := by
    intro line hline
    have hconf := h line hline
    split
    · next hin =>
      have hbears := (hconf.keyIn_iff hkey).mp hin
      rcases rewriteLine_replaced hkv hconf with ⟨e', he', hbears', hnew⟩ | ⟨hnone, -⟩
      · have hsame : e'.key = e.key := hconf.bears_unique (hkv.keys e' he') hkey hbears' hbears
        obtain rfl := List.inj_on_of_nodup_map hkv.distinct he' he hsame
        rw [hnew]
        exact lineValue_entry hkey (hconf.key_fits hbears).1 hfits
      · exact absurd hbears (hnone e he)
    · next hin =>
      have hno : ¬ BearsKey e.key line := fun hbears => hin ((hconf.keyIn_iff hkey).mpr hbears)
      rw [lineValue_rewriteLine hkv hconf hkey fun _ _ _ => hno, lineValue_other hkey hconf hno]
  obtain ⟨line, hline, hbears⟩ := hhas
  rw [readCurrentKv_new hkv h, findSome?_congr hvalue]
  exact findSome?_const ⟨line, hline, ((h line hline).keyIn_iff hkey).mpr hbears⟩

/-- The frame of the rewrite: when it returns 0 the lines of the wanted keys are
replaced and all others are where they were, every wanted key that occurs and
whose line fits the buffer reads back as wanted and every other key as before;
when it returns -1 the file is as it was. -/
theorem rewrite_touches_nothing_else (hkv : KeyList kv) (h : ∀ line ∈ lines, ConfLine line)
    (env : RewriteEnv) :
    let r := rewriteSpiConf env kv lines.flatten
    (r.1 = 0 →
      (∃ new, r.2 = new.flatten ∧ List.Forall₂ (Replaced kv) lines new) ∧
      (∀ e ∈ kv, (∃ line ∈ lines, BearsKey e.key line) → e.line.length ≤ spiLineRoom →
        readCurrentKv true r.2 e.key = some e.val) ∧
      ∀ key, ConfKey key → (∀ e ∈ kv, e.key = key → ∀ line ∈ lines, ¬ BearsKey key line) →
        readCurrentKv true r.2 key = readCurrentKv true lines.flatten key) ∧
    (r.1 ≠ 0 → r.1 = -1 ∧ r.2 = lines.flatten) := by
  have hcases : rewriteSpiConf env kv lines.flatten = (0, rewrittenConf kv lines.flatten) ∨
      rewriteSpiConf env kv lines.flatten = (-1, lines.flatten) := by
    unfold rewriteSpiConf
    split_ifs <;> simp
  rcases hcases with hok | hfail
  · rw [hok]
    refine ⟨fun _ => ⟨⟨lines.map (rewriteLine kv), rewrittenConf_lines hkv h, ?_⟩, ?_, ?_⟩,
      fun hne => absurd rfl hne⟩
    · rw [List.forall₂_map_right_iff, List.forall₂_same]
      exact fun line hline => rewriteLine_replaced hkv (h line hline)
    · exact fun e he hhas hfits => readCurrentKv_wanted hkv h he hhas hfits
    · exact fun key hkey hother => readCurrentKv_other hkv h hkey hother
  · rw [hfail]
    have hne : ¬ (-1 : Int) = 0 := by decide
    exact ⟨fun hzero => absurd hzero hne, fun _ => ⟨rfl, rfl⟩⟩

/-! ## A key that is prefix of another, and one too long -/

def allOk : RewriteEnv := ⟨true, true, true, true, true⟩

/-- `cpha=0`, `  cpha_x=3` and `cpha=7`, of which the first and the last are rewritten. -/
def prefixLines : List Bytes := [utf8 "cpha=0\n", utf8 "  cpha_x=3\n", utf8 "cpha=7\n"]

theorem prefixLines_conf : ∀ line ∈ prefixLines, ConfLine line := by
  intro line hline
  simp only [prefixLines, List.mem_cons, List.not_mem_nil, or_false] at hline
  rcases hline with rfl | rfl | rfl
  · exact ⟨⟨utf8 "cpha=0", by decide, by decide⟩, by decide, by decide⟩
  · exact ⟨⟨utf8 "  cpha_x=3", by decide, by decide⟩, by decide, by decide⟩
  · exact ⟨⟨utf8 "cpha=7", by decide, by decide⟩, by decide, by decide⟩

theorem cpha_keyList : KeyList [⟨utf8 "cpha", 1⟩] where
  few := by decide
  keys := by
    intro e he
    obtain rfl := List.mem_singleton.mp he
    exact ⟨by decide, by decide, by decide, @of_decide_eq_true _ (List.decidableBAll _ _) rfl⟩
  distinct := by simp

theorem rewrite_touches_cpha :
    readCurrentKv true (rewriteSpiConf allOk [⟨utf8 "cpha", 1⟩] prefixLines.flatten).2
      (utf8 "cpha") = some 1 :=
  ((rewrite_touches_nothing_else cpha_keyList prefixLines_conf allOk).1 rfl).2.1 ⟨utf8 "cpha", 1⟩
    List.mem_cons_self ⟨utf8 "cpha=0\n", List.mem_cons_self, [], utf8 "0\n", by decide, by simp⟩
    (by decide)

def longKey : Bytes := List.replicate 250 97

theorem longKey_key : ConfKey longKey where
  nonempty := fun h => by
    have hlen : longKey.length = 250 := List.length_replicate
    rw [h] at hlen
    cases hlen
  noNul := fun h => absurd (List.eq_of_mem_replicate h) (by decide)
  noEquals := fun h => absurd (List.eq_of_mem_replicate h) (by decide)
  noBlank := by
    intro b hb
    rw [List.eq_of_mem_replicate hb]
    decide

theorem longLine_conf : ConfLine (keyLine longKey [53]) where
  ended := by
    refine ⟨longKey ++ [equalsSign, 53], by simp [keyLine], ?_⟩
    rw [List.mem_append]
    rintro (h | h)
    · exact absurd (List.eq_of_mem_replicate h) (by decide)
    · exact absurd h (by decide)
  noNul := by
    simp only [keyLine, List.mem_append, not_or]
    exact ⟨⟨⟨longKey_key.noNul, by decide⟩, by decide⟩, by decide⟩
  short := by
    have hlen : longKey.length = 250 := List.length_replicate
    simp only [keyLine, List.length_append, hlen, List.length_singleton, spiLineRoom]
    decide

/-- The written line of a long key is cut before its last six digits. -/
theorem long_line_reads_short :
    ¬ ∀ (kv : List SpiKv) (lines : List Bytes), KeyList kv → (∀ line ∈ lines, ConfLine line) →
      ∀ env, (rewriteSpiConf env kv lines.flatten).1 = 0 →
        ∀ e ∈ kv, (∃ line ∈ lines, BearsKey e.key line) →
          readCurrentKv true (rewriteSpiConf env kv lines.flatten).2 e.key = some e.val := by
  intro hall
  have hkeys : KeyList [⟨longKey, 4294967295⟩] := by
    refine ⟨by decide, fun e he => ?_, by simp⟩
    rw [List.mem_singleton.mp he]
    exact longKey_key
  have hlines : ∀ line ∈ [keyLine longKey [53]], ConfLine line := by
    intro line hline
    rw [List.mem_singleton.mp hline]
    exact longLine_conf
  have hread := hall _ _ hkeys hlines allOk rfl ⟨longKey, 4294967295⟩ List.mem_cons_self
    ⟨keyLine longKey [53], List.mem_cons_self, [], [53, newline], by simp [keyLine], by simp⟩
  have hshort : readCurrentKv true
      (rewriteSpiConf allOk [⟨longKey, 4294967295⟩] [keyLine longKey [53]].flatten).2 longKey =
        some 4294 := by
    decide +kernel
  rw [hshort] at hread
  exact absurd hread (by decide)

end QnxHypervisor.MotorController
