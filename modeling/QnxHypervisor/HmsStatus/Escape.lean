import QnxHypervisor.Foundation.JsonShape
import QnxHypervisor.HmsStatus.Message

/-! # Escaped text read back

The escape loop of the shell publishers, which `main.c` has a second time: a JSON
decoder reads every escaped byte as this byte, and where characters end does not
change. What does not fit the buffer is cut off between two bytes.
-/

namespace QnxHypervisor.HmsStatus

open Foundation

variable {t : Bytes} {c : UInt8}


theorem escapeByte_ascii : ∀ n < 128,
    stringRun .text (escapeByte (UInt8.ofNat n)) = some (.text, [UInt8.ofNat n]) ∧
      Ascii (escapeByte (UInt8.ofNat n)) ∧ escapeByte (UInt8.ofNat n) ≠ [] ∧
      (escapeByte (UInt8.ofNat n)).length ≤ 6 := by
  decide

theorem escapeByte_high (hc : ¬ c < 0x80) :
    escapeByte c = [c] ∧ stringRun .text [c] = some (.text, [c]) := by
  have hne : ∀ d : UInt8, d < 0x80 → c ≠ d := by
    rintro d hd rfl
    exact hc hd
  have hlow : ¬ c < 32 := fun h => hc (UInt8.lt_trans h (by decide))
  have hplain : PlainText [c] := by
    simpa [PlainText, quote, backslash, hne 34 (by decide), hne 92 (by decide)] using
      UInt8.not_lt.mp hlow
  refine ⟨?_, stringRun_plain hplain⟩
  simp [escapeByte, hlow, hne 34 (by decide), hne 92 (by decide), hne 10 (by decide),
    hne 13 (by decide), hne 9 (by decide)]

theorem stringRun_escapeByte (c : UInt8) : stringRun .text (escapeByte c) = some (.text, [c]) := by
  by_cases hc : c < 0x80
  · simpa using (escapeByte_ascii c.toNat (by simpa [UInt8.lt_iff_toNat_lt] using hc)).1
  · rw [(escapeByte_high hc).1]
    exact (escapeByte_high hc).2

theorem escapeByte_length (c : UInt8) : 1 ≤ (escapeByte c).length ∧ (escapeByte c).length ≤ 6 := by
  by_cases hc : c < 0x80
  · obtain ⟨-, -, hne, hlen⟩ :=
      escapeByte_ascii c.toNat (by simpa [UInt8.lt_iff_toNat_lt] using hc)
    simp only [UInt8.ofNat_toNat] at hne hlen
    exact ⟨List.length_pos_iff.mpr hne, hlen⟩
  · simp [(escapeByte_high hc).1]

theorem utf8Run_escapeByte (s : Utf8State) (c : UInt8) :
    utf8Run s (escapeByte c) = utf8Run s [c] := by
  by_cases hc : c < 0x80
  · obtain ⟨-, hascii, hne, -⟩ :=
      escapeByte_ascii c.toNat (by simpa [UInt8.lt_iff_toNat_lt] using hc)
    simp only [UInt8.ofNat_toNat] at hascii hne
    rw [utf8Run_ascii hascii hne, utf8Run_ascii (by simpa [Ascii] using hc) (by simp)]
  · rw [(escapeByte_high hc).1]

theorem stringRun_escape (t : Bytes) :
    stringRun .text (t.flatMap escapeByte) = some (.text, t) := by
  induction t with
  | nil => rfl
  | cons c rest ih => simp [stringRun_append, stringRun_escapeByte, ih]

theorem isUtf8_escape (t : Bytes) : IsUtf8 (t.flatMap escapeByte) ↔ IsUtf8 t := by
  unfold IsUtf8
  generalize Utf8State.start = s₀
  suffices h : ∀ s, utf8Run s (t.flatMap escapeByte) = utf8Run s t by rw [h]
  induction t with
  | nil => exact fun _ => rfl
  | cons c rest ih =>
      intro s
      have hsplit : utf8Run s (c :: rest) = (utf8Run s [c]).bind fun s' => utf8Run s' rest :=
        utf8Run_append s [c] rest
      rw [List.flatMap_cons, utf8Run_append, utf8Run_escapeByte, hsplit]
      cases utf8Run s [c] with
      | none => rfl
      | some s' => exact ih s'

theorem escape_length (t : Bytes) : (t.flatMap escapeByte).length ≤ 6 * t.length := by
  induction t with
  | nil => simp
  | cons c rest ih =>
      have hc := (escapeByte_length c).2
      simp only [List.flatMap_cons, List.length_append, List.length_cons]
      omega

/-- The bytes that the loop gets to. -/
def escapedFrom (limit : Nat) : Bytes → Nat → Bytes
  | [], _ => []
  | c :: rest, j =>
      if c ≠ 0 ∧ j < limit then c :: escapedFrom limit rest (j + (escapeByte c).length) else []

theorem escapeFrom_eq (limit : Nat) (t : Bytes) (j : Nat) :
    escapeFrom limit t j = (escapedFrom limit t j).flatMap escapeByte := by
  induction t generalizing j with
  | nil => rfl
  | cons c rest ih =>
      simp only [escapeFrom, escapedFrom]
      split
      · simp [ih]
      · rfl

theorem escapedFrom_prefix (limit : Nat) (t : Bytes) (j : Nat) : escapedFrom limit t j <+: t := by
  induction t generalizing j with
  | nil => exact List.prefix_rfl
  | cons c rest ih =>
      simp only [escapedFrom]
      split
      · exact (List.prefix_cons_inj c).mpr (ih _)
      · exact List.nil_prefix

theorem escapedFrom_whole {limit j : Nat} (h : j + ((cString t).flatMap escapeByte).length ≤ limit) :
    escapedFrom limit t j = cString t := by
  induction t generalizing j with
  | nil => rfl
  | cons c rest ih =>
      by_cases hc : c = 0
      · simp [cString, escapedFrom, hc]
      · have hcut : cString (c :: rest) = c :: cString rest := by simp [cString, hc]
        rw [hcut, List.flatMap_cons, List.length_append] at h
        have hlen := (escapeByte_length c).1
        rw [hcut, escapedFrom, if_pos ⟨hc, by omega⟩, ih (by omega)]

theorem escapeFrom_room {limit j : Nat} (h : j + 6 * t.length ≤ limit) :
    escapeFrom limit t j = (cString t).flatMap escapeByte := by
  have hcut : (cString t).length ≤ t.length := (List.takeWhile_sublist _).length_le
  have hlen := escape_length (cString t)
  rw [escapeFrom_eq, escapedFrom_whole (by omega)]

/-- What of the text gets into a buffer of `outSz` bytes. -/
def escapedPart (outSz : Nat) (t : Bytes) : Bytes := escapedFrom (outSz - 8) t 0

theorem shellEscape_eq (outSz : Nat) (t : Bytes) :
    shellEscape outSz t = (escapedPart outSz t).flatMap escapeByte :=
  escapeFrom_eq _ t 0

theorem escapedPart_prefix (outSz : Nat) (t : Bytes) : escapedPart outSz t <+: t :=
  escapedFrom_prefix _ t 0

end QnxHypervisor.HmsStatus
