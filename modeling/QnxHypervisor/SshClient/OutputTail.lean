import Mathlib.Data.List.Infix
import QnxHypervisor.GuestManager.StartIp

/-! # The end of the child's output

`ssh_scp_to` keeps the end of what the child prints in 4096 bytes and looks for error
texts there. A line that would fill the last 256 bytes shifts the others down; one that
does not fit at all is dropped, and the lines behind it are kept again.
-/

namespace QnxHypervisor.SshClient

open Foundation GuestManager

/-! ## Source functions -/

/-- `char tail[4096]`. -/
def tailRoom : Nat := 4096

/-- `char buf[1024]`, less the NUL. -/
def lineRoom : Nat := 1023

/-- `memmove(tail, tail + blen, tlen + 1 - blen)`. -/
def moveDown (tail : Bytes) (blen tlen : Nat) : Option Bytes :=
  -- the count would wrap
  if tlen + 1 < blen then none
  else if tlen + 1 ≤ tail.length then
    some ((tail.drop blen).take (tlen + 1 - blen) ++ tail.drop (tlen + 1 - blen))
  else none

/-- `strcat(tail, buf)`. -/
def strcat (tail buf : Bytes) : Option Bytes :=
  let tlen := (cString tail).length
  if tlen + buf.length < tail.length then
    some (tail.take tlen ++ (buf ++ 0 :: tail.drop (tlen + buf.length + 1)))
  else none

/-- A turn of the capture loop. -/
def captureLine (tail buf : Bytes) : Option Bytes :=
  let blen := (cString buf).length
  let tlen := (cString tail).length
  if tlen + blen < tailRoom - 1 then
    (if tailRoom - 256 < tlen + blen then moveDown tail blen tlen else some tail).bind fun tail =>
      strcat tail (cString buf)
  else some tail

/-- The loop over what `fgets` hands out. -/
def captureLoop : List Bytes → Bytes → Option Bytes
  | [], tail => some tail
  | buf :: rest, tail => (captureLine tail buf).bind (captureLoop rest)

/-- The buffer after the loop; nothing is defined for a write outside it. -/
def captureTail (output : Bytes) : Option Bytes :=
  captureLoop (linesOf lineRoom output) (List.replicate tailRoom 0)

def failureTexts : List Bytes :=
  [utf8 "Permission denied", utf8 "Connection refused", utf8 "Connection timed out",
    utf8 "No route to host", utf8 "not found", utf8 "No such file", utf8 "ERROR"]

/-- The failure test. -/
def outputFailed (tail : Bytes) : Bool := failureTexts.any fun t => containsText t (cString tail)

/-! ## What is promised -/

/-- The buffer holds the end of the output, all of it up to 3840 bytes, and an error
text in the last 2818 bytes is seen. -/
structure KeepsEnd (output tail : Bytes) : Prop where
  inside : tail.length = tailRoom
  suffix : cString tail <:+ output
  whole : output.length ≤ tailRoom - 256 → cString tail = output
  seen : ∀ t ∈ failureTexts, ∀ last, last <:+ output → last.length ≤ 2818 →
    containsText t last = true → outputFailed tail = true

/-! ## Lengths of lines -/

/-- The length of the text after a line. -/
def fill (filled : Nat) (line : Bytes) : Nat :=
  if filled + line.length ≤ tailRoom - 256 then filled + line.length else filled

def fillAll (filled : Nat) (lines : List Bytes) : Nat := lines.foldl fill filled

def Dropped (filled : Nat) (line : Bytes) : Prop := tailRoom - 1 ≤ filled + line.length

instance (filled : Nat) (line : Bytes) : Decidable (Dropped filled line) :=
  inferInstanceAs (Decidable (_ ≤ _))

/-- The lines there is room for. -/
def held : Nat → List Bytes → List Bytes
  | _, [] => []
  | filled, line :: rest =>
      if Dropped filled line then held filled rest else line :: held (fill filled line) rest

def AllHeld : Nat → List Bytes → Prop
  | _, [] => True
  | filled, line :: rest => ¬ Dropped filled line ∧ AllHeld (fill filled line) rest

/-- The last `n` elements. -/
def lastBytes (n : Nat) (t : Bytes) : Bytes := t.drop (t.length - n)

/-- Behind the last dropped line there is enough to fill the buffer, or what is still
there from the lines before it happens to be what the output has in that place. -/
def EndHeld (lines : List Bytes) : Prop :=
  ∀ before line after, lines = before ++ line :: after → Dropped (fillAll 0 before) line →
    AllHeld (fillAll 0 before) after →
      lastBytes (fillAll 0 lines - after.flatten.length) (held 0 before).flatten <:+
        before.flatten ++ line

variable {tail text line output last t : Bytes} {lines before after : List Bytes} {filled n : Nat}

/-! ## The buffer -/

structure TailHolds (tail text : Bytes) : Prop where
  size : tail.length = tailRoom
  noNul : (0 : UInt8) ∉ text
  ended : ∃ rest, tail = text ++ 0 :: rest

theorem TailHolds.cString (h : TailHolds tail text) : cString tail = text := by
  obtain ⟨rest, rfl⟩ := h.ended
  rw [cString_append h.noNul]
  exact List.append_nil text

theorem strcat_holds (h : TailHolds tail text) (hline : (0 : UInt8) ∉ line)
    (hroom : text.length + line.length < tailRoom) :
    ∃ tail', strcat tail line = some tail' ∧ TailHolds tail' (text ++ line) := by
  have htext := h.cString
  have hsize := h.size
  have htake : tail.take text.length = text := by
    obtain ⟨rest, rfl⟩ := h.ended
    exact List.take_left
  refine ⟨text ++ (line ++ 0 :: tail.drop (text.length + line.length + 1)), ?_, ?_, ?_, _,
    (List.append_assoc ..).symm⟩
  · rw [strcat, htext, if_pos (by omega), htake]
  · simp only [List.length_append, List.length_cons, List.length_drop]
    omega
  · rw [List.mem_append, not_or]
    exact ⟨h.noNul, hline⟩

theorem moveDown_holds (h : TailHolds tail text) (hle : n ≤ text.length) :
    ∃ tail', moveDown tail n text.length = some tail' ∧ TailHolds tail' (text.drop n) := by
  have hsize := h.size
  have hnul : (0 : UInt8) ∉ text.drop n := fun hmem => h.noNul (List.mem_of_mem_drop hmem)
  obtain ⟨rest, rfl⟩ := h.ended
  have hlen : text.length + 1 ≤ (text ++ 0 :: rest).length := by
    rw [List.length_append, List.length_cons]
    omega
  have hmoved : ((text ++ 0 :: rest).drop n).take (text.length + 1 - n) = text.drop n ++ [0] := by
    have hcount : text.length + 1 - n = (text.drop n).length + 1 := by
      rw [List.length_drop]
      omega
    rw [List.drop_append_of_le_length hle, hcount, List.take_length_add_append]
    rfl
  refine ⟨text.drop n ++ [0] ++ (text ++ 0 :: rest).drop (text.length + 1 - n), ?_, ?_, hnul, _,
    List.append_assoc ..⟩
  · rw [moveDown, if_neg (by omega), if_pos hlen, hmoved]
  · rw [← hsize]
    simp only [List.length_append, List.length_drop, List.length_cons, List.length_nil]
    omega

def kept (text line : Bytes) : Bytes :=
  if Dropped text.length line then text
  else if tailRoom - 256 < text.length + line.length then text.drop line.length ++ line
  else text ++ line

theorem fill_dropped (h : Dropped filled line) : fill filled line = filled := by
  have hsize : tailRoom = 4096 := rfl
  unfold Dropped at h
  rw [fill, if_neg (by omega)]

theorem kept_length (htext : text.length ≤ tailRoom - 256) (hline : line.length ≤ lineRoom) :
    (kept text line).length = fill text.length line := by
  have hsize : tailRoom = 4096 := rfl
  have hroom : lineRoom = 1023 := rfl
  by_cases hdropped : Dropped text.length line
  · rw [kept, if_pos hdropped, fill_dropped hdropped]
  · rw [kept, if_neg hdropped, fill]
    split
    · rw [if_neg (by omega), List.length_append, List.length_drop]
      omega
    · rw [if_pos (by omega), List.length_append]

theorem fill_le (hfilled : filled ≤ tailRoom - 256) (line : Bytes) :
    fill filled line ≤ tailRoom - 256 := by
  unfold fill
  split
  · assumption
  · exact hfilled

theorem captureLine_holds (h : TailHolds tail text) (htext : text.length ≤ tailRoom - 256)
    (hline : line.length ≤ lineRoom) (hnul : (0 : UInt8) ∉ line) :
    ∃ tail', captureLine tail line = some tail' ∧ TailHolds tail' (kept text line) := by
  have hsize : tailRoom = 4096 := rfl
  have hroom : lineRoom = 1023 := rfl
  rw [captureLine, h.cString, cString_of_no_nul hnul]
  by_cases hdropped : Dropped text.length line
  · have hfull : ¬ text.length + line.length < tailRoom - 1 := Nat.not_lt.mpr hdropped
    simp only [if_neg hfull, kept, if_pos hdropped]
    exact ⟨tail, rfl, h⟩
  · have hfits : text.length + line.length < tailRoom - 1 := Nat.not_le.mp hdropped
    simp only [if_pos hfits, kept, if_neg hdropped]
    split
    · obtain ⟨moved, hmove, hmoved⟩ := moveDown_holds h (show line.length ≤ text.length by omega)
      rw [hmove, Option.bind_some]
      exact strcat_holds hmoved hnul (by rw [List.length_drop]; omega)
    · rw [Option.bind_some]
      exact strcat_holds h hnul (by omega)

/-- The buffer after lines that `fgets` handed out. -/
theorem captureLoop_holds (h : TailHolds tail text) (htext : text.length ≤ tailRoom - 256)
    (hlines : ∀ line ∈ lines, line.length ≤ lineRoom ∧ (0 : UInt8) ∉ line) :
    ∃ tail', captureLoop lines tail = some tail' ∧ TailHolds tail' (lines.foldl kept text) ∧
      (lines.foldl kept text).length = fillAll text.length lines := by
  induction lines generalizing tail text with
  | nil => exact ⟨tail, rfl, h, rfl⟩
  | cons line rest ih =>
      obtain ⟨hline, hnul⟩ := hlines line List.mem_cons_self
      obtain ⟨tail₁, hturn, h₁⟩ := captureLine_holds h htext hline hnul
      have hlen := kept_length htext hline
      have hrest := ih h₁ (hlen ▸ fill_le htext line)
        fun l hl => hlines l (List.mem_cons_of_mem line hl)
      rw [hlen] at hrest
      rw [captureLoop, hturn, Option.bind_some]
      exact hrest

/-! ## What the text is -/

theorem kept_suffix (htext : text.length ≤ tailRoom - 256)
    (hlines : ∀ line ∈ lines, line.length ≤ lineRoom) :
    lines.foldl kept text <:+ text ++ (held text.length lines).flatten := by
  induction lines generalizing text with
  | nil => rw [held, List.flatten_nil, List.append_nil, List.foldl_nil]
  | cons line rest ih =>
      have hline := hlines line List.mem_cons_self
      have hlen := kept_length htext hline
      have hrest := ih (hlen ▸ fill_le htext line)
        fun l hl => hlines l (List.mem_cons_of_mem line hl)
      rw [List.foldl_cons]
      refine hrest.trans ?_
      by_cases hdropped : Dropped text.length line
      · rw [held, if_pos hdropped, kept, if_pos hdropped]
      · have hkept : kept text line <:+ text ++ line := by
          rw [kept, if_neg hdropped]
          split
          · exact (List.suffix_append_inj_of_length_eq rfl).mpr ⟨List.drop_suffix _ _, rfl⟩
          · exact List.suffix_refl _
        rw [held, if_neg hdropped, List.flatten_cons, ← List.append_assoc, hlen]
        obtain ⟨lost, heq⟩ := hkept
        exact ⟨lost, by rw [← heq, List.append_assoc]⟩

theorem fillAll_cons (filled : Nat) (line : Bytes) (lines : List Bytes) :
    fillAll filled (line :: lines) = fillAll (fill filled line) lines := rfl

theorem held_append (filled : Nat) (before after : List Bytes) :
    held filled (before ++ after) = held filled before ++ held (fillAll filled before) after := by
  induction before generalizing filled with
  | nil => rfl
  | cons line rest ih =>
      rw [List.cons_append, fillAll_cons]
      by_cases hdropped : Dropped filled line
      · rw [held, held, if_pos hdropped, if_pos hdropped, ih, fill_dropped hdropped]
      · rw [held, held, if_neg hdropped, if_neg hdropped, ih, List.cons_append]

theorem held_of_allHeld (h : AllHeld filled lines) : held filled lines = lines := by
  induction lines generalizing filled with
  | nil => rfl
  | cons line rest ih => rw [held, if_neg h.1, ih h.2]

theorem exists_last_dropped (h : ¬ AllHeld filled lines) :
    ∃ before line after, lines = before ++ line :: after ∧ Dropped (fillAll filled before) line ∧
      AllHeld (fillAll filled before) after := by
  induction lines generalizing filled with
  | nil => exact absurd trivial h
  | cons line rest ih =>
      by_cases hrest : AllHeld (fill filled line) rest
      · have hdropped : Dropped filled line := by
          by_contra hfits
          exact h ⟨hfits, hrest⟩
        exact ⟨[], line, rest, rfl, hdropped, fill_dropped hdropped ▸ hrest⟩
      · obtain ⟨before, l, after, rfl, hdropped, hafter⟩ := ih hrest
        exact ⟨line :: before, l, after, rfl, hdropped, hafter⟩

/-! ## How much is kept -/

theorem fillAll_ge (filled : Nat) (hlines : ∀ line ∈ lines, line.length ≤ lineRoom) :
    min (filled + lines.flatten.length) 2818 ≤ fillAll filled lines := by
  have hsize : tailRoom = 4096 := rfl
  have hroom : lineRoom = 1023 := rfl
  induction lines generalizing filled with
  | nil => exact Nat.min_le_left _ _
  | cons line rest ih =>
      have hline := hlines line List.mem_cons_self
      have hrest := ih (fill filled line) fun l hl => hlines l (List.mem_cons_of_mem line hl)
      rw [fillAll_cons, List.flatten_cons, List.length_append]
      unfold fill at hrest ⊢
      split at hrest
      · next hfits =>
        rw [if_pos hfits]
        omega
      · next hfull =>
        rw [if_neg hfull]
        omega

theorem fillAll_whole (h : filled + lines.flatten.length ≤ tailRoom - 256) :
    fillAll filled lines = filled + lines.flatten.length := by
  induction lines generalizing filled with
  | nil => rfl
  | cons line rest ih =>
      rw [List.flatten_cons, List.length_append] at h ⊢
      have hfill : fill filled line = filled + line.length := if_pos (by omega)
      rw [fillAll_cons, hfill, ih (by omega), Nat.add_assoc]

theorem lastBytes_length (h : n ≤ t.length) : (lastBytes n t).length = n := by
  rw [lastBytes, List.length_drop]
  omega

theorem eq_lastBytes (h : t <:+ text) : t = lastBytes t.length text :=
  List.suffix_iff_eq_drop.mp h

theorem lastBytes_append_suffix {a b c : Bytes} (hn : n ≤ (a ++ b).length) :
    lastBytes n (a ++ b) <:+ c ++ b ↔ lastBytes (n - b.length) a <:+ c := by
  rw [List.length_append] at hn
  by_cases hle : n ≤ b.length
  · have hnil : lastBytes (n - b.length) a = [] := by
      rw [Nat.sub_eq_zero_of_le hle, lastBytes, Nat.sub_zero, List.drop_length]
    have hpart : lastBytes n (a ++ b) <:+ b := by
      refine List.suffix_of_suffix_length_le (List.drop_suffix _ _) (List.suffix_append a b) ?_
      rw [lastBytes_length (by rw [List.length_append]; exact hn)]
      exact hle
    rw [hnil]
    exact iff_of_true (hpart.trans (List.suffix_append c b)) (List.nil_suffix)
  · have hsplit : lastBytes n (a ++ b) = lastBytes (n - b.length) a ++ b := by
      rw [lastBytes, lastBytes, List.length_append, List.drop_append_of_le_length (by omega)]
      congr 2
      omega
    rw [hsplit, List.suffix_append_self_iff]

/-! ## The law -/

theorem lines_bounds (hnul : (0 : UInt8) ∉ output) :
    ∀ line ∈ linesOf lineRoom output, line.length ≤ lineRoom ∧ (0 : UInt8) ∉ line := by
  intro line hline
  refine ⟨line_length_le (by decide) hline, fun hzero => hnul (mem_of_mem_line hline hzero)⟩

theorem captureTail_eq (hnul : (0 : UInt8) ∉ output) :
    ∃ tail, captureTail output = some tail ∧ tail.length = tailRoom ∧
      cString tail = lastBytes (fillAll 0 (linesOf lineRoom output))
        (held 0 (linesOf lineRoom output)).flatten ∧
      (cString tail).length = fillAll 0 (linesOf lineRoom output) := by
  have hstart : TailHolds (List.replicate tailRoom 0) [] :=
    ⟨List.length_replicate, List.not_mem_nil, _, rfl⟩
  have hlines := lines_bounds hnul
  obtain ⟨tail, hloop, htail, hlen⟩ := captureLoop_holds hstart (Nat.zero_le _) hlines
  have hsuffix := @kept_suffix [] _ (Nat.zero_le _) fun line hline => (hlines line hline).1
  rw [List.nil_append] at hsuffix
  rw [← htail.cString] at hlen hsuffix
  refine ⟨tail, hloop, htail.size, ?_, hlen⟩
  rw [List.length_nil] at hlen hsuffix
  rw [← hlen]
  exact eq_lastBytes hsuffix

/-- The text ends the output just when nothing from before the last dropped line is
where other bytes belong. -/
theorem lastBytes_suffix_iff (hlen : fillAll 0 lines ≤ (held 0 lines).flatten.length) :
    lastBytes (fillAll 0 lines) (held 0 lines).flatten <:+ lines.flatten ↔ EndHeld lines := by
  have hcut : ∀ before line after, lines = before ++ line :: after →
      Dropped (fillAll 0 before) line → AllHeld (fillAll 0 before) after →
      (lastBytes (fillAll 0 lines) (held 0 lines).flatten <:+ lines.flatten ↔
        lastBytes (fillAll 0 lines - after.flatten.length) (held 0 before).flatten <:+
          before.flatten ++ line) := by
    intro before line after hlines hdropped hafter
    have hheld : (held 0 lines).flatten = (held 0 before).flatten ++ after.flatten := by
      rw [hlines, held_append, held, if_pos hdropped, held_of_allHeld hafter, List.flatten_append]
    have hflat : lines.flatten = before.flatten ++ line ++ after.flatten := by
      rw [hlines, List.flatten_append, List.flatten_cons, List.append_assoc]
    rw [hheld] at hlen ⊢
    rw [hflat]
    exact lastBytes_append_suffix hlen
  constructor
  · intro h before line after hlines hdropped hafter
    exact (hcut before line after hlines hdropped hafter).mp h
  · intro h
    by_cases hall : AllHeld 0 lines
    · rw [held_of_allHeld hall]
      exact List.drop_suffix _ _
    · obtain ⟨before, line, after, hlines, hdropped, hafter⟩ := exists_last_dropped hall
      exact (hcut before line after hlines hdropped hafter).mpr
        (h before line after hlines hdropped hafter)

/-- What ends the output shows its last error texts. -/
theorem keepsEnd_of_suffix (hsize : tail.length = tailRoom) (hsuffix : cString tail <:+ output)
    (hlen : (cString tail).length = fillAll 0 (linesOf lineRoom output))
    (hlines : ∀ line ∈ linesOf lineRoom output, line.length ≤ lineRoom) : KeepsEnd output tail := by
  have hflat := linesOf_flatten lineRoom output
  have hwhole : output.length ≤ tailRoom - 256 → cString tail = output := by
    intro hshort
    refine hsuffix.eq_of_length ?_
    rw [hlen, fillAll_whole (by rw [hflat]; omega), hflat, Nat.zero_add]
  refine ⟨hsize, hsuffix, hwhole, fun t ht last hlast hshort hin => ?_⟩
  have hge := fillAll_ge 0 hlines
  have hpart : last <:+ cString tail := by
    refine List.suffix_of_suffix_length_le hlast hsuffix ?_
    have hle := hlast.length_le
    rw [hflat] at hge
    omega
  exact List.any_eq_true.mpr ⟨t, ht, containsText_iff.mpr
    ((containsText_iff.mp hin).trans hpart.isInfix)⟩

/-- The tail is the end of the output exactly when dropped lines leave no gap in it. -/
theorem tail_keeps_end (hnul : (0 : UInt8) ∉ output) :
    (∃ tail, captureTail output = some tail ∧ KeepsEnd output tail) ↔
      EndHeld (linesOf lineRoom output) := by
  obtain ⟨tail, hcapture, hsize, htext, hlen⟩ := captureTail_eq hnul
  have hle : fillAll 0 (linesOf lineRoom output) ≤ (held 0 (linesOf lineRoom output)).flatten.length := by
    rw [← hlen, htext, lastBytes, List.length_drop]
    exact Nat.sub_le _ _
  have hiff := lastBytes_suffix_iff hle
  rw [← htext, linesOf_flatten] at hiff
  rw [← hiff]
  constructor
  · rintro ⟨tail', heq, hkeeps⟩
    rw [hcapture] at heq
    rw [Option.some.inj heq]
    exact hkeeps.suffix
  · intro hsuffix
    exact ⟨tail, hcapture, keepsEnd_of_suffix hsize hsuffix hlen
      fun line hline => (lines_bounds hnul line hline).1⟩

instance (filled : Nat) : (lines : List Bytes) → Decidable (AllHeld filled lines)
  | [] => inferInstanceAs (Decidable True)
  | line :: rest =>
      let _ := instDecidableAllHeld (fill filled line) rest
      inferInstanceAs (Decidable (_ ∧ _))

theorem AllHeld.not_dropped (h : AllHeld filled (before ++ line :: after)) :
    ¬ Dropped (fillAll filled before) line := by
  induction before generalizing filled with
  | nil => exact h.1
  | cons b rest ih => exact ih h.2

theorem endHeld_of_allHeld (h : AllHeld 0 lines) : EndHeld lines := by
  rintro before line after rfl hdropped
  exact absurd hdropped h.not_dropped

/-- Fifty lines of 100 bytes before the error text. -/
def longThenDenied : Bytes :=
  (List.replicate 50 (List.replicate 99 45 ++ [newline])).flatten ++ utf8 "ssh: Permission denied\n"

theorem tail_keeps_end_denied :
    tailRoom < longThenDenied.length ∧
      ∃ tail, captureTail longThenDenied = some tail ∧ KeepsEnd longThenDenied tail :=
  ⟨by decide +kernel, (tail_keeps_end (by decide +kernel)).mpr
    (endHeld_of_allHeld (by decide +kernel))⟩

/-- A banner of 3840 bytes and a last line of 255. -/
def bannerThenDenied : Bytes :=
  List.replicate 3839 45 ++ (newline :: (List.replicate 236 47 ++ utf8 ": Permission denied"))

/-- The last line finds no room: neither it nor its error text is in the tail. -/
theorem last_line_dropped :
    ((0 : UInt8) ∉ bannerThenDenied ∧
      containsText (utf8 "Permission denied") (lastBytes 255 bannerThenDenied) = true) ∧
    (captureTail bannerThenDenied).map outputFailed = some false ∧
    ¬ ∃ tail, captureTail bannerThenDenied = some tail ∧ KeepsEnd bannerThenDenied tail := by
  have hseen : containsText (utf8 "Permission denied") (lastBytes 255 bannerThenDenied) = true := by
    decide +kernel
  have hnul : (0 : UInt8) ∉ bannerThenDenied := by decide +kernel
  have hfailed : (captureTail bannerThenDenied).map outputFailed = some false := by
    obtain ⟨tail, hcapture, -, htext, -⟩ := captureTail_eq hnul
    -- only the banner is held, and every error text has another byte
    have hdashes : (cString tail).all fun b => b == 45 || b == newline := by
      rw [htext]
      decide +kernel
    have hletter : ∀ t ∈ failureTexts, ∃ b ∈ t, (b == 45 || b == newline) = false := by decide
    rw [hcapture, Option.map_some, Option.some.injEq, outputFailed, List.any_eq_false]
    intro t ht hin
    obtain ⟨b, hb, hother⟩ := hletter t ht
    rw [List.all_eq_true.mp hdashes b ((containsText_iff.mp hin).subset hb)] at hother
    cases hother
  refine ⟨⟨hnul, hseen⟩, hfailed, ?_⟩
  rintro ⟨tail, hcapture, hkeeps⟩
  have hshort : (lastBytes 255 bannerThenDenied).length ≤ 2818 := by decide +kernel
  have htrue := hkeeps.seen (utf8 "Permission denied") (by decide) _ (List.drop_suffix _ _) hshort hseen
  rw [hcapture, Option.map_some, htrue] at hfailed
  cases hfailed

end QnxHypervisor.SshClient
