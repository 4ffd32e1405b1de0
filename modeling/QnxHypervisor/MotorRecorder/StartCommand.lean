import QnxHypervisor.Foundation.Words
import QnxHypervisor.MotorRecorder.Recorder

/-! # The arguments of `start`

A command that begins with `start` carries a name, a duration, both or neither. What its
words ask for is compared with what `handle_command` makes of them.
-/

namespace QnxHypervisor.MotorRecorder

open Foundation

/-! ## What is asked for -/

def allDigits (word : Bytes) : Bool := word.all isDigit

/-- What the words ask for, and the words left over. Without a name the file gets a generated
one. -/
structure StartReading where
  name : Option Bytes
  seconds : Nat
  left : List Bytes

/-- The words behind a name. -/
def readDuration (word : Bytes) : List Bytes → StartReading
  | [] => ⟨some word, 0, []⟩
  | second :: rest =>
      if allDigits second then ⟨some word, leadingNumber second, rest⟩
      else ⟨some word, 0, second :: rest⟩

def readStart : List Bytes → StartReading
  | [] => ⟨none, 0, []⟩
  | word :: rest =>
      if allDigits word then ⟨none, leadingNumber word, rest⟩ else readDuration word rest

def startReading (text : Bytes) : StartReading := readStart (words text)

/-- The file that is asked for, at full length. -/
def askedFile (saveDir stamp : Bytes) : Option Bytes → Bytes
  | none => (generateFilename saveDir stamp).bytes
  | some word => saveDir ++ utf8 "/" ++ word ++ utf8 ".csv"

/-- The parse stays in its buffers and yields what is asked for, and no word is left over. -/
structure StartGiven (saveDir stamp text : Bytes) : Prop where
  read : ∃ args, startArgs saveDir stamp (utf8 "start" ++ text) = some args ∧
    args.filename.bytes = askedFile saveDir stamp (startReading text).name ∧
    args.duration.toNat = (startReading text).seconds
  nothingLeft : (startReading text).left = []

def nameGap (text : Bytes) : Bytes := (behindWord text).takeWhile isSpace

/-- No word is left over, the first one fits into `name_buf` and is a number if it begins with a
digit, the duration fits into 64 bits, and only spaces stand before one that follows a name. -/
structure StartReadable (text : Bytes) : Prop where
  nothingLeft : (startReading text).left = []
  fits : (firstWord text).length < nameRoom
  digits : beginsWithDigit (firstWord text) = true → allDigits (firstWord text) = true
  seconds : (startReading text).seconds < 2 ^ 64
  gap : (startReading text).name ≠ none → (startReading text).seconds ≠ 0 →
    ∀ b ∈ nameGap text, b = 32

/-! ## Numbers -/

variable {saveDir stamp text t word : Bytes}

theorem beginsWithDigit_iff : beginsWithDigit t = true ↔ ∃ b rest, t = b :: rest ∧ isDigit b = true := by
  cases t with
  | nil => simp [beginsWithDigit]
  | cons b rest => simp [beginsWithDigit]

theorem beginsWithDigit_of_allDigits (h : allDigits t = true) (hne : t ≠ []) :
    beginsWithDigit t = true := by
  cases t with
  | nil => exact absurd rfl hne
  | cons b rest => exact (List.all_eq_true.mp h) b List.mem_cons_self

/-- `strtoull` stops at the largest number. -/
theorem strtoul_exact (h : beginsWithDigit t = true) :
    (strtoul t).toNat = leadingNumber t ↔ leadingNumber t < 2 ^ 64 := by
  obtain ⟨b, rest, rfl, hb⟩ := beginsWithDigit_iff.mp h
  rw [strtoul, signedRest_digits (by simpa using hb)]
  simp only [Bool.false_eq_true, if_false]
  split
  case isTrue hlarge =>
    refine iff_of_false ?_ (by omega)
    rw [UInt64.toNat_ofNat', Nat.mod_eq_of_lt (by decide)]
    omega
  case isFalse hsmall =>
    rw [UInt64.toNat_ofNat', Nat.mod_eq_of_lt (by omega)]
    exact iff_of_true rfl (by omega)

theorem leadingNumber_append (h : allDigits t = true) {rest : Bytes}
    (hrest : ∀ b ∈ rest.head?, isSpace b = true) : leadingNumber (t ++ rest) = leadingNumber t := by
  have hstop : rest.takeWhile isDigit = [] := by
    cases rest with
    | nil => rfl
    | cons b rest =>
        refine List.takeWhile_cons_of_neg fun hb => ?_
        have hspace : isSpace b = true := hrest b rfl
        rw [isDigit_not_space hb] at hspace
        cases hspace
  have hall := List.all_eq_true.mp h
  rw [leadingNumber, List.takeWhile_append_of_pos hall, hstop, List.append_nil, leadingNumber,
    List.takeWhile_eq_self_iff.mpr hall]

/-! ## The scan -/

theorem dropWhile_skipSpaces (t : Bytes) : (skipSpaces t).dropWhile isSpace = t.dropWhile isSpace := by
  induction t with
  | nil => rfl
  | cons b t ih =>
      by_cases hb : b = 32
      · subst hb
        rw [skipSpaces, List.dropWhile_cons_of_pos rfl, List.dropWhile_cons_of_pos rfl]
        exact ih
      · rw [skipSpaces, List.dropWhile_cons_of_neg (by simpa using hb)]

theorem scanWord_of_short (h : (firstWord t).length < nameRoom) :
    scanWord (skipSpaces t) = (firstWord t, behindWord t) := by
  have hroom : nameRoom = 200 := rfl
  have htake : (firstWord t).take 255 = firstWord t := List.take_of_length_le (by omega)
  have hdrop : (t.dropWhile isSpace).drop (firstWord t).length = behindWord t := by
    rw [← firstWord_append_behindWord, List.drop_left]
  unfold firstWord at htake hdrop
  simp only [scanWord, dropWhile_skipSpaces, htake, hdrop]
  rfl

theorem scanWord_fst (t : Bytes) : (scanWord (skipSpaces t)).1 = (firstWord t).take 255 := by
  simp only [scanWord, dropWhile_skipSpaces]
  rfl

theorem skipSpaces_ne_nil (h : firstWord t ≠ []) : skipSpaces t ≠ [] := by
  intro hnil
  rw [firstWord, ← dropWhile_skipSpaces, hnil] at h
  exact h rfl

theorem drop_start (text : Bytes) : (utf8 "start" ++ text).drop 5 = text :=
  List.drop_left' (by decide)

/-! ## The forms -/

theorem startArgs_none (h : firstWord text = []) :
    startArgs saveDir stamp (utf8 "start" ++ text) = some ⟨generateFilename saveDir stamp, 0⟩ := by
  have hword := scanWord_fst text
  rw [h, List.take_nil] at hword
  simp only [startArgs, drop_start, hword, if_true, ite_self]

theorem startArgs_long (h : nameRoom ≤ (firstWord text).length) :
    startArgs saveDir stamp (utf8 "start" ++ text) = none := by
  have hroom : nameRoom = 200 := rfl
  have hne : firstWord text ≠ [] := List.ne_nil_of_length_pos (by omega)
  have hlong : nameRoom ≤ ((firstWord text).take 255).length := by
    rw [List.length_take]
    omega
  have hword : (firstWord text).take 255 ≠ [] := List.ne_nil_of_length_pos (by omega)
  simp only [startArgs, drop_start, scanWord_fst, if_neg (skipSpaces_ne_nil hne), if_neg hword,
    if_pos hlong]

theorem startArgs_number (hne : firstWord text ≠ []) (hshort : (firstWord text).length < nameRoom)
    (hdigit : beginsWithDigit (firstWord text) = true) :
    startArgs saveDir stamp (utf8 "start" ++ text) =
      some ⟨generateFilename saveDir stamp, strtoul (firstWord text)⟩ := by
  simp only [startArgs, drop_start, scanWord_of_short hshort, if_neg (skipSpaces_ne_nil hne),
    if_neg hne, if_neg (Nat.not_le.mpr hshort), if_pos hdigit]

/-- The duration behind a name. -/
def durationBehind (rest : Bytes) : UInt64 :=
  if beginsWithDigit (skipSpaces rest) then strtoul (skipSpaces rest) else 0

theorem startArgs_named (hne : firstWord text ≠ []) (hshort : (firstWord text).length < nameRoom)
    (hdigit : ¬ beginsWithDigit (firstWord text) = true) :
    startArgs saveDir stamp (utf8 "start" ++ text) =
      some ⟨.fit 1024 (saveDir ++ utf8 "/" ++ firstWord text ++ utf8 ".csv"),
        durationBehind (behindWord text)⟩ := by
  simp only [startArgs, drop_start, scanWord_of_short hshort, if_neg (skipSpaces_ne_nil hne),
    if_neg hne, if_neg (Nat.not_le.mpr hshort), if_neg hdigit, durationBehind]

/-! ## The duration behind a name -/

theorem gap_of_digit {rest : Bytes} (h : beginsWithDigit (skipSpaces rest) = true) :
    ∀ b ∈ rest.takeWhile isSpace, b = 32 := by
  induction rest with
  | nil => exact fun b hb => nomatch hb
  | cons c rest ih =>
      by_cases hc : c = 32
      · subst hc
        rw [skipSpaces, List.dropWhile_cons_of_pos rfl] at h
        rw [List.takeWhile_cons_of_pos rfl]
        exact List.forall_mem_cons.mpr ⟨rfl, ih h⟩
      · rw [skipSpaces, List.dropWhile_cons_of_neg (by simpa using hc)] at h
        rw [List.takeWhile_cons_of_neg (by rw [isDigit_not_space h]; decide)]
        exact fun b hb => nomatch hb

theorem skipSpaces_of_gap {rest : Bytes} (h : ∀ b ∈ rest.takeWhile isSpace, b = 32) :
    skipSpaces rest = rest.dropWhile isSpace := by
  induction rest with
  | nil => rfl
  | cons c rest ih =>
      cases hc : isSpace c with
      | false =>
          have hother : c ≠ 32 := by
            rintro rfl
            cases hc
          rw [skipSpaces, List.dropWhile_cons_of_neg (by simpa using hother),
            List.dropWhile_cons_of_neg (by rw [hc]; decide)]
      | true =>
          rw [List.takeWhile_cons_of_pos hc, List.forall_mem_cons] at h
          rw [skipSpaces, List.dropWhile_cons_of_pos (by simpa using h.1),
            List.dropWhile_cons_of_pos hc]
          exact ih h.2

theorem durationBehind_none {rest : Bytes} (h : words rest = []) : durationBehind rest = 0 := by
  refine if_neg fun hdigit => ?_
  obtain ⟨d, after, hskip, hd⟩ := beginsWithDigit_iff.mp hdigit
  have hmem : d ∈ rest := (List.dropWhile_sublist _).mem (by
    rw [← skipSpaces, hskip]
    exact List.mem_cons_self)
  have hspace := isDigit_not_space hd
  rw [isSpace_of_words h hmem] at hspace
  cases hspace

theorem durationBehind_exact {rest : Bytes} (hne : firstWord rest ≠ [])
    (hdigits : allDigits (firstWord rest) = true) :
    (durationBehind rest).toNat = leadingNumber (firstWord rest) ↔
      leadingNumber (firstWord rest) < 2 ^ 64 ∧
        (leadingNumber (firstWord rest) ≠ 0 → ∀ b ∈ rest.takeWhile isSpace, b = 32) := by
  by_cases hgap : ∀ b ∈ rest.takeWhile isSpace, b = 32
  · have hskip := skipSpaces_of_gap hgap
    rw [← firstWord_append_behindWord] at hskip
    have hbegins : beginsWithDigit (skipSpaces rest) = true := by
      obtain ⟨b, after, hword, hb⟩ :=
        beginsWithDigit_iff.mp (beginsWithDigit_of_allDigits hdigits hne)
      rw [hskip, hword]
      exact hb
    have hnumber : leadingNumber (skipSpaces rest) = leadingNumber (firstWord rest) := by
      rw [hskip, leadingNumber_append hdigits behindWord_head]
    rw [durationBehind, if_pos hbegins, ← hnumber, strtoul_exact hbegins]
    exact ⟨fun h => ⟨h, fun _ => hgap⟩, fun h => h.1⟩
  · rw [durationBehind, if_neg fun hdigit => hgap (gap_of_digit hdigit)]
    constructor
    · intro hzero
      have hzero : leadingNumber (firstWord rest) = 0 := hzero.symm
      exact ⟨by omega, fun hne => absurd hzero hne⟩
    · rintro ⟨-, hspaces⟩
      by_contra hne
      exact hgap (hspaces fun hzero => hne hzero.symm)

/-! ## The file -/

theorem named_file (hdir : saveDir.length ≤ 511) (hdirNul : (0 : UInt8) ∉ saveDir)
    (hnul : (0 : UInt8) ∉ text) (hshort : (firstWord text).length < nameRoom) :
    (CStr.fit 1024 (saveDir ++ utf8 "/" ++ firstWord text ++ utf8 ".csv")).bytes =
      askedFile saveDir stamp (some (firstWord text)) := by
  have hroom : nameRoom = 200 := rfl
  have hword : (0 : UInt8) ∉ firstWord text := fun h =>
    hnul ((List.dropWhile_sublist _).mem ((List.takeWhile_sublist _).mem h))
  refine CStr.fit_of_short ?_ ?_
  · simp only [List.mem_append, not_or]
    exact ⟨⟨⟨hdirNul, by decide⟩, hword⟩, by decide⟩
  · have hslash : (utf8 "/").length = 1 := by decide
    have hcsv : (utf8 ".csv").length = 4 := by decide
    simp only [List.length_append]
    omega

theorem generated_other (hdir : saveDir.length ≤ 511) (hdirNul : (0 : UInt8) ∉ saveDir)
    (hdigit : beginsWithDigit word = true) :
    (generateFilename saveDir stamp).bytes ≠ askedFile saveDir stamp (some word) := by
  obtain ⟨d, rest, rfl, hd⟩ := beginsWithDigit_iff.mp hdigit
  have hletter : (generateFilename saveDir stamp).bytes[saveDir.length + 1]? = some 109 := by
    have hprefix : (0 : UInt8) ∉ saveDir ++ utf8 "/motor_" := by
      rw [List.mem_append, not_or]
      exact ⟨hdirNul, by decide⟩
    simp only [generateFilename, CStr.fit]
    rw [List.append_assoc, cString_append hprefix, List.getElem?_take_of_lt (by omega),
      List.append_assoc, List.getElem?_append_right (by omega)]
    simp [show utf8 "/motor_" = [47, 109, 111, 116, 111, 114, 95] by decide]
  intro heq
  rw [heq] at hletter
  have hfirst : (askedFile saveDir stamp (some (d :: rest)))[saveDir.length + 1]? = some d := by
    simp [askedFile, show utf8 "/" = [47] by decide]
  rw [hfirst] at hletter
  cases hletter
  cases hd

/-! ## When the arguments are read as given -/

theorem readDuration_name (word : Bytes) (rest : List Bytes) :
    (readDuration word rest).name = some word := by
  cases rest with
  | nil => rfl
  | cons second rest =>
      rw [readDuration]
      split <;> rfl

theorem startReading_none (h : firstWord text = []) : startReading text = ⟨none, 0, []⟩ := by
  rw [startReading, words_nil h, readStart]

theorem startReading_number (hne : firstWord text ≠ []) (hdigits : allDigits (firstWord text) = true) :
    startReading text = ⟨none, leadingNumber (firstWord text), words (behindWord text)⟩ := by
  rw [startReading, words_cons hne, readStart, if_pos hdigits]

theorem startReading_named (hne : firstWord text ≠ [])
    (hdigits : ¬ allDigits (firstWord text) = true) :
    startReading text = readDuration (firstWord text) (words (behindWord text)) := by
  rw [startReading, words_cons hne, readStart, if_neg hdigits]

theorem startGiven_none (h : firstWord text = []) :
    StartGiven saveDir stamp text ↔ StartReadable text := by
  have hreading := startReading_none h
  refine iff_of_true ⟨⟨_, startArgs_none h, ?_, ?_⟩, ?_⟩ ⟨?_, ?_, ?_, ?_, ?_⟩
  · rw [hreading]
    rfl
  · rw [hreading]
    rfl
  · rw [hreading]
  · rw [hreading]
  · rw [h]
    decide
  · rw [h]
    exact fun hdigit => nomatch hdigit
  · rw [hreading]
    exact Nat.two_pow_pos 64
  · rw [hreading]
    exact fun hname => absurd rfl hname

theorem startGiven_number (hne : firstWord text ≠ [])
    (hshort : (firstWord text).length < nameRoom) (hdigits : allDigits (firstWord text) = true) :
    StartGiven saveDir stamp text ↔ StartReadable text := by
  have hreading := startReading_number hne hdigits
  have hbegins := beginsWithDigit_of_allDigits hdigits hne
  have hargs : startArgs saveDir stamp (utf8 "start" ++ text) = _ :=
    startArgs_number hne hshort hbegins
  constructor
  · rintro ⟨⟨args, hread, -, hseconds⟩, hleft⟩
    rw [hargs, Option.some.injEq] at hread
    subst hread
    rw [hreading, strtoul_exact hbegins] at hseconds
    exact ⟨hleft, hshort, fun _ => hdigits, by rwa [hreading], by simp [hreading]⟩
  · intro h
    refine ⟨⟨_, hargs, ?_, ?_⟩, h.nothingLeft⟩
    · rw [hreading]
      rfl
    · have hsmall := h.seconds
      rw [hreading] at hsmall ⊢
      exact (strtoul_exact hbegins).mpr hsmall

theorem not_startGiven_digit (hdir : saveDir.length ≤ 511) (hdirNul : (0 : UInt8) ∉ saveDir)
    (hne : firstWord text ≠ []) (hshort : (firstWord text).length < nameRoom)
    (hbegins : beginsWithDigit (firstWord text) = true)
    (hdigits : ¬ allDigits (firstWord text) = true) : ¬ StartGiven saveDir stamp text := by
  rintro ⟨⟨args, hread, hfile, -⟩, -⟩
  rw [startArgs_number hne hshort hbegins, Option.some.injEq] at hread
  subst hread
  rw [startReading_named hne hdigits, readDuration_name] at hfile
  exact generated_other hdir hdirNul hbegins hfile

theorem startGiven_named (hdir : saveDir.length ≤ 511) (hdirNul : (0 : UInt8) ∉ saveDir)
    (hnul : (0 : UInt8) ∉ text) (hne : firstWord text ≠ [])
    (hshort : (firstWord text).length < nameRoom)
    (hbegins : ¬ beginsWithDigit (firstWord text) = true) :
    StartGiven saveDir stamp text ↔ StartReadable text := by
  have hdigits : ¬ allDigits (firstWord text) = true := fun hall =>
    hbegins (beginsWithDigit_of_allDigits hall hne)
  have hreading := startReading_named hne hdigits
  have hargs : startArgs saveDir stamp (utf8 "start" ++ text) = _ :=
    startArgs_named hne hshort hbegins
  have hfile : _ = askedFile saveDir stamp _ := named_file hdir hdirNul hnul hshort
  -- what is left is the duration
  have hgiven : StartGiven saveDir stamp text ↔
      (durationBehind (behindWord text)).toNat = (startReading text).seconds ∧
        (startReading text).left = [] := by
    constructor
    · rintro ⟨⟨args, hread, -, hseconds⟩, hleft⟩
      rw [hargs, Option.some.injEq] at hread
      subst hread
      exact ⟨hseconds, hleft⟩
    · rintro ⟨hseconds, hleft⟩
      refine ⟨⟨_, hargs, ?_, hseconds⟩, hleft⟩
      rw [hreading, readDuration_name]
      exact hfile
  have hreadable : StartReadable text ↔ (startReading text).left = [] ∧
      (startReading text).seconds < 2 ^ 64 ∧
      ((startReading text).seconds ≠ 0 → ∀ b ∈ nameGap text, b = 32) := by
    constructor
    · intro h
      exact ⟨h.nothingLeft, h.seconds, h.gap (by rw [hreading, readDuration_name]; simp)⟩
    · rintro ⟨hleft, hseconds, hgap⟩
      exact ⟨hleft, hshort, fun h => absurd h hbegins, hseconds, fun _ => hgap⟩
  rw [hgiven, hreadable, hreading]
  by_cases hsecond : firstWord (behindWord text) = []
  · rw [words_nil hsecond, durationBehind_none (words_nil hsecond)]
    exact iff_of_true ⟨rfl, rfl⟩ ⟨rfl, Nat.two_pow_pos 64, fun h => absurd rfl h⟩
  · rw [words_cons hsecond, readDuration]
    split
    case isTrue hall =>
      show _ = leadingNumber _ ∧ _ ↔ _ ∧ leadingNumber _ < _ ∧ (leadingNumber _ ≠ 0 → _)
      rw [durationBehind_exact hsecond hall, and_comm]
      rfl
    case isFalse =>
      exact iff_of_false (fun h => List.cons_ne_nil _ _ h.2) fun h => List.cons_ne_nil _ _ h.1

theorem start_given_iff (saveDir : CStr 512) (stamp text : Bytes) (hnul : (0 : UInt8) ∉ text) :
    StartGiven saveDir.bytes stamp text ↔ StartReadable text := by
  have hdir := saveDir.short
  by_cases hne : firstWord text = []
  · exact startGiven_none hne
  by_cases hshort : (firstWord text).length < nameRoom
  · by_cases hbegins : beginsWithDigit (firstWord text) = true
    · by_cases hdigits : allDigits (firstWord text) = true
      · exact startGiven_number hne hshort hdigits
      · exact iff_of_false (not_startGiven_digit hdir saveDir.noNul hne hshort hbegins hdigits)
          fun h => hdigits (h.digits hbegins)
    · exact startGiven_named hdir saveDir.noNul hnul hne hshort hbegins
  · refine iff_of_false ?_ fun h => hshort h.fits
    rintro ⟨⟨args, hread, -⟩, -⟩
    rw [startArgs_long (Nat.not_lt.mp hshort)] at hread
    cases hread

theorem start_given_iff_named :
    StartGiven (CStr.fit 512 (utf8 "/data")).bytes (utf8 "20250101_000000") (utf8 " run 60") :=
  (start_given_iff _ _ _ (by decide)).mpr
    ⟨by decide +kernel, by decide +kernel, by decide +kernel, by decide +kernel,
      fun _ _ => by decide +kernel⟩

/-- The name `2024run` is taken for 2024 seconds. -/
theorem start_not_as_given :
    ¬ ∀ (saveDir : CStr 512) (stamp text : Bytes), (0 : UInt8) ∉ text →
      StartGiven saveDir.bytes stamp text := by
  intro hall
  have hgiven := hall (.fit 512 (utf8 "/data")) (utf8 "20250101_000000") (utf8 " 2024run") (by decide)
  exact not_startGiven_digit (by decide) (by decide) (by decide) (by decide) (by decide) (by decide)
    hgiven

end QnxHypervisor.MotorRecorder
