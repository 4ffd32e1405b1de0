import QnxHypervisor.HmsStatus.Escape

/-! # Escaping into a buffer

`escape_json` of `main.c` and `shell_escape` of `shell.c` as they run: byte after
byte into the caller's buffer, `snprintf` for the control characters, a NUL
behind the last one. They differ in the number they hand to `%04x`.
-/

namespace QnxHypervisor.HmsStatus

open Foundation

/-! ## Source functions -/

/-- `out` and `j`. -/
structure OutBuffer where
  bytes : Bytes
  pos : Nat

/-- `out[j++] = b`; outside the buffer nothing is defined. -/
def OutBuffer.put (o : OutBuffer) (b : UInt8) : Option OutBuffer :=
  if o.pos < o.bytes.length then some ⟨o.bytes.set o.pos b, o.pos + 1⟩ else none

/-- `j += snprintf(out + j, out_sz - j, ...)` for what the format asks for. -/
def OutBuffer.print (o : OutBuffer) (text : Bytes) : Option OutBuffer :=
  -- the size would wrap
  if o.bytes.length < o.pos then none
  else
    let room := o.bytes.length - o.pos
    let stored := if room = 0 then [] else text.take (room - 1) ++ [0]
    some ⟨o.bytes.take o.pos ++ (stored ++ o.bytes.drop (o.pos + stored.length)),
      o.pos + text.length⟩

/-- The hexadecimal digits of an `unsigned int`. -/
def nibbles (v : UInt32) : List UInt8 :=
  [7, 6, 5, 4, 3, 2, 1, 0].map fun k => UInt8.ofNat (v.toNat / 16 ^ k % 16)

/-- `printf("%04x")`. -/
def hex4 (v : UInt32) : Bytes :=
  (((nibbles v).take 4).dropWhile (fun d => d == 0) ++ (nibbles v).drop 4).map hexDigit

/-- A turn of the loop; `promote` is how the byte reaches the format. -/
def escapeTurn (promote : UInt8 → UInt32) (c : UInt8) (o : OutBuffer) : Option OutBuffer :=
  if c = 34 ∨ c = 92 then (o.put 92).bind fun o => o.put c
  else if c = 10 then (o.put 92).bind fun o => o.put 110
  else if c = 13 then (o.put 92).bind fun o => o.put 114
  else if c = 9 then (o.put 92).bind fun o => o.put 116
  else if c < 32 then o.print (utf8 "\\u" ++ hex4 (promote c))
  else o.put c

/-- `(int)out_sz - 8`; below `INT_MIN` nothing is defined. -/
def escapeLimit (outSz : Nat) : Option Int :=
  let limit := (Int32.ofNat outSz).toInt - 8
  if limit < Int32.minValue.toInt then none else some limit

def escapeLoop (promote : UInt8 → UInt32) (outSz : Nat) : Bytes → OutBuffer → Option OutBuffer
  | [], o => some o
  | c :: rest, o =>
      if c = 0 then some o
      else
        (escapeLimit outSz).bind fun limit =>
          if o.pos < limit then (escapeTurn promote c o).bind (escapeLoop promote outSz rest)
          else some o

/-- The buffer that is left and the number returned. -/
def escapeInto (promote : UInt8 → UInt32) (t out : Bytes) : Option (Bytes × Nat) :=
  (escapeLoop promote out.length t ⟨out, 0⟩).bind fun o =>
    (o.put 0).map fun ended => (ended.bytes, o.pos)

/-- A `char` with a sign, promoted to `int`. -/
def signedChar (c : UInt8) : UInt32 := c.toInt8.toInt32.toUInt32

/-- `escape_json`: the `char` itself goes to the format. -/
def escapeJson (t out : Bytes) : Option (Bytes × Nat) := escapeInto signedChar t out

/-- `shell_escape`: the `char` is cast to `unsigned char` first. -/
def shellEscapeInto (t out : Bytes) : Option (Bytes × Nat) := escapeInto UInt8.toUInt32 t out

/-! ## Writing to the buffer -/

/-- The buffer of `size` bytes starts with what has been written. -/
structure OutBuffer.Has (o : OutBuffer) (size : Nat) (text : Bytes) : Prop where
  size : o.bytes.length = size
  pos : o.pos = text.length
  text : o.bytes.take o.pos = text

variable {o : OutBuffer} {size : Nat} {text : Bytes}

theorem OutBuffer.Has.put (h : o.Has size text) (hroom : text.length < size) (b : UInt8) :
    ∃ o', o.put b = some o' ∧ o'.Has size (text ++ [b]) := by
  have hpos : o.pos < o.bytes.length := by
    rw [h.pos, h.size]
    exact hroom
  refine ⟨⟨o.bytes.set o.pos b, o.pos + 1⟩, if_pos hpos, ?_, ?_, ?_⟩
  · rw [List.length_set, h.size]
  · rw [List.length_append, List.length_singleton, h.pos]
  · rw [List.take_add_one, List.take_set_of_le le_rfl, h.text, List.getElem?_set_self hpos,
      Option.toList_some]

theorem OutBuffer.Has.print (h : o.Has size text) (more : Bytes)
    (hroom : text.length + more.length < size) :
    ∃ o', o.print more = some o' ∧ o'.Has size (text ++ more) := by
  have hsize := h.size
  have hpos := h.pos
  have hin : ¬ o.bytes.length < o.pos := by omega
  have hsome : ¬ o.bytes.length - o.pos = 0 := by omega
  have hall : more.take (o.bytes.length - o.pos - 1) = more :=
    List.take_of_length_le (by omega)
  have hprint : o.print more = some ⟨o.bytes.take o.pos ++ ((more ++ [0]) ++
      o.bytes.drop (o.pos + (more ++ [0]).length)), o.pos + more.length⟩ := by
    simp only [OutBuffer.print, if_neg hin, if_neg hsome, hall]
  refine ⟨_, hprint, ?_, by simp only [List.length_append, hpos], ?_⟩
  · simp only [List.length_append, List.length_take, List.length_drop, List.length_singleton]
    omega
  · have hlen : o.pos + more.length = (text ++ more).length := by rw [List.length_append, hpos]
    have hbytes : o.bytes.take o.pos ++ ((more ++ [0]) ++
        o.bytes.drop (o.pos + (more ++ [0]).length)) =
          (text ++ more) ++ ([0] ++ o.bytes.drop (o.pos + (more ++ [0]).length)) := by
      rw [h.text, List.append_assoc more, List.append_assoc text]
    simp only [hlen, hbytes, List.take_left]

theorem OutBuffer.print_eq (hpos : o.pos < o.bytes.length) (more : Bytes) :
    o.print more = some ⟨o.bytes.take o.pos ++ ((more.take (o.bytes.length - o.pos - 1) ++ [0]) ++
      o.bytes.drop (o.pos + (more.take (o.bytes.length - o.pos - 1) ++ [0]).length)),
        o.pos + more.length⟩ := by
  have hin : ¬ o.bytes.length < o.pos := by omega
  have hsome : ¬ o.bytes.length - o.pos = 0 := by omega
  simp only [OutBuffer.print, if_neg hin, if_neg hsome]

/-- The NUL that `snprintf` writes. -/
theorem OutBuffer.Has.print_ended (h : o.Has size text) (more : Bytes)
    (hroom : text.length + more.length < size) :
    ∃ o', o.print more = some o' ∧ o'.Has size (text ++ more) ∧ o'.bytes[o'.pos]? = some 0 := by
  obtain ⟨o', hprint, h'⟩ := h.print more hroom
  refine ⟨o', hprint, h', ?_⟩
  have hpos : o.pos < o.bytes.length := by
    rw [h.pos, h.size]
    omega
  have hall : more.take (o.bytes.length - o.pos - 1) = more :=
    List.take_of_length_le (by rw [h.pos, h.size]; omega)
  rw [OutBuffer.print_eq hpos, hall] at hprint
  obtain rfl := Option.some.inj hprint
  have htake : (o.bytes.take o.pos).length = o.pos := by
    rw [List.length_take]
    omega
  simp only
  rw [List.getElem?_append_right (by omega), htake, Nat.add_sub_cancel_left, List.append_assoc,
    List.getElem?_append_right le_rfl, Nat.sub_self]
  rfl

theorem OutBuffer.Has.cString (h : o.Has size text) (hnul : (0 : UInt8) ∉ text)
    (hended : o.bytes[o.pos]? = some 0) : cString o.bytes = text := by
  obtain ⟨hlt, hzero⟩ := List.getElem?_eq_some_iff.mp hended
  rw [← List.take_append_drop o.pos o.bytes, h.text, cString_append hnul,
    List.drop_eq_getElem_cons hlt, hzero]
  exact List.append_nil text

/-- The position moves on by what was asked for, also when the text is cut. -/
theorem OutBuffer.print_pos {o' : OutBuffer} {more : Bytes} (h : o.print more = some o') :
    o.pos ≤ o.bytes.length ∧ o'.pos = o.pos + more.length := by
  by_cases hin : o.bytes.length < o.pos
  · rw [OutBuffer.print, if_pos hin] at h
    cases h
  · simp only [OutBuffer.print, if_neg hin, Option.some.injEq] at h
    exact ⟨Nat.le_of_not_lt hin, h ▸ rfl⟩

theorem OutBuffer.print_nul {o' : OutBuffer} {more : Bytes} (h : o.print more = some o')
    (hnul : (0 : UInt8) ∈ o.bytes) : o'.bytes.length = o.bytes.length ∧ (0 : UInt8) ∈ o'.bytes := by
  by_cases hpos : o.pos < o.bytes.length
  · rw [OutBuffer.print_eq hpos] at h
    obtain rfl := Option.some.inj h
    refine ⟨?_, by simp⟩
    simp only [List.length_append, List.length_take, List.length_drop, List.length_singleton]
    omega
  · by_cases hin : o.bytes.length < o.pos
    · rw [OutBuffer.print, if_pos hin] at h
      cases h
    · have hnone : o.bytes.length - o.pos = 0 := by omega
      simp only [OutBuffer.print, if_neg hin, if_pos hnone, Option.some.injEq] at h
      obtain rfl := h
      refine ⟨by simp, ?_⟩
      simpa using hnul

/-! ## One turn -/

/-- The control characters come out as two hexadecimal digits. -/
def PrintsControls (promote : UInt8 → UInt32) : Prop :=
  ∀ c < 32, hex4 (promote c) = [48, 48, hexDigit (c / 16), hexDigit (c % 16)]

theorem printsControls_of_range {promote : UInt8 → UInt32}
    (h : ∀ n < 32, hex4 (promote (UInt8.ofNat n)) =
      [48, 48, hexDigit (UInt8.ofNat n / 16), hexDigit (UInt8.ofNat n % 16)]) :
    PrintsControls promote := by
  intro c hc
  have hn := h c.toNat (UInt8.lt_iff_toNat_lt.mp hc)
  rwa [UInt8.ofNat_toNat] at hn

theorem signedChar_prints : PrintsControls signedChar := printsControls_of_range (by decide)

theorem toUInt32_prints : PrintsControls UInt8.toUInt32 := printsControls_of_range (by decide)

theorem escapeTurn_has {promote : UInt8 → UInt32} (hprint : PrintsControls promote)
    (h : o.Has size text) (hroom : text.length + 6 < size) (c : UInt8) :
    ∃ o', escapeTurn promote c o = some o' ∧ o'.Has size (text ++ escapeByte c) := by
  have two : ∀ b, ∃ o', ((o.put 92).bind fun o => o.put b) = some o' ∧
      o'.Has size (text ++ [92, b]) := by
    intro b
    obtain ⟨o₁, hput₁, h₁⟩ := h.put (by omega) 92
    obtain ⟨o₂, hput₂, h₂⟩ := h₁.put (by simp only [List.length_append, List.length_singleton]; omega) b
    refine ⟨o₂, by rw [hput₁, Option.bind_some, hput₂], ?_⟩
    rwa [List.append_assoc] at h₂
  unfold escapeTurn escapeByte
  split_ifs with hquote hnewline hreturn htab hcontrol
  · exact two c
  · exact two 110
  · exact two 114
  · exact two 116
  · have hnum : utf8 "\\u" ++ hex4 (promote c) =
        utf8 "\\u00" ++ [hexDigit (c / 16), hexDigit (c % 16)] := by
      rw [hprint c hcontrol]
      rfl
    rw [hnum]
    refine h.print _ ?_
    rw [List.length_append]
    exact hroom
  · exact h.put (by omega) c

/-! ## The loop -/

theorem escapeFrom_length {limit : Nat} (t : Bytes) {j : Nat} (hj : j ≤ limit + 5) :
    j + (escapeFrom limit t j).length ≤ limit + 5 := by
  induction t generalizing j with
  | nil => exact hj
  | cons c rest ih =>
      have hc := (escapeByte_length c).2
      unfold escapeFrom
      split
      · have hrest := ih (show j + (escapeByte c).length ≤ limit + 5 by omega)
        rw [List.length_append]
        omega
      · exact hj

theorem intOf_le (n : Nat) : (Int32.ofNat n).toInt ≤ n := by
  rw [Int32.toInt_ofNat', Int.bmod, Int32.size]
  split
  · omega
  · omega

theorem intOf_of_fits {n : Nat} (h : n ≤ 2147483647) : (Int32.ofNat n).toInt = n := by
  rw [Int32.toInt_ofNat', Int.bmod, Int32.size]
  split
  · omega
  · omega

theorem escapeLimit_le {limit : Int} (h : escapeLimit size = some limit) : limit ≤ size - 8 := by
  simp only [escapeLimit, Option.ite_none_left_eq_some, Option.some.injEq] at h
  have hle := intOf_le size
  omega

theorem escapeLimit_of_fits (h : size ≤ 2147483647) : escapeLimit size = some ((size : Int) - 8) := by
  have hmin : Int32.minValue.toInt = -2147483648 := by decide
  rw [escapeLimit, intOf_of_fits h, hmin]
  exact if_neg (by omega)

theorem escapeLoop_has {promote : UInt8 → UInt32} (hprint : PrintsControls promote) {limit : Int}
    (hlimit : escapeLimit size = some limit) (t : Bytes) (h : o.Has size text)
    (hroom : text.length ≤ limit.toNat + 5) :
    ∃ o', escapeLoop promote size t o = some o' ∧
      o'.Has size (text ++ escapeFrom limit.toNat t text.length) := by
  have hle := escapeLimit_le hlimit
  induction t generalizing o text with
  | nil => exact ⟨o, rfl, by rwa [escapeFrom, List.append_nil]⟩
  | cons c rest ih =>
      unfold escapeLoop escapeFrom
      by_cases hc : c = 0
      · rw [if_pos hc, if_neg fun hgo => hgo.1 hc, List.append_nil]
        exact ⟨o, rfl, h⟩
      · have hguard : (o.pos : Int) < limit ↔ text.length < limit.toNat := by
          rw [h.pos]
          exact Int.lt_toNat.symm
        simp only [if_neg hc, hlimit, Option.bind_some, hguard]
        by_cases hgo : text.length < limit.toNat
        · obtain ⟨o₁, hturn, h₁⟩ := escapeTurn_has hprint h (by omega) c
          have hlen := (escapeByte_length c).2
          obtain ⟨o₂, hrest, h₂⟩ := ih h₁ (by rw [List.length_append]; omega)
          rw [if_pos hgo, if_pos ⟨hc, hgo⟩, hturn, Option.bind_some]
          refine ⟨o₂, hrest, ?_⟩
          rwa [List.append_assoc, List.length_append] at h₂
        · rw [if_neg hgo, if_neg fun hboth => hgo hboth.2, List.append_nil]
          exact ⟨o, rfl, h⟩

theorem escapeInto_spec {promote : UInt8 → UInt32} (hprint : PrintsControls promote) {out : Bytes}
    {limit : Int} (hlimit : escapeLimit out.length = some limit) (hsize : 9 ≤ out.length)
    (t : Bytes) :
    ∃ left, escapeInto promote t out = some (left, (escapeFrom limit.toNat t 0).length) ∧
      left.length = out.length ∧ (escapeFrom limit.toNat t 0).length < out.length ∧
      ∃ rest, left = escapeFrom limit.toNat t 0 ++ 0 :: rest := by
  have hstart : OutBuffer.Has ⟨out, 0⟩ out.length [] := ⟨rfl, rfl, rfl⟩
  obtain ⟨o, hloop, ho⟩ := escapeLoop_has hprint hlimit t hstart (by simp)
  simp only [List.nil_append, List.length_nil] at ho
  have hlen := escapeFrom_length t (Nat.zero_le (limit.toNat + 5))
  have hle := escapeLimit_le hlimit
  have hin : (escapeFrom limit.toNat t 0).length < out.length := by omega
  obtain ⟨ended, hput, hended⟩ := ho.put hin 0
  refine ⟨ended.bytes, ?_, hended.size, hin, ended.bytes.drop ended.pos, ?_⟩
  · rw [escapeInto, hloop, Option.bind_some, hput, ← ho.pos]
    rfl
  · conv_lhs => rw [← List.take_append_drop ended.pos ended.bytes, hended.text]
    simp

/-! ## The two routines -/

/-- Below 32 the sign of a `char` makes no difference. -/
theorem escapeTurn_signed : escapeTurn signedChar = escapeTurn UInt8.toUInt32 := by
  funext c o
  unfold escapeTurn
  split_ifs with hquote hnewline hreturn htab hcontrol
  · rfl
  · rfl
  · rfl
  · rfl
  · rw [signedChar_prints c hcontrol, toUInt32_prints c hcontrol]
  · rfl

theorem escapeLoop_signed (outSz : Nat) (t : Bytes) (o : OutBuffer) :
    escapeLoop signedChar outSz t o = escapeLoop UInt8.toUInt32 outSz t o := by
  induction t generalizing o with
  | nil => rfl
  | cons c rest ih =>
      have hrest : escapeLoop signedChar outSz rest = escapeLoop UInt8.toUInt32 outSz rest := funext ih
      simp only [escapeLoop, escapeTurn_signed, hrest]

theorem escapeJson_eq (t out : Bytes) : escapeJson t out = shellEscapeInto t out := by
  unfold escapeJson shellEscapeInto escapeInto
  rw [escapeLoop_signed]

/-! ## The law -/

theorem escapeByte_ascii_no_nul :
    ∀ n < 128, UInt8.ofNat n ≠ 0 → (0 : UInt8) ∉ escapeByte (UInt8.ofNat n) := by
  decide

theorem escapeByte_no_nul (hc : c ≠ 0) : (0 : UInt8) ∉ escapeByte c := by
  by_cases hlow : c < 0x80
  · have hn := escapeByte_ascii_no_nul c.toNat (UInt8.lt_iff_toNat_lt.mp hlow)
    rw [UInt8.ofNat_toNat] at hn
    exact hn hc
  · rw [(escapeByte_high hlow).1, List.mem_singleton]
    exact fun h => hc h.symm

theorem escapeFrom_no_nul (limit : Nat) (t : Bytes) (j : Nat) :
    (0 : UInt8) ∉ escapeFrom limit t j := by
  induction t generalizing j with
  | nil => exact List.not_mem_nil
  | cons c rest ih =>
      unfold escapeFrom
      split
      · rename_i hgo
        rw [List.mem_append, not_or]
        exact ⟨escapeByte_no_nul hgo.1, ih _⟩
      · exact List.not_mem_nil

theorem escapedFrom_cString (limit : Nat) (t : Bytes) (j : Nat) :
    escapedFrom limit (cString t) j = escapedFrom limit t j := by
  induction t generalizing j with
  | nil => rfl
  | cons c rest ih =>
      by_cases hc : c = 0
      · simp [cString, escapedFrom, hc]
      · have hcut : cString (c :: rest) = c :: cString rest := by simp [cString, hc]
        simp only [hcut, escapedFrom, ih]

/-- The buffer `left` holds the JSON form of `part`, which starts the text; `n` is
what the routine returned. -/
structure EscapedAs (t out left : Bytes) (n : Nat) (part : Bytes) : Prop where
  inside : left.length = out.length
  ended : left[n]? = some 0
  returned : (cString left).length = n
  body : stringRun .text (cString left) = some (.text, part)
  start : part <+: cString t

/-- The escaped text is shorter than the size minus 8. -/
def EscapeFits (t out : Bytes) : Prop :=
  ((cString t).flatMap escapeByte).length < out.length - 8

/-- The law for one text and one buffer. -/
def EscapeLaw (t out : Bytes) : Prop :=
  escapeJson t out = shellEscapeInto t out ∧
    ∃ left n part, escapeJson t out = some (left, n) ∧ EscapedAs t out left n part ∧
      (EscapeFits t out → part = cString t)

theorem escapedAs_of_spec {limit : Nat} {t out left rest : Bytes} (hsize : left.length = out.length)
    (hleft : left = escapeFrom limit t 0 ++ 0 :: rest) :
    EscapedAs t out left (escapeFrom limit t 0).length (escapedFrom limit t 0) := by
  have htext : cString left = escapeFrom limit t 0 := by
    rw [hleft, cString, List.takeWhile_append_of_pos]
    · simp
    · intro b hb
      simp only [bne_iff_ne, ne_eq]
      rintro rfl
      exact escapeFrom_no_nul limit t 0 hb
  refine ⟨hsize, ?_, by rw [htext], ?_, ?_⟩
  · rw [hleft]
    simp
  · rw [htext, escapeFrom_eq]
    exact stringRun_escape _
  · rw [← escapedFrom_cString]
    exact escapedFrom_prefix limit (cString t) 0

/-- Both routines store the same, inside the buffer and closed by a NUL, on every size
for which the loop's bound is an `int`; up to `INT_MAX` nothing that fits is lost. -/
theorem escape_sound (t out : Bytes) :
    escapeJson t out = shellEscapeInto t out ∧
      (9 ≤ out.length → (escapeLimit out.length).isSome = true →
        ∃ left n part, escapeJson t out = some (left, n) ∧ EscapedAs t out left n part ∧
          (out.length ≤ 2147483647 → EscapeFits t out → part = cString t)) := by
  refine ⟨escapeJson_eq t out, fun hsize hlimit => ?_⟩
  obtain ⟨limit, hlimit⟩ := Option.isSome_iff_exists.mp hlimit
  obtain ⟨left, hinto, hinside, hin, rest, hleft⟩ := escapeInto_spec signedChar_prints hlimit hsize t
  refine ⟨left, _, _, hinto, escapedAs_of_spec hinside hleft, fun hint hfits => ?_⟩
  rw [escapeLimit_of_fits hint] at hlimit
  obtain rfl := Option.some.inj hlimit
  refine escapedFrom_whole ?_
  unfold EscapeFits at hfits
  omega

theorem escape_sound_quotes :
    EscapeLaw (utf8 "a\"\nb") (List.replicate 16 7) := by
  obtain ⟨heq, hsound⟩ := escape_sound (utf8 "a\"\nb") (List.replicate 16 7)
  obtain ⟨left, n, part, hleft, has, hwhole⟩ := hsound (by decide) (by decide)
  exact ⟨heq, left, n, part, hleft, has, hwhole (by decide)⟩

/-- A size whose `int` is at most 8 lets the loop take no turn. -/
theorem escapeInto_nothing {promote : UInt8 → UInt32} {out : Bytes} {limit : Int}
    (hlimit : escapeLimit out.length = some limit) (hneg : limit ≤ 0) (hout : 0 < out.length)
    (t : Bytes) : escapeInto promote t out = some (out.set 0 0, 0) := by
  have hloop : escapeLoop promote out.length t ⟨out, 0⟩ = some ⟨out, 0⟩ := by
    cases t with
    | nil => rfl
    | cons c rest =>
        unfold escapeLoop
        split
        · rfl
        · rw [hlimit, Option.bind_some]
          exact if_neg (by simpa using hneg)
  rw [escapeInto, hloop, Option.bind_some, OutBuffer.put, if_pos hout]
  rfl

/-- A buffer of 4 GiB has the `int` size 0: the one byte of the text is lost. A
buffer of 2 GiB has the least `int`, from which no 8 can be taken. -/
theorem wide_buffer_takes_nothing :
    (9 ≤ (List.replicate 4294967296 (0 : UInt8)).length ∧
      ¬ EscapeLaw (utf8 "a") (List.replicate 4294967296 0)) ∧
    (9 ≤ (List.replicate 2147483648 (0 : UInt8)).length ∧
      escapeJson (utf8 "a") (List.replicate 2147483648 0) = none) := by
  refine ⟨⟨by rw [List.length_replicate]; decide, ?_⟩,
    by rw [List.length_replicate]; decide, ?_⟩
  · have hlimit : escapeLimit (List.replicate 4294967296 (0 : UInt8)).length = some (-8) := by
      rw [List.length_replicate]
      decide
    have hfits : EscapeFits (utf8 "a") (List.replicate 4294967296 0) := by
      rw [EscapeFits, List.length_replicate]
      decide
    rintro ⟨-, left, n, part, hleft, has, hwhole⟩
    rw [escapeJson, escapeInto_nothing hlimit (by decide)
      (by rw [List.length_replicate]; decide)] at hleft
    obtain ⟨-, rfl⟩ := Prod.mk.inj (Option.some.inj hleft)
    have hbody := has.body
    rw [List.length_eq_zero_iff.mp has.returned, hwhole hfits] at hbody
    exact absurd hbody (by decide)
  · have hlimit : escapeLimit (List.replicate 2147483648 (0 : UInt8)).length = none := by
      rw [List.length_replicate]
      decide
    have hloop : escapeLoop signedChar (List.replicate 2147483648 (0 : UInt8)).length (utf8 "a")
        ⟨List.replicate 2147483648 0, 0⟩ = none := by
      rw [show utf8 "a" = [97] from rfl, escapeLoop, hlimit]
      rfl
    rw [escapeJson, escapeInto, hloop]
    rfl

end QnxHypervisor.HmsStatus
