import QnxHypervisor.GuestShell.Session
import QnxHypervisor.HmsStatus.WellFormed

/-! # What arrives of the shell's output

`shell_reader` publishes what each `read` gives as one `shell_out` message. The
escaping keeps every byte; a zero byte ends the C string it works on, and the
text is JSON only when the bytes are UTF-8.
-/

namespace QnxHypervisor.GuestShell

open Foundation HmsStatus GuestManager

variable {id piece t : Bytes}

/-! ## One message -/

theorem shellEscape_piece (h : piece.length ≤ 512) :
    shellEscape 4096 piece = (cString piece).flatMap escapeByte :=
  escapeFrom_room (by omega)

/-- The messages of the read loop, one for each piece read. -/
def readerMessages (id : Bytes) (pieces : List Bytes) : List StatusMessage :=
  pieces.map (.shellOut id)

/-- The data member of a `shell_out` message of the guest. -/
def shellOutData (id payload : Bytes) : Option Bytes :=
  if jsonString (utf8 "state") payload = some (utf8 "shell_out") ∧
      jsonString (utf8 "guest") payload = some id then
    jsonString (utf8 "data") payload
  else none

/-- The decoded data of the guest, put together. -/
def receivedOutput (id : Bytes) (messages : List StatusMessage) : Bytes :=
  messages.flatMap fun m => (shellOutData id m.payload).getD []

theorem shellOut_payload (hid : id.length ≤ 31) (h : piece.length ≤ 512) :
    (StatusMessage.shellOut id piece).payload =
      shellOutText id ((cString piece).flatMap escapeByte) := by
  have hstate : (utf8 "\x7b\"state\":\"shell_out\",\"guest\":\"").length = 30 := rfl
  have hdata : (utf8 "\",\"data\":\"").length = 10 := rfl
  have hend : (utf8 "\"\x7d").length = 2 := rfl
  have hcut : (cString piece).length ≤ piece.length := (List.takeWhile_prefix _).length_le
  have hesc := escape_length (cString piece)
  simp only [StatusMessage.payload, snprintf, shellEscape_piece h]
  refine List.take_of_length_le ?_
  simp only [shellOutText, List.length_append, hstate, hdata, hend]
  omega

theorem shellOutText_eq (id esc : Bytes) :
    shellOutText id esc =
      123 :: quote :: (utf8 "state" ++ quote :: 58 :: quote :: (utf8 "shell_out" ++ quote :: 44 ::
        quote :: (utf8 "guest" ++ quote :: 58 :: quote :: (id ++ quote :: 44 ::
          quote :: (utf8 "data" ++ quote :: 58 :: quote :: (esc ++ [quote, 125])))))) :=
  rfl

theorem shellOutText_isUtf8 {esc : Bytes} : IsUtf8 (shellOutText id esc) ↔ IsUtf8 id ∧ IsUtf8 esc := by
  have hstate : IsUtf8 (utf8 "\x7b\"state\":\"shell_out\",\"guest\":\"") := by decide
  have hdata : IsUtf8 (utf8 ",\"data\":\"") := by decide
  have hend : Ascii (utf8 "\"\x7d") := by decide
  have hsplit : utf8 "\",\"data\":\"" = quote :: utf8 ",\"data\":\"" := rfl
  rw [shellOutText, hstate.append_iff, hsplit, List.cons_append,
    isUtf8_append_cons (by decide), hdata.append_iff, isUtf8_append_ascii hend (by decide)]

theorem shellOutText_plain {esc : Bytes}
    (h : jsonString (utf8 "guest") (shellOutText id esc) = some id) : PlainText id := by
  obtain ⟨v, hv, hguest⟩ := Option.bind_eq_some_iff.mp h
  obtain ⟨-, rest, hparse⟩ := decodeJson_inv hv
  have hlen : 3 ≤ (shellOutText id esc).length := by
    simp only [shellOutText_eq, List.length_cons, List.length_append]
    omega
  obtain ⟨fuel, hfuel⟩ : ∃ n, (shellOutText id esc).length + 1 = n + 4 :=
    ⟨(shellOutText id esc).length - 3, by omega⟩
  rw [hfuel, shellOutText_eq, parseValue_object, parseMembers_string (by decide) (by decide)] at hparse
  obtain ⟨p, hp, heq⟩ := Option.map_eq_some_iff.mp hparse
  obtain ⟨q, hq, rfl⟩ := Option.map_eq_some_iff.mp hp
  obtain ⟨rfl, -⟩ : .object ((utf8 "state", .string (utf8 "shell_out")) :: q.1) = v ∧ q.2 = rest := by
    simpa using heq
  rw [stringMember_cons (by decide)] at hguest
  obtain ⟨name, t₁, v₁, t₂, more, hname, -, -, hmembers⟩ := parseMembers_inv hq
  rw [parseName_plain (by decide)] at hname
  obtain rfl := (Prod.mk.inj (Option.some.inj hname)).1
  rw [hmembers] at hguest
  rw [show q = ((utf8 "guest", v₁) :: more, q.2) from Prod.ext hmembers rfl] at hq
  exact parseMembers_inserted (by decide) (by decide) (by decide) (by decide) hq
    (stringMember_first hguest)

/-! ## The stream -/

theorem jsonString_of_decode {v : JsonValue} {k : Bytes} (h : decodeJson t = some v) :
    jsonString k t = v.stringMember k := by
  simp [jsonString, h]

theorem shellOutData_piece (hid : id.length ≤ 31) (h : piece.length ≤ 512) :
    shellOutData id (StatusMessage.shellOut id piece).payload =
      if Verbatim id ∧ IsUtf8 (cString piece) then some (cString piece) else none := by
  rw [shellOut_payload hid h]
  split
  · next hgood =>
    have hdecode := shellOutText_decode hgood.1 hgood.2
    simp [shellOutData, jsonString_of_decode hdecode, JsonValue.stringMember, JsonValue.member,
      show utf8 "state" ≠ utf8 "guest" by decide, show utf8 "state" ≠ utf8 "data" by decide,
      show utf8 "guest" ≠ utf8 "data" by decide, show utf8 "guest" ≠ utf8 "state" by decide,
      show utf8 "data" ≠ utf8 "state" by decide, show utf8 "data" ≠ utf8 "guest" by decide]
  · next hbad =>
    unfold shellOutData
    rw [if_neg]
    rintro ⟨-, hguest⟩
    refine hbad ?_
    obtain ⟨v, hv, -⟩ := Option.bind_eq_some_iff.mp hguest
    obtain ⟨huid, hesc⟩ := shellOutText_isUtf8.mp (decodeJson_inv hv).1
    exact ⟨⟨shellOutText_plain hguest, huid⟩, (isUtf8_escape _).mp hesc⟩

/-- A piece that arrives whole. -/
def FaithfulPiece (piece : Bytes) : Prop := (0 : UInt8) ∉ piece ∧ IsUtf8 piece

instance (piece : Bytes) : Decidable (FaithfulPiece piece) := inferInstanceAs (Decidable (_ ∧ _))

theorem contribution_length (hid : id.length ≤ 31) (h : piece.length ≤ 512) (hne : piece ≠ []) :
    let arrived := (shellOutData id (StatusMessage.shellOut id piece).payload).getD []
    arrived.length ≤ piece.length ∧
      (piece.length ≤ arrived.length ↔ Verbatim id ∧ FaithfulPiece piece) := by
  have hcut : (cString piece).length ≤ piece.length := (List.takeWhile_prefix _).length_le
  have hpos : 0 < piece.length := List.length_pos_iff.mpr hne
  rw [shellOutData_piece hid h]
  split
  · next hgood =>
    refine ⟨hcut, fun hle => ?_, fun hwhole => ?_⟩
    · have hzero := cString_length_eq (Nat.le_antisymm hcut hle)
      exact ⟨hgood.1, hzero, cString_of_no_nul hzero ▸ hgood.2⟩
    · exact (congrArg List.length (cString_of_no_nul hwhole.2.1)).ge
  · next hbad =>
    refine ⟨Nat.zero_le _, fun hle => ?_, fun hwhole => ?_⟩
    · simp only [Option.getD_none, List.length_nil] at hle
      omega
    · refine absurd ⟨hwhole.1, ?_⟩ hbad
      rw [cString_of_no_nul hwhole.2.1]
      exact hwhole.2.2

/-- Nothing is lost on the whole only if nothing is lost of any part. -/
theorem parts_whole {f : Bytes → Bytes} {parts : List Bytes}
    (hle : ∀ p ∈ parts, (f p).length ≤ p.length)
    (h : parts.flatten.length ≤ (parts.flatMap f).length) : ∀ p ∈ parts, p.length ≤ (f p).length := by
  have htotal : ∀ l : List Bytes, (∀ p ∈ l, (f p).length ≤ p.length) →
      (l.flatMap f).length ≤ l.flatten.length := by
    intro l hl
    induction l with
    | nil => simp
    | cons p rest ih =>
        have hp := hl p List.mem_cons_self
        have hrest := ih fun q hq => hl q (List.mem_cons_of_mem p hq)
        simp only [List.flatMap_cons, List.flatten_cons, List.length_append]
        omega
  induction parts with
  | nil => simp
  | cons p rest ih =>
      have hp := hle p List.mem_cons_self
      have hrest := htotal rest fun q hq => hle q (List.mem_cons_of_mem p hq)
      simp only [List.flatMap_cons, List.flatten_cons, List.length_append] at h
      intro q hq
      rcases List.mem_cons.mp hq with rfl | hmem
      · omega
      · exact ih (fun q hq => hle q (List.mem_cons_of_mem p hq)) (by omega) q hmem

theorem receivedOutput_pieces (id : Bytes) (pieces : List Bytes) :
    receivedOutput id (readerMessages id pieces) = pieces.flatMap fun piece =>
      (shellOutData id (StatusMessage.shellOut id piece).payload).getD [] := by
  simp [receivedOutput, readerMessages, List.flatMap_map]

/-- All that is read arrives just when every piece is whole characters without a
zero byte, and the guest's id can stand in a JSON string. -/
theorem shell_output_lossless (id : CStr 32) (pieces : List Bytes)
    (hread : ∀ piece ∈ pieces, 1 ≤ piece.length ∧ piece.length ≤ 512) :
    receivedOutput id.bytes (readerMessages id.bytes pieces) = pieces.flatten ↔
      ∀ piece ∈ pieces, Verbatim id.bytes ∧ FaithfulPiece piece := by
  have hpiece : ∀ piece ∈ pieces, _ := fun piece hp => contribution_length id.short
    (hread piece hp).2 (List.length_pos_iff.mp (hread piece hp).1)
  rw [receivedOutput_pieces]
  constructor
  · intro heq piece hp
    have hwhole := parts_whole (fun piece hp => (hpiece piece hp).1) (congrArg List.length heq).ge
    exact (hpiece piece hp).2.mp (hwhole piece hp)
  · intro hgood
    rw [← List.flatMap_id']
    refine List.flatMap_congr fun piece hp => ?_
    obtain ⟨hid, hzero, hu⟩ := hgood piece hp
    rw [shellOutData_piece id.short (hread piece hp).2, cString_of_no_nul hzero, if_pos ⟨hid, hu⟩]
    rfl

/-! ## The defect -/

/-- A letter of two bytes that one `read` gives whole. -/
theorem letter_arrives :
    receivedOutput (CStr.fit 32 (utf8 "guest-a")).bytes
      (readerMessages (CStr.fit 32 (utf8 "guest-a")).bytes [utf8 "é"]) = utf8 "é" :=
  (shell_output_lossless (.fit 32 (utf8 "guest-a")) [utf8 "é"] (by decide)).mpr (by decide)

/-- A zero byte hides what was read after it. -/
theorem zero_byte_cuts_output :
    ¬ ∀ (id : CStr 32) (pieces : List Bytes),
      (∀ piece ∈ pieces, 1 ≤ piece.length ∧ piece.length ≤ 512) →
        receivedOutput id.bytes (readerMessages id.bytes pieces) = pieces.flatten := by
  intro hall
  have hsame := hall (.fit 32 (utf8 "guest-a")) [[97, 0, 98]] (by decide)
  revert hsame
  decide +kernel

end QnxHypervisor.GuestShell
