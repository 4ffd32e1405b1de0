import QnxHypervisor.HmsStatus.EscapeBuffer
import QnxHypervisor.MotorRecorder.Recorder

/-! # Download of a file

`send_file_chunks` reads the file in blocks and `mqtt_client_publish_chunk` escapes
each into a JSON object, in a buffer on the stack. A block is small enough for the
buffer even if every byte of it takes six.
-/

namespace QnxHypervisor.MotorRecorder

open Foundation HmsStatus

/-! ## Source functions -/

/-- `char chunk_buf[8192]`. -/
def chunkRoom : Nat := 8192

/-- `char chunk_data[1024]`. -/
def chunkSize : Nat := 1024

def chunkHead (idx total : Int32) : Bytes :=
  utf8 "\x7b\"chunk\":" ++ (decimalInt idx.toInt ++ (utf8 ",\"total\":" ++
  (decimalInt total.toInt ++ utf8 ",\"data\":\"")))

/-- The loop over the bytes of a block; it stops six bytes before the end. -/
def chunkLoop : Bytes → OutBuffer → Option OutBuffer
  | [], o => some o
  | c :: rest, o =>
      if o.pos < chunkRoom - 6 then (escapeTurn UInt8.toUInt32 c o).bind (chunkLoop rest) else some o

/-- `memcpy(chunk_buf + pos, "\"}", 3)`, or only a NUL. -/
def closeChunk (o : OutBuffer) : Option OutBuffer :=
  if o.pos < chunkRoom - 3 then
    ((o.put 34).bind fun o => o.put 125).bind fun o => o.put 0
  else o.put 0

/-- `mqtt_client_publish_chunk`: the bytes published, `pos + 2` in any case. -/
def publishChunk (idx total : Int32) (data : Bytes) : Option Bytes :=
  (OutBuffer.print ⟨List.replicate chunkRoom 0, 0⟩ (chunkHead idx total)).bind fun o =>
    (chunkLoop data o).bind fun o =>
      (closeChunk o).bind fun closed =>
        if o.pos + 2 ≤ closed.bytes.length then some (closed.bytes.take (o.pos + 2)) else none

/-- `(file_size + sizeof(chunk_data) - 1) / sizeof(chunk_data)`, as an `int`. -/
def totalChunks (size : Nat) : Int32 := Int32.ofNat ((size + chunkSize - 1) / chunkSize)

/-- The read loop. A full block does not set the end-of-file mark, so after the last
of them one more read finds nothing. -/
def sendFrom (total idx : Int32) (rest : Bytes) : Option (List Bytes) :=
  if chunkSize ≤ rest.length then
    (publishChunk idx total (rest.take chunkSize)).bind fun p =>
      (sendFrom total (idx + 1) (rest.drop chunkSize)).map fun ps => p :: ps
  else if rest = [] then some []
  else (publishChunk idx total rest).map fun p => [p]
termination_by rest.length
decreasing_by
  rw [List.length_drop]
  have hsize : chunkSize = 1024 := rfl
  omega

/-- `send_file_chunks` on a file of this content. -/
def sendFileChunks (content : Bytes) : Option (List Bytes) :=
  sendFrom (totalChunks content.length) 0 content

/-! ## What the receiver reads -/

def chunkValue (idx total : Nat) (data : Bytes) : JsonValue :=
  .object [(utf8 "chunk", .number (decimal idx)), (utf8 "total", .number (decimal total)),
    (utf8 "data", .string data)]

/-- The data member of a payload. -/
def chunkData (payload : Bytes) : Option Bytes :=
  (readJson payload).bind (JsonValue.stringMember (utf8 "data"))

variable {idx total : Nat} {data content rest : Bytes} {blocks : List Bytes}

/-! ## One chunk -/

def chunkText (idx total : Nat) (data : Bytes) : Bytes :=
  utf8 "\x7b\"chunk\":" ++ (decimal idx ++ (utf8 ",\"total\":" ++ (decimal total ++
  (utf8 ",\"data\":\"" ++ (data.flatMap escapeByte ++ utf8 "\"\x7d")))))

theorem decimalInt_ofNat {n : Nat} (h : n ≤ 2147483647) :
    decimalInt (Int32.ofNat n).toInt = decimal n := by
  rw [intOf_of_fits h, decimalInt, if_neg (by omega)]
  rfl

theorem chunkLoop_has (data : Bytes) {o : OutBuffer} {text : Bytes} (h : o.Has chunkRoom text)
    (hroom : text.length + 6 * data.length < chunkRoom - 6) :
    ∃ o', chunkLoop data o = some o' ∧ o'.Has chunkRoom (text ++ data.flatMap escapeByte) := by
  induction data generalizing o text with
  | nil => exact ⟨o, rfl, by simpa using h⟩
  | cons c rest ih =>
      have hsize : chunkRoom = 8192 := rfl
      have hlen := (escapeByte_length c).2
      rw [List.length_cons] at hroom
      obtain ⟨o₁, hturn, h₁⟩ := escapeTurn_has toUInt32_prints h (by omega) c
      obtain ⟨o₂, hloop, h₂⟩ := ih h₁ (by rw [List.length_append]; omega)
      refine ⟨o₂, ?_, ?_⟩
      · rw [chunkLoop, if_pos (by rw [h.pos]; omega), hturn, Option.bind_some, hloop]
      · rwa [List.flatMap_cons, ← List.append_assoc]

theorem closeChunk_has {o : OutBuffer} {text : Bytes} (h : o.Has chunkRoom text)
    (hroom : text.length < chunkRoom - 3) :
    ∃ o', closeChunk o = some o' ∧ o'.bytes.length = chunkRoom ∧
      o'.bytes.take (o.pos + 2) = text ++ [34, 125] := by
  have hsize : chunkRoom = 8192 := rfl
  obtain ⟨o₁, hput₁, h₁⟩ := h.put (by omega) 34
  obtain ⟨o₂, hput₂, h₂⟩ := h₁.put (by rw [List.length_append, List.length_singleton]; omega) 125
  obtain ⟨o₃, hput₃, h₃⟩ :=
    h₂.put (by simp only [List.length_append, List.length_singleton]; omega) 0
  refine ⟨o₃, ?_, h₃.size, ?_⟩
  · rw [closeChunk, if_pos (by rw [h.pos]; omega), hput₁, Option.bind_some, hput₂, Option.bind_some,
      hput₃]
  · have htext : text ++ [34] ++ [125] = text ++ [34, 125] := by simp
    have hlen : o.pos + 2 = (text ++ [34, 125]).length := by
      rw [h.pos, List.length_append]
      rfl
    have hle : o.pos + 2 ≤ o₃.pos := by
      rw [h₃.pos, List.length_append, htext, hlen]
      exact Nat.le_add_right _ _
    rw [← Nat.min_eq_left hle, ← List.take_take, h₃.text, htext, hlen, List.take_left]

theorem publishChunk_eq (hidx : idx ≤ 2147483647) (htotal : total ≤ 2147483647)
    (hdata : data.length ≤ chunkSize) :
    publishChunk (Int32.ofNat idx) (Int32.ofNat total) data = some (chunkText idx total data) := by
  have hsize : chunkRoom = 8192 := rfl
  have hblock : chunkSize = 1024 := rfl
  have hi : (decimal idx).length ≤ 10 := decimal_length_le (by decide) (by omega)
  have ht : (decimal total).length ≤ 10 := decimal_length_le (by decide) (by omega)
  have hhead : chunkHead (Int32.ofNat idx) (Int32.ofNat total) = utf8 "\x7b\"chunk\":" ++
      (decimal idx ++ (utf8 ",\"total\":" ++ (decimal total ++ utf8 ",\"data\":\""))) := by
    rw [chunkHead, decimalInt_ofNat hidx, decimalInt_ofNat htotal]
  have hshort : (chunkHead (Int32.ofNat idx) (Int32.ofNat total)).length ≤ 60 := by
    have h₁ : (utf8 "\x7b\"chunk\":").length = 9 := rfl
    have h₂ : (utf8 ",\"total\":").length = 9 := rfl
    have h₃ : (utf8 ",\"data\":\"").length = 9 := rfl
    simp only [hhead, List.length_append, h₁, h₂, h₃]
    omega
  have hstart : OutBuffer.Has ⟨List.replicate chunkRoom 0, 0⟩ chunkRoom [] :=
    ⟨List.length_replicate, rfl, rfl⟩
  obtain ⟨o₁, hprint, h₁⟩ := hstart.print (chunkHead (Int32.ofNat idx) (Int32.ofNat total))
    (by rw [List.length_nil]; omega)
  rw [List.nil_append] at h₁
  obtain ⟨o₂, hloop, h₂⟩ := chunkLoop_has data h₁ (by omega)
  have hescaped := escape_length data
  have hroom : (chunkHead (Int32.ofNat idx) (Int32.ofNat total) ++
      data.flatMap escapeByte).length < chunkRoom - 3 := by
    rw [List.length_append]
    omega
  obtain ⟨o₃, hclose, hlen, htake⟩ := closeChunk_has h₂ hroom
  have hin : o₂.pos + 2 ≤ o₃.bytes.length := by
    rw [hlen, h₂.pos]
    omega
  rw [publishChunk, hprint, Option.bind_some, hloop, Option.bind_some, hclose, Option.bind_some,
    if_pos hin, htake, hhead, chunkText]
  simp only [List.append_assoc]
  rfl

theorem chunkText_read (idx total : Nat) (data : Bytes) :
    readJson (chunkText idx total data) = some (chunkValue idx total data) := by
  have hmembers :=
    MembersText.cons (k := utf8 "chunk") (by decide) (denotes_decimal idx) <|
    .cons (k := utf8 "total") (by decide) (denotes_decimal total) <|
    .last (k := utf8 "data") (by decide) (denotes_string (stringRun_escape data))
  refine Denotes.read ((denotes_object hmembers).of_eq ?_)
  simp only [chunkText, List.append_assoc, List.cons_append, List.nil_append]
  rfl

theorem chunkData_text (idx total : Nat) (data : Bytes) :
    chunkData (chunkText idx total data) = some data := by
  rw [chunkData, chunkText_read]
  rfl

/-! ## All chunks -/

def chunkTexts (total : Nat) : Nat → List Bytes → List Bytes
  | _, [] => []
  | idx, block :: rest => chunkText idx total block :: chunkTexts total (idx + 1) rest

theorem chunkTexts_length (total idx : Nat) (blocks : List Bytes) :
    (chunkTexts total idx blocks).length = blocks.length := by
  induction blocks generalizing idx with
  | nil => rfl
  | cons block rest ih => rw [chunkTexts, List.length_cons, List.length_cons, ih]

theorem chunkTexts_get {i : Nat} {p : Bytes} (h : (chunkTexts total idx blocks)[i]? = some p) :
    ∃ block, p = chunkText (idx + i) total block := by
  induction blocks generalizing idx i with
  | nil => cases h
  | cons block rest ih =>
      cases i with
      | zero => exact ⟨block, (Option.some.inj h).symm⟩
      | succ i =>
          obtain ⟨b, hb⟩ := ih h
          refine ⟨b, ?_⟩
          rw [hb]
          congr 1
          omega

theorem chunkTexts_data (total idx : Nat) (blocks : List Bytes) :
    (chunkTexts total idx blocks).mapM chunkData = some blocks := by
  induction blocks generalizing idx with
  | nil => rfl
  | cons block rest ih =>
      rw [chunkTexts, List.mapM_cons, chunkData_text, ih]
      rfl

/-- What is left of the file goes out in blocks, as many as it takes. -/
theorem sendFrom_eq (htotal : total ≤ 2147483647)
    (hlast : idx + (rest.length + chunkSize - 1) / chunkSize ≤ 2147483647) :
    ∃ blocks, sendFrom (Int32.ofNat total) (Int32.ofNat idx) rest = some (chunkTexts total idx blocks) ∧
      blocks.length = (rest.length + chunkSize - 1) / chunkSize ∧ blocks.flatten = rest := by
  have hsize : chunkSize = 1024 := rfl
  induction hn : rest.length using Nat.strong_induction_on generalizing idx rest with
  | _ n ih =>
  subst hn
  rw [sendFrom]
  split
  · next hfull =>
    have hdrop : (rest.drop chunkSize).length = rest.length - chunkSize := List.length_drop
    have hcount : (rest.length + chunkSize - 1) / chunkSize =
        ((rest.drop chunkSize).length + chunkSize - 1) / chunkSize + 1 := by
      rw [hdrop, hsize]
      omega
    rw [hcount] at hlast ⊢
    obtain ⟨blocks, hsend, hlen, hflat⟩ := ih (rest.drop chunkSize).length (by omega)
      (show idx + 1 + _ ≤ _ by omega) rfl
    have hnext : Int32.ofNat idx + 1 = Int32.ofNat (idx + 1) := (Int32.ofNat_add idx 1).symm
    refine ⟨rest.take chunkSize :: blocks, ?_, by rw [List.length_cons, hlen], ?_⟩
    · rw [publishChunk_eq (by omega) htotal (List.length_take_le _ _), Option.bind_some, hnext, hsend]
      rfl
    · rw [List.flatten_cons, hflat, List.take_append_drop]
  · next hshort =>
    split
    · next hnil =>
      subst hnil
      exact ⟨[], rfl, rfl, rfl⟩
    · next hne =>
      have hpos := List.length_pos_iff.mpr hne
      have hone : (rest.length + chunkSize - 1) / chunkSize = 1 := by
        rw [hsize] at hshort ⊢
        omega
      refine ⟨[rest], ?_, hone.symm, by simp⟩
      rw [publishChunk_eq (by omega) htotal (by omega)]
      rfl

/-- A file of less than 2 GiB goes out in numbered JSON objects whose data members are
the file. -/
theorem download_round_trip (h : content.length ≤ 2147483647) :
    ∃ payloads blocks, sendFileChunks content = some payloads ∧
      payloads.length = (content.length + 1023) / 1024 ∧
      (∀ i p, payloads[i]? = some p →
        ∃ data, readJson p = some (chunkValue i ((content.length + 1023) / 1024) data)) ∧
      payloads.mapM chunkData = some blocks ∧ blocks.flatten = content := by
  have hcount : (content.length + chunkSize - 1) / chunkSize = (content.length + 1023) / 1024 := rfl
  have htotal : (content.length + 1023) / 1024 ≤ 2147483647 := by omega
  obtain ⟨blocks, hsend, hlen, hflat⟩ := @sendFrom_eq 0 ((content.length + 1023) / 1024) content
    htotal (by rw [hcount]; omega)
  refine ⟨_, blocks, hsend, ?_, fun i p hp => ?_, chunkTexts_data _ _ _, hflat⟩
  · rw [chunkTexts_length, hlen, hcount]
  · obtain ⟨data, rfl⟩ := chunkTexts_get hp
    refine ⟨data, ?_⟩
    rw [Nat.zero_add, chunkText_read]

def quotedLines : Bytes := (List.replicate 300 (utf8 "a,\"b\"\n")).flatten

theorem quotedLines_length : quotedLines.length = 1800 := by
  have hline : (utf8 "a,\"b\"\n").length = 6 := by decide
  simp only [quotedLines, List.length_flatten, List.map_replicate, hline, List.sum_replicate_nat]

/-- Two chunks, with bytes that are escaped. -/
theorem download_round_trip_lines :
    ∃ payloads blocks, sendFileChunks quotedLines = some payloads ∧ payloads.length = 2 ∧
      (∀ i p, payloads[i]? = some p → ∃ data, readJson p = some (chunkValue i 2 data)) ∧
      payloads.mapM chunkData = some blocks ∧ blocks.flatten = quotedLines := by
  obtain ⟨payloads, blocks, hsend, hlen, hread, hdata, hflat⟩ :=
    @download_round_trip quotedLines (by rw [quotedLines_length]; decide)
  rw [quotedLines_length] at hlen hread
  exact ⟨payloads, blocks, hsend, hlen, hread, hdata, hflat⟩

end QnxHypervisor.MotorRecorder
