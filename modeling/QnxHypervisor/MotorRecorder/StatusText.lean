import QnxHypervisor.Foundation.JsonShape
import QnxHypervisor.MotorRecorder.StopFigures

/-! # Status payloads of the recorder

`mqtt_client.c` formats its payloads around names that nobody escapes. The last
name is kept in the client and published again on every connect.
-/

namespace QnxHypervisor.MotorRecorder

open Foundation GuestManager

/-! ## The texts -/

def RecState.text : RecState → Bytes
  | .idle => utf8 "idle"
  | .recording => utf8 "recording"
  | .stopped => utf8 "stopped"

def statusText (state msg : Bytes) : Bytes :=
  utf8 "\x7b\"state\":\"" ++ (state ++ (utf8 "\",\"msg\":\"" ++ (msg ++ utf8 "\"\x7d")))

def stopMetadataText (file url : Bytes) (f : StopFigures) : Bytes :=
  utf8 "\x7b\"state\":\"stopped\",\"msg\":\"Recording complete\",\"file\":\"" ++ (file ++
  (utf8 "\",\"url\":\"" ++ (url ++ (utf8 "\",\"span_us\":" ++ (decimal f.spanUs.toNat ++
  (utf8 ",\"rows\":" ++ (decimal f.rows.toNat ++ (utf8 ",\"drops\":" ++ (decimal f.drops.toNat ++
  (utf8 ",\"block_drops\":" ++ (decimal f.blockDrops.toNat ++ (utf8 ",\"stalled_ms\":" ++
  (decimal f.stalledMs.toNat ++ utf8 "\x7d")))))))))))))

def deleteResultText (filename : Bytes) (success : Bool) : Bytes :=
  utf8 "\x7b\"state\":\"delete_result\",\"file\":\"" ++ (filename ++ (utf8 "\",\"success\":" ++
  ((if success then utf8 "true" else utf8 "false") ++ utf8 "\x7d")))

/-! ## The client -/

/-- `mqtt_client_t`, as far as the publishers read it. -/
structure Client where
  state : RecState
  statusMsg : CStr 256

/-- A text that did not fit its buffer is not published. -/
def ifFits (size : Nat) (text : Bytes) : Option Bytes :=
  if text.length < size then some text else none

/-- `snprintf(buf, n, msg)`: conversions in `msg` come to `expanded`. -/
def formatted (expanded msg : Bytes) : Bytes := if (37 : UInt8) ∈ msg then expanded else msg

/-- `mqtt_client_publish_status`. -/
def publishStatus (expanded : Bytes) (state : RecState) (msg : Bytes) : Client × Option Bytes :=
  (⟨state, .fit 256 (formatted expanded msg)⟩, ifFits 512 (statusText state.text msg))

/-- `mqtt_client_publish_stop_metadata`. -/
def publishStopMetadata (file url : Bytes) (figures : StopFigures) : Client × Option Bytes :=
  (⟨.stopped, .fit 256 file⟩, ifFits 1536 (stopMetadataText file url figures))

/-- `on_connect`. -/
def onConnect (c : Client) : Option Bytes := ifFits 512 (statusText c.state.text c.statusMsg.bytes)

/-- The reply of `handle_delete_command`, published whether it fits or not. -/
def deleteReply (filename : Bytes) (success : Bool) : Bytes :=
  (CStr.fit 512 (deleteResultText filename success)).bytes

/-! ## What the texts say -/

variable {name url : Bytes} {figures : StopFigures} {state : RecState} {success : Bool}

/-- One complete object whose member of that name is the text. -/
def Names (payload field name : Bytes) : Prop :=
  IsJsonObject payload ∧ jsonString field payload = some name

theorem names_of_decode {payload field : Bytes} {members : List (Bytes × JsonValue)}
    (h : decodeJson payload = some (.object members))
    (hfield : JsonValue.stringMember field (.object members) = some name) :
    Names payload field name :=
  ⟨⟨members, h⟩, by simp [jsonString, h, hfield]⟩

theorem stateText_verbatim (state : RecState) : Verbatim state.text := by
  cases state <;> decide

theorem statusText_names (h : Verbatim name) :
    Names (statusText state.text name) (utf8 "msg") name := by
  have hstate := stateText_verbatim state
  have hmembers := MembersText.cons (k := utf8 "state") (by decide) (denotes_plain hstate.1) <|
    .last (k := utf8 "msg") (by decide) (denotes_plain h.1)
  have hu : IsUtf8 (statusText state.text name) :=
    IsUtf8.append (by decide) <| hstate.2.append <| IsUtf8.append (by decide) <|
      h.2.append (by decide)
  refine names_of_decode (decode_object hmembers ?_ hu) rfl
  simp only [List.append_assoc, List.cons_append, List.nil_append]
  rfl

theorem stopMetadataText_names (hname : Verbatim name) (hurl : Verbatim url) :
    Names (stopMetadataText name url figures) (utf8 "file") name := by
  have hmembers :=
    MembersText.cons (k := utf8 "state") (by decide) (denotes_plain (s := utf8 "stopped") (by decide)) <|
    .cons (k := utf8 "msg") (by decide) (denotes_plain (s := utf8 "Recording complete") (by decide)) <|
    .cons (k := utf8 "file") (by decide) (denotes_plain hname.1) <|
    .cons (k := utf8 "url") (by decide) (denotes_plain hurl.1) <|
    .cons (k := utf8 "span_us") (by decide) (denotes_decimal figures.spanUs.toNat) <|
    .cons (k := utf8 "rows") (by decide) (denotes_decimal figures.rows.toNat) <|
    .cons (k := utf8 "drops") (by decide) (denotes_decimal figures.drops.toNat) <|
    .cons (k := utf8 "block_drops") (by decide) (denotes_decimal figures.blockDrops.toNat) <|
    .last (k := utf8 "stalled_ms") (by decide) (denotes_decimal figures.stalledMs.toNat)
  have hu : IsUtf8 (stopMetadataText name url figures) :=
    IsUtf8.append (by decide) <| hname.2.append <| IsUtf8.append (by decide) <|
      hurl.2.append <| IsUtf8.append (by decide) <| (decimal_isUtf8 _).append <|
      IsUtf8.append (by decide) <| (decimal_isUtf8 _).append <| IsUtf8.append (by decide) <|
      (decimal_isUtf8 _).append <| IsUtf8.append (by decide) <| (decimal_isUtf8 _).append <|
      IsUtf8.append (by decide) <| (decimal_isUtf8 _).append (by decide)
  refine names_of_decode (decode_object hmembers ?_ hu) rfl
  simp only [List.append_assoc, List.cons_append, List.nil_append]
  rfl

theorem deleteResultText_names (h : Verbatim name) :
    Names (deleteResultText name success) (utf8 "file") name := by
  have hsuccess : Denotes (if success then utf8 "true" else utf8 "false") (.bool success) := by
    cases success
    · exact denotes_false
    · exact denotes_true
  have hmembers :=
    MembersText.cons (k := utf8 "state") (by decide) (denotes_plain (s := utf8 "delete_result") (by decide)) <|
    .cons (k := utf8 "file") (by decide) (denotes_plain h.1) <|
    .last (k := utf8 "success") (by decide) hsuccess
  have hbool : IsUtf8 (if success then utf8 "true" else utf8 "false") := by
    cases success <;> decide
  have hu : IsUtf8 (deleteResultText name success) :=
    IsUtf8.append (by decide) <| h.2.append <| IsUtf8.append (by decide) <|
      hbool.append (by decide)
  refine names_of_decode (decode_object hmembers ?_ hu) rfl
  simp only [List.append_assoc, List.cons_append, List.nil_append]
  rfl

theorem deleteReply_names (h : Verbatim name) (hfits : (deleteResultText name success).length < 512) :
    Names (deleteReply name success) (utf8 "file") name := by
  have hnul : (0 : UInt8) ∉ deleteResultText name success := by
    have hbool : (0 : UInt8) ∉ (if success then utf8 "true" else utf8 "false") := by
      cases success <;> decide
    simp only [deleteResultText, List.mem_append, not_or]
    exact ⟨by decide, h.no_nul, by decide, hbool, by decide⟩
  rw [deleteReply, CStr.fit_of_short hnul hfits]
  exact deleteResultText_names h

end QnxHypervisor.MotorRecorder
