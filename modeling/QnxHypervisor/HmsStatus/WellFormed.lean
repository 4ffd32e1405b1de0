import QnxHypervisor.HmsStatus.Escape

/-! # Status messages as JSON

What each status message is meant to say is one JSON value. Its text says this as
long as the strings that the publishers insert unescaped stand for themselves in
JSON and the text fits its buffer.
-/

namespace QnxHypervisor.HmsStatus

open Foundation GuestManager

/-! ## What is meant -/

def guestEntryValue (g : Guest) : JsonValue :=
  .object [(utf8 "id", .string g.id.bytes), (utf8 "name", .string (orDash g.name.bytes)),
    (utf8 "type", .string (guestTypeStr g.type)), (utf8 "state", .string (guestStateStr g.state)),
    (utf8 "pid", .number (decimalInt g.pid.toInt)), (utf8 "ip", .string (orDash g.ip.bytes))]

def guestInfoValue (g : Guest) : JsonValue :=
  .object [(utf8 "id", .string g.id.bytes), (utf8 "name", .string g.name.bytes),
    (utf8 "type", .string (guestTypeStr g.type)), (utf8 "state", .string (guestStateStr g.state)),
    (utf8 "pid", .number (decimalInt g.pid.toInt)), (utf8 "ip", .string (orDash g.ip.bytes)),
    (utf8 "conf", .string g.confPath.bytes), (utf8 "boot", .string g.bootPath.bytes),
    (utf8 "rootfs", .string g.rootfsPath.bytes), (utf8 "ssh_user", .string g.sshUser.bytes),
    (utf8 "ssh_port", .number (decimalInt g.sshPort.toInt)),
    (utf8 "ssh_key", .string (orDash g.sshKey.bytes))]

def resultValue (cmd guest : Bytes) (success : Bool) (msg : Bytes) : JsonValue :=
  .object [(utf8 "state", .string (utf8 "result")), (utf8 "cmd", .string cmd),
    (utf8 "guest", .string guest), (utf8 "success", .bool success), (utf8 "msg", .string msg)]

def jobResultValue (state guest : Bytes) (success : Bool) (msg : Bytes) : JsonValue :=
  .object [(utf8 "state", .string state), (utf8 "guest", .string guest),
    (utf8 "success", .bool success), (utf8 "msg", .string msg)]

def StatusMessage.meant : StatusMessage → JsonValue
  | .unknownGuest id =>
      resultValue (utf8 "command") id false (utf8 "unknown guest '" ++ (id ++ utf8 "'"))
  | .result cmd guest success msg => resultValue cmd guest success msg
  | .guestList guests =>
      .object [(utf8 "state", .string (utf8 "guest_list")),
        (utf8 "guests", .array (guests.map guestEntryValue))]
  | .guestInfo g =>
      .object [(utf8 "state", .string (utf8 "guest_info")), (utf8 "guest", guestInfoValue g)]
  | .otaProgress guest stage progress msg =>
      .object [(utf8 "state", .string (utf8 "ota_progress")), (utf8 "guest", .string guest),
        (utf8 "stage", .string stage), (utf8 "progress", .number (decimalInt progress.toInt)),
        (utf8 "msg", .string msg)]
  | .otaResult guest success msg => jobResultValue (utf8 "ota_result") guest success msg
  | .pushResult guest success msg => jobResultValue (utf8 "ota_result") guest success msg
  | .addfileResult guest success msg => jobResultValue (utf8 "addfile_result") guest success msg
  | .addguestResult guest success msg => jobResultValue (utf8 "addguest_result") guest success msg
  | .shellOut guest data =>
      .object [(utf8 "state", .string (utf8 "shell_out")), (utf8 "guest", .string guest),
        (utf8 "data", .string data)]
  | .shellState guest state msg =>
      .object [(utf8 "state", .string state), (utf8 "guest", .string guest),
        (utf8 "msg", .string msg)]

/-- The payload is one complete object that says what is meant, strings possibly
cut off. -/
def StatusMessage.WellFormed (m : StatusMessage) : Prop :=
  ∃ members, decodeJson m.payload = some (.object members) ∧
    (JsonValue.object members).cutOf m.meant = true

/-! ## The condition -/

def guestListText : List Guest → Bytes
  | [] => utf8 "\x7b\"state\":\"guest_list\",\"guests\":[]\x7d"
  | g :: rest =>
      utf8 "\x7b\"state\":\"guest_list\",\"guests\":[" ++ (guestEntryText true g ++
        (rest.flatMap (guestEntryText false) ++ utf8 "]\x7d"))

/-- The whole text that the format asks for. -/
def StatusMessage.text : StatusMessage → Bytes
  | .unknownGuest id => unknownGuestText id
  | .result cmd guest success msg => resultText cmd guest success msg
  | .guestList guests => guestListText guests
  | .guestInfo g => guestInfoText g
  | .otaProgress guest stage progress msg => otaReportText guest stage progress msg
  | .otaResult guest success msg => jobResultText (utf8 "ota_result") guest success msg
  | .pushResult guest success msg => jobResultText (utf8 "ota_result") guest success msg
  | .addfileResult guest success msg => jobResultText (utf8 "addfile_result") guest success msg
  | .addguestResult guest success msg => jobResultText (utf8 "addguest_result") guest success msg
  | .shellOut guest data => shellOutText guest (shellEscape 4096 data)
  | .shellState guest state msg => shellStateText guest state (shellEscape 1024 msg)

/-- The buffer; the guest list stops 256 bytes before its end. -/
def StatusMessage.room : StatusMessage → Nat
  | .unknownGuest _ => 512
  | .result .. => 1024
  | .guestList _ => guestListRoom - 256
  | .guestInfo _ => 3072
  | .otaProgress .. => 1536
  | .otaResult .. => 1536
  | .pushResult .. => 1600
  | .addfileResult .. => 1536
  | .addguestResult .. => 1536
  | .shellOut .. => 4300
  | .shellState .. => 1400

def StatusMessage.inserted : StatusMessage → List Bytes
  | .unknownGuest id => [id]
  | .result cmd guest _ msg => [cmd, guest, msg]
  | .guestList guests => guests.flatMap fun g => [g.id.bytes, g.name.bytes, g.ip.bytes]
  | .guestInfo g =>
      [g.id.bytes, g.name.bytes, g.ip.bytes, g.confPath.bytes, g.bootPath.bytes, g.rootfsPath.bytes,
        g.sshUser.bytes, g.sshKey.bytes]
  | .otaProgress guest stage _ msg => [guest, stage, msg]
  | .otaResult guest _ msg => [guest, msg]
  | .pushResult guest _ msg => [guest, msg]
  | .addfileResult guest _ msg => [guest, msg]
  | .addguestResult guest _ msg => [guest, msg]
  | .shellOut guest _ => [guest]
  | .shellState guest state _ => [guest, state]

/-- What of the escaped string gets into its buffer. -/
def StatusMessage.escaped : StatusMessage → Bytes
  | .shellOut _ data => escapedPart 4096 data
  | .shellState _ _ msg => escapedPart 1024 msg
  | _ => []

/-- Inserted strings stand for themselves, escaped ones are whole characters, and
nothing is cut off. -/
structure StatusMessage.Sound (m : StatusMessage) : Prop where
  inserted : ∀ t ∈ m.inserted, Verbatim t
  escaped : IsUtf8 m.escaped
  fits : m.text.length < m.room

/-! ## Payloads and texts -/

variable {m : StatusMessage} {guests : List Guest} {g : Guest}

theorem guestListLoop_fits {buf : Bytes}
    (h : (buf ++ guests.flatMap (guestEntryText false)).length < guestListRoom - 256) :
    guestListLoop guests false buf = buf ++ guests.flatMap (guestEntryText false) := by
  induction guests generalizing buf with
  | nil => simp [guestListLoop]
  | cons g rest ih =>
      simp only [List.flatMap_cons, List.length_append] at h
      have hwhole : (guestEntryText false g).take (guestListRoom - buf.length - 1) =
          guestEntryText false g := List.take_of_length_le (by omega)
      simp only [guestListLoop, if_pos (show buf.length < guestListRoom - 256 by omega), hwhole]
      rw [ih (by simp only [List.length_append]; omega)]
      simp

theorem guestListPayload_eq (h : (guestListText guests).length < guestListRoom - 256) :
    guestListPayload guests = guestListText guests := by
  unfold guestListPayload
  cases guests with
  | nil => rfl
  | cons g rest =>
      simp only [guestListText, List.length_append] at h
      have hend : (utf8 "]\x7d").length = 2 := rfl
      have hwhole (k : Nat) (hk : (guestEntryText true g).length ≤ k) :
          (guestEntryText true g).take k = guestEntryText true g := List.take_of_length_le hk
      have hloop : guestListLoop (g :: rest) true (utf8 "\x7b\"state\":\"guest_list\",\"guests\":[") =
          utf8 "\x7b\"state\":\"guest_list\",\"guests\":[" ++ guestEntryText true g ++
            rest.flatMap (guestEntryText false) := by
        rw [guestListLoop, if_pos (by omega), hwhole _ (by omega), guestListLoop_fits]
        simp only [List.length_append]
        omega
      simp only [hloop]
      rw [List.take_of_length_le (by simp only [List.length_append]; omega)]
      simp [guestListText]

theorem payload_eq (h : m.text.length < m.room) : m.payload = m.text := by
  cases m with
  | guestList guests => exact guestListPayload_eq h
  | _ =>
      exact List.take_of_length_le (Nat.le_sub_one_of_lt h)

/-! ## Texts and values -/

section Texts

variable {cmd guest stage state msg esc shown : Bytes} {success : Bool} {progress : Int32}

theorem denotes_bool (b : Bool) : Denotes (boolText b) (.bool b) := by
  cases b
  · exact denotes_false
  · exact denotes_true

theorem boolText_isUtf8 (b : Bool) : IsUtf8 (boolText b) := by
  cases b <;> decide

theorem resultText_decode (hcmd : Verbatim cmd) (hguest : Verbatim guest) (hmsg : Verbatim msg) :
    decodeJson (resultText cmd guest success msg) = some (resultValue cmd guest success msg) := by
  have hmembers :=
    MembersText.cons (k := utf8 "state") (by decide) (denotes_plain (s := utf8 "result") (by decide)) <|
    .cons (k := utf8 "cmd") (by decide) (denotes_plain hcmd.1) <|
    .cons (k := utf8 "guest") (by decide) (denotes_plain hguest.1) <|
    .cons (k := utf8 "success") (by decide) (denotes_bool success) <|
    .last (k := utf8 "msg") (by decide) (denotes_plain hmsg.1)
  have hu : IsUtf8 (resultText cmd guest success msg) :=
    IsUtf8.append (by decide) <| hcmd.2.append <| IsUtf8.append (by decide) <|
      hguest.2.append <| IsUtf8.append (by decide) <| (boolText_isUtf8 success).append <|
      IsUtf8.append (by decide) <| hmsg.2.append (by decide)
  refine decode_object hmembers ?_ hu
  simp only [List.append_assoc, List.cons_append, List.nil_append]
  rfl

theorem unknownGuestText_eq (id : Bytes) :
    unknownGuestText id =
      resultText (utf8 "command") id false (utf8 "unknown guest '" ++ (id ++ utf8 "'")) := by
  simp only [unknownGuestText, resultText, List.append_assoc]
  rfl

theorem jobResultText_decode (hstate : Verbatim state) (hguest : Verbatim guest)
    (hmsg : Verbatim msg) :
    decodeJson (jobResultText state guest success msg) =
      some (jobResultValue state guest success msg) := by
  have hmembers :=
    MembersText.cons (k := utf8 "state") (by decide) (denotes_plain hstate.1) <|
    .cons (k := utf8 "guest") (by decide) (denotes_plain hguest.1) <|
    .cons (k := utf8 "success") (by decide) (denotes_bool success) <|
    .last (k := utf8 "msg") (by decide) (denotes_plain hmsg.1)
  have hu : IsUtf8 (jobResultText state guest success msg) :=
    IsUtf8.append (by decide) <| hstate.2.append <| IsUtf8.append (by decide) <|
      hguest.2.append <| IsUtf8.append (by decide) <| (boolText_isUtf8 success).append <|
      IsUtf8.append (by decide) <| hmsg.2.append (by decide)
  refine decode_object hmembers ?_ hu
  simp only [List.append_assoc, List.cons_append, List.nil_append]
  rfl

theorem otaReportText_decode (hguest : Verbatim guest) (hstage : Verbatim stage)
    (hmsg : Verbatim msg) :
    decodeJson (otaReportText guest stage progress msg) =
      some (StatusMessage.otaProgress guest stage progress msg).meant := by
  have hmembers :=
    MembersText.cons (k := utf8 "state") (by decide) (denotes_plain (s := utf8 "ota_progress") (by decide)) <|
    .cons (k := utf8 "guest") (by decide) (denotes_plain hguest.1) <|
    .cons (k := utf8 "stage") (by decide) (denotes_plain hstage.1) <|
    .cons (k := utf8 "progress") (by decide) (denotes_int progress.toInt) <|
    .last (k := utf8 "msg") (by decide) (denotes_plain hmsg.1)
  have hu : IsUtf8 (otaReportText guest stage progress msg) :=
    IsUtf8.append (by decide) <| hguest.2.append <| IsUtf8.append (by decide) <|
      hstage.2.append <| IsUtf8.append (by decide) <| (decimalInt_isUtf8 _).append <|
      IsUtf8.append (by decide) <| hmsg.2.append (by decide)
  refine decode_object hmembers ?_ hu
  simp only [List.append_assoc, List.cons_append, List.nil_append]
  rfl

/-- The shell messages: what got into the buffer is read back. -/
theorem shellOutText_decode (hguest : Verbatim guest) (hshown : IsUtf8 shown) :
    decodeJson (shellOutText guest (shown.flatMap escapeByte)) =
      some (.object [(utf8 "state", .string (utf8 "shell_out")), (utf8 "guest", .string guest),
        (utf8 "data", .string shown)]) := by
  have hmembers :=
    MembersText.cons (k := utf8 "state") (by decide) (denotes_plain (s := utf8 "shell_out") (by decide)) <|
    .cons (k := utf8 "guest") (by decide) (denotes_plain hguest.1) <|
    .last (k := utf8 "data") (by decide) (denotes_string (stringRun_escape shown))
  have hu : IsUtf8 (shellOutText guest (shown.flatMap escapeByte)) :=
    IsUtf8.append (by decide) <| hguest.2.append <| IsUtf8.append (by decide) <|
      ((isUtf8_escape shown).mpr hshown).append (by decide)
  refine decode_object hmembers ?_ hu
  simp only [List.append_assoc, List.cons_append, List.nil_append]
  rfl

theorem shellStateText_decode (hguest : Verbatim guest) (hstate : Verbatim state)
    (hshown : IsUtf8 shown) :
    decodeJson (shellStateText guest state (shown.flatMap escapeByte)) =
      some (.object [(utf8 "state", .string state), (utf8 "guest", .string guest),
        (utf8 "msg", .string shown)]) := by
  have hmembers :=
    MembersText.cons (k := utf8 "state") (by decide) (denotes_plain hstate.1) <|
    .cons (k := utf8 "guest") (by decide) (denotes_plain hguest.1) <|
    .last (k := utf8 "msg") (by decide) (denotes_string (stringRun_escape shown))
  have hu : IsUtf8 (shellStateText guest state (shown.flatMap escapeByte)) :=
    IsUtf8.append (by decide) <| hstate.2.append <| IsUtf8.append (by decide) <|
      hguest.2.append <| IsUtf8.append (by decide) <|
      ((isUtf8_escape shown).mpr hshown).append (by decide)
  refine decode_object hmembers ?_ hu
  simp only [List.append_assoc, List.cons_append, List.nil_append]
  rfl

end Texts

/-! ## Guests -/

theorem orDash_verbatim {t : Bytes} (h : Verbatim t) : Verbatim (orDash t) := by
  unfold orDash
  split
  · decide
  · exact h

theorem guestTypeStr_verbatim (type : GuestType) : Verbatim (guestTypeStr type) := by
  cases type <;> decide

theorem guestStateStr_verbatim (state : GuestState) : Verbatim (guestStateStr state) := by
  cases state <;> decide

section Guests

variable (hid : Verbatim g.id.bytes) (hname : Verbatim g.name.bytes) (hip : Verbatim g.ip.bytes)
include hid hname hip

theorem guestEntryText_denotes : Denotes (guestEntryText true g) (guestEntryValue g) := by
  have hmembers :=
    MembersText.cons (k := utf8 "id") (by decide) (denotes_plain hid.1) <|
    .cons (k := utf8 "name") (by decide) (denotes_plain (orDash_verbatim hname).1) <|
    .cons (k := utf8 "type") (by decide) (denotes_plain (guestTypeStr_verbatim g.type).1) <|
    .cons (k := utf8 "state") (by decide) (denotes_plain (guestStateStr_verbatim g.state).1) <|
    .cons (k := utf8 "pid") (by decide) (denotes_int g.pid.toInt) <|
    .last (k := utf8 "ip") (by decide) (denotes_plain (orDash_verbatim hip).1)
  refine (denotes_object hmembers).of_eq ?_
  simp only [List.append_assoc, List.cons_append, List.nil_append]
  rfl

theorem guestEntryText_isUtf8 (first : Bool) : IsUtf8 (guestEntryText first g) := by
  have hcomma : IsUtf8 (if first then [] else utf8 ",") := by
    cases first <;> decide
  exact hcomma.append <| IsUtf8.append (by decide) <| hid.2.append <| IsUtf8.append (by decide) <|
    (orDash_verbatim hname).2.append <| IsUtf8.append (by decide) <|
    (guestTypeStr_verbatim g.type).2.append <| IsUtf8.append (by decide) <|
    (guestStateStr_verbatim g.state).2.append <| IsUtf8.append (by decide) <|
    (decimalInt_isUtf8 _).append <| IsUtf8.append (by decide) <|
    (orDash_verbatim hip).2.append (by decide)

end Guests

/-- What a list message inserts of a guest. -/
def Guest.Shown (g : Guest) : Prop :=
  Verbatim g.id.bytes ∧ Verbatim g.name.bytes ∧ Verbatim g.ip.bytes

theorem guestEntries_items {rest : List Guest} (hg : Guest.Shown g)
    (hrest : ∀ g ∈ rest, Guest.Shown g) :
    ItemsText (guestEntryText true g ++ rest.flatMap (guestEntryText false))
      (guestEntryValue g :: rest.map guestEntryValue) := by
  have hfirst : Denotes (guestEntryText true g) (guestEntryValue g) :=
    guestEntryText_denotes hg.1 hg.2.1 hg.2.2
  induction rest generalizing g with
  | nil => simpa using ItemsText.last hfirst
  | cons g' more ih =>
      have hmore := ih (hrest g' List.mem_cons_self)
        (fun h hh => hrest h (List.mem_cons_of_mem g' hh))
        (guestEntryText_denotes (hrest g' List.mem_cons_self).1 (hrest g' List.mem_cons_self).2.1
          (hrest g' List.mem_cons_self).2.2)
      have hcomma : guestEntryText false g' = 44 :: guestEntryText true g' := rfl
      rw [List.flatMap_cons, hcomma, List.map_cons]
      exact .cons hfirst hmore

theorem guestListText_decode (h : ∀ g ∈ guests, Guest.Shown g) :
    decodeJson (guestListText guests) = some (StatusMessage.guestList guests).meant := by
  cases guests with
  | nil =>
      have hmembers :=
        MembersText.cons (k := utf8 "state") (by decide) (denotes_plain (s := utf8 "guest_list") (by decide)) <|
        .last (k := utf8 "guests") (by decide) denotes_empty_array
      exact decode_object hmembers rfl (by decide)
  | cons g rest =>
      have hg := h g List.mem_cons_self
      have hitems := guestEntries_items hg fun g' hg' => h g' (List.mem_cons_of_mem g hg')
      obtain ⟨t, ht⟩ : ∃ t, guestEntryText true g = 123 :: t := ⟨_, rfl⟩
      rw [ht, List.cons_append] at hitems
      have hmembers :=
        MembersText.cons (k := utf8 "state") (by decide) (denotes_plain (s := utf8 "guest_list") (by decide)) <|
        .last (k := utf8 "guests") (by decide) (denotes_array hitems)
      have hrest : IsUtf8 (rest.flatMap (guestEntryText false)) := by
        have hall : ∀ g' ∈ rest, Guest.Shown g' := fun g' hg' => h g' (List.mem_cons_of_mem g hg')
        clear h hitems hmembers
        induction rest with
        | nil => decide
        | cons g' more ih =>
            have hg' := hall g' List.mem_cons_self
            exact (guestEntryText_isUtf8 hg'.1 hg'.2.1 hg'.2.2 false).append
              (ih fun g'' hg'' => hall g'' (List.mem_cons_of_mem g' hg''))
      have hu : IsUtf8 (guestListText (g :: rest)) :=
        IsUtf8.append (by decide) <| (guestEntryText_isUtf8 hg.1 hg.2.1 hg.2.2 true).append <|
          hrest.append (by decide)
      refine decode_object hmembers ?_ hu
      simp only [guestListText, ht, List.append_assoc, List.cons_append, List.nil_append]
      rfl

theorem guestInfoText_decode (h : ∀ t ∈ (StatusMessage.guestInfo g).inserted, Verbatim t) :
    decodeJson (guestInfoText g) = some (StatusMessage.guestInfo g).meant := by
  simp only [StatusMessage.inserted, List.forall_mem_cons, List.not_mem_nil, false_implies,
    implies_true, and_true] at h
  obtain ⟨hid, hname, hip, hconf, hboot, hrootfs, huser, hkey⟩ := h
  have hguest :=
    MembersText.cons (k := utf8 "id") (by decide) (denotes_plain hid.1) <|
    .cons (k := utf8 "name") (by decide) (denotes_plain hname.1) <|
    .cons (k := utf8 "type") (by decide) (denotes_plain (guestTypeStr_verbatim g.type).1) <|
    .cons (k := utf8 "state") (by decide) (denotes_plain (guestStateStr_verbatim g.state).1) <|
    .cons (k := utf8 "pid") (by decide) (denotes_int g.pid.toInt) <|
    .cons (k := utf8 "ip") (by decide) (denotes_plain (orDash_verbatim hip).1) <|
    .cons (k := utf8 "conf") (by decide) (denotes_plain hconf.1) <|
    .cons (k := utf8 "boot") (by decide) (denotes_plain hboot.1) <|
    .cons (k := utf8 "rootfs") (by decide) (denotes_plain hrootfs.1) <|
    .cons (k := utf8 "ssh_user") (by decide) (denotes_plain huser.1) <|
    .cons (k := utf8 "ssh_port") (by decide) (denotes_int g.sshPort.toInt) <|
    .last (k := utf8 "ssh_key") (by decide) (denotes_plain (orDash_verbatim hkey).1)
  have hmembers :=
    MembersText.cons (k := utf8 "state") (by decide) (denotes_plain (s := utf8 "guest_info") (by decide)) <|
    .last (k := utf8 "guest") (by decide) (denotes_object hguest)
  have hu : IsUtf8 (guestInfoText g) :=
    IsUtf8.append (by decide) <| hid.2.append <| IsUtf8.append (by decide) <|
      hname.2.append <| IsUtf8.append (by decide) <|
      (guestTypeStr_verbatim g.type).2.append <| IsUtf8.append (by decide) <|
      (guestStateStr_verbatim g.state).2.append <| IsUtf8.append (by decide) <|
      (decimalInt_isUtf8 _).append <| IsUtf8.append (by decide) <|
      (orDash_verbatim hip).2.append <| IsUtf8.append (by decide) <|
      hconf.2.append <| IsUtf8.append (by decide) <| hboot.2.append <| IsUtf8.append (by decide) <|
      hrootfs.2.append <| IsUtf8.append (by decide) <| huser.2.append <|
      IsUtf8.append (by decide) <| (decimalInt_isUtf8 _).append <| IsUtf8.append (by decide) <|
      (orDash_verbatim hkey).2.append (by decide)
  refine decode_object hmembers ?_ hu
  simp only [List.append_assoc, List.cons_append, List.nil_append]
  rfl

/-! ## The messages -/

theorem guestEntries_cutOf (guests : List Guest) :
    itemsCutOf (guests.map guestEntryValue) (guests.map guestEntryValue) = true := by
  induction guests with
  | nil => rfl
  | cons g rest ih =>
      simp [itemsCutOf, guestEntryValue, JsonValue.cutOf, membersCutOf, ih]

theorem resultValue_cutOf (cmd guest : Bytes) (success : Bool) (msg : Bytes) :
    (resultValue cmd guest success msg).cutOf (resultValue cmd guest success msg) = true := by
  simp [resultValue, JsonValue.cutOf, membersCutOf]

theorem jobResultValue_cutOf (state guest : Bytes) (success : Bool) (msg : Bytes) :
    (jobResultValue state guest success msg).cutOf (jobResultValue state guest success msg) = true := by
  simp [jobResultValue, JsonValue.cutOf, membersCutOf]

theorem text_says (h : m.Sound) : ∃ members, decodeJson m.text = some (.object members) ∧
    (JsonValue.object members).cutOf m.meant = true := by
  have hins := h.inserted
  cases m with
  | unknownGuest id =>
      have hid : Verbatim id := hins id (by simp [StatusMessage.inserted])
      have hmsg : Verbatim (utf8 "unknown guest '" ++ (id ++ utf8 "'")) :=
        Verbatim.append (by decide) (hid.append (by decide))
      have hdecode : decodeJson (unknownGuestText id) = _ :=
        (congrArg decodeJson (unknownGuestText_eq id)).trans
          (resultText_decode (by decide) hid hmsg)
      exact ⟨_, hdecode, resultValue_cutOf ..⟩
  | result cmd guest success msg =>
      simp only [StatusMessage.inserted, List.forall_mem_cons] at hins
      exact ⟨_, resultText_decode hins.1 hins.2.1 hins.2.2.1, resultValue_cutOf ..⟩
  | guestList guests =>
      have hshown : ∀ g ∈ guests, Guest.Shown g := fun g hg => by
        have hall : ∀ t ∈ [g.id.bytes, g.name.bytes, g.ip.bytes], Verbatim t := fun t ht =>
          hins t (List.mem_flatMap.mpr ⟨g, hg, ht⟩)
        simpa [Guest.Shown] using hall
      refine ⟨_, guestListText_decode hshown, ?_⟩
      simp [StatusMessage.meant, JsonValue.cutOf, membersCutOf, guestEntries_cutOf]
  | guestInfo g =>
      refine ⟨_, guestInfoText_decode hins, ?_⟩
      simp [StatusMessage.meant, guestInfoValue, JsonValue.cutOf, membersCutOf]
  | otaProgress guest stage progress msg =>
      simp only [StatusMessage.inserted, List.forall_mem_cons] at hins
      refine ⟨_, otaReportText_decode hins.1 hins.2.1 hins.2.2.1, ?_⟩
      simp [StatusMessage.meant, JsonValue.cutOf, membersCutOf]
  | otaResult guest success msg | pushResult guest success msg | addfileResult guest success msg
  | addguestResult guest success msg =>
      simp only [StatusMessage.inserted, List.forall_mem_cons] at hins
      exact ⟨_, jobResultText_decode (by decide) hins.1 hins.2.1, jobResultValue_cutOf ..⟩
  | shellOut guest data =>
      have hguest : Verbatim guest := hins guest (by simp [StatusMessage.inserted])
      have hdecode := shellOutText_decode hguest h.escaped
      rw [StatusMessage.escaped, ← shellEscape_eq] at hdecode
      refine ⟨_, hdecode, ?_⟩
      simp [StatusMessage.meant, JsonValue.cutOf, membersCutOf, escapedPart_prefix,
        List.isPrefixOf_iff_prefix]
  | shellState guest state msg =>
      simp only [StatusMessage.inserted, List.forall_mem_cons] at hins
      have hdecode := shellStateText_decode hins.1 hins.2.1 h.escaped
      rw [StatusMessage.escaped, ← shellEscape_eq] at hdecode
      refine ⟨_, hdecode, ?_⟩
      simp [StatusMessage.meant, JsonValue.cutOf, membersCutOf, escapedPart_prefix,
        List.isPrefixOf_iff_prefix]

/-- A message whose inserted strings stand for themselves, and that fits, is one
JSON object that says what is meant. -/
theorem status_well_formed (h : m.Sound) : m.WellFormed := by
  unfold StatusMessage.WellFormed
  rw [payload_eq h.fits]
  exact text_says h

/-! ## The defect -/

/-- `find_guest_or_publish`: what is published about an id that no guest has. -/
def findGuestOrPublish (guests : List Guest) (id : Bytes) : Option StatusMessage :=
  match findGuest guests id with
  | some _ => none
  | none => some (.unknownGuest id)

theorem unknown_guest_well_formed : (StatusMessage.unknownGuest (utf8 "guest-b")).WellFormed :=
  status_well_formed ⟨by decide, by decide, by decide⟩

/-- An id that is a quotation mark. -/
theorem quoted_id_breaks_message :
    ∃ m, findGuestOrPublish [] (utf8 "\"") = some m ∧ ¬ m.WellFormed := by
  refine ⟨_, rfl, ?_⟩
  rintro ⟨members, hdecode, -⟩
  have hnone : (decodeJson (StatusMessage.unknownGuest (utf8 "\"")).payload).isNone = true := by
    decide +kernel
  rw [hdecode] at hnone
  cases hnone

end QnxHypervisor.HmsStatus
