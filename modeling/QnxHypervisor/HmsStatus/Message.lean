import QnxHypervisor.GuestManager.Guest

/-! # Status messages

Every status publisher of HMS formats one JSON object with `snprintf` into a
buffer of its own. A message is the publisher with its arguments; its text is
what the format string asks for, its payload what the buffer holds.
-/

namespace QnxHypervisor.HmsStatus

open Foundation GuestManager

/-! ## Escaping -/

def hexDigit (d : UInt8) : UInt8 := if d < 10 then 48 + d else 87 + d

/-- One turn of the escape loop. -/
def escapeByte (c : UInt8) : Bytes :=
  if c = 34 ∨ c = 92 then [92, c]
  else if c = 10 then [92, 110]
  else if c = 13 then [92, 114]
  else if c = 9 then [92, 116]
  else if c < 32 then utf8 "\\u00" ++ [hexDigit (c / 16), hexDigit (c % 16)]
  else [c]

/-- The loop from output position `j` on. -/
def escapeFrom (limit : Nat) : Bytes → Nat → Bytes
  | [], _ => []
  | c :: rest, j =>
      if c ≠ 0 ∧ j < limit then escapeByte c ++ escapeFrom limit rest (j + (escapeByte c).length)
      else []

/-- `shell_escape` into a buffer of `outSz` bytes. -/
def shellEscape (outSz : Nat) (t : Bytes) : Bytes := escapeFrom (outSz - 8) t 0

/-! ## The publishers -/

inductive StatusMessage where
  /-- `find_guest_or_publish` -/
  | unknownGuest (id : Bytes)
  /-- `publish_result` -/
  | result (cmd guest : Bytes) (success : Bool) (msg : Bytes)
  /-- `publish_guest_list` -/
  | guestList (guests : List Guest)
  /-- `publish_guest_info` -/
  | guestInfo (g : Guest)
  /-- `ota_report` -/
  | otaProgress (guest stage : Bytes) (progress : Int32) (msg : Bytes)
  /-- the result of `ota_thread`, `ota_fetch_thread` and `ota_apply_thread` -/
  | otaResult (guest : Bytes) (success : Bool) (msg : Bytes)
  /-- the result of `ota_push_thread` -/
  | pushResult (guest : Bytes) (success : Bool) (msg : Bytes)
  /-- `publish_addfile_result` -/
  | addfileResult (guest : Bytes) (success : Bool) (msg : Bytes)
  /-- `publish_addguest_result` -/
  | addguestResult (guest : Bytes) (success : Bool) (msg : Bytes)
  /-- `publish_chunk` -/
  | shellOut (guest data : Bytes)
  /-- `publish_shell_state` -/
  | shellState (guest state msg : Bytes)
  deriving DecidableEq

def boolText (b : Bool) : Bytes := if b then utf8 "true" else utf8 "false"

def orDash (t : Bytes) : Bytes := if t = [] then utf8 "-" else t

def unknownGuestText (id : Bytes) : Bytes :=
  utf8 "\x7b\"state\":\"result\",\"cmd\":\"" ++ (utf8 "command" ++
  (utf8 "\",\"guest\":\"" ++ (id ++ (utf8 "\",\"success\":false,\"msg\":\"unknown guest '" ++
  (id ++ utf8 "'\"\x7d")))))

def resultText (cmd guest : Bytes) (success : Bool) (msg : Bytes) : Bytes :=
  utf8 "\x7b\"state\":\"result\",\"cmd\":\"" ++ (cmd ++ (utf8 "\",\"guest\":\"" ++ (guest ++
  (utf8 "\",\"success\":" ++ (boolText success ++ (utf8 ",\"msg\":\"" ++ (msg ++
  utf8 "\"\x7d")))))))

def guestEntryText (first : Bool) (g : Guest) : Bytes :=
  (if first then [] else utf8 ",") ++ (utf8 "\x7b\"id\":\"" ++ (g.id.bytes ++
  (utf8 "\",\"name\":\"" ++ (orDash g.name.bytes ++ (utf8 "\",\"type\":\"" ++
  (guestTypeStr g.type ++ (utf8 "\",\"state\":\"" ++ (guestStateStr g.state ++
  (utf8 "\",\"pid\":" ++ (decimalInt g.pid.toInt ++ (utf8 ",\"ip\":\"" ++
  (orDash g.ip.bytes ++ utf8 "\"\x7d"))))))))))))

/-- `char buf[8192]` of `publish_guest_list`. -/
def guestListRoom : Nat := 8192

def guestListLoop : List Guest → Bool → Bytes → Bytes
  | [], _, buf => buf
  | g :: rest, first, buf =>
      if buf.length < guestListRoom - 256 then
        guestListLoop rest false
          (buf ++ (guestEntryText first g).take (guestListRoom - buf.length - 1))
      else buf

def guestListPayload (guests : List Guest) : Bytes :=
  let buf := guestListLoop guests true (utf8 "\x7b\"state\":\"guest_list\",\"guests\":[")
  buf ++ (utf8 "]\x7d").take (guestListRoom - buf.length - 1)

def guestInfoText (g : Guest) : Bytes :=
  utf8 "\x7b\"state\":\"guest_info\",\"guest\":\x7b\"id\":\"" ++ (g.id.bytes ++
  (utf8 "\",\"name\":\"" ++ (g.name.bytes ++ (utf8 "\",\"type\":\"" ++
  (guestTypeStr g.type ++ (utf8 "\",\"state\":\"" ++ (guestStateStr g.state ++
  (utf8 "\",\"pid\":" ++ (decimalInt g.pid.toInt ++ (utf8 ",\"ip\":\"" ++
  (orDash g.ip.bytes ++ (utf8 "\",\"conf\":\"" ++ (g.confPath.bytes ++
  (utf8 "\",\"boot\":\"" ++ (g.bootPath.bytes ++ (utf8 "\",\"rootfs\":\"" ++
  (g.rootfsPath.bytes ++ (utf8 "\",\"ssh_user\":\"" ++ (g.sshUser.bytes ++
  (utf8 "\",\"ssh_port\":" ++ (decimalInt g.sshPort.toInt ++ (utf8 ",\"ssh_key\":\"" ++
  (orDash g.sshKey.bytes ++ utf8 "\"\x7d\x7d")))))))))))))))))))))))

def otaReportText (guest stage : Bytes) (progress : Int32) (msg : Bytes) : Bytes :=
  utf8 "\x7b\"state\":\"ota_progress\",\"guest\":\"" ++ (guest ++ (utf8 "\",\"stage\":\"" ++
  (stage ++ (utf8 "\",\"progress\":" ++ (decimalInt progress.toInt ++ (utf8 ",\"msg\":\"" ++
  (msg ++ utf8 "\"\x7d")))))))

/-- The result messages of the jobs differ in their state name only. -/
def jobResultText (state guest : Bytes) (success : Bool) (msg : Bytes) : Bytes :=
  utf8 "\x7b\"state\":\"" ++ (state ++ (utf8 "\",\"guest\":\"" ++ (guest ++
  (utf8 "\",\"success\":" ++ (boolText success ++ (utf8 ",\"msg\":\"" ++ (msg ++
  utf8 "\"\x7d")))))))

def shellOutText (guest esc : Bytes) : Bytes :=
  utf8 "\x7b\"state\":\"shell_out\",\"guest\":\"" ++ (guest ++ (utf8 "\",\"data\":\"" ++
  (esc ++ utf8 "\"\x7d")))

def shellStateText (guest state esc : Bytes) : Bytes :=
  utf8 "\x7b\"state\":\"" ++ (state ++ (utf8 "\",\"guest\":\"" ++ (guest ++
  (utf8 "\",\"msg\":\"" ++ (esc ++ utf8 "\"\x7d")))))

/-- `snprintf` into `char buf[size]`. -/
def snprintf (size : Nat) (text : Bytes) : Bytes := text.take (size - 1)

/-- What is handed to `hms_mqtt_publish_status`. -/
def StatusMessage.payload : StatusMessage → Bytes
  | .unknownGuest id => snprintf 512 (unknownGuestText id)
  | .result cmd guest success msg => snprintf 1024 (resultText cmd guest success msg)
  | .guestList guests => guestListPayload guests
  | .guestInfo g => snprintf 3072 (guestInfoText g)
  | .otaProgress guest stage progress msg => snprintf 1536 (otaReportText guest stage progress msg)
  | .otaResult guest success msg => snprintf 1536 (jobResultText (utf8 "ota_result") guest success msg)
  | .pushResult guest success msg =>
      snprintf 1600 (jobResultText (utf8 "ota_result") guest success msg)
  | .addfileResult guest success msg =>
      snprintf 1536 (jobResultText (utf8 "addfile_result") guest success msg)
  | .addguestResult guest success msg =>
      snprintf 1536 (jobResultText (utf8 "addguest_result") guest success msg)
  | .shellOut guest data => snprintf 4300 (shellOutText guest (shellEscape 4096 data))
  | .shellState guest state msg =>
      snprintf 1400 (shellStateText guest state (shellEscape 1024 msg))

end QnxHypervisor.HmsStatus
