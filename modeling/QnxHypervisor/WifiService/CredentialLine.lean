import Mathlib.Data.List.Infix
import QnxHypervisor.WifiService.Service

/-! # The line with the credentials

The phone sends one line of JSON. The receiver looks for the two keys anywhere in it and
skips blanks and quotes before each value; what it finds goes between quotes into the
configuration.
-/

namespace QnxHypervisor.WifiService

open Foundation

/-! ## What is sent -/

/-- No quote, no backslash and no control character. -/
def PlainText (t : Bytes) : Prop := ∀ b ∈ t, 32 ≤ b ∧ b ≠ 34 ∧ b ≠ 92 ∧ b ≠ 127

instance (t : Bytes) : Decidable (PlainText t) := List.decidableBAll _ t

structure PhoneCredentials where
  ssid : Bytes
  password : Bytes
  named : ssid ≠ []
  ssidShort : ssid.length ≤ 127
  passwordShort : password.length ≤ 127
  ssidPlain : PlainText ssid
  passwordPlain : PlainText password

/-- The line as it is sent. -/
def PhoneCredentials.line (c : PhoneCredentials) : Bytes :=
  utf8 "\x7b\"ssid\":\"" ++ c.ssid ++ utf8 "\",\"password\":\"" ++ c.password ++ utf8 "\"\x7d\n"

/-! ## What is promised -/

structure Decoded (c : PhoneCredentials) : Prop where
  ssid : ssidOf c.line = c.ssid
  password : passOf c.line = c.password

def networkLines (ssid pass : Bytes) : List Bytes :=
  [utf8 "ctrl_interface=/var/run/wpa_supplicant", utf8 "ap_scan=1", utf8 "network=\x7b",
    utf8 "    ssid=\"" ++ ssid ++ utf8 "\"", utf8 "    psk=\"" ++ pass ++ utf8 "\"",
    utf8 "    key_mgmt=WPA-PSK", utf8 "\x7d", []]

/-- These lines and no other, and the two strings in them end where their quotes do. -/
structure OneNetwork (ssid pass text : Bytes) : Prop where
  lines : text.splitOn newline = networkLines ssid pass
  ssidQuoted : (34 : UInt8) ∉ ssid ∧ (0 : UInt8) ∉ ssid
  passQuoted : (34 : UInt8) ∉ pass ∧ (0 : UInt8) ∉ pass

/-- No value begins with a blank, and there is a password. -/
structure ReadAsSent (c : PhoneCredentials) : Prop where
  ssid : c.ssid.head? ≠ some 32
  password : c.password ≠ []
  passwordHead : c.password.head? ≠ some 32

variable {key a b t value rest : Bytes} {c : PhoneCredentials}

/-! ## The search for a key -/

/-- `strstr(t, key)`. -/
def findKey (key t : Bytes) : Option Bytes := t.tails.find? fun rest => key.isPrefixOf rest

theorem findKey_here (h : key.isPrefixOf t = true) : findKey key t = some t := by
  cases t with
  | nil => rw [findKey, List.tails, List.find?_cons_of_pos h]
  | cons c t => rw [findKey, List.tails, List.find?_cons_of_pos h]

theorem findKey_next {c : UInt8} (h : ¬ key.isPrefixOf (c :: t) = true) :
    findKey key (c :: t) = findKey key t := by
  rw [findKey, List.tails, List.find?_cons_of_neg h, findKey]

theorem findKey_skip (hkey : key.head? = some 34) (ha : (34 : UInt8) ∉ a) :
    findKey key (a ++ b) = findKey key b := by
  induction a with
  | nil => rfl
  | cons c a ih =>
      rw [List.mem_cons, not_or] at ha
      obtain ⟨hc, ha⟩ := ha
      rw [List.cons_append, findKey_next, ih ha]
      intro hbegins
      cases key with
      | nil => cases hkey
      | cons k key =>
          cases hkey
          rw [List.isPrefixOf_cons_cons, Bool.and_eq_true, beq_iff_eq] at hbegins
          exact hc hbegins.1

/-- What is read behind the first colon of a text. -/
def valueBehind (p : Bytes) : Bytes :=
  match p.dropWhile fun b => b != 58 with
  | [] => []
  | _ :: rest =>
      ((rest.dropWhile fun b => b == 32 || b == 9 || b == 34).takeWhile fun b => b != 34).take 127

theorem fieldText_eq (key t : Bytes) :
    fieldText key t = match findKey key t with
      | none => []
      | some p => valueBehind p :=
  rfl

theorem fieldText_of_found {p : Bytes} (h : findKey key t = some p) :
    fieldText key t = valueBehind p := by
  rw [fieldText_eq, h]

theorem valueBehind_colon (ha : (58 : UInt8) ∉ a) (rest : Bytes) :
    valueBehind (a ++ 58 :: rest) =
      ((rest.dropWhile fun b => b == 32 || b == 9 || b == 34).takeWhile fun b => b != 34).take 127 := by
  have hdrop : (a ++ 58 :: rest).dropWhile (fun b => b != 58) = 58 :: rest := by
    rw [List.dropWhile_append_of_pos]
    · rfl
    · intro b hb
      simp only [bne_iff_ne, ne_eq]
      rintro rfl
      exact ha hb
  rw [valueBehind, hdrop]

/-! ## A value between its quotes -/

def readValue (value rest : Bytes) : Bytes :=
  (((34 :: (value ++ 34 :: rest)).dropWhile fun b => b == 32 || b == 9 || b == 34).takeWhile
    fun b => b != 34).take 127

theorem takeWhile_quote (hvalue : (34 : UInt8) ∉ value) (rest : Bytes) :
    (value ++ 34 :: rest).takeWhile (fun b => b != 34) = value := by
  rw [List.takeWhile_append_of_pos]
  · exact List.append_nil value
  · intro b hb
    simp only [bne_iff_ne, ne_eq]
    rintro rfl
    exact hvalue hb

theorem readValue_exact (hplain : PlainText value) (hshort : value.length ≤ 127) (hne : value ≠ [])
    (hhead : value.head? ≠ some 32) (rest : Bytes) : readValue value rest = value := by
  have hquote : (34 : UInt8) ∉ value := fun hmem => (hplain _ hmem).2.1 rfl
  cases value with
  | nil => exact absurd rfl hne
  | cons v value =>
      obtain ⟨hcontrol, hv34, -⟩ := hplain v List.mem_cons_self
      have hv32 : v ≠ 32 := fun heq => hhead (congrArg some heq)
      have hv9 : v ≠ 9 := by
        rintro rfl
        exact absurd hcontrol (by decide)
      have hdrop : (34 :: (v :: value ++ 34 :: rest)).dropWhile
          (fun b => b == 32 || b == 9 || b == 34) = v :: value ++ 34 :: rest := by
        rw [List.dropWhile_cons_of_pos rfl]
        exact List.dropWhile_cons_of_neg (by simp [hv32, hv9, hv34])
      rw [readValue, hdrop, takeWhile_quote hquote, List.take_of_length_le hshort]

theorem readValue_head (value rest : Bytes) : ∀ b ∈ (readValue value rest).head?, b ≠ 32 := by
  intro b hb
  have hread : readValue value rest <+:
      (34 :: (value ++ 34 :: rest)).dropWhile fun b => b == 32 || b == 9 || b == 34 :=
    (List.take_prefix ..).trans (List.takeWhile_prefix _)
  obtain ⟨after, hafter⟩ := hread
  have hhead := dropWhile_head (fun b => b == 32 || b == 9 || b == 34)
    (34 :: (value ++ 34 :: rest)) b (by
      rw [← hafter, List.head?_append, Option.mem_def.mp hb]
      rfl)
  rintro rfl
  cases hhead

theorem readValue_nil : readValue [] (utf8 "\x7d") = utf8 "\x7d" := by
  decide

/-! ## The line of a phone -/

/-- What follows the value of the SSID. -/
def PhoneCredentials.behindSsid (c : PhoneCredentials) : Bytes :=
  utf8 "," ++ (utf8 "\"password\"" ++ 58 :: 34 :: (c.password ++ 34 :: utf8 "\x7d"))

def PhoneCredentials.body (c : PhoneCredentials) : Bytes :=
  utf8 "\x7b" ++ (utf8 "\"ssid\"" ++ 58 :: 34 :: (c.ssid ++ 34 :: c.behindSsid))

theorem line_eq (c : PhoneCredentials) : c.line = c.body ++ [newline] := by
  have hopen : utf8 "\x7b\"ssid\":\"" = utf8 "\x7b" ++ (utf8 "\"ssid\"" ++ [58, 34]) := by decide
  have hmid : utf8 "\",\"password\":\"" =
      34 :: (utf8 "," ++ (utf8 "\"password\"" ++ [58, 34])) := by decide
  have hclose : utf8 "\"\x7d\n" = 34 :: (utf8 "\x7d" ++ [newline]) := by decide
  simp only [PhoneCredentials.line, PhoneCredentials.body, PhoneCredentials.behindSsid, hopen, hmid,
    hclose, List.append_assoc, List.cons_append, List.nil_append]

theorem PlainText.not_mem (h : PlainText t) {b : UInt8} (hb : ¬ (32 ≤ b ∧ b ≠ 34 ∧ b ≠ 92 ∧ b ≠ 127)) :
    b ∉ t :=
  fun hmem => hb (h b hmem)

theorem not_mem_body (c : PhoneCredentials) {b : UInt8} (hb : b = 0 ∨ b = newline) : b ∉ c.body := by
  have hssid : b ∉ c.ssid := c.ssidPlain.not_mem (by rcases hb with rfl | rfl <;> decide)
  have hpassword : b ∉ c.password := c.passwordPlain.not_mem (by rcases hb with rfl | rfl <;> decide)
  simp only [PhoneCredentials.body, PhoneCredentials.behindSsid, List.mem_append, List.mem_cons, hssid,
    hpassword, false_or, not_or]
  rcases hb with rfl | rfl <;> decide

theorem receivedText_line (c : PhoneCredentials) : receivedText c.line = c.body := by
  have hnul : (0 : UInt8) ∉ c.body ++ [newline] := by
    rw [List.mem_append, not_or]
    exact ⟨not_mem_body c (.inl rfl), by decide⟩
  rw [receivedText, line_eq, cString_of_no_nul hnul, List.takeWhile_append_of_pos]
  · exact List.append_nil _
  · intro b hb
    simp only [bne_iff_ne, ne_eq]
    rintro rfl
    exact not_mem_body c (.inr rfl) hb

theorem ssidOf_line (c : PhoneCredentials) : ssidOf c.line = readValue c.ssid c.behindSsid := by
  have hfound : findKey (utf8 "\"ssid\"") c.body =
      some (utf8 "\"ssid\"" ++ 58 :: 34 :: (c.ssid ++ 34 :: c.behindSsid)) := by
    rw [PhoneCredentials.body, findKey_skip (by decide) (by decide)]
    exact findKey_here (List.isPrefixOf_iff_prefix.mpr (List.prefix_append ..))
  rw [ssidOf, receivedText_line, fieldText_of_found hfound, valueBehind_colon (by decide), readValue]

theorem not_password_key (hnot : ∀ after, t ≠ utf8 "password" ++ 34 :: after) :
    ¬ (utf8 "\"password\"").isPrefixOf (34 :: t) = true := by
  rw [List.isPrefixOf_iff_prefix]
  rintro ⟨after, hafter⟩
  rw [show utf8 "\"password\"" = 34 :: (utf8 "password" ++ [34]) by decide, List.cons_append,
    List.cons.injEq, List.append_assoc] at hafter
  exact hnot after hafter.2.symm

theorem passOf_line (c : PhoneCredentials) : passOf c.line = readValue c.password (utf8 "\x7d") := by
  have hquote : (34 : UInt8) ∉ c.ssid := c.ssidPlain.not_mem (by decide)
  have hkey : (utf8 "\"password\"").head? = some 34 := by decide
  have hword : utf8 "password" = [112, 97, 115, 115, 119, 111, 114, 100] := by decide
  have hstart : findKey (utf8 "\"password\"") c.body =
      findKey (utf8 "\"password\"") (34 :: (c.ssid ++ 34 :: c.behindSsid)) := by
    rw [PhoneCredentials.body, findKey_skip hkey (by decide),
      show utf8 "\"ssid\"" = 34 :: (utf8 "ssid" ++ [34]) by decide, List.cons_append,
      findKey_next (not_password_key (by simp [hword, show utf8 "ssid" = [115, 115, 105, 100] by decide])),
      List.append_assoc, findKey_skip hkey (by decide), List.cons_append, List.nil_append,
      findKey_next (not_password_key (by simp [hword]))]
    exact findKey_skip (a := [58]) hkey (by decide)
  by_cases hssid : c.ssid = utf8 "password"
  · -- the SSID is taken for the key, and the next colon is the right one
    have hfound : findKey (utf8 "\"password\"") c.body =
        some ((34 :: (c.ssid ++ 34 :: (utf8 "," ++ utf8 "\"password\""))) ++
          58 :: 34 :: (c.password ++ 34 :: utf8 "\x7d")) := by
      rw [hstart, findKey_here]
      · simp [PhoneCredentials.behindSsid]
      · rw [hssid, List.isPrefixOf_iff_prefix, show utf8 "\"password\"" =
          34 :: (utf8 "password" ++ [34]) by decide]
        exact ⟨c.behindSsid, by simp⟩
    rw [passOf, receivedText_line, fieldText_of_found hfound, valueBehind_colon (by
      rw [hssid]
      decide), readValue]
  · have hother : ∀ after, c.ssid ++ 34 :: c.behindSsid ≠ utf8 "password" ++ 34 :: after := by
      intro after heq
      have hcut := congrArg (List.takeWhile fun b => b != 34) heq
      rw [takeWhile_quote hquote, takeWhile_quote (by decide)] at hcut
      exact hssid hcut
    have hfound : findKey (utf8 "\"password\"") c.body =
        some (utf8 "\"password\"" ++ 58 :: 34 :: (c.password ++ 34 :: utf8 "\x7d")) := by
      rw [hstart, findKey_next (not_password_key hother), findKey_skip hkey hquote,
        findKey_next (not_password_key (by
          simp [hword, PhoneCredentials.behindSsid, show utf8 "," = [44] by decide])),
        PhoneCredentials.behindSsid, findKey_skip hkey (by decide)]
      exact findKey_here (List.isPrefixOf_iff_prefix.mpr (List.prefix_append ..))
    rw [passOf, receivedText_line, fieldText_of_found hfound, valueBehind_colon (by decide), readValue]

theorem decoded_iff (c : PhoneCredentials) : Decoded c ↔ ReadAsSent c := by
  constructor
  · rintro ⟨hssid, hpassword⟩
    rw [ssidOf_line] at hssid
    rw [passOf_line] at hpassword
    refine ⟨fun hblank => ?_, fun hnone => ?_, fun hblank => ?_⟩
    · exact readValue_head c.ssid c.behindSsid 32 (by rwa [hssid]) rfl
    · rw [hnone, readValue_nil] at hpassword
      cases hpassword
    · exact readValue_head c.password (utf8 "\x7d") 32 (by rwa [hpassword]) rfl
  · rintro ⟨hssid, hpassword, hhead⟩
    refine ⟨?_, ?_⟩
    · rw [ssidOf_line]
      exact readValue_exact c.ssidPlain c.ssidShort c.named hssid _
    · rw [passOf_line]
      exact readValue_exact c.passwordPlain c.passwordShort hpassword hhead _

/-! ## The configuration -/

theorem mem_valueBehind {p : Bytes} {b : UInt8} (h : b ∈ valueBehind p) : b ∈ p ∧ b ≠ 34 := by
  unfold valueBehind at h
  split at h
  · cases h
  · rename_i colon rest hrest
    have hmem := List.mem_of_mem_take h
    refine ⟨?_, by simpa using List.mem_takeWhile_imp hmem⟩
    have hin : b ∈ colon :: rest := List.mem_cons_of_mem _
      ((List.dropWhile_sublist _).mem ((List.takeWhile_sublist _).mem hmem))
    exact (List.dropWhile_sublist _).mem (hrest ▸ hin)

theorem mem_fieldText {b : UInt8} (h : b ∈ fieldText key t) : b ∈ t ∧ b ≠ 34 := by
  rw [fieldText_eq] at h
  split at h
  · cases h
  · rename_i p hp
    obtain ⟨hmem, hquote⟩ := mem_valueBehind h
    have htail : p <:+ t := (List.mem_tails ..).mp (List.mem_of_find?_eq_some hp)
    exact ⟨htail.subset hmem, hquote⟩

theorem mem_receivedText {line : Bytes} {b : UInt8} (h : b ∈ receivedText line) :
    b ≠ newline ∧ b ≠ 0 := by
  have hline : b ∈ cString line := (List.takeWhile_sublist _).mem h
  exact ⟨by simpa using List.mem_takeWhile_imp h, by simpa using List.mem_takeWhile_imp hline⟩

theorem realConfText_eq (ssid pass : Bytes) :
    realConfText ssid pass = [newline].intercalate (networkLines ssid pass) := by
  have hctrl : utf8 "ctrl_interface=/var/run/wpa_supplicant\n" =
      utf8 "ctrl_interface=/var/run/wpa_supplicant" ++ [newline] := by decide
  have hscan : utf8 "ap_scan=1\n" = utf8 "ap_scan=1" ++ [newline] := by decide
  have hopen : utf8 "network=\x7b\n" = utf8 "network=\x7b" ++ [newline] := by decide
  have hquote : utf8 "\"\n" = utf8 "\"" ++ [newline] := by decide
  have hmgmt : utf8 "    key_mgmt=WPA-PSK\n" = utf8 "    key_mgmt=WPA-PSK" ++ [newline] := by decide
  have hclose : utf8 "\x7d\n" = utf8 "\x7d" ++ [newline] := by decide
  simp only [realConfText, networkLines, hctrl, hscan, hopen, hquote, hmgmt, hclose, List.intercalate,
    List.intersperse, List.flatten_cons, List.flatten_nil, List.append_assoc, List.append_nil]

theorem networkLines_no_newline {ssid pass : Bytes} (hssid : newline ∉ ssid) (hpass : newline ∉ pass) :
    ∀ line ∈ networkLines ssid pass, newline ∉ line := by
  have hssidLine : newline ∉ utf8 "    ssid=\"" ++ ssid ++ utf8 "\"" := by
    simp only [List.mem_append, not_or]
    exact ⟨⟨by decide, hssid⟩, by decide⟩
  have hpassLine : newline ∉ utf8 "    psk=\"" ++ pass ++ utf8 "\"" := by
    simp only [List.mem_append, not_or]
    exact ⟨⟨by decide, hpass⟩, by decide⟩
  simp only [networkLines, List.forall_mem_cons]
  exact ⟨by decide, by decide, by decide, hssidLine, hpassLine, by decide, by decide, by decide,
    fun line hline => nomatch hline⟩

theorem written_oneNetwork (line : Bytes) :
    OneNetwork (ssidOf line) (passOf line) (realConfText (ssidOf line) (passOf line)) := by
  have hfield (key : Bytes) : newline ∉ fieldText key (receivedText line) ∧
      (34 : UInt8) ∉ fieldText key (receivedText line) ∧
      (0 : UInt8) ∉ fieldText key (receivedText line) :=
    ⟨fun h => (mem_receivedText (mem_fieldText h).1).1 rfl, fun h => (mem_fieldText h).2 rfl,
      fun h => (mem_receivedText (mem_fieldText h).1).2 rfl⟩
  refine ⟨?_, (hfield _).2, (hfield _).2⟩
  rw [realConfText_eq]
  exact List.splitOn_intercalate newline (networkLines_no_newline (hfield _).1 (hfield _).1)
    (List.cons_ne_nil _ _)

/-- Decoding is exact for these credentials and no others, and whatever line is
received, one network is written. -/
theorem credential_line_iff (c : PhoneCredentials) (line : Bytes) :
    (Decoded c ↔ ReadAsSent c) ∧
      OneNetwork (ssidOf line) (passOf line) (realConfText (ssidOf line) (passOf line)) :=
  ⟨decoded_iff c, written_oneNetwork line⟩

def openNetwork : PhoneCredentials where
  ssid := utf8 "home"
  password := []
  named := by decide
  ssidShort := by decide
  passwordShort := by decide
  ssidPlain := by decide
  passwordPlain := by decide

/-- The password is read as a closing brace. -/
theorem empty_password_misread : ¬ ∀ c : PhoneCredentials, Decoded c := by
  intro hall
  have hpassword := (hall openNetwork).password
  rw [passOf_line] at hpassword
  exact absurd hpassword (by decide)

end QnxHypervisor.WifiService
