import QnxHypervisor.Foundation.JsonShape
import QnxHypervisor.GuestManager.StartIp
import QnxHypervisor.HmsStatus.EscapeBuffer
import QnxHypervisor.MotorRecorder.Recorder

/-! # The list of recorded files

`handle_list_command` prints the CSV files of a directory into 4096 bytes. The comma
is guarded by 64 bytes of room, the entry by its own length and the closing by 3, and
a comma stays when the entry behind it is dropped.
-/

namespace QnxHypervisor.MotorRecorder

open Foundation HmsStatus GuestManager

/-! ## Source functions -/

/-- `char json[4096]`. -/
def listRoom : Nat := 4096

/-- A directory entry and the size `stat` gives for it, if it succeeds. -/
structure DirEntry where
  name : CStr 256
  size : Option Int64

/-- What `readdir` hands out. -/
structure Directory where
  entries : List DirEntry
  distinct : (entries.map DirEntry.name).Nodup

/-- The stack buffer, with whatever it holds. -/
abbrev ListBuffer := {json : Bytes // json.length = listRoom}

def listHead : Bytes := utf8 "\x7b\"state\":\"file_list\",\"files\":["

/-- `long fsize`. -/
def DirEntry.fsize (e : DirEntry) : Int64 := e.size.getD 0

/-- `{"name":"%s","size":%ld}`. -/
def entryText (e : DirEntry) : Bytes :=
  utf8 "\x7b\"name\":\"" ++ (e.name.bytes ++ (utf8 "\",\"size\":" ++
  (decimalInt e.fsize.toInt ++ utf8 "\x7d")))

/-- `json` with `pos`, and `first`. -/
structure Listing where
  json : OutBuffer
  first : Bool

/-- A turn of the loop for an entry that is listed. -/
def listEntry (s : Listing) (e : DirEntry) : Option Listing :=
  (if s.first = false ∧ s.json.pos < listRoom - 64 then s.json.put 44 else some s.json).bind fun o =>
    (o.print (entryText e)).map fun printed =>
      if 0 < (entryText e).length ∧ printed.pos < listRoom then ⟨printed, false⟩
      -- the text stays in the buffer, behind `pos`
      else ⟨⟨printed.bytes, o.pos⟩, s.first⟩

def listLoop : List DirEntry → Listing → Option Listing
  | [], s => some s
  | e :: rest, s =>
      if containsText (utf8 ".csv") e.name.bytes = true then (listEntry s e).bind (listLoop rest)
      else listLoop rest s

/-- `memcpy(json + pos, "]}", 3)`, or a NUL in the last byte. -/
def closeList (o : OutBuffer) : Option Bytes :=
  if o.pos < listRoom - 3 then
    (((o.put 93).bind fun o => o.put 125).bind fun o => o.put 0).map OutBuffer.bytes
  else if listRoom - 1 < o.bytes.length then some (o.bytes.set (listRoom - 1) 0)
  else none

/-- `handle_list_command`: the payload published; `none` for the directory when
`opendir` fails. -/
def handleListCommand (json : ListBuffer) : Option Directory → Option Bytes
  | none => some (utf8 "\x7b\"state\":\"file_list\",\"files\":[]\x7d")
  | some d =>
      (OutBuffer.print ⟨json.val, 0⟩ listHead).bind fun o =>
        (listLoop d.entries ⟨o, true⟩).bind fun s => (closeList s.json).map cString

/-! ## What is promised -/

/-- The entries whose name contains `.csv`. -/
def csvEntries : Option Directory → List DirEntry
  | none => []
  | some d => d.entries.filter fun e => containsText (utf8 ".csv") e.name.bytes

def entryValue (e : DirEntry) : JsonValue :=
  .object [(utf8 "name", .string e.name.bytes), (utf8 "size", .number (decimalInt e.fsize.toInt))]

def listValue (listed : List DirEntry) : JsonValue :=
  .object [(utf8 "state", .string (utf8 "file_list")), (utf8 "files", .array (listed.map entryValue))]

def listText (entries : List DirEntry) : Bytes :=
  listHead ++ (([44] : Bytes).intercalate (entries.map entryText) ++ utf8 "]\x7d")

/-- A whole JSON object that lists distinct CSV files of the directory in its order,
and every one of them where the text with its NUL fits the buffer. Names that are
UTF-8 leave it UTF-8. -/
def ListPromise (dir : Option Directory) (payload : Bytes) : Prop :=
  ∃ listed, listed.Sublist (csvEntries dir) ∧ (listed.map DirEntry.name).Nodup ∧
    readJson payload = some (listValue listed) ∧
    ((∀ e ∈ listed, IsUtf8 e.name.bytes) → IsUtf8 payload) ∧
    ((listText (csvEntries dir)).length < listRoom → listed = csvEntries dir)

mutual

/-- Commas and entries take turns to the end, an entry standing before `pos`. Near
the end of the buffer an entry comes without its comma: there none may fit. -/
def listFits : Nat → List DirEntry → Bool
  | pos, [] => pos < listRoom - 3
  | pos, e :: rest =>
      if pos < listRoom - 64 then
        if pos + 1 + (entryText e).length < listRoom then listFits (pos + 1 + (entryText e).length) rest
        else lateFits (pos + 1) rest
      else !decide (pos + (entryText e).length < listRoom) && listFits pos rest

/-- The same with the comma of a dropped entry before `pos`: the next comma must not
come, a later entry must. -/
def lateFits : Nat → List DirEntry → Bool
  | _, [] => false
  | pos, e :: rest =>
      if pos < listRoom - 64 then false
      else if pos + (entryText e).length < listRoom then listFits (pos + (entryText e).length) rest
      else lateFits pos rest

end

/-- The whole list keeps its form. -/
def listKeepsForm : List DirEntry → Bool
  | [] => true
  | e :: rest => listFits (listHead.length + (entryText e).length) rest

/-! ## What the loop lays down -/

/-- The bytes behind `pos` that the loop adds; `first` and `pos` as it has them. -/
def laid : Bool → Nat → List DirEntry → Bytes
  | _, _, [] => []
  | first, pos, e :: rest =>
      let comma : Bytes := if first = false ∧ pos < listRoom - 64 then [44] else []
      let next := pos + comma.length + (entryText e).length
      if next < listRoom then comma ++ (entryText e ++ laid false next rest)
      else comma ++ laid first (pos + comma.length) rest

/-- The entries among them. -/
def placed : Bool → Nat → List DirEntry → List DirEntry
  | _, _, [] => []
  | first, pos, e :: rest =>
      let comma : Bytes := if first = false ∧ pos < listRoom - 64 then [44] else []
      let next := pos + comma.length + (entryText e).length
      if next < listRoom then e :: placed false next rest
      else placed first (pos + comma.length) rest

variable {o : OutBuffer} {text : Bytes} {entries rest : List DirEntry} {e : DirEntry}
  {first : Bool} {pos fuel : Nat}

/-- What the buffer holds where the text may go on: a NUL or the first byte of an
entry that was dropped. -/
def Paused (o : OutBuffer) : Prop := o.bytes[o.pos]? = some 0 ∨ o.bytes[o.pos]? = some 123

theorem print_whole (h : o.Has listRoom text) (more : Bytes) (hroom : text.length + more.length < listRoom) :
    ∃ o', o.print more = some o' ∧ o'.Has listRoom (text ++ more) ∧ Paused o' := by
  obtain ⟨o', hprint, h', hnul⟩ := h.print_ended more hroom
  exact ⟨o', hprint, h', .inl hnul⟩

theorem print_cut (h : o.Has listRoom text) (hroom : text.length < listRoom) (more : Bytes)
    (hhead : more.head? = some 123) :
    ∃ bytes, o.print more = some ⟨bytes, o.pos + more.length⟩ ∧
      OutBuffer.Has ⟨bytes, o.pos⟩ listRoom text ∧ Paused ⟨bytes, o.pos⟩ := by
  have hpos : o.pos < o.bytes.length := by
    rw [h.pos, h.size]
    exact hroom
  have htake : (o.bytes.take o.pos).length = o.pos := by
    rw [List.length_take]
    omega
  refine ⟨_, OutBuffer.print_eq hpos more, ⟨?_, h.pos, ?_⟩, ?_⟩
  · have hsize := h.size
    simp only [List.length_append, List.length_take, List.length_drop, List.length_singleton]
    omega
  · simp only
    rw [List.take_append_of_le_length (by omega), List.take_take, Nat.min_self]
    exact h.text
  · obtain ⟨tail, rfl⟩ : ∃ tail, more = 123 :: tail := by
      cases more with
      | nil => cases hhead
      | cons c tail => exact ⟨tail, by rw [Option.some.inj hhead]⟩
    simp only [Paused]
    rw [List.getElem?_append_right (by omega), htake, Nat.sub_self]
    cases o.bytes.length - o.pos - 1 with
    | zero => exact .inl rfl
    | succ room => exact .inr rfl

theorem entryText_cons (e : DirEntry) : ∃ tail, entryText e = 123 :: tail := ⟨_, rfl⟩

theorem entryText_pos (e : DirEntry) : 0 < (entryText e).length := by
  obtain ⟨tail, htail⟩ := entryText_cons e
  rw [htail]
  exact Nat.succ_pos _

theorem listEntry_laid (h : o.Has listRoom text) (hroom : text.length < listRoom) (e : DirEntry)
    (rest : List DirEntry) (first : Bool) :
    ∃ s text', listEntry ⟨o, first⟩ e = some s ∧ s.json.Has listRoom text' ∧
      text'.length < listRoom ∧ Paused s.json ∧
      text ++ laid first text.length (e :: rest) = text' ++ laid s.first text'.length rest := by
  have hcomma : ∃ o₁, (if first = false ∧ o.pos < listRoom - 64 then o.put 44 else some o) = some o₁ ∧
      o₁.Has listRoom (text ++ if first = false ∧ text.length < listRoom - 64 then [44] else []) := by
    rw [h.pos]
    split
    · exact h.put hroom 44
    · exact ⟨o, rfl, by rwa [List.append_nil]⟩
  obtain ⟨o₁, hput, h₁⟩ := hcomma
  rw [listEntry, hput, Option.bind_some, laid]
  set comma : Bytes := if first = false ∧ text.length < listRoom - 64 then [44] else [] with hdef
  have hlen : text.length + comma.length = (text ++ comma).length := List.length_append.symm
  have hsize : listRoom = 4096 := rfl
  have hafter : (text ++ comma).length < listRoom := by
    rw [← hlen, hdef]
    split
    · next hboth =>
      rw [List.length_singleton]
      omega
    · rwa [List.length_nil, Nat.add_zero]
  simp only [hlen]
  by_cases hfit : (text ++ comma).length + (entryText e).length < listRoom
  · obtain ⟨o₂, hprint, h₂, hpaused⟩ := print_whole h₁ (entryText e) hfit
    have hnext : o₂.pos < listRoom := by
      rw [h₂.pos, List.length_append]
      exact hfit
    refine ⟨⟨o₂, false⟩, text ++ comma ++ entryText e, ?_, h₂, by rwa [← h₂.pos], hpaused, ?_⟩
    · rw [hprint, Option.map_some, if_pos ⟨entryText_pos e, hnext⟩]
    · rw [if_pos hfit, @List.length_append _ (text ++ comma)]
      simp only [List.append_assoc]
  · obtain ⟨tail, htail⟩ := entryText_cons e
    obtain ⟨bytes, hprint, h₂, hpaused⟩ := print_cut h₁ hafter (entryText e) (by rw [htail]; rfl)
    refine ⟨⟨⟨bytes, o₁.pos⟩, first⟩, text ++ comma, ?_, h₂, hafter, hpaused, ?_⟩
    · rw [hprint, Option.map_some, if_neg fun hboth => hfit (h₁.pos ▸ hboth.2)]
    · rw [if_neg hfit, List.append_assoc]

theorem listLoop_laid (h : o.Has listRoom text) (hroom : text.length < listRoom) (hpaused : Paused o)
    (entries : List DirEntry) (first : Bool) :
    ∃ s text', listLoop entries ⟨o, first⟩ = some s ∧ s.json.Has listRoom text' ∧
      text'.length < listRoom ∧ Paused s.json ∧
      text' = text ++ laid first text.length
        (entries.filter fun e => containsText (utf8 ".csv") e.name.bytes) := by
  induction entries generalizing o text first with
  | nil => exact ⟨⟨o, first⟩, text, rfl, h, hroom, hpaused, by simp [laid]⟩
  | cons e rest ih =>
      rw [listLoop]
      split
      · next hcsv =>
        rw [List.filter_cons_of_pos (by simpa using hcsv)]
        obtain ⟨s, text₁, hturn, h₁, hroom₁, hpaused₁, hlaid⟩ := listEntry_laid h hroom e
          (rest.filter fun e => containsText (utf8 ".csv") e.name.bytes) first
        obtain ⟨s₂, text₂, hloop, h₂, hroom₂, hpaused₂, heq⟩ := ih h₁ hroom₁ hpaused₁ s.first
        refine ⟨s₂, text₂, by rw [hturn]; exact hloop, h₂, hroom₂, hpaused₂, ?_⟩
        rw [heq, hlaid]
      · next hother =>
        rw [List.filter_cons_of_neg (by simpa using hother)]
        exact ih h hroom hpaused first

/-! ## Sizes and bytes of an entry -/

theorem fsize_length (e : DirEntry) : (decimalInt e.fsize.toInt).length ≤ 20 := by
  have hlow := e.fsize.le_toInt
  have hhigh := e.fsize.toInt_lt
  have habs : (decimal e.fsize.toInt.natAbs).length ≤ 19 := decimal_length_le (by decide) (by omega)
  unfold decimalInt
  split
  · rw [List.length_cons]
    omega
  · omega

theorem entryText_length (e : DirEntry) : (entryText e).length ≤ 294 := by
  have hname := e.name.short
  have hsize := fsize_length e
  have h₁ : (utf8 "\x7b\"name\":\"").length = 9 := rfl
  have h₂ : (utf8 "\",\"size\":").length = 9 := rfl
  have h₃ : (utf8 "\x7d").length = 1 := rfl
  simp only [entryText, List.length_append, h₁, h₂, h₃]
  omega

theorem entryText_no_nul (e : DirEntry) : (0 : UInt8) ∉ entryText e := by
  have hname := e.name.noNul
  have hsize := decimalInt_no_nul e.fsize.toInt
  have h₁ : (0 : UInt8) ∉ utf8 "\x7b\"name\":\"" := by decide
  have h₂ : (0 : UInt8) ∉ utf8 "\",\"size\":" := by decide
  have h₃ : (0 : UInt8) ∉ utf8 "\x7d" := by decide
  simp only [entryText, List.mem_append, not_or]
  exact ⟨h₁, hname, h₂, hsize, h₃⟩

theorem laid_no_nul (first : Bool) (pos : Nat) (entries : List DirEntry) :
    (0 : UInt8) ∉ laid first pos entries := by
  induction entries generalizing first pos with
  | nil => exact List.not_mem_nil
  | cons e rest ih =>
      have hcomma : (0 : UInt8) ∉ (if first = false ∧ pos < listRoom - 64 then [44] else [] : Bytes) := by
        split
        · decide
        · exact List.not_mem_nil
      simp only [laid]
      generalize (if first = false ∧ pos < listRoom - 64 then [44] else [] : Bytes) = comma at hcomma ⊢
      split
      · simp only [List.mem_append, not_or]
        exact ⟨hcomma, entryText_no_nul e, ih _ _⟩
      · rw [List.mem_append, not_or]
        exact ⟨hcomma, ih _ _⟩

/-! ## The payload -/

/-- Behind the last byte that counts: the closing, or what the buffer holds there. -/
def Closing (pos : Nat) (tail : Bytes) : Prop :=
  if pos < listRoom - 3 then tail = [93, 125] else tail = [] ∨ ∃ t, tail = 123 :: t

theorem closeList_payload (h : o.Has listRoom text) (hroom : text.length < listRoom)
    (hpaused : Paused o) (hnul : (0 : UInt8) ∉ text) :
    ∃ bytes tail, closeList o = some bytes ∧ cString bytes = text ++ tail ∧
      Closing text.length tail := by
  have hsize : listRoom = 4096 := rfl
  unfold closeList Closing
  rw [h.pos]
  split
  · next hclose =>
    obtain ⟨o₁, hput₁, h₁⟩ := h.put hroom 93
    obtain ⟨o₂, hput₂, h₂⟩ := h₁.put (by rw [List.length_append, List.length_singleton]; omega) 125
    obtain ⟨o₃, hput₃, h₃⟩ :=
      h₂.put (by simp only [List.length_append, List.length_singleton]; omega) 0
    refine ⟨o₃.bytes, [93, 125], ?_, ?_, rfl⟩
    · rw [hput₁, Option.bind_some, hput₂, Option.bind_some, hput₃]
      rfl
    · rw [← List.take_append_drop o₃.pos o₃.bytes, h₃.text]
      simp only [List.append_assoc]
      rw [cString_append hnul]
      rfl
  · next hopen =>
    rw [if_pos (by rw [h.size]; omega)]
    refine ⟨_, cString (o.bytes.set (listRoom - 1) 0 |>.drop text.length), rfl, ?_, ?_⟩
    · conv_lhs => rw [← List.take_append_drop text.length (o.bytes.set (listRoom - 1) 0)]
      rw [List.take_set_of_le (by omega), ← h.pos, h.text, cString_append hnul]
    · have hin : text.length < o.bytes.length := by
        rw [h.size]
        exact hroom
      rw [List.drop_eq_getElem_cons (by rw [List.length_set]; exact hin), List.getElem_set]
      split
      · exact .inl rfl
      · have hget := List.getElem?_eq_getElem hin
        rw [Paused, h.pos, hget] at hpaused
        rcases hpaused with h0 | h123
        · rw [Option.some.inj h0]
          exact .inl rfl
        · rw [Option.some.inj h123]
          exact .inr ⟨_, rfl⟩

theorem handleListCommand_payload (json : ListBuffer) (dir : Option Directory) :
    ∃ tail, handleListCommand json dir =
        some (listHead ++ laid true listHead.length (csvEntries dir) ++ tail) ∧
      Closing (listHead ++ laid true listHead.length (csvEntries dir)).length tail := by
  cases dir with
  | none => exact ⟨[93, 125], rfl, by rw [Closing, if_pos (by decide)]⟩
  | some d =>
      have hstart : OutBuffer.Has ⟨json.val, 0⟩ listRoom [] := ⟨json.property, rfl, rfl⟩
      obtain ⟨o, hprint, h, hpaused⟩ := print_whole hstart listHead (by decide)
      obtain ⟨s, text, hloop, hs, hroom, hpaused₂, htext⟩ :=
        listLoop_laid h (by decide) hpaused d.entries true
      rw [List.nil_append] at htext
      have hnul : (0 : UInt8) ∉ text := by
        rw [htext, List.mem_append, not_or]
        exact ⟨by decide, laid_no_nul _ _ _⟩
      obtain ⟨bytes, tail, hclose, hcut, htail⟩ := closeList_payload hs hroom hpaused₂ hnul
      rw [htext] at hcut htail
      refine ⟨tail, ?_, htail⟩
      rw [handleListCommand, hprint, Option.bind_some, hloop, Option.bind_some, hclose,
        Option.map_some, hcut]
      rfl

/-! ## Reading it -/

theorem entryText_parse (hplain : PlainText e.name.bytes) (rest : Bytes)
    (hfuel : (entryText e).length ≤ fuel) :
    parseValue fuel (entryText e ++ rest) = some (entryValue e, rest) := by
  have hmembers :=
    MembersText.cons (k := utf8 "name") (by decide) (denotes_plain hplain) <|
    .last (k := utf8 "size") (by decide) (denotes_int e.fsize.toInt)
  have htext : ∃ t, entryText e = 123 :: (t ++ [125]) ∧ MembersText t
      [(utf8 "name", .string e.name.bytes), (utf8 "size", .number (decimalInt e.fsize.toInt))] := by
    refine ⟨_, ?_, hmembers⟩
    simp only [entryText, List.append_assoc, List.cons_append, List.nil_append]
    rfl
  obtain ⟨t, htext, ht⟩ := htext
  have hlen : t.length + 2 ≤ fuel := by
    simp only [htext, List.length_cons, List.length_append, List.length_nil] at hfuel
    omega
  have hparse := ht.parse_object rest (show t.length + 1 ≤ fuel by omega)
  rw [htext, List.cons_append, List.append_assoc]
  exact hparse

/-- No value begins with a comma or a closing bracket. -/
theorem parseItems_none {c : UInt8} (hc : c = 44 ∨ c = 93) (t : Bytes) :
    parseItems fuel (c :: t) = none := by
  cases fuel with
  | zero => rfl
  | succ fuel =>
      have hvalue : parseValue fuel (c :: t) = none := by
        cases fuel with
        | zero => rfl
        | succ fuel =>
            rcases hc with rfl | rfl
            · rfl
            · rfl
      rw [parseItems, hvalue, Option.bind_none]

theorem parseItems_entry (hplain : PlainText e.name.bytes) (t : Bytes)
    (hfuel : (entryText e ++ t).length + 1 ≤ fuel) :
    ∃ less, t.length ≤ less ∧ parseItems fuel (entryText e ++ t) =
      (parseMore less t).map fun p => (entryValue e :: p.1, p.2) := by
  rw [List.length_append] at hfuel
  obtain ⟨less, rfl⟩ : ∃ n, fuel = n + 1 := ⟨fuel - 1, by omega⟩
  exact ⟨less, by omega, parseItems_of_value (entryText_parse hplain t (by omega))⟩

/-- What the reader makes of the rest behind an entry. -/
def ReadsMore (pos : Nat) (entries : List DirEntry) : Prop :=
  ∀ fuel tail, Closing (pos + (laid false pos entries).length) tail →
    (laid false pos entries ++ tail).length ≤ fuel →
    parseMore fuel (laid false pos entries ++ tail) =
      if listFits pos entries = true then some ((placed false pos entries).map entryValue, [125])
      else none

/-- And behind a comma. -/
def ReadsItems (pos : Nat) (entries : List DirEntry) : Prop :=
  ∀ fuel tail, Closing (pos + (laid false pos entries).length) tail →
    (laid false pos entries ++ tail).length + 1 ≤ fuel →
    parseItems fuel (laid false pos entries ++ tail) =
      if lateFits pos entries = true then some ((placed false pos entries).map entryValue, [125])
      else none

theorem readsItems_entry (fuel : Nat) (hplain : PlainText e.name.bytes) {tail : Bytes}
    (hmore : ReadsMore (pos + (entryText e).length) rest)
    (hclosing : Closing (pos + (entryText e ++ laid false (pos + (entryText e).length) rest).length) tail)
    (hfuel : (entryText e ++ laid false (pos + (entryText e).length) rest ++ tail).length + 1 ≤ fuel) :
    parseItems fuel (entryText e ++ laid false (pos + (entryText e).length) rest ++ tail) =
      if listFits (pos + (entryText e).length) rest = true then
        some ((e :: placed false (pos + (entryText e).length) rest).map entryValue, [125])
      else none := by
  rw [List.append_assoc] at hfuel ⊢
  obtain ⟨less, hless, hparse⟩ := parseItems_entry hplain _ hfuel
  rw [List.length_append, ← Nat.add_assoc] at hclosing
  rw [hparse, hmore less tail hclosing hless]
  split
  · rfl
  · rfl

/-- Behind the last entry stands the closing, or what is left of it. -/
theorem readsMore_nil (pos : Nat) : ReadsMore pos [] := by
  intro fuel tail hclosing _
  replace hclosing : Closing pos tail := hclosing
  rw [laid, List.nil_append, listFits, placed]
  by_cases hclose : pos < listRoom - 3
  · rw [Closing, if_pos hclose] at hclosing
    rw [hclosing, if_pos (decide_eq_true hclose)]
    rfl
  · rw [Closing, if_neg hclose] at hclosing
    rw [if_neg (by simpa using hclose)]
    rcases hclosing with rfl | ⟨t, rfl⟩
    · rfl
    · rw [parseMore, following_none (by decide) (by decide) (by decide), Option.bind_none]

/-- Where a comma was just laid down the closing always fits, and the comma spoils it. -/
theorem readsItems_nil (hpos : pos ≤ listRoom - 64) : ReadsItems pos [] := by
  have hsize : listRoom = 4096 := rfl
  intro fuel tail hclosing _
  replace hclosing : Closing pos tail := hclosing
  rw [Closing, if_pos (by omega)] at hclosing
  rw [laid, List.nil_append, hclosing, parseItems_none (.inr rfl)]
  rfl

theorem readsMore_entry (hname : PlainText e.name.bytes) (hcomma : pos < listRoom - 64)
    (hfit : pos + 1 + (entryText e).length < listRoom)
    (ih : ReadsMore (pos + 1 + (entryText e).length) rest) : ReadsMore pos (e :: rest) := by
  have hlaid : laid false pos (e :: rest) =
      44 :: (entryText e ++ laid false (pos + 1 + (entryText e).length) rest) := by
    simp [laid, hcomma, hfit]
  have hplaced : placed false pos (e :: rest) =
      e :: placed false (pos + 1 + (entryText e).length) rest := by
    simp [placed, hcomma, hfit]
  have hfits : listFits pos (e :: rest) = listFits (pos + 1 + (entryText e).length) rest := by
    simp [listFits, hcomma, hfit]
  intro fuel tail hclosing hfuel
  rw [hlaid, List.cons_append, List.length_cons] at hfuel
  rw [hlaid, List.length_cons, Nat.add_comm _ 1, ← Nat.add_assoc] at hclosing
  rw [hlaid, hplaced, hfits, List.cons_append, parseMore, following_comma, Option.bind_some]
  exact readsItems_entry fuel hname ih hclosing hfuel

theorem readsMore_dropped (hcomma : pos < listRoom - 64)
    (hfit : ¬ pos + 1 + (entryText e).length < listRoom) (ih : ReadsItems (pos + 1) rest) :
    ReadsMore pos (e :: rest) := by
  have hlaid : laid false pos (e :: rest) = 44 :: laid false (pos + 1) rest := by
    simp [laid, hcomma, hfit]
  have hplaced : placed false pos (e :: rest) = placed false (pos + 1) rest := by
    simp [placed, hcomma, hfit]
  have hfits : listFits pos (e :: rest) = lateFits (pos + 1) rest := by
    simp [listFits, hcomma, hfit]
  intro fuel tail hclosing hfuel
  rw [hlaid, List.cons_append, List.length_cons] at hfuel
  rw [hlaid, List.length_cons, Nat.add_comm _ 1, ← Nat.add_assoc] at hclosing
  rw [hlaid, hplaced, hfits, List.cons_append, parseMore, following_comma, Option.bind_some]
  exact ih fuel tail hclosing hfuel

theorem readsItems_comma (hcomma : pos < listRoom - 64) : ReadsItems pos (e :: rest) := by
  have hlaid : ∃ t, laid false pos (e :: rest) = 44 :: t := by
    simp only [laid, hcomma, and_self, if_true]
    split
    · exact ⟨_, rfl⟩
    · exact ⟨_, rfl⟩
  have hfits : lateFits pos (e :: rest) = false := by
    simp [lateFits, hcomma]
  obtain ⟨t, hlaid⟩ := hlaid
  intro fuel tail _ _
  rw [hlaid, hfits, List.cons_append, parseItems_none (.inl rfl)]
  rfl

theorem laid_bare (rest : List DirEntry) (hcomma : ¬ pos < listRoom - 64)
    (hfit : pos + (entryText e).length < listRoom) :
    laid false pos (e :: rest) = entryText e ++ laid false (pos + (entryText e).length) rest ∧
      placed false pos (e :: rest) = e :: placed false (pos + (entryText e).length) rest := by
  refine ⟨?_, ?_⟩
  · simp [laid, hcomma, hfit]
  · simp [placed, hcomma, hfit]

theorem laid_nothing (rest : List DirEntry) (hcomma : ¬ pos < listRoom - 64)
    (hfit : ¬ pos + (entryText e).length < listRoom) :
    laid false pos (e :: rest) = laid false pos rest ∧
      placed false pos (e :: rest) = placed false pos rest := by
  refine ⟨?_, ?_⟩
  · simp [laid, hcomma, hfit]
  · simp [placed, hcomma, hfit]

theorem readsMore_bare (hcomma : ¬ pos < listRoom - 64)
    (hfit : pos + (entryText e).length < listRoom) : ReadsMore pos (e :: rest) := by
  obtain ⟨t, htext⟩ := entryText_cons e
  have hfits : listFits pos (e :: rest) = false := by
    simp [listFits, hcomma, hfit]
  intro fuel tail _ _
  rw [(laid_bare rest hcomma hfit).1, hfits, htext, List.append_assoc, List.cons_append, parseMore,
    following_none (by decide) (by decide) (by decide), Option.bind_none]
  rfl

theorem readsItems_bare (hname : PlainText e.name.bytes) (hcomma : ¬ pos < listRoom - 64)
    (hfit : pos + (entryText e).length < listRoom)
    (ih : ReadsMore (pos + (entryText e).length) rest) : ReadsItems pos (e :: rest) := by
  obtain ⟨hlaid, hplaced⟩ := laid_bare rest hcomma hfit
  have hfits : lateFits pos (e :: rest) = listFits (pos + (entryText e).length) rest := by
    simp [lateFits, hcomma, hfit]
  intro fuel tail hclosing hfuel
  rw [hlaid] at hfuel hclosing
  rw [hlaid, hplaced, hfits]
  exact readsItems_entry fuel hname ih hclosing hfuel

theorem readsMore_nothing (hcomma : ¬ pos < listRoom - 64)
    (hfit : ¬ pos + (entryText e).length < listRoom) (ih : ReadsMore pos rest) :
    ReadsMore pos (e :: rest) := by
  obtain ⟨hlaid, hplaced⟩ := laid_nothing rest hcomma hfit
  have hfits : listFits pos (e :: rest) = listFits pos rest := by
    simp [listFits, hcomma, hfit]
  intro fuel tail hclosing hfuel
  rw [hlaid] at hfuel hclosing
  rw [hlaid, hplaced, hfits]
  exact ih fuel tail hclosing hfuel

theorem readsItems_nothing (hcomma : ¬ pos < listRoom - 64)
    (hfit : ¬ pos + (entryText e).length < listRoom) (ih : ReadsItems pos rest) :
    ReadsItems pos (e :: rest) := by
  obtain ⟨hlaid, hplaced⟩ := laid_nothing rest hcomma hfit
  have hfits : lateFits pos (e :: rest) = lateFits pos rest := by
    simp [lateFits, hcomma, hfit]
  intro fuel tail hclosing hfuel
  rw [hlaid] at hfuel hclosing
  rw [hlaid, hplaced, hfits]
  exact ih fuel tail hclosing hfuel

theorem laid_reads (hplain : ∀ e ∈ entries, PlainText e.name.bytes) :
    ∀ pos, ReadsMore pos entries ∧ (pos ≤ listRoom - 64 → ReadsItems pos entries) := by
  induction entries with
  | nil => exact fun pos => ⟨readsMore_nil pos, readsItems_nil⟩
  | cons e rest ih =>
      have hname := hplain e List.mem_cons_self
      replace ih := ih fun e he => hplain e (List.mem_cons_of_mem _ he)
      intro pos
      by_cases hcomma : pos < listRoom - 64
      · refine ⟨?_, fun _ => readsItems_comma hcomma⟩
        by_cases hfit : pos + 1 + (entryText e).length < listRoom
        · exact readsMore_entry hname hcomma hfit (ih _).1
        · exact readsMore_dropped hcomma hfit ((ih (pos + 1)).2 (by omega))
      · by_cases hfit : pos + (entryText e).length < listRoom
        · exact ⟨readsMore_bare hcomma hfit, fun _ => readsItems_bare hname hcomma hfit (ih _).1⟩
        · exact ⟨readsMore_nothing hcomma hfit (ih pos).1,
            fun hpos => readsItems_nothing hcomma hfit ((ih pos).2 hpos)⟩

theorem laid_first (e : DirEntry) (rest : List DirEntry) :
    laid true listHead.length (e :: rest) =
        entryText e ++ laid false (listHead.length + (entryText e).length) rest ∧
      placed true listHead.length (e :: rest) =
        e :: placed false (listHead.length + (entryText e).length) rest := by
  have hlen := entryText_length e
  have hhead : listHead.length = 30 := rfl
  have hsize : listRoom = 4096 := rfl
  have hfit : listHead.length + (entryText e).length < listRoom := by omega
  constructor
  · simp [laid, hfit]
  · simp [placed, hfit]

theorem files_read (hplain : ∀ e ∈ entries, PlainText e.name.bytes) {tail : Bytes}
    (hclosing : Closing (listHead ++ laid true listHead.length entries).length tail)
    (hfuel : (laid true listHead.length entries ++ tail).length + 2 ≤ fuel) :
    parseValue fuel (91 :: (laid true listHead.length entries ++ tail)) =
      if listKeepsForm entries = true then
        some (.array ((placed true listHead.length entries).map entryValue), [125])
      else none := by
  obtain ⟨fuel, rfl⟩ : ∃ n, fuel = n + 1 := ⟨fuel - 1, by omega⟩
  cases entries with
  | nil =>
      replace hclosing : tail = [93, 125] := hclosing
      rw [laid, List.nil_append, hclosing, parseValue_empty_array, listKeepsForm, if_pos rfl]
      rfl
  | cons e rest =>
      obtain ⟨t, htext⟩ := entryText_cons e
      have hmore := (laid_reads (fun e he => hplain e (List.mem_cons_of_mem _ he))
        (listHead.length + (entryText e).length) : ReadsMore _ rest ∧ _).1
      rw [(laid_first e rest).1, List.length_append] at hclosing
      rw [(laid_first e rest).1] at hfuel
      have hparse := readsItems_entry fuel (hplain e List.mem_cons_self) hmore hclosing
        (by omega)
      have hopen : parseValue (fuel + 1)
          (91 :: (entryText e ++ laid false (listHead.length + (entryText e).length) rest ++ tail)) =
            (parseItems fuel (entryText e ++
              laid false (listHead.length + (entryText e).length) rest ++ tail)).map
                fun p => (.array p.1, p.2) := by
        rw [htext]
        exact parseValue_array fuel (by decide) (by decide) _
      rw [(laid_first e rest).1, (laid_first e rest).2, hopen, hparse, listKeepsForm]
      split
      · rfl
      · rfl

theorem listHead_read (fuel : Nat) (body : Bytes) :
    parseValue (fuel + 3) (listHead ++ body) =
      (parseValue fuel (91 :: body)).bind fun v =>
        (following 125 v.2).bind fun
          | .more rest => (parseMembers fuel rest).map fun p =>
              (.object ((utf8 "state", .string (utf8 "file_list")) :: (utf8 "files", v.1) :: p.1), p.2)
          | .done rest =>
              some (.object [(utf8 "state", .string (utf8 "file_list")), (utf8 "files", v.1)], rest) := by
  have htext : listHead ++ body = 123 :: quote :: (utf8 "state" ++ quote :: 58 :: quote ::
      (utf8 "file_list" ++ quote :: 44 :: (quote :: (utf8 "files" ++ quote :: 58 :: 91 :: body)))) := rfl
  rw [htext, parseValue_object, parseMembers_string (by decide) (by decide), parseMembers,
    parseName_plain (by decide), Option.bind_some]
  cases parseValue fuel (91 :: body) with
  | none => rfl
  | some v =>
      simp only [Option.bind_some]
      cases following 125 v.2 with
      | none => rfl
      | some f =>
          cases f with
          | more rest =>
              simp only [Option.bind_some]
              cases parseMembers fuel rest with
              | none => rfl
              | some p => rfl
          | done rest => rfl

theorem list_read (hplain : ∀ e ∈ entries, PlainText e.name.bytes) {tail : Bytes}
    (hclosing : Closing (listHead ++ laid true listHead.length entries).length tail) :
    readJson (listHead ++ laid true listHead.length entries ++ tail) =
      if listKeepsForm entries = true then
        some (listValue (placed true listHead.length entries)) else none := by
  have hhead : listHead.length = 30 := rfl
  have hlen : (listHead ++ laid true listHead.length entries ++ tail).length + 1 =
      (laid true listHead.length entries ++ tail).length + 28 + 3 := by
    simp only [List.length_append, hhead]
    omega
  rw [readJson, hlen, List.append_assoc, listHead_read, files_read hplain hclosing (by omega)]
  split
  · rfl
  · rfl

theorem laid_room (entries : List DirEntry) : ∀ pos,
    (listFits pos entries = true → pos + (laid false pos entries).length < listRoom - 3) ∧
      (lateFits pos entries = true → pos + (laid false pos entries).length < listRoom - 3) := by
  induction entries with
  | nil => exact fun pos => ⟨fun h => by simpa [listFits, laid] using h, fun h => by simp [lateFits] at h⟩
  | cons e rest ih =>
      intro pos
      by_cases hcomma : pos < listRoom - 64
      · by_cases hfit : pos + 1 + (entryText e).length < listRoom
        · have hrest := (ih (pos + 1 + (entryText e).length)).1
          simp only [laid, listFits, lateFits, hcomma, hfit, and_self, if_true, List.length_append,
            List.length_singleton]
          refine ⟨fun h => ?_, fun h => (nomatch h)⟩
          have hroom := hrest h
          omega
        · have hrest := (ih (pos + 1)).2
          simp only [laid, listFits, lateFits, hcomma, hfit, and_self, if_true, if_false,
            List.length_append, List.length_singleton]
          refine ⟨fun h => ?_, fun h => (nomatch h)⟩
          have hroom := hrest h
          omega
      · by_cases hfit : pos + (entryText e).length < listRoom
        · have hrest := (ih (pos + (entryText e).length)).1
          simp only [laid, listFits, lateFits, hcomma, hfit, and_false, if_false, if_true,
            List.length_append, List.length_nil, Nat.add_zero, decide_true, Bool.not_true,
            Bool.false_and]
          refine ⟨fun h => (nomatch h), fun h => ?_⟩
          have hroom := hrest h
          omega
        · have hrest := ih pos
          simp only [laid, listFits, lateFits, hcomma, hfit, and_false, if_false, List.length_nil,
            Nat.add_zero, decide_false, Bool.not_false, Bool.true_and, List.nil_append]
          exact hrest

/-! ## The entries that are placed -/

theorem placed_sublist (first : Bool) (pos : Nat) (entries : List DirEntry) :
    (placed first pos entries).Sublist entries := by
  induction entries generalizing first pos with
  | nil => exact List.Sublist.refl []
  | cons e rest ih =>
      simp only [placed]
      generalize (if first = false ∧ pos < listRoom - 64 then [44] else [] : Bytes) = comma
      split
      · exact (ih _ _).cons_cons e
      · exact (ih _ _).cons e

theorem entryText_isUtf8 (hname : IsUtf8 e.name.bytes) : IsUtf8 (entryText e) := by
  have h₁ : IsUtf8 (utf8 "\x7b\"name\":\"") := by decide
  have h₂ : IsUtf8 (utf8 "\",\"size\":") := by decide
  have h₃ : IsUtf8 (utf8 "\x7d") := by decide
  exact h₁.append (hname.append (h₂.append ((decimalInt_isUtf8 _).append h₃)))

theorem laid_isUtf8 (h : ∀ e ∈ placed first pos entries, IsUtf8 e.name.bytes) :
    IsUtf8 (laid first pos entries) := by
  induction entries generalizing first pos with
  | nil => rfl
  | cons e rest ih =>
      have hcomma : IsUtf8 (if first = false ∧ pos < listRoom - 64 then [44] else [] : Bytes) := by
        split
        · decide
        · rfl
      simp only [laid, placed] at h ⊢
      generalize (if first = false ∧ pos < listRoom - 64 then [44] else [] : Bytes) = comma
        at hcomma h ⊢
      by_cases hfit : pos + comma.length + (entryText e).length < listRoom
      · rw [if_pos hfit] at h ⊢
        have hentry := entryText_isUtf8 (h e List.mem_cons_self)
        exact hcomma.append (hentry.append (ih fun e he => h e (List.mem_cons_of_mem _ he)))
      · rw [if_neg hfit] at h ⊢
        exact hcomma.append (ih h)

/-- The bytes all the entries of a tail need, each with its comma. -/
def needed : List DirEntry → Nat
  | [] => 0
  | e :: rest => 1 + (entryText e).length + needed rest

theorem placed_all (hfits : listFits pos entries = true) (hroom : pos + needed entries < listRoom) :
    placed false pos entries = entries := by
  induction entries generalizing pos with
  | nil => rfl
  | cons e rest ih =>
      rw [needed] at hroom
      have hsize : listRoom = 4096 := rfl
      by_cases hcomma : pos < listRoom - 64
      · have hfit : pos + 1 + (entryText e).length < listRoom := by omega
        have hrest : listFits (pos + 1 + (entryText e).length) rest = true := by
          simpa [listFits, hcomma, hfit] using hfits
        simp only [placed, hcomma, and_self, if_true, List.length_singleton, hfit]
        rw [ih hrest (by omega)]
      · have hfit : pos + (entryText e).length < listRoom := by omega
        simp [listFits, hcomma, hfit] at hfits

theorem intercalate_length (e : DirEntry) (rest : List DirEntry) :
    (([44] : Bytes).intercalate ((e :: rest).map entryText)).length =
      (entryText e).length + needed rest := by
  induction rest generalizing e with
  | nil => simp [needed]
  | cons e' rest ih =>
      have hnext := ih e'
      simp only [List.map_cons] at hnext ⊢
      rw [List.intercalate_cons_cons, List.length_append, List.length_append, hnext, needed]
      simp only [List.length_singleton]
      omega

theorem list_closed (hform : listKeepsForm entries = true) {tail : Bytes}
    (hclosing : Closing (listHead ++ laid true listHead.length entries).length tail) :
    tail = [93, 125] := by
  cases entries with
  | nil => exact hclosing
  | cons e rest =>
      have hroom := (laid_room rest (listHead.length + (entryText e).length)).1 hform
      rw [(laid_first e rest).1, Closing, if_pos] at hclosing
      · exact hclosing
      · simp only [List.length_append]
        omega

theorem list_all (hform : listKeepsForm entries = true) (hroom : (listText entries).length < listRoom) :
    placed true listHead.length entries = entries := by
  cases entries with
  | nil => rfl
  | cons e rest =>
      have hlen : (listText (e :: rest)).length =
          listHead.length + ((entryText e).length + needed rest + 2) := by
        rw [listText, List.length_append, List.length_append, intercalate_length]
        rfl
      rw [(laid_first e rest).2, placed_all hform (by omega)]

/-! ## The law -/

theorem list_broken (json : ListBuffer) {dir : Option Directory}
    (hplain : ∀ e ∈ csvEntries dir, PlainText e.name.bytes)
    (hform : listKeepsForm (csvEntries dir) = false) :
    ¬ ∃ payload, handleListCommand json dir = some payload ∧ ListPromise dir payload := by
  rintro ⟨payload, hpayload, listed, -, -, hread, -⟩
  obtain ⟨tail, heq, hclosing⟩ := handleListCommand_payload json dir
  rw [hpayload] at heq
  rw [Option.some.inj heq, list_read hplain hclosing, hform] at hread
  cases hread

theorem csvEntries_distinct (dir : Option Directory) :
    ((csvEntries dir).map DirEntry.name).Nodup := by
  cases dir with
  | none => exact List.nodup_nil
  | some d => exact d.distinct.sublist (List.filter_sublist.map _)

/-- The promise is kept just by the directories whose list keeps its form, whatever
the stack holds. -/
theorem file_list_valid (json : ListBuffer) (dir : Option Directory)
    (hplain : ∀ e ∈ csvEntries dir, PlainText e.name.bytes) :
    (∃ payload, handleListCommand json dir = some payload ∧ ListPromise dir payload) ↔
      listKeepsForm (csvEntries dir) = true := by
  constructor
  · intro h
    by_contra hbad
    exact list_broken json hplain (Bool.eq_false_iff.mpr hbad) h
  · intro hform
    obtain ⟨tail, hpayload, hclosing⟩ := handleListCommand_payload json dir
    have hread := list_read hplain hclosing
    rw [if_pos hform] at hread
    have hsub := placed_sublist true listHead.length (csvEntries dir)
    refine ⟨_, hpayload, _, hsub, (csvEntries_distinct dir).sublist (hsub.map _), hread,
      fun hutf => ?_, list_all hform⟩
    have hhead : IsUtf8 listHead := by decide
    have htail : IsUtf8 tail := by
      rw [list_closed hform hclosing]
      decide
    exact (hhead.append (laid_isUtf8 hutf)).append htail

def filledBuffer : ListBuffer := ⟨List.replicate listRoom 255, List.length_replicate⟩

/-- Two recordings and a file that is not listed. -/
def twoRuns : Directory where
  entries := [⟨.fit 256 (utf8 "run.csv"), some 120⟩, ⟨.fit 256 (utf8 "a.txt"), none⟩,
    ⟨.fit 256 (utf8 "next.csv"), some 48⟩]
  distinct := by decide

theorem file_list_valid_run :
    ∃ payload, handleListCommand filledBuffer (some twoRuns) = some payload ∧
      ListPromise (some twoRuns) payload :=
  (file_list_valid filledBuffer (some twoRuns) (by decide +kernel)).mpr (by decide +kernel)

/-- Fifteen names of 255 bytes. -/
def longNames : Directory where
  entries := (List.range 15).map fun i =>
    ⟨.fit 256 (List.replicate 250 97 ++ UInt8.ofNat (65 + i) :: utf8 ".csv"), some 4096⟩
  distinct := by decide +kernel

/-- The last of them does not fit, but its comma does. -/
theorem long_names_comma :
    (∀ e ∈ csvEntries (some longNames), PlainText e.name.bytes) ∧
      ¬ ∃ payload, handleListCommand filledBuffer (some longNames) = some payload ∧
        ListPromise (some longNames) payload := by
  have hplain : ∀ e ∈ csvEntries (some longNames), PlainText e.name.bytes := by
    decide +kernel
  exact ⟨hplain, list_broken _ hplain (by decide +kernel)⟩

end QnxHypervisor.MotorRecorder
