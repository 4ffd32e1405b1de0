import QnxHypervisor.GuestManager.MetaSetFrame
import QnxHypervisor.GuestManager.OneProcess

/-! # The address given to a start

`cmd_start` stores the address through `guest_set_ip`, which skips the write when
some `ip` line has the address in it; `guest_start` then rewrites the file for
the pid, and discovery takes the last `ip` line. What it reads is the address of
the command only when the two scans mean the same line.
-/

namespace QnxHypervisor.GuestManager

open Foundation

/-! ## The line of the pid -/

theorem decimalInt_bytes (i : Int) : (0 : UInt8) ∉ decimalInt i ∧ newline ∉ decimalInt i := by
  unfold decimalInt
  split
  · simp only [List.mem_cons, not_or]
    exact ⟨⟨by decide, decimal_no_nul _⟩, by decide, decimal_no_newline _⟩
  · exact ⟨decimal_no_nul _, decimal_no_newline _⟩

theorem decimalInt_length (p : Int32) : (decimalInt p.toInt).length ≤ 11 := by
  have hlt : p.toInt.natAbs < 10 ^ 10 := by
    have hmin := p.le_toInt
    have hmax := p.toInt_lt
    omega
  have hdec := decimal_length_le (by decide) hlt
  unfold decimalInt
  split
  · simp only [List.length_cons]
    omega
  · omega

theorem pidKey_storable : StorableKey pidKey := by decide

theorem pidLine_clean (p : Int32) : CleanLine (keyLine pidKey (decimalInt p.toInt)) := by
  have hbytes := decimalInt_bytes p.toInt
  refine keyLine_clean pidKey_storable hbytes.1 hbytes.2 ?_
  have hshort := decimalInt_length p
  have hkey : pidKey.length = 3 := rfl
  rw [metaLineRoom, hkey]
  omega

theorem pidLine_readsBack (p : Int32) : ReadsBack pidKey (decimalInt p.toInt) := by
  have hbytes := decimalInt_bytes p.toInt
  refine readsBack_of_full pidKey_storable hbytes.1 hbytes.2 (pidLine_clean p).full fun j hj => ?_
  obtain rfl := MetaKey.text_inj (show j.text = MetaKey.pid.text from hj)
  rfl

/-! ## The two scans -/

/-- What `guest_set_ip` compares of a line. -/
def ipEntry (line : Bytes) : Bytes :=
  skipBlanks (match lineText line with
    | 35 :: rest => rest
    | p => p)

theorem ipStored_iff {ip text : Bytes} :
    ipStored ip text = true ↔ ∃ line ∈ linesOf metaLineRoom text,
      startsWithKey ipKey (ipEntry line) = true ∧ containsText ip (ipEntry line) = true := by
  simp only [ipStored, List.any_eq_true, Bool.and_eq_true]
  exact Iff.rfl

theorem containsText_iff {needle t : Bytes} : containsText needle t = true ↔ needle <:+: t := by
  rw [containsText, List.any_eq_true, List.infix_iff_prefix_suffix]
  simp only [List.mem_tails, List.isPrefixOf_iff_prefix, and_comm]

theorem skipBlanks_takeWhile (t : Bytes) :
    skipBlanks (t.takeWhile fun b => b != newline) = (skipBlanks t).takeWhile fun b => b != newline := by
  induction t with
  | nil => rfl
  | cons b rest ih =>
      by_cases hblank : isBlank b = true
      · have hb : b ≠ newline := by
          rintro rfl
          exact absurd hblank (by decide)
        have hskip : ∀ t, skipBlanks (b :: t) = skipBlanks t := fun t =>
          List.dropWhile_cons_of_pos hblank
        have htake : (b :: rest).takeWhile (fun b => b != newline) =
            b :: rest.takeWhile fun b => b != newline := by simp [hb]
        rw [htake, hskip, hskip, ih]
      · have hskip : ∀ t, skipBlanks (b :: t) = b :: t := fun t =>
          List.dropWhile_cons_of_neg hblank
        rw [hskip, List.takeWhile_cons]
        split
        · exact hskip _
        · rfl

theorem lineText_no_nul (line : Bytes) : (0 : UInt8) ∉ lineText line := by
  intro h
  have hmem : (0 : UInt8) ∈ cString line := (List.dropWhile_suffix _).mem h
  exact absurd (List.mem_takeWhile_imp hmem) (by decide)

theorem metaEntry_eq (line : Bytes) :
    metaEntry line = (ipEntry line).takeWhile fun b => b != newline := by
  have hnul := lineText_no_nul line
  unfold metaEntry ipEntry trimLine
  cases htext : lineText line with
  | nil => rfl
  | cons b rest =>
      rw [htext] at hnul
      have hrest : (0 : UInt8) ∉ rest.takeWhile fun b => b != newline := fun h =>
        hnul (List.mem_cons_of_mem _ ((List.takeWhile_prefix _).mem h))
      by_cases hb : b = 35
      · subst hb
        have htake : ((35 : UInt8) :: rest).takeWhile (fun b => b != newline) =
            35 :: rest.takeWhile fun b => b != newline := rfl
        simp only [htake, lineText, cString_of_no_nul hrest, skipBlanks_takeWhile,
          List.takeWhile_idem]
      · have hskip : skipBlanks (b :: rest) = b :: rest := by
          rw [← htext]
          exact List.dropWhile_idempotent isBlank (cString line)
        have hhead : ∀ more, (b :: rest).takeWhile (fun b => b != newline) ≠ 35 :: more := by
          intro more h
          rw [List.takeWhile_cons] at h
          split at h
          · exact hb (List.cons.inj h).1
          · cases h
        split
        · next hmore => exact absurd hmore (hhead _)
        · split
          · next hmore => exact absurd (List.cons.inj hmore).1 hb
          · rw [hskip]

/-- An address that the parser takes from a line stands in what it compares. -/
theorem infix_of_lineSets {ip line : Bytes} (h : lineSets .ip line = some (.text ip)) :
    startsWithKey ipKey (metaEntry line) = true ∧ ip <:+: metaEntry line := by
  unfold lineSets at h
  split at h
  · next hkey =>
    refine ⟨hkey, ?_⟩
    obtain rfl := MetaValue.text.inj (Option.some.inj h)
    have hfit : (CStr.fit 64 (skipBlanks (valueOf ipKey (metaEntry line)))).bytes <+:
        skipBlanks (valueOf ipKey (metaEntry line)) :=
      (List.take_prefix _ _).trans (List.takeWhile_prefix _)
    have hskip : skipBlanks (valueOf ipKey (metaEntry line)) <:+ metaEntry line :=
      (List.dropWhile_suffix _).trans (List.drop_suffix _ _)
    exact hfit.isInfix.trans hskip.isInfix
  · cases h

/-- The first scan does not miss an address that the second would read. -/
theorem ipStored_of_lineSets {ip text line : Bytes} (hline : line ∈ linesOf metaLineRoom text)
    (h : lineSets .ip line = some (.text ip)) : ipStored ip text = true := by
  obtain ⟨hkey, hinside⟩ := infix_of_lineSets h
  have hcut : metaEntry line <+: ipEntry line := by
    rw [metaEntry_eq]
    exact List.takeWhile_prefix _
  refine ipStored_iff.mpr ⟨line, hline, ?_, containsText_iff.mpr (hinside.trans hcut.isInfix)⟩
  rw [startsWithKey, List.isPrefixOf_iff_prefix] at hkey ⊢
  exact hkey.trans hcut

/-! ## The line that a start writes -/

/-- An address of at most `GUEST_IP_LEN - 1` bytes on one line. -/
structure PlainIp (ip : Bytes) : Prop where
  short : ip.length ≤ 63
  noNul : (0 : UInt8) ∉ ip
  noBlank : ∀ b ∈ ip, isBlank b = false
  oneLine : newline ∉ ip

theorem PlainIp.clean (h : PlainIp ip) : CleanLine (keyLine ipKey ip) := by
  refine keyLine_clean ipKey_storable h.noNul h.oneLine ?_
  have hshort := h.short
  have hkey : ipKey.length = 2 := rfl
  rw [metaLineRoom, hkey]
  omega

theorem PlainIp.readsBack (h : PlainIp ip) : ReadsBack ipKey ip := by
  refine readsBack_of_full ipKey_storable h.noNul h.oneLine h.clean.full fun j hj => ?_
  obtain rfl := MetaKey.text_inj (show j.text = MetaKey.ip.text from hj)
  have hskip : skipBlanks ip = ip :=
    @skipBlanks_append [] ip (by simp) fun b hb => h.noBlank b (List.mem_of_mem_head? hb)
  have hshort := h.short
  rw [MetaKey.read, hskip, CStr.fit_of_short h.noNul (by omega), MetaKey.meant]
  · intro hne
    cases hne
  · intro hne
    cases hne

/-! ## The lines behind the start -/

/-- The lines that the pid's rewriting starts from are all, or the first 64. -/
def linesLeft (pid : Option Int32) (lines : List Bytes) : List Bytes :=
  if pid.isSome then lines.take metaLineMax else lines

/-- The file of `guest_set_ip`, rewritten for the pid of a launched qvm. -/
def startedText (ipStore pidStore : MetaEnv) (ip : Bytes) (pid : Option Int32)
    (text : Option Bytes) : Option Bytes :=
  let text := guestSetIp ipStore ip text
  pid.elim text fun p => metaSet pidStore pidKey (decimalInt p.toInt) text

theorem lastValue_pid {pidStore : MetaEnv} (hstore : pidStore.Works) {pid : Option Int32}
    (hclean : pid.isSome = true → ∀ line ∈ textLines text, CleanLine line) :
    lastValue .ip (textLines (pid.elim text fun p =>
      metaSet pidStore pidKey (decimalInt p.toInt) text)) =
        lastValue .ip (linesLeft pid (textLines text)) := by
  cases pid with
  | none => rfl
  | some p =>
      rw [Option.elim_some, textLines_metaSet hstore (hclean rfl) pidKey_storable
        (pidLine_readsBack p), editedLines_values pidKey_storable (pidLine_readsBack p),
        if_neg (by decide)]
      rfl

theorem editedLines_single (hfull : FullLine metaLineRoom (keyLine key val)) (copied : List Bytes) :
    editedLines key val copied =
      copied.map (fun line => if keyIn key line then keyLine key val else line) ++
        if copied.any (keyIn key) then [] else [keyLine key val] := by
  have hline : ∀ line, editLine key val line = [if keyIn key line then keyLine key val else line] := by
    intro line
    unfold editLine
    rw [linesOf_fullLine hfull]
    split <;> rfl
  rw [editedLines, addedLines, linesOf_fullLine hfull]
  congr 1
  rw [← List.flatMap_pure_eq_map]
  exact List.flatMap_congr fun line _ => hline line

/-! ## When the address sticks -/

/-- Of the lines before the start: a write that is skipped leaves the address where
discovery reads it last; one that is made is not followed by an older `#ip=` line and
not dropped again with the lines behind the 64th. -/
def IpKept (ip : Bytes) (stored : Bool) (pid : Option Int32) (lines : List Bytes) : Prop :=
  if stored = true then lastValue .ip (linesLeft pid lines) = some (.text ip)
  else if (lines.take metaLineMax).any (keyIn ipKey) = true then
    lastValue .ip (behindKey ipKey (lines.take metaLineMax)) = none
  else pid = none ∨ lines.length < metaLineMax

/-- A plain `ip` line is exchanged: no line is added and none is dropped. -/
theorem exchanged_keeps_iff (hip : PlainIp ip) {lines : List Bytes} (pid : Option Int32)
    (hno : ∀ line ∈ lines, lineSets .ip line ≠ some (.text ip))
    (hfound : (lines.take metaLineMax).any (keyIn ipKey) = true) :
    lastValue .ip (linesLeft pid (editedLines ipKey ip (lines.take metaLineMax))) = some (.text ip) ↔
      lastValue .ip (behindKey ipKey (lines.take metaLineMax)) = none := by
  have hleft : linesLeft pid (editedLines ipKey ip (lines.take metaLineMax)) =
      editedLines ipKey ip (lines.take metaLineMax) := by
    unfold linesLeft
    split
    · refine List.take_of_length_le ?_
      rw [editedLines_single hip.clean.full, if_pos hfound, List.append_nil, List.length_map]
      exact List.length_take_le _ _
    · rfl
  rw [hleft, editedLines_values ipKey_storable hip.readsBack, if_pos (by rfl), if_pos hfound]
  cases hbehind : lastValue .ip (behindKey ipKey (lines.take metaLineMax)) with
  | none => exact iff_of_true rfl rfl
  | some v =>
      refine iff_of_false (fun h => ?_) (by simp)
      obtain ⟨line, hline, hset⟩ := lastValue_mem hbehind
      have hmem : line ∈ lines :=
        List.mem_of_mem_take (List.rtakeWhile_suffix _ _ |>.mem hline)
      rw [Option.some_or] at h
      exact hno line hmem (hset.trans h)

theorem added_keeps_iff (hip : PlainIp ip) {lines : List Bytes} (pid : Option Int32)
    (hno : ∀ line ∈ lines, lineSets .ip line ≠ some (.text ip))
    (hnone : ¬ (lines.take metaLineMax).any (keyIn ipKey) = true) :
    lastValue .ip (linesLeft pid (editedLines ipKey ip (lines.take metaLineMax))) = some (.text ip) ↔
      pid = none ∨ lines.length < metaLineMax := by
  have hvalue : lastValue .ip (editedLines ipKey ip (lines.take metaLineMax)) = some (.text ip) := by
    rw [editedLines_values ipKey_storable hip.readsBack, if_pos (by rfl), if_neg hnone]
    rfl
  have hcopy : editedLines ipKey ip (lines.take metaLineMax) =
      lines.take metaLineMax ++ [keyLine ipKey ip] := by
    have hkeep : ∀ line ∈ lines.take metaLineMax, ¬ keyIn ipKey line = true := fun line hline hkey =>
      hnone (List.any_eq_true.mpr ⟨line, hline, hkey⟩)
    rw [editedLines, editLine_none hkeep, addedLines, if_neg hnone, linesOf_fullLine hip.clean.full]
  cases pid with
  | none => exact iff_of_true hvalue (.inl rfl)
  | some p =>
      rw [linesLeft, if_pos Option.isSome_some]
      by_cases hfew : lines.length < metaLineMax
      · rw [List.take_of_length_le]
        · exact iff_of_true hvalue (.inr hfew)
        · rw [hcopy, List.length_append, List.length_take, List.length_singleton]
          omega
      · refine iff_of_false (fun h => ?_) (by simp [hfew])
        rw [hcopy, List.take_append_of_le_length (by rw [List.length_take]; omega),
          List.take_take] at h
        obtain ⟨line, hline, hset⟩ := lastValue_mem h
        exact hno line (List.mem_of_mem_take hline) hset

theorem startedText_iff {ipStore pidStore : MetaEnv} (hips : ipStore.Works)
    (hpids : pidStore.Works) (hip : PlainIp ip) {pid : Option Int32}
    (hclean : text.elim false (ipStored ip) = false ∨ pid.isSome = true →
      ∀ line ∈ textLines text, CleanLine line) :
    lastValue .ip (textLines (startedText ipStore pidStore ip pid text)) = some (.text ip) ↔
      IpKept ip (text.elim false (ipStored ip)) pid (textLines text) := by
  unfold IpKept
  split
  · next hstored =>
    have hskip : guestSetIp ipStore ip text = text := if_pos ⟨hips.read, hstored⟩
    rw [startedText, hskip, lastValue_pid hpids fun hsome => hclean (.inr hsome)]
  · next hstored =>
    have hlines := hclean (.inl (Bool.eq_false_iff.mpr hstored))
    have hwrite : guestSetIp ipStore ip text = metaSet ipStore ipKey ip text :=
      if_neg fun h => hstored h.2
    have hnew := textLines_metaSet hips hlines ipKey_storable hip.readsBack
    have hnewClean : ∀ line ∈ textLines (metaSet ipStore ipKey ip text), CleanLine line := by
      rw [hnew]
      exact editedLines_clean hip.clean fun line hline => hlines line (List.mem_of_mem_take hline)
    have hno : ∀ line ∈ textLines text, lineSets .ip line ≠ some (.text ip) := by
      intro line hline hset
      cases text with
      | none => cases hline
      | some t => exact hstored (ipStored_of_lineSets hline hset)
    rw [startedText, hwrite, lastValue_pid hpids fun _ => hnewClean, hnew]
    split
    · next hfound => exact exchanged_keeps_iff hip pid hno hfound
    · next hnone => exact added_keeps_iff hip pid hno hnone

/-! ## The command -/

/-- The pid that `guest_start` stores. -/
def startPid (env : StartEnv) (g : Guest) : Option Int32 :=
  if g.state = .running ∨ ¬ env.confExists then none else env.pid

theorem guestStart_metas (env : StartEnv) (g : Guest) (h : Host) :
    (guestStart env g h).2.metas g.id.bytes = (startPid env g).elim (h.metas g.id.bytes) fun p =>
      metaSet env.store pidKey (decimalInt p.toInt) (h.metas g.id.bytes) := by
  unfold guestStart startPid
  by_cases hrun : g.state = .running
  · simp [hrun, noteStarted]
  · cases hconf : env.confExists with
    | false => simp [hrun]
    | true =>
        cases hpid : env.pid with
        | none => simp [hrun]
        | some p => cases env.survives <;> simp [hrun, launch, noteStarted, Host.setMeta, Host.spawn, Host.exit]

/-- `discover_one` can read the guest's metadata. -/
structure DirEntry.Readable (d : DirEntry) : Prop where
  conf : d.confExists = true
  metaFile : d.metaExists = true
  opens : d.metaOpens = true

theorem discoverOne_ip {d : DirEntry} (hread : d.Readable) (text : Option Bytes) :
    MetaValue.text (discoverOne d text).ip.bytes =
      (lastValue .ip (textLines text)).getD (.text []) := by
  simp only [discoverOne, hread.conf, hread.metaFile, hread.opens, and_self, if_true]
  exact parseConfNetwork_get text _ .ip

/-- The next `discover_one` of the guest yields the address. -/
def IpSticks (d : DirEntry) (ip : Bytes) (h : Host) : Prop :=
  (discoverOne d (d.metaText h)).ip.bytes = ip

theorem ipSticks_iff {d : DirEntry} (hread : d.Readable) (hip : ip ≠ []) {h : Host} :
    IpSticks d ip h ↔
      lastValue .ip (textLines (d.metaText h)) = some (.text ip) := by
  have hvalue := discoverOne_ip hread (d.metaText h)
  unfold IpSticks
  constructor
  · intro hsticks
    rw [hsticks] at hvalue
    cases hlast : lastValue .ip (textLines (d.metaText h)) with
    | none =>
        rw [hlast] at hvalue
        exact absurd (MetaValue.text.inj hvalue) hip
    | some v =>
        rw [hlast] at hvalue
        exact congrArg some hvalue.symm
  · intro hlast
    rw [hlast] at hvalue
    exact MetaValue.text.inj hvalue

/-- Of the file before the start. -/
structure StartKeepsIp (ip : Bytes) (pid : Option Int32) (text : Option Bytes) : Prop where
  oneLine : newline ∉ ip
  /-- a file that is rewritten holds no NUL -/
  noNul : text.elim false (ipStored ip) = false ∨ pid.isSome = true → (0 : UInt8) ∉ text.getD []
  kept : IpKept ip (text.elim false (ipStored ip)) pid (textLines text)

theorem cmdStart_metas {id : Bytes} {h : Host} {g : Guest} (hfind : findGuest h.guests id = some g)
    (hip : ip ≠ []) (ipStore : MetaEnv) (env : StartEnv) (after : RefreshEnv) :
    (cmdStart id ip ipStore env after h).metas id =
      startedText ipStore env.store (CStr.fit 64 ip).bytes (startPid env g) (h.metas id) := by
  have hid : g.id.bytes = id := findGuest_id hfind
  have hstart := guestStart_metas env (g.withIp ip) ((h.setGuest id (Guest.withIp ip)).setMeta
    g.id.bytes (guestSetIp ipStore (g.withIp ip).ip.bytes (h.metas g.id.bytes)))
  have hmeta : ((h.setGuest id (Guest.withIp ip)).setMeta g.id.bytes
      (guestSetIp ipStore (g.withIp ip).ip.bytes (h.metas g.id.bytes))).metas (g.withIp ip).id.bytes =
        guestSetIp ipStore (CStr.fit 64 ip).bytes (h.metas id) := by
    rw [← hid]
    exact Function.update_self _ _ _
  rw [hmeta] at hstart
  simp only [cmdStart, hfind, if_neg hip]
  rw [← hid] at hstart ⊢
  exact hstart

theorem cmdStart_metas_other {id name : Bytes} (hname : name ≠ id) (ipStore : MetaEnv)
    (env : StartEnv) (after : RefreshEnv) (h : Host) :
    (cmdStart id ip ipStore env after h).metas name = h.metas name := by
  have hstart : ∀ (g : Guest) (h : Host), g.id.bytes = id →
      (guestStart env g h).2.metas name = h.metas name := by
    intro g h hid
    have hne : name ≠ g.id.bytes := hid ▸ hname
    unfold guestStart
    split
    · rfl
    · split
      · rfl
      · split
        · rfl
        · dsimp only
          split <;> exact Function.update_of_ne hne _ _
  unfold cmdStart
  cases hfind : findGuest h.guests id with
  | none => rfl
  | some g =>
      have hid : g.id.bytes = id := findGuest_id hfind
      dsimp only
      split
      · exact hstart g h hid
      · refine (hstart (g.withIp ip) _ hid).trans ?_
        exact Function.update_of_ne (hid ▸ hname : name ≠ (g.withIp ip).id.bytes) _ _

theorem DirEntry.metaText_short {d : DirEntry} {id : Bytes}
    (hname : (CStr.fit 32 d.name).bytes = id) (hshort : cString d.name = id) (h : Host) :
    d.metaText h = h.metas id := by
  have hlen : id.length ≤ 31 := by
    rw [← hname]
    exact (CStr.fit 32 d.name).short
  have hpath : (utf8 "/guests/").length + id.length + (utf8 "/.hms_metadata").length < 256 := by
    have hdir : (utf8 "/guests/").length = 8 := by decide
    have hfile : (utf8 "/.hms_metadata").length = 14 := by decide
    omega
  simp only [DirEntry.metaText, hshort, if_pos hpath]

theorem DirEntry.metaText_long {d : DirEntry} {id : Bytes} (hlong : cString d.name ≠ id)
    (ipStore : MetaEnv) (env : StartEnv) (after : RefreshEnv) (h : Host) :
    d.metaText (cmdStart id ip ipStore env after h) = d.metaText h := by
  simp only [DirEntry.metaText, cmdStart_metas_other hlong]

/-- Of the state before the start. The file that discovery reads for a directory with a longer
name is not the guest's, so it has the address already. -/
def StartSticks (d : DirEntry) (ip : Bytes) (pid : Option Int32) (h : Host) : Prop :=
  if cString d.name = (CStr.fit 32 d.name).bytes then StartKeepsIp ip pid (d.stateText h)
  else lastValue .ip (textLines (d.metaText h)) = some (.text ip)

/-- The guest as discovered, with this metadata file. -/
def hostWithMeta (t : Bytes) : Host :=
  refresh (guestsOn [guestA]) { bareHost with metas := fun _ => some t }

theorem storeOk_works : storeOk.Works := ⟨rfl, rfl, rfl, rfl⟩

end QnxHypervisor.GuestManager
