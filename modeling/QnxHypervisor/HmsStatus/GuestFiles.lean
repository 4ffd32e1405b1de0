import QnxHypervisor.GuestManager.BootImage
import QnxHypervisor.HmsStatus.EscapeBuffer
import QnxHypervisor.HmsStatus.WellFormed

/-! # The partitions of a guest

`publish_guest_files` prints one entry after the other into 8192 bytes and moves on by
what `snprintf` asked for. Names go through a buffer of 256 bytes that stops taking bytes
8 before its end.
-/

namespace QnxHypervisor.HmsStatus

open Foundation GuestManager

/-! ## Source functions -/

/-- What the guest's directory and its qvmconf hold: the content at `conf_path`, the
names that `readdir` hands out, and the size `stat` gives. -/
structure GuestDir where
  conf : Option Bytes
  names : Option (List (CStr 256))
  stat : Bytes → Option Int64

/-- The arrays on the stack, with whatever they hold. -/
structure FilesStack where
  buf : Bytes
  jn : Bytes
  jk : Bytes
  bufSize : buf.length = 8192
  jnSize : jn.length = 256
  jkSize : jk.length = 64

/-- `base_only` -/
def baseOnly (p : Bytes) : Bytes := (p.reverse.takeWhile fun b => b != 47).reverse

/-- A use of `GF_ADD`. -/
structure FileAdd where
  name : CStr 256
  kind : Bytes
  always : Bool

def bootOf (g : Guest) (dir : GuestDir) : Bytes :=
  (guestBootImage (if g.confPath.bytes = [] then none else dir.conf) dir.names).elim [] CStr.bytes

def qvmconfName (g : Guest) : Bytes := baseOnly g.confPath.bytes

/-- Any other `*.img`. -/
def isOtherImage (boot name : Bytes) : Bool :=
  name.head? != some 46 && containsText (utf8 ".img") name && !(boot != [] && name == boot) &&
    name != utf8 "rootfs.img"

/-- The uses of `GF_ADD`, in order. -/
def fileAdds (g : Guest) (dir : GuestDir) : List FileAdd :=
  let boot := bootOf g dir
  (if boot ≠ [] then
    [⟨.fit 256 boot, if containsText (utf8 ".ifs") boot = true then utf8 "ifs" else utf8 "img", true⟩]
   else []) ++
  ([⟨.fit 256 (utf8 "rootfs.img"), utf8 "img", false⟩, ⟨.fit 256 (utf8 "guest.conf"), utf8 "conf", false⟩] ++
  ((if qvmconfName g ≠ [] ∧ containsText (utf8 ".qvmconf") (qvmconfName g) = true then
      [⟨.fit 256 (qvmconfName g), utf8 "conf", false⟩]
    else []) ++
  ((dir.names.getD []).filter fun n => isOtherImage boot n.bytes).map fun n => ⟨n, utf8 "img", false⟩))

/-- `%s{"name":"%s","kind":"%s","exists":%s,"size":%lld}` -/
def fileText (first : Bool) (jn jk : Bytes) (size : Option Int64) : Bytes :=
  (if first then [] else utf8 ",") ++ (utf8 "\x7b\"name\":\"" ++ (jn ++ (utf8 "\",\"kind\":\"" ++
  (jk ++ (utf8 "\",\"exists\":" ++ (boolText size.isSome ++ (utf8 ",\"size\":" ++
  (decimalInt (size.getD (-1)).toInt ++ utf8 "\x7d"))))))))

/-- `buf` with `pos`, and `first`. -/
structure FilesState where
  out : OutBuffer
  first : Bool

/-- `GF_ADD` -/
def gfAdd (stack : FilesStack) (dir : GuestDir) (s : FilesState) (a : FileAdd) : Option FilesState :=
  let size := dir.stat a.name.bytes
  if size.isSome = true ∨ a.always = true then
    (escapeJson a.name.bytes stack.jn).bind fun jn =>
      (escapeJson a.kind stack.jk).bind fun jk =>
        (s.out.print (fileText s.first (cString jn.1) (cString jk.1) size)).map fun o => ⟨o, false⟩
  else some s

def filesHead (g : Guest) : Bytes :=
  utf8 "\x7b\"state\":\"guest_files\",\"guest\":\"" ++ (g.id.bytes ++ (utf8 "\",\"type\":\"" ++
  (guestTypeStr g.type ++ (utf8 "\",\"running\":" ++ (boolText (g.state == .running) ++
  utf8 ",\"files\":[")))))

/-- `publish_guest_files`: the payload; nothing is defined once the position is beyond
the buffer. -/
def publishGuestFiles (stack : FilesStack) (g : Guest) (dir : GuestDir) : Option Bytes :=
  (OutBuffer.print ⟨stack.buf, 0⟩ (filesHead g)).bind fun o =>
    ((fileAdds g dir).foldlM (gfAdd stack dir) ⟨o, true⟩).bind fun s =>
      (s.out.print (utf8 "]\x7d")).map fun o => cString o.bytes

/-! ## What is promised -/

/-- The file is there, or it is the boot image. -/
def isPartition (dir : GuestDir) (a : FileAdd) : Bool := (dir.stat a.name.bytes).isSome || a.always

def partitions (g : Guest) (dir : GuestDir) : List FileAdd := (fileAdds g dir).filter (isPartition dir)

def partitionValue (dir : GuestDir) (a : FileAdd) : JsonValue :=
  .object [(utf8 "name", .string a.name.bytes), (utf8 "kind", .string a.kind),
    (utf8 "exists", .bool (dir.stat a.name.bytes).isSome),
    (utf8 "size", .number (decimalInt ((dir.stat a.name.bytes).getD (-1)).toInt))]

def filesValue (g : Guest) (dir : GuestDir) : JsonValue :=
  .object [(utf8 "state", .string (utf8 "guest_files")), (utf8 "guest", .string g.id.bytes),
    (utf8 "type", .string (guestTypeStr g.type)), (utf8 "running", .bool (g.state == .running)),
    (utf8 "files", .array ((partitions g dir).map (partitionValue dir)))]

def partitionText (dir : GuestDir) (first : Bool) (a : FileAdd) : Bytes :=
  fileText first (a.name.bytes.flatMap escapeByte) a.kind (dir.stat a.name.bytes)

/-- Entries one after the other. -/
def entryTexts (entry : Bool → FileAdd → Bytes) : Bool → List FileAdd → Bytes
  | _, [] => []
  | first, a :: rest => entry first a ++ entryTexts entry false rest

def filesText (g : Guest) (dir : GuestDir) : Bytes :=
  filesHead g ++ (entryTexts (partitionText dir) true (partitions g dir) ++ utf8 "]\x7d")

/-- Every position is inside the buffer, nothing is cut off, and the text is the JSON
list of the partitions. -/
def FilesPromise (stack : FilesStack) (g : Guest) (dir : GuestDir) : Prop :=
  publishGuestFiles stack g dir = some (filesText g dir) ∧
    decodeJson (filesText g dir) = some (filesValue g dir)

/-- The id stands for itself, the names are UTF-8, the buffer for escaped names takes
all of each, and the whole text fits with its NUL. -/
structure FilesFit (g : Guest) (dir : GuestDir) : Prop where
  id : Verbatim g.id.bytes
  names : ∀ a ∈ partitions g dir, IsUtf8 a.name.bytes ∧
    (a.name.bytes.dropLast.flatMap escapeByte).length < 248
  room : (filesText g dir).length < 8192

variable {stack : FilesStack} {g : Guest} {dir : GuestDir} {a : FileAdd} {adds : List FileAdd}
  {o : OutBuffer} {s s' : FilesState} {text : Bytes} {first : Bool}

/-! ## Names and kinds -/

theorem escapedFrom_eq_iff (limit : Nat) {t : Bytes} (hnul : (0 : UInt8) ∉ t) (j : Nat) :
    escapedFrom limit t j = t ↔ t = [] ∨ j + (t.dropLast.flatMap escapeByte).length < limit := by
  induction t generalizing j with
  | nil => simp [escapedFrom]
  | cons c rest ih =>
      rw [List.mem_cons, not_or] at hnul
      have hc : c ≠ 0 := fun h => hnul.1 h.symm
      have hpos := (escapeByte_length c).1
      have hrest := ih hnul.2 (j + (escapeByte c).length)
      by_cases hj : j < limit
      · rw [escapedFrom, if_pos ⟨hc, hj⟩, List.cons_inj_right, hrest]
        cases rest with
        | nil => simp [hj]
        | cons d more =>
            rw [List.dropLast_cons_cons, List.flatMap_cons, List.length_append]
            simp only [reduceCtorEq, false_or, Nat.add_assoc]
      · rw [escapedFrom, if_neg fun h => hj h.2]
        constructor
        · intro h
          cases h
        · rintro (h | h)
          · cases h
          · omega

def shownName (name : Bytes) : Bytes := escapeFrom 248 name 0

theorem shownName_prefix (name : Bytes) :
    (shownName name).length ≤ (name.flatMap escapeByte).length := by
  rw [shownName, escapeFrom_eq]
  obtain ⟨rest, hrest⟩ := escapedFrom_prefix 248 name 0
  conv_rhs => rw [← hrest, List.flatMap_append, List.length_append]
  exact Nat.le_add_right _ _

theorem shownName_whole_iff {name : Bytes} (hnul : (0 : UInt8) ∉ name) :
    (name.flatMap escapeByte).length ≤ (shownName name).length ↔
      (name.dropLast.flatMap escapeByte).length < 248 := by
  have hiff := escapedFrom_eq_iff 248 hnul 0
  rw [Nat.zero_add] at hiff
  have hside : escapedFrom 248 name 0 = name ↔ (name.dropLast.flatMap escapeByte).length < 248 := by
    rw [hiff]
    exact ⟨fun h => h.elim (fun hnil => by simp [hnil]) id, .inr⟩
  rw [← hside, shownName, escapeFrom_eq]
  obtain ⟨rest, hrest⟩ := escapedFrom_prefix 248 name 0
  constructor
  · intro hle
    have hlen := congrArg (fun t => (t.flatMap escapeByte).length) hrest
    simp only [List.flatMap_append, List.length_append] at hlen
    cases rest with
    | nil => rwa [List.append_nil] at hrest
    | cons c more =>
        have hc := (escapeByte_length c).1
        rw [List.flatMap_cons, List.length_append] at hlen
        omega
  · intro heq
    rw [heq]

theorem shownName_whole {name : Bytes} (hnul : (0 : UInt8) ∉ name)
    (h : (name.dropLast.flatMap escapeByte).length < 248) : shownName name = name.flatMap escapeByte := by
  have hwhole := (escapedFrom_eq_iff 248 hnul 0).mpr (.inr (by rwa [Nat.zero_add]))
  rw [shownName, escapeFrom_eq, hwhole]

theorem escapeJson_shown (limit : Nat) {buf : Bytes} (hsize : buf.length = limit + 8)
    (hlimit : 0 < limit) (hfits : limit + 8 ≤ 2147483647) (t : Bytes) :
    ∃ left n, escapeJson t buf = some (left, n) ∧ cString left = escapeFrom limit t 0 := by
  have hbound : escapeLimit buf.length = some ((buf.length : Int) - 8) := escapeLimit_of_fits (by omega)
  have hnat : ((buf.length : Int) - 8).toNat = limit := by omega
  obtain ⟨left, hinto, -, -, rest, hleft⟩ :=
    escapeInto_spec signedChar_prints hbound (by omega) t
  rw [hnat] at hinto hleft
  refine ⟨left, _, hinto, ?_⟩
  rw [hleft, cString_append (escapeFrom_no_nul limit t 0)]
  exact List.append_nil _

theorem fileAdds_kind (ha : a ∈ fileAdds g dir) :
    a.kind = utf8 "ifs" ∨ a.kind = utf8 "img" ∨ a.kind = utf8 "conf" := by
  simp only [fileAdds, List.mem_append, List.mem_map] at ha
  rcases ha with ha | ha | ha | ⟨n, -, rfl⟩
  · split at ha
    · rw [List.mem_singleton] at ha
      subst ha
      split
      · exact .inl rfl
      · exact .inr (.inl rfl)
    · cases ha
  · simp only [List.mem_cons, List.not_mem_nil, or_false] at ha
    rcases ha with rfl | rfl
    · exact .inr (.inl rfl)
    · exact .inr (.inr rfl)
  · split at ha
    · rw [List.mem_singleton] at ha
      subst ha
      exact .inr (.inr rfl)
    · cases ha
  · exact .inr (.inl rfl)

theorem kind_shown {kind : Bytes} (h : kind = utf8 "ifs" ∨ kind = utf8 "img" ∨ kind = utf8 "conf") :
    escapeFrom 56 kind 0 = kind := by
  rcases h with rfl | rfl | rfl <;> decide

/-! ## What is printed -/

/-- A use of `GF_ADD` whose file is there, as it is printed. -/
def shownText (dir : GuestDir) (first : Bool) (a : FileAdd) : Bytes :=
  fileText first (shownName a.name.bytes) a.kind (dir.stat a.name.bytes)

theorem gfAdd_eq (hkind : a.kind = utf8 "ifs" ∨ a.kind = utf8 "img" ∨ a.kind = utf8 "conf")
    (s : FilesState) :
    gfAdd stack dir s a =
      if isPartition dir a = true then
        (s.out.print (shownText dir s.first a)).map fun o => ⟨o, false⟩
      else some s := by
  obtain ⟨jn, nn, hjn, hjn'⟩ := escapeJson_shown 248 stack.jnSize (by decide) (by decide)
    a.name.bytes
  obtain ⟨jk, nk, hjk, hjk'⟩ := escapeJson_shown 56 stack.jkSize (by decide) (by decide) a.kind
  simp only [gfAdd, isPartition, Bool.or_eq_true, hjn, hjk, Option.bind_some, hjn', hjk',
    kind_shown hkind]
  rfl

theorem gfAdds_has (stack : FilesStack) (dir : GuestDir) (first : Bool)
    (hkind : ∀ a ∈ adds, a.kind = utf8 "ifs" ∨ a.kind = utf8 "img" ∨ a.kind = utf8 "conf")
    (h : o.Has 8192 text) (hroom : (text ++ entryTexts (shownText dir) first (adds.filter (isPartition dir))).length < 8192) :
    ∃ s, adds.foldlM (gfAdd stack dir) ⟨o, first⟩ = some s ∧
      s.out.Has 8192 (text ++ entryTexts (shownText dir) first (adds.filter (isPartition dir))) := by
  induction adds generalizing o text first with
  | nil => exact ⟨⟨o, first⟩, rfl, by simpa [entryTexts] using h⟩
  | cons a rest ih =>
      have hrest := fun a' ha' => hkind a' (List.mem_cons_of_mem a ha')
      rw [List.foldlM_cons, gfAdd_eq (hkind a List.mem_cons_self)]
      split
      · next hthere =>
        rw [List.filter_cons_of_pos hthere, entryTexts, ← List.append_assoc] at hroom ⊢
        have hlen := hroom
        rw [List.length_append, List.length_append] at hlen
        obtain ⟨o₁, hprint, h₁⟩ := h.print (shownText dir first a) (by omega)
        simp only [hprint, Option.map_some, Option.bind_eq_bind, Option.bind_some]
        exact ih false hrest h₁ hroom
      · next hmissing =>
        rw [List.filter_cons_of_neg hmissing] at hroom ⊢
        simp only [Option.bind_eq_bind, Option.bind_some]
        exact ih first hrest h hroom

/-- The whole text as it is printed. -/
def filesShown (g : Guest) (dir : GuestDir) : Bytes :=
  filesHead g ++ entryTexts (shownText dir) true (partitions g dir) ++ utf8 "]\x7d"

theorem boolText_no_nul (b : Bool) : (0 : UInt8) ∉ boolText b := by
  cases b <;> decide

theorem fileText_no_nul {jn jk : Bytes} (first : Bool) (hjn : (0 : UInt8) ∉ jn) (hjk : (0 : UInt8) ∉ jk)
    (size : Option Int64) : (0 : UInt8) ∉ fileText first jn jk size := by
  have hcomma : (0 : UInt8) ∉ (if first then [] else utf8 "," : Bytes) := by
    cases first <;> decide
  have h₁ : (0 : UInt8) ∉ utf8 "\x7b\"name\":\"" := by decide
  have h₂ : (0 : UInt8) ∉ utf8 "\",\"kind\":\"" := by decide
  have h₃ : (0 : UInt8) ∉ utf8 "\",\"exists\":" := by decide
  have h₄ : (0 : UInt8) ∉ utf8 ",\"size\":" := by decide
  have h₅ : (0 : UInt8) ∉ utf8 "\x7d" := by decide
  simp only [fileText, List.mem_append, not_or]
  exact ⟨hcomma, h₁, hjn, h₂, hjk, h₃, boolText_no_nul _, h₄, decimalInt_no_nul _, h₅⟩

theorem shownTexts_no_nul
    (hkind : ∀ a ∈ adds, a.kind = utf8 "ifs" ∨ a.kind = utf8 "img" ∨ a.kind = utf8 "conf") :
    (0 : UInt8) ∉ entryTexts (shownText dir) first adds := by
  induction adds generalizing first with
  | nil => exact List.not_mem_nil
  | cons a rest ih =>
      have hrest := fun a' ha' => hkind a' (List.mem_cons_of_mem a ha')
      have hk : (0 : UInt8) ∉ a.kind := by
        rcases hkind a List.mem_cons_self with h | h | h <;> rw [h] <;> decide
      rw [entryTexts, List.mem_append, not_or]
      exact ⟨fileText_no_nul _ (escapeFrom_no_nul _ _ _) hk _, ih hrest⟩

theorem filesHead_no_nul (g : Guest) : (0 : UInt8) ∉ filesHead g := by
  have h₁ : (0 : UInt8) ∉ utf8 "\x7b\"state\":\"guest_files\",\"guest\":\"" := by decide
  have h₂ : (0 : UInt8) ∉ utf8 "\",\"type\":\"" := by decide
  have h₃ : (0 : UInt8) ∉ utf8 "\",\"running\":" := by decide
  have h₄ : (0 : UInt8) ∉ utf8 ",\"files\":[" := by decide
  have htype := (guestTypeStr_verbatim g.type).no_nul
  simp only [filesHead, List.mem_append, not_or]
  exact ⟨h₁, g.id.noNul, h₂, htype, h₃, boolText_no_nul _, h₄⟩

theorem publishGuestFiles_shown (stack : FilesStack) (h : (filesShown g dir).length < 8192) :
    publishGuestFiles stack g dir = some (filesShown g dir) := by
  have hkind : ∀ a ∈ fileAdds g dir, a.kind = utf8 "ifs" ∨ a.kind = utf8 "img" ∨ a.kind = utf8 "conf" :=
    fun a ha => fileAdds_kind ha
  have hlen := h
  rw [filesShown, List.length_append, List.length_append, partitions] at hlen
  have hstart : OutBuffer.Has ⟨stack.buf, 0⟩ 8192 [] := ⟨stack.bufSize, rfl, rfl⟩
  obtain ⟨o₁, hprint₁, h₁⟩ := hstart.print (filesHead g) (by rw [List.length_nil]; omega)
  rw [List.nil_append] at h₁
  obtain ⟨s, hloop, hs⟩ := gfAdds_has stack dir true hkind h₁
    (by rw [List.length_append]; omega)
  obtain ⟨o₂, hprint₂, h₂, hended⟩ := hs.print_ended (utf8 "]\x7d")
    (by rw [List.length_append]; omega)
  have hnul : (0 : UInt8) ∉ filesShown g dir := by
    rw [filesShown, List.mem_append, List.mem_append, not_or, not_or]
    exact ⟨⟨filesHead_no_nul g, shownTexts_no_nul fun a ha => hkind a (List.mem_of_mem_filter ha)⟩,
      by decide⟩
  rw [publishGuestFiles, hprint₁, Option.bind_some, hloop, Option.bind_some, hprint₂, Option.map_some,
    h₂.cString hnul hended]
  rfl

/-! ## What is published is short -/

theorem gfAdd_nul (h : gfAdd stack dir s a = some s') (hnul : (0 : UInt8) ∈ s.out.bytes) :
    s'.out.bytes.length = s.out.bytes.length ∧ (0 : UInt8) ∈ s'.out.bytes := by
  simp only [gfAdd] at h
  split at h
  · obtain ⟨jn, -, h⟩ := Option.bind_eq_some_iff.mp h
    obtain ⟨jk, -, h⟩ := Option.bind_eq_some_iff.mp h
    obtain ⟨o, hprint, rfl⟩ := Option.map_eq_some_iff.mp h
    exact OutBuffer.print_nul hprint hnul
  · obtain rfl := Option.some.inj h
    exact ⟨rfl, hnul⟩

theorem gfAdds_nul (h : adds.foldlM (gfAdd stack dir) s = some s') (hnul : (0 : UInt8) ∈ s.out.bytes) :
    s'.out.bytes.length = s.out.bytes.length ∧ (0 : UInt8) ∈ s'.out.bytes := by
  induction adds generalizing s with
  | nil =>
      obtain rfl := Option.some.inj h
      exact ⟨rfl, hnul⟩
  | cons a rest ih =>
      rw [List.foldlM_cons] at h
      obtain ⟨s₁, hturn, hrest⟩ := Option.bind_eq_some_iff.mp h
      obtain ⟨hlen₁, hnul₁⟩ := gfAdd_nul hturn hnul
      obtain ⟨hlen, hnul'⟩ := ih hrest hnul₁
      exact ⟨hlen.trans hlen₁, hnul'⟩

theorem gfAdds_pos (hkind : ∀ a ∈ adds, a.kind = utf8 "ifs" ∨ a.kind = utf8 "img" ∨ a.kind = utf8 "conf")
    (h : adds.foldlM (gfAdd stack dir) s = some s') :
    s'.out.pos = s.out.pos +
      (entryTexts (shownText dir) s.first (adds.filter (isPartition dir))).length := by
  induction adds generalizing s with
  | nil =>
      obtain rfl := Option.some.inj h
      rfl
  | cons a rest ih =>
      rw [List.foldlM_cons, gfAdd_eq (hkind a List.mem_cons_self)] at h
      obtain ⟨s₁, hturn, hrest⟩ := Option.bind_eq_some_iff.mp h
      have hnext := ih (fun a' ha' => hkind a' (List.mem_cons_of_mem a ha')) hrest
      split at hturn
      · next hthere =>
        obtain ⟨o, hprint, rfl⟩ := Option.map_eq_some_iff.mp hturn
        rw [hnext, (OutBuffer.print_pos hprint).2, List.filter_cons_of_pos hthere, entryTexts,
          List.length_append, Nat.add_assoc]
      · next hmissing =>
        obtain rfl := Option.some.inj hturn
        rw [hnext, List.filter_cons_of_neg hmissing]

theorem publishGuestFiles_steps {msg : Bytes} (h : publishGuestFiles stack g dir = some msg) :
    ∃ (s : FilesState) (o : OutBuffer), s.out.bytes.length = 8192 ∧ (0 : UInt8) ∈ s.out.bytes ∧
      s.out.pos = (filesHead g).length + (entryTexts (shownText dir) true (partitions g dir)).length ∧
      s.out.print (utf8 "]\x7d") = some o ∧ msg = cString o.bytes := by
  obtain ⟨o₁, hprint₁, h⟩ := Option.bind_eq_some_iff.mp h
  obtain ⟨s, hloop, h⟩ := Option.bind_eq_some_iff.mp h
  obtain ⟨o₂, hprint₂, rfl⟩ := Option.map_eq_some_iff.mp h
  have hsize := stack.bufSize
  have hfirst : o₁.bytes.length = 8192 ∧ (0 : UInt8) ∈ o₁.bytes := by
    have heq := hprint₁
    rw [OutBuffer.print_eq (show 0 < stack.buf.length by omega)] at heq
    obtain rfl := Option.some.inj heq
    refine ⟨?_, by simp⟩
    simp only [List.length_append, List.length_take, List.length_drop, List.length_singleton]
    omega
  obtain ⟨hlen, hnul⟩ := gfAdds_nul hloop hfirst.2
  have hpos := gfAdds_pos (fun a ha => fileAdds_kind ha) hloop
  rw [(OutBuffer.print_pos hprint₁).2, Nat.zero_add] at hpos
  exact ⟨s, o₂, hlen.trans hfirst.1, hnul, hpos, hprint₂, rfl⟩

theorem publishGuestFiles_short {msg : Bytes} (h : publishGuestFiles stack g dir = some msg) :
    msg.length < 8192 := by
  obtain ⟨s, o, hlen, hnul, -, hprint, rfl⟩ := publishGuestFiles_steps h
  obtain ⟨hlen', hnul'⟩ := OutBuffer.print_nul hprint hnul
  have hle : (cString o.bytes).length ≤ o.bytes.length := (List.takeWhile_prefix _).length_le
  have hne : (cString o.bytes).length ≠ o.bytes.length := fun heq => cString_length_eq heq hnul'
  omega

/-- Where the entries need more than the buffer has, a position is beyond it. -/
theorem publishGuestFiles_overrun (stack : FilesStack)
    (h : 8192 < (filesHead g).length + (entryTexts (shownText dir) true (partitions g dir)).length) :
    publishGuestFiles stack g dir = none := by
  rw [Option.eq_none_iff_forall_ne_some]
  intro msg hmsg
  obtain ⟨s, o, hlen, -, hpos, hprint, -⟩ := publishGuestFiles_steps hmsg
  have hin := (OutBuffer.print_pos hprint).1
  omega

/-! ## Printed and whole texts -/

theorem fileText_length (first : Bool) (jn jk : Bytes) (size : Option Int64) :
    (fileText first jn jk size).length = jn.length + (fileText first [] jk size).length := by
  simp only [fileText, List.length_append, List.length_nil]
  omega

theorem shownText_length_le (dir : GuestDir) (first : Bool) (a : FileAdd) :
    (shownText dir first a).length ≤ (partitionText dir first a).length := by
  have hname := shownName_prefix a.name.bytes
  rw [shownText, partitionText, fileText_length, fileText_length first (a.name.bytes.flatMap escapeByte)]
  omega

theorem shownTexts_length_le (dir : GuestDir) (first : Bool) (adds : List FileAdd) :
    (entryTexts (shownText dir) first adds).length ≤
      (entryTexts (partitionText dir) first adds).length := by
  induction adds generalizing first with
  | nil => exact le_rfl
  | cons a rest ih =>
      have ha := shownText_length_le dir first a
      have hrest := ih false
      rw [entryTexts, entryTexts, List.length_append, List.length_append]
      omega

theorem names_whole (dir : GuestDir) (first : Bool)
    (h : (entryTexts (partitionText dir) first adds).length ≤ (entryTexts (shownText dir) first adds).length) :
    ∀ a ∈ adds, (a.name.bytes.dropLast.flatMap escapeByte).length < 248 := by
  induction adds generalizing first with
  | nil => exact fun a ha => nomatch ha
  | cons a rest ih =>
      have ha := shownText_length_le dir first a
      have hrest := shownTexts_length_le dir false rest
      rw [entryTexts, entryTexts, List.length_append, List.length_append] at h
      intro a' ha'
      rcases List.mem_cons.mp ha' with rfl | hmem
      · refine (shownName_whole_iff a'.name.noNul).mp ?_
        have hle : (partitionText dir first a').length ≤ (shownText dir first a').length := by omega
        rw [shownText, partitionText, fileText_length,
          fileText_length first (shownName a'.name.bytes)] at hle
        omega
      · exact ih false (by omega) a' hmem

theorem shownTexts_whole
    (h : ∀ a ∈ adds, (a.name.bytes.dropLast.flatMap escapeByte).length < 248) :
    entryTexts (shownText dir) first adds = entryTexts (partitionText dir) first adds := by
  induction adds generalizing first with
  | nil => rfl
  | cons a rest ih =>
      have ha : shownText dir first a = partitionText dir first a := by
        rw [shownText, partitionText, shownName_whole a.name.noNul (h a List.mem_cons_self)]
      rw [entryTexts, entryTexts, ha, ih fun a' ha' => h a' (List.mem_cons_of_mem a ha')]

theorem filesText_length (g : Guest) (dir : GuestDir) :
    (filesShown g dir).length ≤ (filesText g dir).length := by
  have hle := shownTexts_length_le dir true (partitions g dir)
  simp only [filesShown, filesText, List.length_append]
  omega

theorem publishGuestFiles_whole_iff (stack : FilesStack) :
    publishGuestFiles stack g dir = some (filesText g dir) ↔
      (∀ a ∈ partitions g dir, (a.name.bytes.dropLast.flatMap escapeByte).length < 248) ∧
        (filesText g dir).length < 8192 := by
  constructor
  · intro h
    have hshort := publishGuestFiles_short h
    have hle := filesText_length g dir
    rw [publishGuestFiles_shown stack (by omega)] at h
    refine ⟨names_whole dir true ?_, hshort⟩
    have hlen := congrArg List.length (Option.some.inj h)
    simp only [filesShown, filesText, List.length_append] at hlen
    omega
  · rintro ⟨hnames, hroom⟩
    have heq : filesShown g dir = filesText g dir := by
      rw [filesShown, filesText, shownTexts_whole hnames, List.append_assoc]
    rw [← heq] at hroom ⊢
    exact publishGuestFiles_shown stack hroom

/-! ## The JSON value -/

theorem partitionText_denotes (dir : GuestDir) (hkind : PlainText a.kind) :
    Denotes (partitionText dir true a) (partitionValue dir a) := by
  have hmembers :=
    MembersText.cons (k := utf8 "name") (by decide) (denotes_string (stringRun_escape a.name.bytes)) <|
    .cons (k := utf8 "kind") (by decide) (denotes_plain hkind) <|
    .cons (k := utf8 "exists") (by decide) (denotes_bool (dir.stat a.name.bytes).isSome) <|
    .last (k := utf8 "size") (by decide) (denotes_int ((dir.stat a.name.bytes).getD (-1)).toInt)
  refine (denotes_object hmembers).of_eq ?_
  simp only [List.append_assoc, List.cons_append, List.nil_append]
  rfl

theorem partitions_items (dir : GuestDir) {rest : List FileAdd} (ha : PlainText a.kind)
    (hrest : ∀ a' ∈ rest, PlainText a'.kind) :
    ItemsText (entryTexts (partitionText dir) true (a :: rest))
      ((a :: rest).map (partitionValue dir)) := by
  have hfirst := partitionText_denotes dir ha
  induction rest generalizing a with
  | nil =>
      rw [entryTexts, entryTexts, List.append_nil]
      exact .last hfirst
  | cons a' more ih =>
      have hmore := ih (hrest a' List.mem_cons_self)
        (fun b hb => hrest b (List.mem_cons_of_mem a' hb))
        (partitionText_denotes dir (hrest a' List.mem_cons_self))
      have hcomma : entryTexts (partitionText dir) false (a' :: more) =
          44 :: entryTexts (partitionText dir) true (a' :: more) := rfl
      rw [entryTexts, hcomma, List.map_cons]
      exact .cons hfirst hmore

theorem partitionText_isUtf8_iff (hkind : Ascii a.kind) (first : Bool) (t : Bytes) :
    IsUtf8 (partitionText dir first a ++ t) ↔ IsUtf8 a.name.bytes ∧ IsUtf8 t := by
  have hcomma : IsUtf8 (if first then [] else utf8 "," : Bytes) := by
    cases first <;> decide
  have h₁ : IsUtf8 (utf8 "\x7b\"name\":\"") := by decide
  have h₂ : IsUtf8 (utf8 ",\"kind\":\"") := by decide
  have h₃ : IsUtf8 (utf8 "\",\"exists\":") := by decide
  have h₄ : IsUtf8 (utf8 ",\"size\":") := by decide
  have h₅ : IsUtf8 (utf8 "\x7d") := by decide
  have hquote : utf8 "\",\"kind\":\"" = quote :: utf8 ",\"kind\":\"" := rfl
  simp only [partitionText, fileText, List.append_assoc, hquote, List.cons_append]
  rw [hcomma.append_iff, h₁.append_iff, isUtf8_append_cons (by decide), h₂.append_iff,
    hkind.isUtf8.append_iff, h₃.append_iff, (boolText_isUtf8 _).append_iff, h₄.append_iff,
    (decimalInt_isUtf8 _).append_iff, h₅.append_iff, isUtf8_escape]

theorem entryTexts_isUtf8_iff (hkind : ∀ a ∈ adds, Ascii a.kind) (t : Bytes) :
    IsUtf8 (entryTexts (partitionText dir) first adds ++ t) ↔
      (∀ a ∈ adds, IsUtf8 a.name.bytes) ∧ IsUtf8 t := by
  induction adds generalizing first with
  | nil => simp [entryTexts]
  | cons a rest ih =>
      rw [entryTexts, List.append_assoc, partitionText_isUtf8_iff (hkind a List.mem_cons_self),
        ih fun a' ha' => hkind a' (List.mem_cons_of_mem a ha'), List.forall_mem_cons, and_assoc]

theorem partitions_kind (ha : a ∈ partitions g dir) : PlainText a.kind ∧ Ascii a.kind := by
  rcases fileAdds_kind (List.mem_of_mem_filter ha) with h | h | h <;> rw [h] <;> decide

theorem filesText_isUtf8_iff (g : Guest) (dir : GuestDir) :
    IsUtf8 (filesText g dir) ↔
      IsUtf8 g.id.bytes ∧ ∀ a ∈ partitions g dir, IsUtf8 a.name.bytes := by
  have h₁ : IsUtf8 (utf8 "\x7b\"state\":\"guest_files\",\"guest\":\"") := by decide
  have h₂ : IsUtf8 (utf8 ",\"type\":\"") := by decide
  have h₃ : IsUtf8 (utf8 "\",\"running\":") := by decide
  have h₄ : IsUtf8 (utf8 ",\"files\":[") := by decide
  have hend : IsUtf8 (utf8 "]\x7d") := by decide
  have hquote : utf8 "\",\"type\":\"" = quote :: utf8 ",\"type\":\"" := rfl
  simp only [filesText, filesHead, List.append_assoc, hquote, List.cons_append]
  rw [h₁.append_iff, isUtf8_append_cons (by decide), h₂.append_iff,
    (guestTypeStr_verbatim g.type).2.append_iff, h₃.append_iff, (boolText_isUtf8 _).append_iff,
    h₄.append_iff, entryTexts_isUtf8_iff fun a ha => (partitions_kind ha).2]
  exact and_congr_right fun _ => and_iff_left hend

theorem filesArray_denotes (dir : GuestDir) (adds : List FileAdd)
    (h : ∀ a ∈ adds, PlainText a.kind) :
    Denotes (91 :: (entryTexts (partitionText dir) true adds ++ [93]))
      (.array (adds.map (partitionValue dir))) := by
  cases adds with
  | nil => exact denotes_empty_array
  | cons a rest =>
      have hitems := partitions_items dir (h a List.mem_cons_self)
        fun a' ha' => h a' (List.mem_cons_of_mem a ha')
      obtain ⟨t, ht⟩ : ∃ t, entryTexts (partitionText dir) true (a :: rest) = 123 :: t := ⟨_, rfl⟩
      rw [ht] at hitems ⊢
      exact denotes_array hitems

theorem filesText_decode (hid : PlainText g.id.bytes) (hutf : IsUtf8 (filesText g dir)) :
    decodeJson (filesText g dir) = some (filesValue g dir) := by
  have hfiles := filesArray_denotes dir (partitions g dir) fun a ha => (partitions_kind ha).1
  have hmembers :=
    MembersText.cons (k := utf8 "state") (by decide) (denotes_plain (s := utf8 "guest_files") (by decide)) <|
    .cons (k := utf8 "guest") (by decide) (denotes_plain hid) <|
    .cons (k := utf8 "type") (by decide) (denotes_plain (guestTypeStr_verbatim g.type).1) <|
    .cons (k := utf8 "running") (by decide) (denotes_bool (g.state == .running)) <|
    .last (k := utf8 "files") (by decide) hfiles
  refine decode_object hmembers ?_ hutf
  simp only [filesText, filesHead, List.append_assoc, List.cons_append, List.nil_append]
  rfl

theorem filesText_plain (h : decodeJson (filesText g dir) = some (filesValue g dir)) :
    PlainText g.id.bytes := by
  obtain ⟨t, htext⟩ : ∃ t, filesText g dir = 123 :: quote :: (utf8 "state" ++ quote :: 58 :: quote ::
      (utf8 "guest_files" ++ quote :: 44 :: (quote :: (utf8 "guest" ++ quote :: 58 :: quote ::
        (g.id.bytes ++ quote :: 44 :: quote :: 116 :: t))))) := by
    refine ⟨utf8 "ype\":\"" ++ (guestTypeStr g.type ++ (utf8 "\",\"running\":" ++
      (boolText (g.state == .running) ++ (utf8 ",\"files\":[" ++
        (entryTexts (partitionText dir) true (partitions g dir) ++ utf8 "]\x7d"))))), ?_⟩
    simp only [filesText, filesHead, List.append_assoc]
    rfl
  obtain ⟨-, rest, hparse⟩ := decodeJson_inv h
  have hlen : 3 ≤ (filesText g dir).length := by
    rw [htext]
    simp only [List.length_cons, List.length_append]
    omega
  obtain ⟨fuel, hfuel⟩ : ∃ n, (filesText g dir).length + 1 = n + 4 :=
    ⟨(filesText g dir).length - 3, by omega⟩
  rw [hfuel, htext, parseValue_object, parseMembers_string (by decide) (by decide)] at hparse
  obtain ⟨p, hp, heq⟩ := Option.map_eq_some_iff.mp hparse
  obtain ⟨q, hq, rfl⟩ := Option.map_eq_some_iff.mp hp
  obtain ⟨hvalue, -⟩ := Prod.mk.inj heq
  have hq' : q = (_ :: _, q.2) := Prod.ext (List.cons.inj (JsonValue.object.inj hvalue)).2 rfl
  rw [hq'] at hq
  exact parseMembers_inserted (by decide) (by decide) (by decide) (by decide) hq rfl

/-! ## The law -/

/-- What is published is the whole list just when every name and the text have room. -/
theorem filesFit_of_promise (h : FilesPromise stack g dir) : FilesFit g dir := by
  obtain ⟨hnames, hroom⟩ := (publishGuestFiles_whole_iff stack).mp h.1
  obtain ⟨hid, hutf⟩ := (filesText_isUtf8_iff g dir).mp (decodeJson_inv h.2).1
  exact ⟨⟨filesText_plain h.2, hid⟩, fun a ha => ⟨hutf a ha, hnames a ha⟩, hroom⟩

/-- Every position is inside the buffer and the whole list is published, exactly where
the names and the text have room. -/
theorem guest_files_published_iff (stack : FilesStack) (g : Guest) (dir : GuestDir) :
    FilesPromise stack g dir ↔ FilesFit g dir := by
  refine ⟨filesFit_of_promise, fun hfit => ?_⟩
  have hutf := (filesText_isUtf8_iff g dir).mpr ⟨hfit.id.2, fun a ha => (hfit.names a ha).1⟩
  exact ⟨(publishGuestFiles_whole_iff stack).mpr ⟨fun a ha => (hfit.names a ha).2, hfit.room⟩,
    filesText_decode hfit.id.1 hutf⟩

def filledStack : FilesStack where
  buf := List.replicate 8192 255
  jn := List.replicate 256 255
  jk := List.replicate 64 255
  bufSize := List.length_replicate
  jnSize := List.length_replicate
  jkSize := List.length_replicate

/-- A QNX guest that runs, its qvmconf under the usual name. -/
def qnxGuest : Guest where
  id := .fit 32 (utf8 "qnx-a")
  name := .fit 64 (utf8 "qnx-a")
  type := .qnx
  state := .running
  pid := 7
  confPath := .fit 256 (utf8 "/guests/qnx-a/a.qvmconf")
  bootPath := .fit 256 []
  rootfsPath := .fit 256 []
  ip := .fit 64 []
  sshUser := .fit 64 []
  sshPassword := .fit 128 []
  sshKey := .fit 512 []
  sshPort := 22

/-- A directory with forty images whose names have 204 bytes. -/
def fortyImages : GuestDir where
  conf := some (utf8 "load q.ifs\n")
  names := some ((List.range 40).map fun i =>
    .fit 256 (List.replicate 199 97 ++ UInt8.ofNat (48 + i) :: utf8 ".img"))
  stat _ := some 1

/-- The positions run out of the buffer. -/
theorem forty_images_overrun :
    publishGuestFiles filledStack qnxGuest fortyImages = none ∧
      ¬ FilesPromise filledStack qnxGuest fortyImages := by
  have hnone : publishGuestFiles filledStack qnxGuest fortyImages = none :=
    publishGuestFiles_overrun filledStack (by decide +kernel)
  exact ⟨hnone, fun h => Option.some_ne_none _ (h.1.symm.trans hnone)⟩

end QnxHypervisor.HmsStatus
