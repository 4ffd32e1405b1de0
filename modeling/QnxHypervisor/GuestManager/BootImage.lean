import QnxHypervisor.GuestManager.StartIp

/-! # Guest type and boot image

Two readings of a qvmconf. `guest_type_from_conf` looks for a mark anywhere in pieces of
at most 255 bytes and stops at the first piece that has one; `guest_boot_image` takes
directives at the start of a line of at most 511 bytes and skips those whose argument is
no image.
-/

namespace QnxHypervisor.GuestManager

open Foundation

/-! ## Source functions -/

/-- `strstr` for one of two texts. -/
def hasEither (line : Bytes) (marks : Bytes × Bytes) : Bool :=
  containsText marks.1 (cString line) || containsText marks.2 (cString line)

def kernelMarks : Bytes × Bytes := (utf8 "kernel ", utf8 "kernel=")

def bootimgMarks : Bytes × Bytes := (utf8 "bootimg ", utf8 "bootimg=")

def loadMarks : Bytes × Bytes := (utf8 "load ", utf8 "load\t")

/-- A turn of the loop in `guest_type_from_conf`. -/
def guestTypeOfLine (line : Bytes) : Option GuestType :=
  if hasEither line kernelMarks = true then some .linux
  else if hasEither line bootimgMarks = true then some .android
  else if hasEither line loadMarks = true then some .qnx
  else none

/-- `guest_type_from_conf` on the file's content, if it can be opened. -/
def guestTypeFromConf : Option Bytes → GuestType
  | none => .unknown
  | some conf => ((linesOf 255 conf).findSome? guestTypeOfLine).getD .unknown

inductive Directive where
  | load
  | kernel
  | bootimg
  deriving DecidableEq

def isSeparator (b : UInt8) : Bool := b == 32 || b == 9 || b == 13 || b == 10

/-- `strtok(s, " \t\r\n")`. -/
def firstWord (s : Bytes) : Option Bytes :=
  match s.dropWhile isSeparator with
  | [] => none
  | rest => some (rest.takeWhile fun b => !isSeparator b)

/-- A turn of the loop in `guest_boot_image`: the directive and its image. -/
def bootLine (line : Bytes) : Option (Directive × Bytes) :=
  let p := skipBlanks (cString line)
  if (utf8 "load ").isPrefixOf p = true then
    (firstWord (p.drop 5)).bind fun tok =>
      if containsText (utf8 ".ifs") tok = true then some (.load, tok) else none
  else if (utf8 "kernel ").isPrefixOf p = true then
    (firstWord (p.drop 7)).bind fun tok =>
      if containsText (utf8 ".img") tok = true ∨ (utf8 "vmlinuz").isPrefixOf tok = true then
        some (.kernel, tok)
      else none
  else if (utf8 "bootimg ").isPrefixOf p = true then
    (firstWord (p.drop 8)).map fun tok => (.bootimg, tok)
  else none

/-- The directive the image is taken from. -/
def bootDirective (conf : Option Bytes) : Option (Directive × Bytes) :=
  conf.bind fun conf => (linesOf 511 conf).findSome? bootLine

/-- A name that the scan of the directory takes. -/
def isBootName (name : Bytes) : Bool :=
  name.head? != some 46 &&
    (containsText (utf8 ".ifs") name || name == utf8 "boot.img" || name == utf8 "bootimg" ||
      (utf8 "vmlinuz").isPrefixOf name)

/-- `guest_boot_image`: the qvmconf and the guest's directory, where they can be
opened. -/
def guestBootImage (conf : Option Bytes) (dir : Option (List (CStr 256))) : Option (CStr 256) :=
  let found : CStr 256 := .fit 256 ((bootDirective conf).elim [] fun d => d.2)
  if found.bytes ≠ [] then some found
  else dir.bind fun names => names.find? fun name => isBootName name.bytes

/-! ## What is promised -/

/-- The type of a guest whose image a directive names. -/
def Directive.type : Directive → GuestType
  | .load => .qnx
  | .kernel => .linux
  | .bootimg => .android

def Directive.marks : Directive → Bytes × Bytes
  | .load => loadMarks
  | .kernel => kernelMarks
  | .bootimg => bootimgMarks

/-- The marks that count before this directive's. -/
def Directive.before : Directive → List Directive
  | .kernel => []
  | .bootimg => [.kernel]
  | .load => [.kernel, .bootimg]

/-- Comments, arguments and other lines included, the first piece that has any mark has
one of this directive, and none that counts before it. -/
def FirstMarked (d : Directive) (pieces : List Bytes) : Prop :=
  ∃ before piece after, pieces = before ++ piece :: after ∧
    (∀ p ∈ before, ∀ d', hasEither p (Directive.marks d') = false) ∧
    hasEither piece d.marks = true ∧ ∀ d' ∈ d.before, hasEither piece (Directive.marks d') = false

variable {conf line tok : Bytes} {d : Directive} {dir : Option (List (CStr 256))}

/-! ## The image -/

theorem firstWord_spec {s : Bytes} (h : firstWord s = some tok) :
    tok ≠ [] ∧ ∀ b ∈ tok, b ∈ s := by
  unfold firstWord at h
  split at h
  · cases h
  · next rest hrest =>
    obtain rfl := Option.some.inj h
    refine ⟨?_, fun b hb => ?_⟩
    · cases hcons : s.dropWhile isSeparator with
      | nil => exact absurd hcons hrest
      | cons c cs =>
          have hc : isSeparator c = false := dropWhile_stops hcons
          simp [hc]
    · exact (List.dropWhile_suffix _).subset ((List.takeWhile_prefix _).subset hb)

theorem bootLine_spec (h : bootLine line = some (d, tok)) : tok ≠ [] ∧ (0 : UInt8) ∉ tok := by
  have hword : ∃ n, firstWord ((skipBlanks (cString line)).drop n) = some tok := by
    simp only [bootLine] at h
    split at h
    · obtain ⟨w, hw, h⟩ := Option.bind_eq_some_iff.mp h
      split at h
      · exact ⟨5, by rw [hw]; simpa using (Prod.mk.inj (Option.some.inj h)).2⟩
      · cases h
    · split at h
      · obtain ⟨w, hw, h⟩ := Option.bind_eq_some_iff.mp h
        split at h
        · exact ⟨7, by rw [hw]; simpa using (Prod.mk.inj (Option.some.inj h)).2⟩
        · cases h
      · split at h
        · obtain ⟨w, hw, h⟩ := Option.map_eq_some_iff.mp h
          exact ⟨8, by rw [hw]; simpa using (Prod.mk.inj h).2⟩
        · cases h
  obtain ⟨n, hword⟩ := hword
  obtain ⟨hne, hmem⟩ := firstWord_spec hword
  refine ⟨hne, fun hzero => ?_⟩
  have hcut := (List.dropWhile_suffix _).subset (List.mem_of_mem_drop (hmem 0 hzero))
  have hnot := List.mem_takeWhile_imp hcut
  simp at hnot

theorem guestBootImage_directive (h : bootDirective (some conf) = some (d, tok)) :
    guestBootImage (some conf) dir = some (.fit 256 tok) := by
  obtain ⟨line, -, hline⟩ := List.exists_of_findSome?_eq_some h
  obtain ⟨hne, hnul⟩ := bootLine_spec hline
  have hfound : (CStr.fit 256 tok).bytes ≠ [] := by
    simp only [CStr.fit, cString_of_no_nul hnul]
    cases tok with
    | nil => exact absurd rfl hne
    | cons c rest => exact List.cons_ne_nil _ _
  rw [guestBootImage, h]
  exact if_pos hfound

/-! ## The type -/

theorem guestTypeOfLine_none_iff :
    guestTypeOfLine line = none ↔ ∀ d', hasEither line (Directive.marks d') = false := by
  constructor
  · intro h d'
    unfold guestTypeOfLine at h
    split_ifs at h with hkernel hbootimg hload
    cases d' with
    | load => exact Bool.eq_false_iff.mpr hload
    | kernel => exact Bool.eq_false_iff.mpr hkernel
    | bootimg => exact Bool.eq_false_iff.mpr hbootimg
  · intro h
    have hkernel := h .kernel
    have hbootimg := h .bootimg
    have hload := h .load
    simp only [Directive.marks] at hkernel hbootimg hload
    simp [guestTypeOfLine, hkernel, hbootimg, hload]

theorem guestTypeOfLine_eq_iff :
    guestTypeOfLine line = some d.type ↔
      hasEither line d.marks = true ∧ ∀ d' ∈ d.before, hasEither line (Directive.marks d') = false := by
  unfold guestTypeOfLine
  cases hkernel : hasEither line kernelMarks with
  | true => cases d <;> simp [Directive.type, Directive.marks, Directive.before, hkernel]
  | false =>
      cases hbootimg : hasEither line bootimgMarks with
      | true => cases d <;> simp [Directive.type, Directive.marks, Directive.before, hkernel, hbootimg]
      | false =>
          cases hload : hasEither line loadMarks with
          | true => cases d <;>
              simp [Directive.type, Directive.marks, Directive.before, hkernel, hbootimg, hload]
          | false => cases d <;>
              simp [Directive.type, Directive.marks, Directive.before, hkernel, hbootimg, hload]

theorem guestTypeFromConf_eq_iff :
    guestTypeFromConf (some conf) = d.type ↔ FirstMarked d (linesOf 255 conf) := by
  have hknown : d.type ≠ .unknown := by cases d <;> decide
  have hsome : guestTypeFromConf (some conf) = d.type ↔
      (linesOf 255 conf).findSome? guestTypeOfLine = some d.type := by
    rw [guestTypeFromConf]
    cases (linesOf 255 conf).findSome? guestTypeOfLine with
    | none => simpa using fun h => hknown h.symm
    | some type => simp
  rw [hsome, List.findSome?_eq_some_iff]
  constructor
  · rintro ⟨before, piece, after, heq, hpiece, hbefore⟩
    have hmarks := guestTypeOfLine_eq_iff.mp hpiece
    exact ⟨before, piece, after, heq, fun p hp => guestTypeOfLine_none_iff.mp (hbefore p hp),
      hmarks.1, hmarks.2⟩
  · rintro ⟨before, piece, after, heq, hbefore, hmark, hfirst⟩
    exact ⟨before, piece, after, heq, guestTypeOfLine_eq_iff.mpr ⟨hmark, hfirst⟩,
      fun p hp => guestTypeOfLine_none_iff.mpr (hbefore p hp)⟩

/-! ## Texts without stray marks -/

/-- An image directive with no mark of another, or a line without marks. -/
def UnmixedLine (line : Bytes) : Prop :=
  match bootLine line with
  | some (d, _) => ∀ d', hasEither line (Directive.marks d') = true → d' = d
  | none => ∀ d', hasEither line (Directive.marks d') = false

theorem isPrefixOf_skipBlanks {mark : Bytes}
    (h : mark.isPrefixOf (skipBlanks (cString line)) = true) : containsText mark (cString line) = true :=
  containsText_iff.mpr
    ((List.isPrefixOf_iff_prefix.mp h).isInfix.trans (List.dropWhile_suffix _).isInfix)

/-- A directive that is taken carries its own mark. -/
theorem bootLine_marked (h : bootLine line = some (d, tok)) : hasEither line d.marks = true := by
  rw [hasEither, Bool.or_eq_true]
  left
  simp only [bootLine] at h
  split at h
  · next hload =>
    obtain ⟨w, -, h⟩ := Option.bind_eq_some_iff.mp h
    split at h
    · obtain ⟨rfl, -⟩ := Prod.mk.inj (Option.some.inj h)
      exact isPrefixOf_skipBlanks hload
    · cases h
  · split at h
    · next hkernel =>
      obtain ⟨w, -, h⟩ := Option.bind_eq_some_iff.mp h
      split at h
      · obtain ⟨rfl, -⟩ := Prod.mk.inj (Option.some.inj h)
        exact isPrefixOf_skipBlanks hkernel
      · cases h
    · split at h
      · next hbootimg =>
        obtain ⟨w, -, h⟩ := Option.map_eq_some_iff.mp h
        obtain ⟨rfl, -⟩ := Prod.mk.inj h
        exact isPrefixOf_skipBlanks hbootimg
      · cases h

theorem firstMarked_of_unmixed (hshort : linesOf 255 conf = linesOf 511 conf)
    (hlines : ∀ line ∈ linesOf 511 conf, UnmixedLine line)
    (h : bootDirective (some conf) = some (d, tok)) : FirstMarked d (linesOf 255 conf) := by
  obtain ⟨before, line, after, heq, hline, hbefore⟩ := List.findSome?_eq_some_iff.mp h
  have hmem : ∀ p ∈ before ++ line :: after, UnmixedLine p := heq ▸ hlines
  refine ⟨before, line, after, hshort.trans heq, fun p hp => ?_, bootLine_marked hline, ?_⟩
  · have hp' := hmem p (List.mem_append_left _ hp)
    rwa [UnmixedLine, hbefore p hp] at hp'
  · have hown := hmem line (List.mem_append_right _ List.mem_cons_self)
    rw [UnmixedLine, hline] at hown
    intro d' hd'
    by_contra hmark
    obtain rfl := hown d' (Bool.not_eq_false _ ▸ hmark)
    revert hd'
    cases d' <;> decide

/-- The type goes with the directive the image was taken from exactly when no other
mark comes before the directive's in the text. -/
theorem type_agrees_with_boot_image (h : bootDirective (some conf) = some (d, tok)) :
    (guestBootImage (some conf) dir = some (.fit 256 tok) ∧ guestTypeFromConf (some conf) = d.type) ↔
      FirstMarked d (linesOf 255 conf) := by
  rw [guestTypeFromConf_eq_iff]
  exact ⟨fun hboth => hboth.2, fun hfirst => ⟨guestBootImage_directive h, hfirst⟩⟩

theorem type_agrees_with_boot_image_qnx :
    guestBootImage (some (utf8 "system q\nload q.ifs\n")) none = some (.fit 256 (utf8 "q.ifs")) ∧
      guestTypeFromConf (some (utf8 "system q\nload q.ifs\n")) = .qnx :=
  have htaken : bootDirective (some (utf8 "system q\nload q.ifs\n")) = some (.load, utf8 "q.ifs") := by
    decide +kernel
  have hunmixed : ∀ line ∈ linesOf 511 (utf8 "system q\nload q.ifs\n"), UnmixedLine line := by
    have hlines : linesOf 511 (utf8 "system q\nload q.ifs\n") =
        [utf8 "system q\n", utf8 "load q.ifs\n"] := by decide +kernel
    have hplain : bootLine (utf8 "system q\n") = none := by decide +kernel
    have hload : bootLine (utf8 "load q.ifs\n") = some (.load, utf8 "q.ifs") := by decide +kernel
    intro line hline
    rw [hlines, List.mem_cons, List.mem_singleton] at hline
    unfold UnmixedLine
    rcases hline with rfl | rfl
    · rw [hplain]
      exact fun d' => by cases d' <;> decide +kernel
    · rw [hload]
      exact fun d' => by cases d' <;> decide +kernel
  (type_agrees_with_boot_image htaken).mpr
    (firstMarked_of_unmixed (by decide +kernel) hunmixed htaken)

/-- A word in a comment decides the type of a guest that boots an IFS. -/
theorem comment_decides_type :
    bootDirective (some (utf8 "# kernel image\nload q.ifs\n")) = some (.load, utf8 "q.ifs") ∧
      guestTypeFromConf (some (utf8 "# kernel image\nload q.ifs\n")) = .linux ∧
      ¬ guestTypeFromConf (some (utf8 "# kernel image\nload q.ifs\n")) = .qnx := by
  decide +kernel

end QnxHypervisor.GuestManager
