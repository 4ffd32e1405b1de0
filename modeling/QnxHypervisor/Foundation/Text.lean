import Mathlib.Data.List.TakeWhile
import Mathlib.Data.Nat.Digits.Lemmas
import QnxHypervisor.Foundation.LittleEndian

/-! # C text

Byte strings as the C library reads and prints them: NUL-terminated strings,
the lines `fgets` hands out, `key=value` lines and decimal numbers. The line
lemmas go both ways: a text is the concatenation of its lines, and a
concatenation of well-cut lines is cut back into just these lines.
-/

namespace QnxHypervisor.Foundation

/-- The bytes of a string literal. -/
def utf8 (s : String) : Bytes := s.toList.flatMap String.utf8EncodeChar

def newline : UInt8 := 10

/-- What the string functions see of a buffer: the bytes before the first NUL. -/
def cString (t : Bytes) : Bytes := t.takeWhile fun b => b != 0

theorem cString_of_no_nul {t : Bytes} (h : (0 : UInt8) ∉ t) : cString t = t :=
  List.takeWhile_eq_self_iff.mpr fun b hb => by
    simp only [bne_iff_ne, ne_eq]
    rintro rfl
    exact h hb

theorem cString_length_eq {t : Bytes} (h : (cString t).length = t.length) : (0 : UInt8) ∉ t := by
  have hsame : cString t = t := (List.takeWhile_prefix _).eq_of_length h
  intro hzero
  have hpos := List.takeWhile_eq_self_iff.mp hsame 0 hzero
  simp at hpos

theorem cString_append {a b : Bytes} (ha : (0 : UInt8) ∉ a) : cString (a ++ b) = a ++ cString b := by
  rw [cString, cString, List.takeWhile_append_of_pos]
  intro c hc
  rw [bne_iff_ne]
  rintro rfl
  exact ha hc

/-- A string in a `char[n]`: the last byte is the terminator's. -/
structure CStr (n : Nat) where
  bytes : Bytes
  short : bytes.length ≤ n - 1
  noNul : (0 : UInt8) ∉ bytes
  deriving DecidableEq

/-- `snprintf(buf, n, "%s", t)`. -/
def CStr.fit (n : Nat) (t : Bytes) : CStr n where
  bytes := (cString t).take (n - 1)
  short := List.length_take_le (n - 1) (cString t)
  noNul := by
    intro h
    have hmem := List.mem_takeWhile_imp (List.mem_of_mem_take h)
    simp at hmem

theorem CStr.fit_of_short {n : Nat} {t : Bytes} (hnul : (0 : UInt8) ∉ t)
    (hshort : t.length < n) : (CStr.fit n t).bytes = t := by
  simp only [CStr.fit, cString_of_no_nul hnul]
  exact List.take_of_length_le (by omega)

def isBlank (b : UInt8) : Bool := b == 32 || b == 9

def skipBlanks (t : Bytes) : Bytes := t.dropWhile isBlank

/-! ## Lines -/

/-- The results of successive `fgets` calls on a buffer with place for `m`
bytes; `room` is what is left of the current line. -/
def linesFrom (m : Nat) : Nat → Bytes → List Bytes
  | _, [] => []
  | room, b :: rest =>
      if b = newline ∨ room ≤ 1 then [b] :: linesFrom m m rest
      else
        match linesFrom m (room - 1) rest with
        | [] => [[b]]
        | line :: more => (b :: line) :: more

def linesOf (m : Nat) (t : Bytes) : List Bytes := linesFrom m m t

/-- A line that `fgets` ends before the text does: at a newline or because the
buffer is full. -/
def FullLine (m : Nat) (line : Bytes) : Prop :=
  ∃ body last, line = body ++ [last] ∧ newline ∉ body ∧ body.length < m ∧
    (last = newline ∨ body.length + 1 = m)

/-- A last line ended by the end of the text. -/
def OpenLine (m : Nat) (line : Bytes) : Prop :=
  line ≠ [] ∧ newline ∉ line ∧ line.length < m

/-- Full lines, of which the last may be open. -/
inductive WellCut (m : Nat) : List Bytes → Prop
  | nil : WellCut m []
  | last {line : Bytes} (h : OpenLine m line) : WellCut m [line]
  | cons {line : Bytes} {more : List Bytes} (h : FullLine m line) (hmore : WellCut m more) :
      WellCut m (line :: more)

theorem linesFrom_flatten (m room : Nat) (t : Bytes) : (linesFrom m room t).flatten = t := by
  induction t generalizing room with
  | nil => rfl
  | cons b rest ih =>
      unfold linesFrom
      split
      · simp [ih]
      · have hrest := ih (room - 1)
        split
        · rename_i hnil
          rw [hnil] at hrest
          simp [← hrest]
        · rename_i line more hcons
          rw [hcons] at hrest
          simp [← hrest]

theorem linesOf_flatten (m : Nat) (t : Bytes) : (linesOf m t).flatten = t :=
  linesFrom_flatten m m t

/-- The line in progress has taken `m - room` bytes, none of them a newline. -/
theorem linesFrom_wellCut {m room : Nat} (hroom : 0 < room) (hle : room ≤ m) (t : Bytes) :
    linesFrom m room t = [] ∨ ∃ line more, linesFrom m room t = line :: more ∧
      WellCut m more ∧
      ∀ done : Bytes, newline ∉ done → done.length + room = m →
        FullLine m (done ++ line) ∨ OpenLine m (done ++ line) ∧ more = [] := by
  induction t generalizing room with
  | nil => exact .inl rfl
  | cons b rest ih =>
      right
      have hm : 0 < m := by omega
      unfold linesFrom
      split
      · rename_i hend
        refine ⟨[b], linesFrom m m rest, rfl, ?_, fun done hdone hlen => .inl ?_⟩
        · rcases ih hm le_rfl with hnil | ⟨line, more, hcons, hmore, hline⟩
          · rw [hnil]
            exact .nil
          · rw [hcons]
            rcases hline [] (by simp) (by simp) with hfull | ⟨hopen, rfl⟩
            · exact .cons (by simpa using hfull) hmore
            · exact .last (by simpa using hopen)
        · exact ⟨done, b, rfl, hdone, by omega, hend.imp_right fun _ => by omega⟩
      · rename_i hgo
        have hb : b ≠ newline := fun h => hgo (.inl h)
        rcases ih (show 0 < room - 1 by omega) (by omega) with hnil | ⟨line, more, hcons, hmore, hline⟩
        · rw [hnil]
          refine ⟨[b], [], rfl, .nil, fun done hdone hlen => .inr ⟨⟨by simp, ?_, ?_⟩, rfl⟩⟩
          · simpa [hdone] using fun h => hb h.symm
          · simp only [List.length_append, List.length_singleton]
            omega
        · rw [hcons]
          refine ⟨b :: line, more, rfl, hmore, fun done hdone hlen => ?_⟩
          have hnext := hline (done ++ [b]) (by simpa [hdone] using fun h => hb h.symm)
            (by simp only [List.length_append, List.length_singleton]; omega)
          simpa using hnext

theorem mem_of_mem_line {m : Nat} {t line : Bytes} (hline : line ∈ linesOf m t) {b : UInt8}
    (hb : b ∈ line) : b ∈ t := by
  rw [← linesOf_flatten m t]
  exact List.mem_flatten.mpr ⟨line, hline, hb⟩

theorem linesOf_wellCut {m : Nat} (hm : 0 < m) (t : Bytes) : WellCut m (linesOf m t) := by
  unfold linesOf
  rcases linesFrom_wellCut hm le_rfl t with hnil | ⟨line, more, hcons, hmore, hline⟩
  · rw [hnil]
    exact .nil
  · rw [hcons]
    rcases hline [] (by simp) (by simp) with hfull | ⟨hopen, rfl⟩
    · exact .cons (by simpa using hfull) hmore
    · exact .last (by simpa using hopen)

theorem linesFrom_full (m : Nat) {room : Nat} {body : Bytes} {last : UInt8} (rest : Bytes)
    (hbody : newline ∉ body) (hlen : body.length < room)
    (hlast : last = newline ∨ body.length + 1 = room) :
    linesFrom m room (body ++ last :: rest) = (body ++ [last]) :: linesFrom m m rest := by
  induction body generalizing room with
  | nil =>
      have hend : last = newline ∨ room ≤ 1 := hlast.imp_right fun h => by simp at h; omega
      simp [linesFrom, hend]
  | cons b body ih =>
      simp only [List.mem_cons, not_or] at hbody
      simp only [List.length_cons] at hlen hlast
      have hgo : ¬(b = newline ∨ room ≤ 1) := by
        rintro (h | h)
        · exact hbody.1 h.symm
        · omega
      have hnext := @ih (room - 1) hbody.2 (by omega) (hlast.imp_right fun _ => by omega)
      simp only [List.cons_append]
      rw [linesFrom, if_neg hgo, hnext]

theorem linesFrom_open (m : Nat) {room : Nat} {line : Bytes} (hne : line ≠ [])
    (hline : newline ∉ line) (hlen : line.length < room) : linesFrom m room line = [line] := by
  induction line generalizing room with
  | nil => exact absurd rfl hne
  | cons b rest ih =>
      simp only [List.mem_cons, not_or] at hline
      simp only [List.length_cons] at hlen
      have hgo : ¬(b = newline ∨ room ≤ 1) := by
        rintro (h | h)
        · exact hline.1 h.symm
        · omega
      rw [linesFrom, if_neg hgo]
      cases rest with
      | nil => rfl
      | cons c rest => rw [ih (by simp) hline.2 (by simp only [List.length_cons] at hlen ⊢; omega)]

theorem linesOf_of_wellCut {m : Nat} {lines : List Bytes} (h : WellCut m lines) :
    linesOf m lines.flatten = lines := by
  induction h with
  | nil => rfl
  | last hopen =>
      simpa [linesOf] using linesFrom_open m hopen.1 hopen.2.1 hopen.2.2
  | @cons _ more hfull _ ih =>
      obtain ⟨body, last, rfl, hbody, hlen, hlast⟩ := hfull
      have hcut := linesFrom_full m more.flatten hbody hlen hlast
      simp only [List.flatten_cons, List.append_assoc, List.singleton_append]
      unfold linesOf at ih ⊢
      rw [hcut, ih]

theorem wellCut_of_full {m : Nat} {lines : List Bytes} (h : ∀ line ∈ lines, FullLine m line) :
    WellCut m lines := by
  induction lines with
  | nil => exact .nil
  | cons line more ih =>
      exact .cons (h line (by simp)) (ih fun l hl => h l (List.mem_cons_of_mem _ hl))

/-- Editing the lines one by one keeps them well cut when an open line stays
open or is closed. -/
theorem WellCut.map {m : Nat} {lines : List Bytes} (h : WellCut m lines) {f : Bytes → Bytes}
    (hfull : ∀ line ∈ lines, FullLine m line → FullLine m (f line))
    (hopen : ∀ line ∈ lines, OpenLine m line → FullLine m (f line) ∨ OpenLine m (f line)) :
    WellCut m (lines.map f) := by
  induction h with
  | nil => exact .nil
  | last hline =>
      rcases hopen _ (by simp) hline with hf | ho
      · exact .cons hf .nil
      · exact .last ho
  | cons hline _ ih =>
      refine .cons (hfull _ (by simp) hline) (ih ?_ ?_)
      · exact fun line hmem => hfull line (List.mem_cons_of_mem _ hmem)
      · exact fun line hmem => hopen line (List.mem_cons_of_mem _ hmem)

theorem linesOf_map {m : Nat} (hm : 0 < m) {t : Bytes} {f : Bytes → Bytes}
    (h : ∀ line ∈ linesOf m t, f line = line ∨ FullLine m (f line)) :
    linesOf m ((linesOf m t).map f).flatten = (linesOf m t).map f := by
  refine linesOf_of_wellCut ((linesOf_wellCut hm t).map (fun line hmem hfull => ?_)
    fun line hmem hopen => ?_)
  · rcases h line hmem with hsame | hnew
    · rwa [hsame]
    · exact hnew
  · rcases h line hmem with hsame | hnew
    · exact .inr (by rwa [hsame])
    · exact .inl hnew

theorem fullLine_of_length {m : Nat} (hm : 0 < m) {line : Bytes} (hline : newline ∉ line)
    (hlen : line.length = m) : FullLine m line := by
  have hne : line ≠ [] := List.ne_nil_of_length_pos (hlen.symm ▸ hm)
  refine ⟨line.dropLast, line.getLast hne, (List.dropLast_append_getLast hne).symm,
    fun hmem => hline (List.mem_of_mem_dropLast hmem), ?_, .inr ?_⟩
  · rw [List.length_dropLast]
    omega
  · rw [List.length_dropLast]
    omega

theorem WellCut.split {m : Nat} {lines : List Bytes} (h : WellCut m lines) :
    (∀ line ∈ lines, FullLine m line) ∨
      ∃ front last, lines = front ++ [last] ∧ (∀ line ∈ front, FullLine m line) ∧
        OpenLine m last := by
  induction h with
  | nil => exact .inl fun _ hline => absurd hline List.not_mem_nil
  | last hopen => exact .inr ⟨[], _, rfl, fun _ hline => absurd hline List.not_mem_nil, hopen⟩
  | cons hfull _ ih =>
      rcases ih with hall | ⟨front, last, rfl, hfront, hopen⟩
      · exact .inl (List.forall_mem_cons.mpr ⟨hfull, hall⟩)
      · exact .inr ⟨_ :: front, last, rfl, List.forall_mem_cons.mpr ⟨hfull, hfront⟩, hopen⟩

theorem line_length_le {m : Nat} (hm : 0 < m) {t line : Bytes} (hline : line ∈ linesOf m t) :
    line.length ≤ m := by
  have hfull : ∀ l, FullLine m l → l.length ≤ m := by
    rintro l ⟨body, last, rfl, -, hlen, -⟩
    rw [List.length_append, List.length_singleton]
    omega
  rcases (linesOf_wellCut hm t).split with hall | ⟨front, last, hlines, hfront, hopen⟩
  · exact hfull line (hall line hline)
  · rw [hlines] at hline
    rcases List.mem_append.mp hline with hmem | hmem
    · exact hfull line (hfront line hmem)
    · rw [List.mem_singleton.mp hmem]
      exact hopen.2.2.le

theorem linesOf_full_append {m : Nat} {lines : List Bytes} (h : ∀ line ∈ lines, FullLine m line)
    (rest : Bytes) : linesOf m (lines.flatten ++ rest) = lines ++ linesOf m rest := by
  induction lines with
  | nil => rfl
  | cons line more ih =>
      obtain ⟨body, last, rfl, hbody, hlen, hlast⟩ := h line List.mem_cons_self
      have hmore := ih fun l hl => h l (List.mem_cons_of_mem _ hl)
      have hcut := linesFrom_full m (more.flatten ++ rest) hbody hlen hlast
      simp only [List.flatten_cons, List.append_assoc, List.cons_append, List.nil_append]
      unfold linesOf at hmore ⊢
      rw [hcut, hmore]

theorem linesOf_fullLine {m : Nat} {line : Bytes} (h : FullLine m line) : linesOf m line = [line] := by
  have hcut := linesOf_of_wellCut (.cons h .nil)
  rwa [List.flatten_singleton] at hcut

theorem linesOf_openLine {m : Nat} {line : Bytes} (h : OpenLine m line) : linesOf m line = [line] :=
  linesFrom_open m h.1 h.2.1 h.2.2

def Ended (m : Nat) (t : Bytes) : Prop := ∀ line ∈ linesOf m t, FullLine m line

theorem ended_of_full {m : Nat} {line : Bytes} (h : FullLine m line) : Ended m line := by
  intro l hl
  rw [linesOf_fullLine h] at hl
  exact List.mem_singleton.mp hl ▸ h

theorem ended_of_newline {m : Nat} (hm : 0 < m) (body : Bytes) : Ended m (body ++ [newline]) := by
  rcases (linesOf_wellCut hm (body ++ [newline])).split with hall | ⟨front, last, hlines, -, hopen⟩
  · exact hall
  · have hflat := linesOf_flatten m (body ++ [newline])
    rw [hlines, List.flatten_append, List.flatten_singleton] at hflat
    have hlast := congrArg List.getLast? hflat
    rw [List.getLast?_append_of_ne_nil _ hopen.1, List.getLast?_concat] at hlast
    exact absurd (List.mem_of_getLast? hlast) hopen.2.1

theorem linesOf_ended_append {m : Nat} {t : Bytes} (h : Ended m t) (rest : Bytes) :
    linesOf m (t ++ rest) = linesOf m t ++ linesOf m rest := by
  conv_lhs => rw [← linesOf_flatten m t]
  exact linesOf_full_append h rest

theorem linesOf_pieces {m : Nat} {pieces : List Bytes} (h : ∀ piece ∈ pieces, Ended m piece)
    (rest : Bytes) :
    linesOf m (pieces.flatten ++ rest) = pieces.flatMap (linesOf m) ++ linesOf m rest := by
  induction pieces with
  | nil => rfl
  | cons piece more ih =>
      have hmore := ih fun p hp => h p (List.mem_cons_of_mem _ hp)
      rw [List.flatten_cons, List.append_assoc, linesOf_ended_append (h piece List.mem_cons_self),
        hmore, List.flatMap_cons, List.append_assoc]

theorem linesOf_terminated {m : Nat} (hm : 0 < m) {lines : List Bytes}
    (h : ∀ line ∈ lines, ∃ body, line = body ++ [newline]) :
    linesOf m lines.flatten = lines.flatMap (linesOf m) := by
  have hpieces := linesOf_pieces (fun line hline => by
    obtain ⟨body, rfl⟩ := h line hline
    exact ended_of_newline hm body) []
  rwa [List.append_nil, show linesOf m [] = [] from rfl, List.append_nil] at hpieces

/-- A text that starts with a run that fits the buffer has it whole in its first line. -/
theorem linesFrom_head (m : Nat) {room : Nat} {run : Bytes} (rest : Bytes) (hne : run ≠ [])
    (hrun : newline ∉ run) (hfits : run.length ≤ room) :
    ∃ tail more, linesFrom m room (run ++ rest) = (run ++ tail) :: more := by
  induction run generalizing room with
  | nil => exact absurd rfl hne
  | cons b run ih =>
      simp only [List.mem_cons, not_or] at hrun
      simp only [List.length_cons] at hfits
      simp only [List.cons_append]
      cases run with
      | nil =>
          unfold linesFrom
          split
          · exact ⟨[], linesFrom m m rest, rfl⟩
          · split
            · exact ⟨[], [], rfl⟩
            · next line more _ => exact ⟨line, more, rfl⟩
      | cons c run =>
          have hgo : ¬(b = newline ∨ room ≤ 1) := by
            rintro (hb | hroom)
            · exact hrun.1 hb.symm
            · simp only [List.length_cons] at hfits
              omega
          obtain ⟨tail, more, hnext⟩ := ih (by simp) hrun.2 (show (c :: run).length ≤ room - 1 by omega)
          rw [linesFrom, if_neg hgo, hnext]
          exact ⟨tail, more, rfl⟩

/-! ## Key lines -/

def equalsSign : UInt8 := 61

/-- `strncmp(t, key, strlen(key)) == 0 && t[strlen(key)] == '='`. -/
def startsWithKey (key t : Bytes) : Bool := (key ++ [equalsSign]).isPrefixOf t

def keyLine (key value : Bytes) : Bytes := key ++ [equalsSign] ++ value ++ [newline]

theorem startsWithKey_iff {key t : Bytes} :
    startsWithKey key t = true ↔ ∃ value, t = key ++ equalsSign :: value := by
  simp only [startsWithKey, List.isPrefixOf_iff_prefix]
  constructor
  · rintro ⟨value, rfl⟩
    exact ⟨value, by simp⟩
  · rintro ⟨value, rfl⟩
    exact ⟨value, by simp⟩

theorem startsWithKey_unique {k₁ k₂ t : Bytes} (h₁ : equalsSign ∉ k₁) (h₂ : equalsSign ∉ k₂)
    (hk₁ : startsWithKey k₁ t = true) (hk₂ : startsWithKey k₂ t = true) : k₁ = k₂ := by
  obtain ⟨v₁, rfl⟩ := startsWithKey_iff.mp hk₁
  obtain ⟨v₂, heq⟩ := startsWithKey_iff.mp hk₂
  clear hk₁ hk₂
  induction k₁ generalizing k₂ with
  | nil =>
      cases k₂ with
      | nil => rfl
      | cons b k₂ =>
          simp only [List.nil_append, List.cons_append, List.cons.injEq] at heq
          exact absurd (List.mem_cons.mpr (.inl heq.1)) h₂
  | cons b k₁ ih =>
      cases k₂ with
      | nil =>
          simp only [List.nil_append, List.cons_append, List.cons.injEq] at heq
          exact absurd (List.mem_cons.mpr (.inl heq.1.symm)) h₁
      | cons c k₂ =>
          simp only [List.cons_append, List.cons.injEq] at heq
          rw [heq.1, ih (fun h => h₁ (List.mem_cons_of_mem _ h))
            (fun h => h₂ (List.mem_cons_of_mem _ h)) heq.2]

@[simp] theorem startsWithKey_append (key value : Bytes) :
    startsWithKey key (key ++ equalsSign :: value) = true :=
  startsWithKey_iff.mpr ⟨value, rfl⟩

/-- A line as the key comparisons see it: NUL-terminated, leading blanks skipped. -/
def lineText (line : Bytes) : Bytes := skipBlanks (cString line)

def keyIn (key line : Bytes) : Bool := startsWithKey key (lineText line)

/-- The first text of the line that is not blank is `key=`. -/
def BearsKey (key line : Bytes) : Prop :=
  ∃ blanks value, line = blanks ++ (key ++ equalsSign :: value) ∧ ∀ b ∈ blanks, isBlank b = true

theorem skipBlanks_append {blanks rest : Bytes} (hblanks : ∀ b ∈ blanks, isBlank b = true)
    (hrest : ∀ b ∈ rest.head?, isBlank b = false) : skipBlanks (blanks ++ rest) = rest := by
  rw [skipBlanks, List.dropWhile_append_of_pos hblanks]
  cases rest with
  | nil => rfl
  | cons b rest => exact List.dropWhile_cons_of_neg (by simp [hrest b rfl])

/-- `key=` starts with a blank only if the key does. -/
theorem head_keyText {key rest : Bytes} (hkey : ∀ b ∈ key.head?, isBlank b = false) :
    ∀ b ∈ (key ++ equalsSign :: rest).head?, isBlank b = false := by
  intro b hb
  cases key with
  | nil =>
      obtain rfl := Option.some.inj hb
      decide
  | cons c key => exact hkey b hb

theorem keyIn_iff_bearsKey {key line : Bytes} (hkey : ∀ b ∈ key.head?, isBlank b = false)
    (hnul : (0 : UInt8) ∉ line) : keyIn key line = true ↔ BearsKey key line := by
  rw [keyIn, lineText, cString_of_no_nul hnul, startsWithKey_iff]
  constructor
  · rintro ⟨value, hvalue⟩
    refine ⟨line.takeWhile isBlank, value, ?_, fun b hb => List.mem_takeWhile_imp hb⟩
    rw [← hvalue]
    exact List.takeWhile_append_dropWhile.symm
  · rintro ⟨blanks, value, rfl, hblanks⟩
    exact ⟨value, skipBlanks_append hblanks (head_keyText hkey)⟩

/-- A key that the blank skipping and a line buffer leave whole. -/
structure PlainKey (key : Bytes) : Prop where
  noEquals : equalsSign ∉ key
  noNul : (0 : UInt8) ∉ key
  noNewline : newline ∉ key
  noBlank : ∀ b ∈ key.head?, isBlank b = false
  short : key.length < 200

instance (key : Bytes) : Decidable (PlainKey key) :=
  decidable_of_iff (equalsSign ∉ key ∧ (0 : UInt8) ∉ key ∧ newline ∉ key ∧
      key.head?.all (fun b => !isBlank b) = true ∧ key.length < 200)
    ⟨fun ⟨h₁, h₂, h₃, h₄, h₅⟩ => ⟨h₁, h₂, h₃, fun b hb => by
        simpa [Option.mem_def.mp hb] using h₄, h₅⟩,
      fun h => ⟨h.1, h.2, h.3, by
        cases hhead : key.head? with
        | none => rfl
        | some b => simpa using h.4 b hhead, h.5⟩⟩

theorem lineText_of_head {t : Bytes} (hnul : (0 : UInt8) ∉ t)
    (hhead : ∀ b ∈ t.head?, isBlank b = false) : lineText t = t := by
  rw [lineText, cString_of_no_nul hnul]
  exact @skipBlanks_append [] t (by simp) hhead

theorem lineText_keyText {key value : Bytes} (hnul : (0 : UInt8) ∉ key)
    (hkey : ∀ b ∈ key.head?, isBlank b = false) (hvalue : (0 : UInt8) ∉ value) :
    lineText (keyLine key value) = key ++ equalsSign :: (value ++ [newline]) := by
  have hline : keyLine key value = key ++ equalsSign :: (value ++ [newline]) := by simp [keyLine]
  rw [hline]
  refine lineText_of_head ?_ (head_keyText hkey)
  simp only [List.mem_append, List.mem_cons, List.not_mem_nil, not_or]
  exact ⟨hnul, by decide, hvalue, by decide, not_false⟩

theorem lineText_keyLine {key value : Bytes} (hkey : PlainKey key) (hvalue : (0 : UInt8) ∉ value) :
    lineText (keyLine key value) = key ++ equalsSign :: (value ++ [newline]) :=
  lineText_keyText hkey.noNul hkey.noBlank hvalue

theorem keyLine_full {key value : Bytes} {m : Nat} (hkey : PlainKey key)
    (hvalue : newline ∉ value) (hroom : 201 + value.length ≤ m) :
    FullLine m (keyLine key value) := by
  refine ⟨key ++ [equalsSign] ++ value, newline, rfl, ?_, ?_, .inl rfl⟩
  · simp only [List.mem_append, List.mem_singleton, not_or]
    exact ⟨⟨hkey.noNewline, by decide⟩, hvalue⟩
  · have hshort := hkey.short
    simp only [List.length_append, List.length_singleton]
    omega

theorem dropWhile_stops {p : UInt8 → Bool} {c : UInt8} {t rest : Bytes}
    (h : t.dropWhile p = c :: rest) : p c = false := by
  have hstop := List.head?_dropWhile_not p t
  rw [h] at hstop
  exact hstop

theorem dropWhile_head (p : UInt8 → Bool) (t : Bytes) : ∀ c ∈ (t.dropWhile p).head?, p c = false := by
  intro c hc
  obtain ⟨rest, hrest⟩ := List.head?_eq_some_iff.mp hc
  exact dropWhile_stops hrest

/-! ## Decimal numbers -/

def isDigit (b : UInt8) : Bool := 48 ≤ b && b ≤ 57

def decimalDigit (d : Nat) : UInt8 := UInt8.ofNat (48 + d)

/-- `printf("%u")`. -/
def decimal (n : Nat) : Bytes :=
  if n = 0 then [48] else (Nat.digits 10 n).reverse.map decimalDigit

def leadingNumber (t : Bytes) : Nat :=
  (t.takeWhile isDigit).foldl (fun v b => 10 * v + (b.toNat - 48)) 0

/-- `isspace` in the C locale. -/
def isSpace (b : UInt8) : Bool := b == 32 || (9 ≤ b && b ≤ 13)

/-- The sign and the unsigned rest that `strtol` and `strtoul` start from. -/
def signedRest (t : Bytes) : Bool × Bytes :=
  match t.dropWhile isSpace with
  | 45 :: rest => (true, rest)
  | 43 :: rest => (false, rest)
  | rest => (false, rest)

/-- `strtoul(t, NULL, 10)` for a 64-bit `unsigned long`. -/
def strtoul (t : Bytes) : UInt64 :=
  let (negative, digits) := signedRest t
  let v := leadingNumber digits
  if 2 ^ 64 ≤ v then UInt64.ofNat (2 ^ 64 - 1)
  else if negative then 0 - UInt64.ofNat v
  else UInt64.ofNat v

/-- `atoi(t)` on numbers an `int` can hold; C leaves the others undefined. -/
def atoi (t : Bytes) : Int :=
  let (negative, digits) := signedRest t
  if negative then -(leadingNumber digits : Int) else leadingNumber digits

theorem decimalDigit_spec : ∀ d < 10,
    isDigit (decimalDigit d) = true ∧ (decimalDigit d).toNat - 48 = d := by
  decide

theorem decimal_isDigit (n : Nat) : ∀ b ∈ decimal n, isDigit b = true := by
  intro b hb
  unfold decimal at hb
  split at hb
  · obtain rfl := List.mem_singleton.mp hb
    decide
  · obtain ⟨d, hd, rfl⟩ := List.mem_map.mp hb
    exact (decimalDigit_spec d (Nat.digits_lt_base (by decide) (List.mem_reverse.mp hd))).1

theorem decimal_no_newline (n : Nat) : newline ∉ decimal n := fun h =>
  absurd (decimal_isDigit n _ h) (by decide)

theorem decimal_no_nul (n : Nat) : (0 : UInt8) ∉ decimal n := fun h =>
  absurd (decimal_isDigit n _ h) (by decide)

theorem decimal_length_le {n k : Nat} (hk : 0 < k) (hn : n < 10 ^ k) : (decimal n).length ≤ k := by
  unfold decimal
  split
  · exact hk
  · simpa using (Nat.digits_length_le_iff (by decide) n).mpr hn

theorem decimal_ne_nil (n : Nat) : decimal n ≠ [] := by
  unfold decimal
  split
  · simp
  · rename_i hn
    simpa [Nat.digits_eq_nil_iff_eq_zero] using hn

theorem leadingNumber_digits (l : List Nat) (hl : ∀ d ∈ l, d < 10) :
    (l.reverse.map decimalDigit).foldl (fun v b => 10 * v + (b.toNat - 48)) 0 =
      Nat.ofDigits 10 l := by
  induction l with
  | nil => rfl
  | cons d l ih =>
      have hd : (decimalDigit d).toNat - 48 = d := (decimalDigit_spec d (hl d (by simp))).2
      have hrest := ih fun e he => hl e (List.mem_cons_of_mem _ he)
      rw [List.reverse_cons, List.map_append, List.foldl_append, hrest]
      simp [Nat.ofDigits_cons, hd, Nat.add_comm]

/-- Printing a number and reading it back, whatever follows it. -/
theorem leadingNumber_decimal (n : Nat) {rest : Bytes} (hrest : ∀ b ∈ rest.head?, isDigit b = false) :
    leadingNumber (decimal n ++ rest) = n := by
  have hstop : rest.takeWhile isDigit = [] := by
    cases rest with
    | nil => rfl
    | cons b rest => simp [hrest b (by simp)]
  rw [leadingNumber, List.takeWhile_append_of_pos (decimal_isDigit n), hstop, List.append_nil]
  unfold decimal
  split
  · rename_i hn
    rw [hn]
    rfl
  · rw [leadingNumber_digits _ fun d hd => Nat.digits_lt_base (by decide) hd, Nat.ofDigits_digits]

theorem isDigit_not_space {b : UInt8} (hb : isDigit b = true) : isSpace b = false := by
  have hrange : 48 ≤ b.toNat ∧ b.toNat ≤ 57 := by
    simpa [isDigit, UInt8.le_iff_toNat_le] using hb
  simp only [isSpace, Bool.or_eq_false_iff, beq_eq_false_iff_ne, ne_eq,
    Bool.and_eq_false_imp, decide_eq_true_eq, decide_eq_false_iff_not,
    UInt8.le_iff_toNat_le]
  refine ⟨fun h => ?_, fun _ h => ?_⟩
  · rw [h] at hrange
    exact absurd hrange.1 (by decide)
  · have h13 : (13 : UInt8).toNat = 13 := rfl
    omega

theorem signedRest_digits {t : Bytes} (ht : ∀ b ∈ t.head?, isDigit b = true) :
    signedRest t = (false, t) := by
  cases t with
  | nil => rfl
  | cons b t =>
      have hb : isDigit b = true := ht b (by simp)
      have hrange : 48 ≤ b.toNat ∧ b.toNat ≤ 57 := by
        simpa [isDigit, UInt8.le_iff_toNat_le] using hb
      have hspace : isSpace b = false := isDigit_not_space hb
      have h45 : b ≠ 45 := by
        rintro rfl
        exact absurd hrange.1 (by decide)
      have h43 : b ≠ 43 := by
        rintro rfl
        exact absurd hrange.1 (by decide)
      simp [signedRest, hspace, h45, h43]

theorem decimal_head (n : Nat) (rest : Bytes) :
    ∀ b ∈ (decimal n ++ rest).head?, isDigit b = true := by
  intro b hb
  cases hd : decimal n with
  | nil => exact absurd hd (decimal_ne_nil n)
  | cons c t =>
      rw [hd] at hb
      simp only [List.cons_append, List.head?_cons, Option.mem_def, Option.some.injEq] at hb
      exact hb ▸ decimal_isDigit n c (hd ▸ List.mem_cons_self)

theorem strtoul_decimal {n : Nat} (hn : n < 2 ^ 64) {rest : Bytes}
    (hrest : ∀ b ∈ rest.head?, isDigit b = false) :
    strtoul (decimal n ++ rest) = UInt64.ofNat n := by
  rw [strtoul, signedRest_digits (decimal_head n rest)]
  simp only [leadingNumber_decimal n hrest]
  rw [if_neg (by omega)]
  rfl

theorem atoi_decimal (n : Nat) {rest : Bytes} (hrest : ∀ b ∈ rest.head?, isDigit b = false) :
    atoi (decimal n ++ rest) = n := by
  rw [atoi, signedRest_digits (decimal_head n rest)]
  simp [leadingNumber_decimal n hrest]

/-- `printf("%d")`. -/
def decimalInt (i : Int) : Bytes :=
  if i < 0 then 45 :: decimal i.natAbs else decimal i.natAbs

theorem decimalInt_no_nul (i : Int) : (0 : UInt8) ∉ decimalInt i := by
  unfold decimalInt
  split
  · rw [List.mem_cons, not_or]
    exact ⟨by decide, decimal_no_nul _⟩
  · exact decimal_no_nul _

theorem atoi_decimalInt (i : Int) {rest : Bytes} (hrest : ∀ b ∈ rest.head?, isDigit b = false) :
    atoi (decimalInt i ++ rest) = i := by
  unfold decimalInt
  split
  · rename_i hneg
    have hsign : signedRest (45 :: (decimal i.natAbs ++ rest)) = (true, decimal i.natAbs ++ rest) :=
      rfl
    rw [List.cons_append, atoi, hsign]
    simp only [leadingNumber_decimal i.natAbs hrest, if_true]
    omega
  · rw [atoi_decimal i.natAbs hrest]
    omega

end QnxHypervisor.Foundation
