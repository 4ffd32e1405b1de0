import Mathlib.Data.List.DropRight
import QnxHypervisor.GuestManager.MetaReading

/-! # One key set, the others kept

`meta_set` copies lines and exchanges those of its key; the parser also looks
behind a `#`, and past the lines that were copied. The new file is cut into the
edited lines when no line without its end has another one written behind it.
-/

namespace QnxHypervisor.GuestManager

open Foundation

/-! ## The lines of the new file -/

/-- What becomes of a copied line, as the parser will see it. -/
def editLine (key val line : Bytes) : List Bytes :=
  if keyIn key line then linesOf metaLineRoom (keyLine key val) else [line]

def addedLines (key val : Bytes) (copied : List Bytes) : List Bytes :=
  if copied.any (keyIn key) then [] else linesOf metaLineRoom (keyLine key val)

/-- The lines of the new file, if they are cut apart. -/
def editedLines (key val : Bytes) (copied : List Bytes) : List Bytes :=
  copied.flatMap (editLine key val) ++ addedLines key val copied

variable {key val : Bytes} {copied : List Bytes}

theorem editLine_none (h : ∀ line ∈ copied, ¬ keyIn key line = true) :
    copied.flatMap (editLine key val) = copied := by
  have hsame : copied.flatMap (editLine key val) = copied.flatMap fun line => [line] :=
    List.flatMap_congr fun line hline => if_neg (h line hline)
  rw [hsame, List.flatMap_singleton']

theorem keyLine_ended (key val : Bytes) : Ended metaLineRoom (keyLine key val) :=
  ended_of_newline (by decide) _

theorem metaSetLine_ended {line : Bytes} (hnul : ¬ keyIn key line = true → (0 : UInt8) ∉ line)
    (hfull : FullLine metaLineRoom line) : Ended metaLineRoom (metaSetLine key val line) := by
  unfold metaSetLine
  split
  · exact keyLine_ended key val
  · next hkey =>
    rw [cString_of_no_nul (hnul hkey)]
    exact ended_of_full hfull

theorem linesOf_metaSetLine {line : Bytes} (hnul : ¬ keyIn key line = true → (0 : UInt8) ∉ line)
    (hline : linesOf metaLineRoom line = [line]) :
    linesOf metaLineRoom (metaSetLine key val line) = editLine key val line := by
  unfold metaSetLine editLine
  split
  · rfl
  · next hkey => rw [cString_of_no_nul (hnul hkey), hline]

theorem linesOf_edited (hnul : ∀ line ∈ copied, ¬ keyIn key line = true → (0 : UInt8) ∉ line)
    (hfull : ∀ line ∈ copied, FullLine metaLineRoom line) (rest : Bytes) :
    linesOf metaLineRoom ((copied.map (metaSetLine key val)).flatten ++ rest) =
      copied.flatMap (editLine key val) ++ linesOf metaLineRoom rest := by
  have hended : ∀ piece ∈ copied.map (metaSetLine key val), Ended metaLineRoom piece := by
    intro piece hpiece
    obtain ⟨line, hline, rfl⟩ := List.mem_map.mp hpiece
    exact metaSetLine_ended (hnul line hline) (hfull line hline)
  rw [linesOf_pieces hended, List.flatMap_map]
  congr 1
  exact List.flatMap_congr fun line hline =>
    linesOf_metaSetLine (hnul line hline) (linesOf_fullLine (hfull line hline))

theorem newLines_of_full (hnul : ∀ line ∈ copied, ¬ keyIn key line = true → (0 : UInt8) ∉ line)
    (hfull : ∀ line ∈ copied, FullLine metaLineRoom line) :
    linesOf metaLineRoom (metaSetText copied key val) = editedLines key val copied := by
  rw [metaSetText, linesOf_edited hnul hfull, editedLines, addedLines]
  split <;> rfl

theorem newLines_of_found {front : List Bytes} {last : Bytes}
    (hnul : ∀ line ∈ front ++ [last], ¬ keyIn key line = true → (0 : UInt8) ∉ line)
    (hfull : ∀ line ∈ front, FullLine metaLineRoom line) (hopen : OpenLine metaLineRoom last)
    (hfound : (front ++ [last]).any (keyIn key) = true) :
    linesOf metaLineRoom (metaSetText (front ++ [last]) key val) =
      editedLines key val (front ++ [last]) := by
  rw [metaSetText, editedLines, addedLines, if_pos hfound, if_pos hfound, List.append_nil, List.append_nil,
    List.map_append, List.flatten_append, List.map_singleton, List.flatten_singleton,
    linesOf_edited (fun line hline => hnul line (List.mem_append_left _ hline)) hfull,
    linesOf_metaSetLine (hnul last (by simp)) (linesOf_openLine hopen), List.flatMap_append,
    List.flatMap_singleton]

theorem newLines_of_joined {front : List Bytes} {last : Bytes}
    (hnul : ∀ line ∈ front ++ [last], ¬ keyIn key line = true → (0 : UInt8) ∉ line)
    (hfull : ∀ line ∈ front, FullLine metaLineRoom line)
    (hnone : ¬ (front ++ [last]).any (keyIn key) = true) :
    linesOf metaLineRoom (metaSetText (front ++ [last]) key val) =
      front ++ linesOf metaLineRoom (last ++ keyLine key val) := by
  have hkeep : ∀ line ∈ front ++ [last], ¬ keyIn key line = true := fun line hline hkey =>
    hnone (List.any_eq_true.mpr ⟨line, hline, hkey⟩)
  have hlast : metaSetLine key val last = last := by
    rw [metaSetLine, if_neg (hkeep last (by simp)),
      cString_of_no_nul (hnul last (by simp) (hkeep last (by simp)))]
  have hfront : front.flatMap (editLine key val) = front :=
    editLine_none fun line hline => hkeep line (List.mem_append_left _ hline)
  rw [metaSetText, if_neg hnone, List.map_append, List.flatten_append, List.map_singleton,
    List.flatten_singleton, hlast, List.append_assoc,
    linesOf_edited (fun line hline => hnul line (List.mem_append_left _ hline)) hfull, hfront]

/-! ## What the edit does to the last values -/

/-- A key whose lines set at most its own value. -/
structure StorableKey (key : Bytes) : Prop where
  noEquals : equalsSign ∉ key
  noNul : (0 : UInt8) ∉ key
  noNewline : newline ∉ key
  start : ∀ b ∈ key.head?, isBlank b = false ∧ b ≠ 35

instance (key : Bytes) : Decidable (StorableKey key) :=
  decidable_of_iff (equalsSign ∉ key ∧ (0 : UInt8) ∉ key ∧ newline ∉ key ∧
      key.head?.all (fun b => !isBlank b && b != 35) = true)
    ⟨fun ⟨h₁, h₂, h₃, h₄⟩ => ⟨h₁, h₂, h₃, fun b hb => by
        simpa [Option.mem_def.mp hb] using h₄⟩,
      fun h => ⟨h.1, h.2, h.3, by
        cases hhead : key.head? with
        | none => rfl
        | some b => simpa using h.4 b hhead⟩⟩

theorem metaEntry_of_key (hkey : StorableKey key) {line value : Bytes}
    (hvalue : lineText line = key ++ equalsSign :: value) :
    metaEntry line = key ++ equalsSign :: value.takeWhile fun b => b != newline := by
  have htrim : trimLine line = key ++ equalsSign :: value.takeWhile fun b => b != newline := by
    rw [trimLine, hvalue, List.takeWhile_append_of_pos]
    · rfl
    · intro b hb
      simpa using fun h : b = newline => hkey.noNewline (h ▸ hb)
  rw [metaEntry, htrim]
  cases key with
  | nil => rfl
  | cons b rest =>
      have hb : b ≠ 35 := (hkey.start b rfl).2
      split
      · next hhash => exact absurd (List.cons.inj hhash).1 hb
      · rfl

/-- The parser finds the key where `meta_set` does. -/
theorem startsWithKey_metaEntry (hkey : StorableKey key) {line : Bytes}
    (hline : keyIn key line = true) : startsWithKey key (metaEntry line) = true := by
  obtain ⟨value, hvalue⟩ := startsWithKey_iff.mp hline
  rw [metaEntry_of_key hkey hvalue]
  exact startsWithKey_append key _

theorem lineSets_of_keyIn (hkey : StorableKey key) {j : MetaKey} (hj : j.text ≠ key) {line : Bytes}
    (hline : keyIn key line = true) : lineSets j line = none :=
  if_neg fun hset =>
    hj (startsWithKey_unique j.text_noEquals hkey.noEquals hset (startsWithKey_metaEntry hkey hline))

/-- The line written for the key, read alone, gives the key its value and no other. -/
def ReadsBack (key val : Bytes) : Prop :=
  ∀ j : MetaKey, lastValue j (linesOf metaLineRoom (keyLine key val)) =
    if j.text = key then some (j.meant val) else none

theorem lineSets_keyText (hkey : StorableKey key) (hnul : (0 : UInt8) ∉ val) (hnew : newline ∉ val)
    {tail : Bytes} (htail : tail = [] ∨ tail = [newline]) (j : MetaKey) :
    lineSets j (key ++ equalsSign :: (val ++ tail)) =
      if j.text = key then some (j.read val) else none := by
  have htext : lineText (key ++ equalsSign :: (val ++ tail)) = key ++ equalsSign :: (val ++ tail) := by
    refine lineText_of_head ?_ (head_keyText fun b hb => (hkey.start b hb).1)
    simp only [List.mem_append, List.mem_cons, not_or]
    refine ⟨hkey.noNul, by decide, hnul, ?_⟩
    rcases htail with rfl | rfl
    · exact List.not_mem_nil
    · decide
  split
  · next hj =>
    have hentry := metaEntry_of_key hkey htext
    have hval : (val ++ tail).takeWhile (fun b => b != newline) = val := by
      rw [List.takeWhile_append_of_pos fun b hb => by simpa using fun h : b = newline => hnew (h ▸ hb)]
      rcases htail with rfl | rfl <;> simp
    rw [hval] at hentry
    have hvalue : valueOf key (key ++ equalsSign :: val) = val := by simp [valueOf]
    rw [lineSets, hentry, hj, if_pos (startsWithKey_append key val), hvalue]
  · next hj =>
    exact lineSets_of_keyIn hkey hj (startsWithKey_iff.mpr ⟨_, htext⟩)

theorem keyLine_eq (key val : Bytes) : keyLine key val = key ++ equalsSign :: (val ++ [newline]) := by
  simp [keyLine]

theorem keyLine_fullLine (hkey : StorableKey key) (hnew : newline ∉ val)
    (hlen : key.length + val.length + 2 ≤ metaLineRoom) :
    FullLine metaLineRoom (keyLine key val) := by
  refine ⟨key ++ [equalsSign] ++ val, newline, rfl, ?_, ?_, .inl rfl⟩
  · simp only [List.mem_append, List.mem_singleton, not_or]
    exact ⟨⟨hkey.noNewline, by decide⟩, hnew⟩
  · simp only [List.length_append, List.length_singleton]
    omega

theorem readsBack_of_full (hkey : StorableKey key) (hnul : (0 : UInt8) ∉ val)
    (hnew : newline ∉ val) (hfull : FullLine metaLineRoom (keyLine key val))
    (hread : ∀ j : MetaKey, j.text = key → j.read val = j.meant val) : ReadsBack key val := by
  intro j
  rw [linesOf_fullLine hfull, lastValue_singleton, keyLine_eq,
    lineSets_keyText hkey hnul hnew (.inr rfl)]
  split
  · next hj => rw [hread j hj]
  · rfl

theorem readsBack_of_exact (hkey : StorableKey key) (hnul : (0 : UInt8) ∉ val)
    (hnew : newline ∉ val) (hlen : key.length + 1 + val.length = metaLineRoom)
    (hread : ∀ j : MetaKey, j.text = key → j.read val = j.meant val) : ReadsBack key val := by
  have hfull : FullLine metaLineRoom (key ++ equalsSign :: val) := by
    refine fullLine_of_length (by decide) ?_ ?_
    · simp only [List.mem_append, List.mem_cons, not_or]
      exact ⟨hkey.noNewline, by decide, hnew⟩
    · rw [← hlen, List.length_append, List.length_cons]
      omega
  have hlines : linesOf metaLineRoom (keyLine key val) =
      [key ++ equalsSign :: val, [newline]] := by
    have hline : keyLine key val = (key ++ equalsSign :: val) ++ [newline] := by simp [keyLine]
    rw [hline, linesOf_ended_append (ended_of_full hfull), linesOf_fullLine hfull]
    rfl
  intro j
  have hblank : lineSets j [newline] = none := by
    cases j <;> decide
  have hset := lineSets_keyText hkey hnul hnew (.inl rfl) j
  rw [List.append_nil] at hset
  rw [hlines, ← List.singleton_append, lastValue_append, lastValue_singleton, hblank,
    Option.none_or, lastValue_singleton, hset]
  split
  · next hj => rw [hread j hj]
  · rfl

/-- A value that some line can carry for a key with a `char` array reads back. -/
theorem readsBack_of_carried (hkey : StorableKey key) {j : MetaKey} {n : Nat} (hj : j.text = key)
    (hsize : j.size = some n) (h : CarriedText key val metaLineRoom n) : ReadsBack key val := by
  have hread : ∀ k : MetaKey, k.text = key → k.read val = k.meant val := by
    intro k hk
    obtain rfl := MetaKey.text_inj (hk.trans hj.symm)
    have hskip : skipBlanks val = val := @skipBlanks_append [] val (by simp) h.start
    have hpos : 0 < n := by cases k <;> cases hsize <;> decide
    have hshort := h.short
    rw [MetaKey.read_text hsize, MetaKey.meant_text hsize, hskip,
      CStr.fit_of_short h.noNul (by omega)]
  by_cases hexact : key.length + 1 + val.length = metaLineRoom
  · exact readsBack_of_exact hkey h.noNul h.noNewline hexact hread
  · have hfits := h.fits
    exact readsBack_of_full hkey h.noNul h.noNewline
      (keyLine_fullLine hkey h.noNewline (by omega)) hread

/-- The copied lines behind the last one that is exchanged. -/
def behindKey (key : Bytes) (copied : List Bytes) : List Bytes :=
  copied.rtakeWhile fun line => !keyIn key line

theorem lastValue_edited_other (hkey : StorableKey key) (hback : ReadsBack key val) {j : MetaKey}
    (hj : j.text ≠ key) :
    lastValue j (editedLines key val copied) = lastValue j copied := by
  have hnew : lastValue j (linesOf metaLineRoom (keyLine key val)) = none := by
    rw [hback j, if_neg hj]
  have hadded : lastValue j (addedLines key val copied) = none := by
    unfold addedLines
    split
    · rfl
    · exact hnew
  rw [editedLines, lastValue_append, hadded, Option.none_or]
  refine lastValue_flatMap fun line _ => ?_
  unfold editLine
  split
  · next hline =>
    rw [List.getLast?_eq_none_iff.mp hnew, List.filterMap_cons_none (lineSets_of_keyIn hkey hj hline),
      List.filterMap_nil]
  · rfl

theorem copied_split (hfound : copied.any (keyIn key) = true) :
    ∃ front line, copied = front ++ [line] ++ behindKey key copied ∧ keyIn key line = true := by
  have hsplit : copied.rdropWhile (fun line => !keyIn key line) ++ behindKey key copied = copied :=
    List.rdropWhile_append_rtakeWhile
  have hne : copied.rdropWhile (fun line => !keyIn key line) ≠ [] := by
    intro hnil
    obtain ⟨line, hline, hkey⟩ := List.any_eq_true.mp hfound
    have hnone := List.rdropWhile_eq_nil_iff.mp hnil line hline
    rw [hkey] at hnone
    cases hnone
  have hlast : keyIn key ((copied.rdropWhile fun line => !keyIn key line).getLast hne) = true := by
    simpa using List.rdropWhile_last_not _ _ hne
  refine ⟨(copied.rdropWhile fun line => !keyIn key line).dropLast, _, ?_, hlast⟩
  rw [List.dropLast_append_getLast hne]
  exact hsplit.symm

theorem behindKey_none {line : Bytes} (h : line ∈ behindKey key copied) : ¬ keyIn key line = true := by
  simpa using List.mem_rtakeWhile_imp h

theorem lastValue_edited_key (hback : ReadsBack key val) {j : MetaKey} (hj : j.text = key)
    (hfound : copied.any (keyIn key) = true) :
    lastValue j (copied.flatMap (editLine key val)) =
      (lastValue j (behindKey key copied)).or (some (j.meant val)) := by
  obtain ⟨front, line, hcopied, hline⟩ := copied_split hfound
  have hedited : copied.flatMap (editLine key val) =
      front.flatMap (editLine key val) ++ linesOf metaLineRoom (keyLine key val) ++
        behindKey key copied := by
    conv_lhs => rw [hcopied]
    rw [List.flatMap_append, List.flatMap_append, List.flatMap_singleton,
      editLine_none fun _ => behindKey_none, editLine, if_pos hline]
  rw [hedited, lastValue_append, lastValue_append, hback j, if_pos hj, Option.some_or]

theorem editedLines_values (hkey : StorableKey key) (hback : ReadsBack key val)
    (copied : List Bytes) (j : MetaKey) :
    lastValue j (editedLines key val copied) =
      if j.text = key then
        if copied.any (keyIn key) = true then
          (lastValue j (behindKey key copied)).or (some (j.meant val))
        else some (j.meant val)
      else lastValue j copied := by
  split
  · next hj =>
    unfold editedLines addedLines
    split
    · next hfound => rw [List.append_nil, lastValue_edited_key hback hj hfound]
    · rw [lastValue_append, hback j, if_pos hj, Option.some_or]
  · next hj => exact lastValue_edited_other hkey hback hj

/-! ## The law -/

/-- Every byte of the new file has reached the disk and the file is in place. -/
def WrittenWhole (env : MetaEnv) (key val : Bytes) (text : Option Bytes) : Prop :=
  env.tmpOk = true ∧ env.renameOk = true ∧
    ∀ n ∈ env.room, (metaSetText (metaLines env text) key val).length ≤ n

/-- The law for one call: whatever the outputs held before, the parser gives the key
its new value and the others what it gave them. -/
structure MetaSetLaw (env : MetaEnv) (key val : Bytes) (text : Option Bytes) : Prop where
  stored : WrittenWhole env key val text → ∀ (f : MetaFields) (j : MetaKey),
    (parseConfNetwork (metaSet env key val text) f).get j =
      if j.text = key then j.meant val else (parseConfNetwork text f).get j
  kept : ¬ WrittenWhole env key val text → metaSet env key val text = text

/-- The key and the value survive a line of the file, and so do the copied lines. -/
structure PlainWrite (env : MetaEnv) (key val : Bytes) (text : Option Bytes) : Prop where
  storable : StorableKey key
  back : ReadsBack key val
  copied : ∀ line ∈ metaLines env text, ¬ keyIn key line = true → (0 : UInt8) ∉ line

/-- Writer and parser agree on the file. -/
structure FileAgrees (env : MetaEnv) (key val : Bytes) (text : Option Bytes) : Prop where
  /-- the lines behind the 64th, and a file that cannot be read, set no other key -/
  dropped : ∀ j : MetaKey, j.text ≠ key → lastValue j (metaLines env text) = lastValue j (textLines text)
  /-- no line with a `#` sets the key to another value behind the last exchanged one -/
  behind : ∀ j : MetaKey, j.text = key → (metaLines env text).any (keyIn key) = true →
    ∀ v ∈ lastValue j (behindKey key (metaLines env text)), v = j.meant val
  /-- an added line behind a line without its end reads as the two would apart -/
  joined : ¬ (metaLines env text).any (keyIn key) = true → ∀ front last,
    metaLines env text = front ++ [last] → OpenLine metaLineRoom last →
      ∀ j : MetaKey, lastValue j (front ++ linesOf metaLineRoom (last ++ keyLine key val)) =
        lastValue j (front ++ [last] ++ linesOf metaLineRoom (keyLine key val))

/-- When one call of `meta_set` keeps the law. -/
structure MetaSetClean (env : MetaEnv) (key val : Bytes) (text : Option Bytes) : Prop where
  plain : WrittenWhole env key val text → PlainWrite env key val text
  agrees : WrittenWhole env key val text → FileAgrees env key val text
  /-- a disk too full for the new file cuts it off where it is the old content -/
  cut : env.tmpOk = true → env.renameOk = true → ∀ n ∈ env.room,
    n < (metaSetText (metaLines env text) key val).length →
      text = some ((metaSetText (metaLines env text) key val).take n)

variable {env : MetaEnv} {text : Option Bytes}

theorem textLines_eq (text : Option Bytes) :
    textLines text = linesOf metaLineRoom (text.getD []) := by
  cases text with
  | none => rfl
  | some t => rfl

theorem metaLines_shape (env : MetaEnv) (text : Option Bytes) :
    (∀ line ∈ metaLines env text, FullLine metaLineRoom line) ∨
      ∃ front last, metaLines env text = front ++ [last] ∧
        (∀ line ∈ front, FullLine metaLineRoom line) ∧ OpenLine metaLineRoom last ∧
          metaLines env text = textLines text := by
  rw [textLines_eq]
  unfold metaLines
  split
  · rcases (linesOf_wellCut (show 0 < metaLineRoom by decide) (text.getD [])).split with
      hall | ⟨front, last, hlines, hfront, hopen⟩
    · exact .inl fun line hline => hall line (List.mem_of_mem_take hline)
    · rw [hlines]
      by_cases hfew : metaLineMax ≤ front.length
      · rw [List.take_append_of_le_length hfew]
        exact .inl fun line hline => hfront line (List.mem_of_mem_take hline)
      · have hall : (front ++ [last]).take metaLineMax = front ++ [last] :=
          List.take_of_length_le (by rw [List.length_append, List.length_singleton]; omega)
        exact .inr ⟨front, last, hall, hfront, hopen, hall⟩
  · exact .inl fun line hline => absurd hline List.not_mem_nil

theorem metaSet_whole (h : WrittenWhole env key val text) :
    metaSet env key val text = some (metaSetText (metaLines env text) key val) := by
  obtain ⟨htmp, hrename, hroom⟩ := h
  rw [metaSet, if_neg (not_not.mpr htmp), if_neg (not_not.mpr hrename)]
  cases hn : env.room with
  | none => rfl
  | some n => exact congrArg some (List.take_of_length_le (hroom n hn))

/-- What the law asks of the last values of the new file. -/
def NewValues (env : MetaEnv) (key val : Bytes) (text : Option Bytes) : Prop :=
  ∀ j : MetaKey, lastValue j (linesOf metaLineRoom (metaSetText (metaLines env text) key val)) =
    if j.text = key then some (j.meant val) else lastValue j (textLines text)

theorem newValues_iff (h : WrittenWhole env key val text) :
    NewValues env key val text ↔ ∀ (f : MetaFields) (j : MetaKey),
      (parseConfNetwork (metaSet env key val text) f).get j =
        if j.text = key then j.meant val else (parseConfNetwork text f).get j := by
  rw [metaSet_whole h, forall_comm]
  refine forall_congr' fun j => ?_
  simp only [parseConfNetwork_get, textLines, Option.elim_some]
  have hgoal : ∀ f : MetaFields, (if j.text = key then j.meant val
      else (lastValue j (textLines text)).getD (f.get j)) =
        (if j.text = key then some (j.meant val) else lastValue j (textLines text)).getD (f.get j) := by
    intro f
    split <;> rfl
  constructor
  · intro hnew f
    rw [hnew]
    exact (hgoal f).symm
  · intro hall
    exact getD_get_inj fun f => (hall f).trans (hgoal f)

theorem not_openLine_of_full {m : Nat} {line : Bytes} (hfull : FullLine m line) :
    ¬ OpenLine m line := by
  rintro ⟨-, hnew, hlen⟩
  obtain ⟨body, last, rfl, -, -, hlast | hlast⟩ := hfull
  · exact hnew (by simp [hlast])
  · rw [List.length_append, List.length_singleton] at hlen
    omega

/-- A line was exchanged, or every copied line is ended. -/
def CutApart (key : Bytes) (copied : List Bytes) : Prop :=
  copied.any (keyIn key) = true ∨ ∀ line ∈ copied, FullLine metaLineRoom line

theorem newLines_of_apart (hplain : PlainWrite env key val text)
    (hapart : CutApart key (metaLines env text)) :
    linesOf metaLineRoom (metaSetText (metaLines env text) key val) =
      editedLines key val (metaLines env text) := by
  rcases metaLines_shape env text with hfull | ⟨front, last, hlines, hfront, hopen, -⟩
  · exact newLines_of_full hplain.copied hfull
  · have hcopied := hplain.copied
    rw [hlines] at hcopied hapart ⊢
    rcases hapart with hfound | hfull
    · exact newLines_of_found hcopied hfront hopen hfound
    · exact absurd hopen (not_openLine_of_full (hfull last (by simp)))

theorem newValues_of_apart (hplain : PlainWrite env key val text)
    (hapart : CutApart key (metaLines env text)) :
    NewValues env key val text ↔ FileAgrees env key val text := by
  have hnew : ∀ j : MetaKey, lastValue j (linesOf metaLineRoom
      (metaSetText (metaLines env text) key val)) = _ := fun j =>
    (congrArg (lastValue j) (newLines_of_apart hplain hapart)).trans
      (editedLines_values hplain.storable hplain.back _ j)
  simp only [NewValues, hnew]
  constructor
  · intro hall
    refine ⟨fun j hj => ?_, fun j hj hfound v hv => ?_, fun hnone front last hlines hopen => ?_⟩
    · have hj' := hall j
      rwa [if_neg hj, if_neg hj] at hj'
    · have hj' := hall j
      rw [if_pos hj, if_pos hfound, if_pos hj, Option.mem_def.mp hv] at hj'
      exact Option.some.inj hj'
    · rcases hapart with hfound | hfull
      · exact absurd hfound hnone
      · exact absurd hopen (not_openLine_of_full (hfull last (by simp [hlines])))
  · intro h j
    split
    · next hj =>
      split
      · next hfound =>
        cases hbehind : lastValue j (behindKey key (metaLines env text)) with
        | none => rfl
        | some v => rw [h.behind j hj hfound v hbehind]; rfl
      · rfl
    · next hj => exact h.dropped j hj

theorem newValues_of_open (hplain : PlainWrite env key val text)
    (hnone : ¬ (metaLines env text).any (keyIn key) = true) {front : List Bytes} {last : Bytes}
    (hlines : metaLines env text = front ++ [last])
    (hfront : ∀ line ∈ front, FullLine metaLineRoom line) (hopen : OpenLine metaLineRoom last)
    (hwhole : metaLines env text = textLines text) :
    NewValues env key val text ↔ FileAgrees env key val text := by
  have hjoined : linesOf metaLineRoom (metaSetText (metaLines env text) key val) =
      front ++ linesOf metaLineRoom (last ++ keyLine key val) := by
    have hcopied := hplain.copied
    rw [hlines] at hcopied hnone ⊢
    exact newLines_of_joined hcopied hfront hnone
  have happart : ∀ j : MetaKey,
      lastValue j (front ++ [last] ++ linesOf metaLineRoom (keyLine key val)) =
        if j.text = key then some (j.meant val) else lastValue j (textLines text) := by
    intro j
    rw [lastValue_append, hplain.back j, ← hlines, hwhole]
    split <;> rfl
  unfold NewValues
  rw [hjoined]
  constructor
  · intro hall
    refine ⟨fun j _ => by rw [hwhole], fun _ _ hfound => absurd hfound hnone,
      fun _ front' last' hlines' _ j => ?_⟩
    obtain ⟨rfl, hlast⟩ := List.append_inj' (hlines.symm.trans hlines') rfl
    obtain rfl := List.singleton_inj.mp hlast
    rw [hall j, happart j]
  · intro h j
    rw [h.joined hnone front last hlines hopen j, happart j]

/-- When nothing is lost on the way to the disk, all hangs on the lines. -/
theorem newValues_iff_agrees (hplain : PlainWrite env key val text) :
    NewValues env key val text ↔ FileAgrees env key val text := by
  by_cases hfound : (metaLines env text).any (keyIn key) = true
  · exact newValues_of_apart hplain (.inl hfound)
  · rcases metaLines_shape env text with hfull | ⟨front, last, hlines, hfront, hopen, hwhole⟩
    · exact newValues_of_apart hplain (.inr hfull)
    · exact newValues_of_open hplain hfound hlines hfront hopen hwhole

theorem metaSet_unwritten (htmp : env.tmpOk = true → ¬ env.renameOk = true) :
    metaSet env key val text = text := by
  unfold metaSet
  split
  · rfl
  · next h => exact if_pos (htmp (not_not.mp h))

/-- The calls on which the condition is exact: the copied lines lose nothing behind a
NUL, and the key has a `char` array or its line reads back. Elsewhere a cut-off line
can read as another line did. -/
structure DecidedWrite (env : MetaEnv) (key val : Bytes) (text : Option Bytes) : Prop where
  storable : StorableKey key
  back : (∃ (j : MetaKey) (n : Nat), j.text = key ∧ j.size = some n) ∨ ReadsBack key val
  copied : ∀ line ∈ metaLines env text, ¬ keyIn key line = true → (0 : UInt8) ∉ line

/-- A text value that the parser yields from the new file is one that a line can carry. -/
theorem plainWrite_of_law (h : DecidedWrite env key val text) (hwhole : WrittenWhole env key val text)
    (hlaw : MetaSetLaw env key val text) : PlainWrite env key val text := by
  refine ⟨h.storable, ?_, h.copied⟩
  rcases h.back with ⟨j, n, hj, hsize⟩ | hback
  · have hnew := (newValues_iff hwhole).mpr (hlaw.stored hwhole) j
    rw [if_pos hj, MetaKey.meant_text hsize] at hnew
    obtain ⟨line, hline, hset⟩ := lastValue_mem hnew
    have hcarried := carriedText_of_lineSets hsize hset
    have hfits := hcarried.fits.trans (line_length_le (show 0 < metaLineRoom by decide) hline)
    rw [hj] at hfits
    exact readsBack_of_carried h.storable hj hsize
      ⟨hcarried.noNul, hcarried.noNewline, hcarried.start, hcarried.short, hfits⟩
  · exact hback

/-- The call keeps the law when nothing is in its way, and on the calls above only then. -/
theorem meta_set_iff (env : MetaEnv) (key val : Bytes) (text : Option Bytes) :
    (MetaSetClean env key val text → MetaSetLaw env key val text) ∧
      (DecidedWrite env key val text → MetaSetLaw env key val text →
        MetaSetClean env key val text) := by
  have hcut : ∀ n, env.tmpOk = true → env.renameOk = true → env.room = some n →
      metaSet env key val text = some ((metaSetText (metaLines env text) key val).take n) := by
    intro n htmp hrename hroom
    rw [metaSet, if_neg (not_not.mpr htmp), if_neg (not_not.mpr hrename), hroom]
    rfl
  constructor
  · intro h
    refine ⟨fun hwhole => ?_, fun hpart => ?_⟩
    · exact (newValues_iff hwhole).mp
        ((newValues_iff_agrees (h.plain hwhole)).mpr (h.agrees hwhole))
    · by_cases hdone : env.tmpOk = true ∧ env.renameOk = true
      · obtain ⟨htmp, hrename⟩ := hdone
        have hfull : ∃ n ∈ env.room, n < (metaSetText (metaLines env text) key val).length := by
          by_contra hno
          exact hpart ⟨htmp, hrename, fun n hn => not_lt.mp fun hlt => hno ⟨n, hn, hlt⟩⟩
        obtain ⟨n, hn, hlt⟩ := hfull
        rw [hcut n htmp hrename hn]
        exact (h.cut htmp hrename n hn hlt).symm
      · exact metaSet_unwritten fun htmp hrename => hdone ⟨htmp, hrename⟩
  · intro hdecided h
    have hplain : WrittenWhole env key val text → PlainWrite env key val text := fun hwhole =>
      plainWrite_of_law hdecided hwhole h
    refine ⟨hplain, fun hwhole => ?_, fun htmp hrename n hn hlt => ?_⟩
    · exact (newValues_iff_agrees (hplain hwhole)).mp
        ((newValues_iff hwhole).mpr (h.stored hwhole))
    · have hpart : ¬ WrittenWhole env key val text := fun hwhole =>
        absurd (hwhole.2.2 n hn) (not_le.mpr hlt)
      exact (h.kept hpart).symm.trans (hcut n htmp hrename hn)

/-! ## Files of ended lines -/

/-- Every file call succeeds. -/
structure MetaEnv.Works (env : MetaEnv) : Prop where
  read : env.readOk = true
  tmp : env.tmpOk = true
  room : env.room = none
  rename : env.renameOk = true

theorem MetaEnv.Works.written (h : env.Works) : WrittenWhole env key val text :=
  ⟨h.tmp, h.rename, fun n hn => by rw [h.room] at hn; cases hn⟩

theorem MetaEnv.Works.metaLines_eq (h : env.Works) :
    metaLines env text = (textLines text).take metaLineMax := by
  rw [metaLines, if_pos h.read, textLines_eq]

/-- A line that `fgets` ends, without a NUL. -/
structure CleanLine (line : Bytes) : Prop where
  full : FullLine metaLineRoom line
  noNul : (0 : UInt8) ∉ line

theorem cleanLines {t : Bytes} (hend : ∀ b ∈ t.getLast?, b = newline) (hnul : (0 : UInt8) ∉ t) :
    ∀ line ∈ linesOf metaLineRoom t, CleanLine line := by
  rcases List.eq_nil_or_concat t with rfl | ⟨body, last, rfl⟩
  · exact fun line hline => absurd hline List.not_mem_nil
  · obtain rfl := hend last (by simp)
    rw [List.concat_eq_append] at hnul ⊢
    exact fun line hline => ⟨ended_of_newline (by decide) body line hline, fun hmem =>
      hnul (mem_of_mem_line hline hmem)⟩

theorem editedLines_clean {lines : List Bytes} (hline : CleanLine (keyLine key val))
    (h : ∀ line ∈ lines, CleanLine line) : ∀ line ∈ editedLines key val lines, CleanLine line := by
  have hnew : ∀ line ∈ linesOf metaLineRoom (keyLine key val), CleanLine line := by
    rw [linesOf_fullLine hline.full]
    exact fun line hmem => List.mem_singleton.mp hmem ▸ hline
  intro line hmem
  rcases List.mem_append.mp hmem with hedit | hadded
  · obtain ⟨old, hold, hmem⟩ := List.mem_flatMap.mp hedit
    unfold editLine at hmem
    split at hmem
    · exact hnew line hmem
    · exact List.mem_singleton.mp hmem ▸ h old hold
  · unfold addedLines at hadded
    split at hadded
    · cases hadded
    · exact hnew line hadded

/-- The file behind one `meta_set`. -/
theorem textLines_metaSet (henv : env.Works) (hclean : ∀ line ∈ textLines text, CleanLine line)
    (hkey : StorableKey key) (hback : ReadsBack key val) :
    textLines (metaSet env key val text) =
      editedLines key val ((textLines text).take metaLineMax) := by
  have hcopied : ∀ line ∈ metaLines env text, CleanLine line := by
    rw [henv.metaLines_eq]
    exact fun line hline => hclean line (List.mem_of_mem_take hline)
  have hplain : PlainWrite env key val text :=
    ⟨hkey, hback, fun line hline _ => (hcopied line hline).noNul⟩
  rw [metaSet_whole henv.written, textLines, Option.elim_some,
    newLines_of_apart hplain (.inr fun line hline => (hcopied line hline).full), henv.metaLines_eq]

theorem keyLine_clean (hkey : StorableKey key) (hnul : (0 : UInt8) ∉ val) (hnew : newline ∉ val)
    (hlen : key.length + val.length + 2 ≤ metaLineRoom) : CleanLine (keyLine key val) := by
  refine ⟨keyLine_fullLine hkey hnew hlen, ?_⟩
  simp only [keyLine, List.mem_append, List.mem_singleton, not_or]
  exact ⟨⟨⟨hkey.noNul, by decide⟩, hnul⟩, by decide⟩

/-! ## The defect -/

/-- Every call of `meta_set` succeeds. -/
def allWorks : MetaEnv := ⟨true, true, none, true⟩

def endedMeta : Bytes := utf8 "ip=10.0.0.1\nssh_user=bob\n"

def openMeta : Bytes := utf8 "ssh_user=bob"

def newIp : Bytes := utf8 "10.0.0.2"

theorem ipKey_storable : StorableKey ipKey := by decide

theorem meta_set_ended : MetaSetLaw allWorks ipKey newIp (some endedMeta) := by
  have hfound : (metaLines allWorks (some endedMeta)).any (keyIn ipKey) = true := by decide +kernel
  refine (meta_set_iff allWorks ipKey newIp (some endedMeta)).1
    ⟨fun _ => ⟨ipKey_storable, ?_, by decide +kernel⟩,
      fun _ => ⟨?_, ?_, fun hnone => absurd hfound hnone⟩, fun _ _ n hn => by cases hn⟩
  · intro j
    cases j <;> decide +kernel
  · intro j _
    cases j <;> decide +kernel
  · intro j hj _
    obtain rfl := MetaKey.text_inj (show j.text = MetaKey.ip.text from hj)
    decide +kernel

/-- The file has no newline at its end, so the address is written into the line of
the user. -/
theorem open_line_joins_keys : ¬ MetaSetLaw allWorks ipKey newIp (some openMeta) := by
  intro h
  have hwhole : WrittenWhole allWorks ipKey newIp (some openMeta) :=
    ⟨rfl, rfl, fun n hn => by cases hn⟩
  have hip := h.stored hwhole ⟨.fit 64 [], .fit 64 [], .fit 128 [], .fit 512 [], 0, 0⟩ .ip
  exact absurd hip (by decide +kernel)

end QnxHypervisor.GuestManager
