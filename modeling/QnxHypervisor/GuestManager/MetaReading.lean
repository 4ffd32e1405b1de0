import QnxHypervisor.GuestManager.Metadata

/-! # What the parser takes from a file

`parse_conf_network` keeps, for each of its six keys, the value of the last line
that sets it. Two files read alike when these last values agree, and the last
value over a text put together from pieces is that of the last piece with one.
-/

namespace QnxHypervisor.GuestManager

open Foundation

inductive MetaKey where
  | ip
  | sshUser
  | sshPassword
  | sshPort
  | sshKey
  | pid
  deriving DecidableEq

inductive MetaValue where
  | text (t : Bytes)
  | number (n : Int32)
  deriving DecidableEq

namespace MetaKey

def text : MetaKey → Bytes
  | ip => ipKey
  | sshUser => sshUserKey
  | sshPassword => sshPasswordKey
  | sshPort => sshPortKey
  | sshKey => sshKeyKey
  | pid => pidKey

/-- What the parser makes of the bytes behind `=`. -/
def read : MetaKey → Bytes → MetaValue
  | ip, v => .text (CStr.fit 64 (skipBlanks v)).bytes
  | sshUser, v => .text (CStr.fit 64 (skipBlanks v)).bytes
  | sshPassword, v => .text (CStr.fit 128 (skipBlanks v)).bytes
  | sshPort, v => .number (Int32.ofInt (atoi v))
  | sshKey, v => .text (CStr.fit 512 (skipBlanks v)).bytes
  | pid, v => .number (Int32.ofInt (atoi v))

def meant : MetaKey → Bytes → MetaValue
  | sshPort, v => .number (Int32.ofInt (atoi v))
  | pid, v => .number (Int32.ofInt (atoi v))
  | _, v => .text v

/-- The `char` array of a key that has one. -/
def size : MetaKey → Option Nat
  | ip => some 64
  | sshUser => some 64
  | sshPassword => some 128
  | sshKey => some 512
  | _ => none

theorem read_text {j : MetaKey} {n : Nat} (h : j.size = some n) (v : Bytes) :
    j.read v = .text (CStr.fit n (skipBlanks v)).bytes := by
  cases j <;> cases h <;> rfl

theorem meant_text {j : MetaKey} {n : Nat} (h : j.size = some n) (v : Bytes) :
    j.meant v = .text v := by
  cases j <;> cases h <;> rfl

theorem text_inj {j k : MetaKey} (h : j.text = k.text) : j = k := by
  cases j <;> cases k <;> first | rfl | exact absurd h (by decide)

theorem text_noEquals (j : MetaKey) : equalsSign ∉ j.text := by
  cases j <;> decide

end MetaKey

def MetaFields.get (f : MetaFields) : MetaKey → MetaValue
  | .ip => .text f.ip.bytes
  | .sshUser => .text f.sshUser.bytes
  | .sshPassword => .text f.sshPassword.bytes
  | .sshPort => .number f.sshPort
  | .sshKey => .text f.sshKey.bytes
  | .pid => .number f.pid

def lineSets (j : MetaKey) (line : Bytes) : Option MetaValue :=
  if startsWithKey j.text (metaEntry line) then some (j.read (valueOf j.text (metaEntry line)))
  else none

def lastValue (j : MetaKey) (lines : List Bytes) : Option MetaValue :=
  (lines.filterMap (lineSets j)).getLast?

/-! ## The last value -/

theorem lastValue_append (j : MetaKey) (front behind : List Bytes) :
    lastValue j (front ++ behind) = (lastValue j behind).or (lastValue j front) := by
  rw [lastValue, List.filterMap_append, List.getLast?_append]
  rfl

theorem lastValue_singleton (j : MetaKey) (line : Bytes) : lastValue j [line] = lineSets j line := by
  unfold lastValue
  cases h : lineSets j line with
  | none => rw [List.filterMap_cons_none h]; rfl
  | some v => rw [List.filterMap_cons_some h]; rfl

theorem lastValue_mem {j : MetaKey} {lines : List Bytes} {v : MetaValue}
    (h : lastValue j lines = some v) : ∃ line ∈ lines, lineSets j line = some v :=
  List.mem_filterMap.mp (List.mem_of_getLast? h)

theorem lastValue_flatMap {j : MetaKey} {lines : List Bytes} {edit : Bytes → List Bytes}
    (h : ∀ line ∈ lines, (edit line).filterMap (lineSets j) = [line].filterMap (lineSets j)) :
    lastValue j (lines.flatMap edit) = lastValue j lines := by
  suffices heq : (lines.flatMap edit).filterMap (lineSets j) = lines.filterMap (lineSets j) by
    rw [lastValue, lastValue, heq]
  induction lines with
  | nil => rfl
  | cons line rest ih =>
      rw [List.flatMap_cons, List.filterMap_append, h line List.mem_cons_self,
        ih fun l hl => h l (List.mem_cons_of_mem _ hl), ← List.filterMap_append,
        List.singleton_append]

/-! ## The values a line can carry -/

theorem trimLine_sublist (line : Bytes) : (trimLine line).Sublist line :=
  ((List.takeWhile_sublist _).trans (List.dropWhile_sublist _)).trans (List.takeWhile_sublist _)

theorem metaEntry_sublist (line : Bytes) : (metaEntry line).Sublist line := by
  unfold metaEntry
  split
  · next rest hhash =>
    have hrest : rest.Sublist (trimLine line) := by
      rw [hhash]
      exact List.sublist_cons_self _ _
    exact ((trimLine_sublist rest).trans hrest).trans (trimLine_sublist line)
  · exact trimLine_sublist line

theorem trimLine_no_newline (line : Bytes) : newline ∉ trimLine line := fun h =>
  absurd (List.mem_takeWhile_imp h) (by decide)

theorem metaEntry_no_newline (line : Bytes) : newline ∉ metaEntry line := by
  unfold metaEntry
  split
  · exact trimLine_no_newline _
  · exact trimLine_no_newline line

/-- What a line of `room` bytes and an array of `size` bytes leave of a value. -/
structure CarriedText (key val : Bytes) (room size : Nat) : Prop where
  noNul : (0 : UInt8) ∉ val
  noNewline : newline ∉ val
  start : ∀ b ∈ val.head?, isBlank b = false
  short : val.length ≤ size - 1
  fits : key.length + 1 + val.length ≤ room

theorem skipBlanks_head (t : Bytes) : ∀ b ∈ (skipBlanks t).head?, isBlank b = false :=
  dropWhile_head isBlank t

theorem carriedText_of_lineSets {j : MetaKey} {n : Nat} (hsize : j.size = some n) {line val : Bytes}
    (h : lineSets j line = some (.text val)) : CarriedText j.text val line.length n := by
  unfold lineSets at h
  split at h
  · next hkey =>
    obtain ⟨value, hentry⟩ := startsWithKey_iff.mp hkey
    have hvalue : valueOf j.text (metaEntry line) = value := by simp [valueOf, hentry]
    rw [MetaKey.read_text hsize, hvalue] at h
    obtain rfl := MetaValue.text.inj (Option.some.inj h)
    have hfit : (CStr.fit n (skipBlanks value)).bytes <+: skipBlanks value :=
      (List.take_prefix _ _).trans (List.takeWhile_prefix _)
    have hskip : (skipBlanks value).Sublist value := List.dropWhile_sublist _
    have hlen := (metaEntry_sublist line).length_le
    rw [hentry, List.length_append, List.length_cons] at hlen
    refine ⟨(CStr.fit n _).noNul, fun hnew => ?_, fun b hb => ?_, (CStr.fit n _).short, ?_⟩
    · refine metaEntry_no_newline line ?_
      rw [hentry]
      exact List.mem_append_right _ (List.mem_cons_of_mem _ (hskip.mem (hfit.mem hnew)))
    · obtain ⟨rest, happend⟩ := hfit
      refine skipBlanks_head value b ?_
      rw [← happend, List.head?_append, Option.mem_def.mp hb]
      rfl
    · have hval := hfit.length_le
      have hle := hskip.length_le
      omega
  · cases h

/-! ## The parser -/

/-- The assignment of one branch. -/
def MetaFields.put (f : MetaFields) (v : Bytes) : MetaKey → MetaFields
  | .ip => { f with ip := .fit 64 (skipBlanks v) }
  | .sshUser => { f with sshUser := .fit 64 (skipBlanks v) }
  | .sshPassword => { f with sshPassword := .fit 128 (skipBlanks v) }
  | .sshPort => { f with sshPort := Int32.ofInt (atoi v) }
  | .sshKey => { f with sshKey := .fit 512 (skipBlanks v) }
  | .pid => { f with pid := Int32.ofInt (atoi v) }

theorem get_put (f : MetaFields) (v : Bytes) (j k : MetaKey) :
    (f.put v k).get j = if j = k then j.read v else f.get j := by
  cases j <;> cases k <;> rfl

variable {f : MetaFields} {line : Bytes}

theorem startsWithKey_other {j k : MetaKey} {entry : Bytes}
    (hk : startsWithKey k.text entry = true) (hne : j ≠ k) : startsWithKey j.text entry = false :=
  Bool.eq_false_iff.mpr fun hj =>
    hne (MetaKey.text_inj (startsWithKey_unique j.text_noEquals k.text_noEquals hj hk))

theorem readLine_of_key {k : MetaKey} (hk : startsWithKey k.text (metaEntry line) = true) :
    f.readLine line = f.put (valueOf k.text (metaEntry line)) k := by
  have hother : ∀ j, j ≠ k → startsWithKey j.text (metaEntry line) = false := fun _ =>
    startsWithKey_other hk
  have hip := hother .ip
  have huser := hother .sshUser
  have hpassword := hother .sshPassword
  have hport := hother .sshPort
  have hkey := hother .sshKey
  cases k <;> simp_all [MetaFields.readLine, MetaFields.put, MetaKey.text]

theorem readLine_of_none (h : ∀ k : MetaKey, startsWithKey k.text (metaEntry line) = false) :
    f.readLine line = f := by
  have hip := h .ip
  have huser := h .sshUser
  have hpassword := h .sshPassword
  have hport := h .sshPort
  have hkey := h .sshKey
  have hpid := h .pid
  simp_all [MetaFields.readLine, MetaKey.text]

theorem readLine_get (f : MetaFields) (line : Bytes) (j : MetaKey) :
    (f.readLine line).get j = (lineSets j line).getD (f.get j) := by
  by_cases hsome : ∃ k : MetaKey, startsWithKey k.text (metaEntry line) = true
  · obtain ⟨k, hk⟩ := hsome
    rw [readLine_of_key hk, get_put, lineSets]
    by_cases hjk : j = k
    · rw [if_pos hjk, hjk, if_pos hk, Option.getD_some]
    · rw [if_neg hjk, if_neg (by rw [startsWithKey_other hk hjk]; decide), Option.getD_none]
  · have hnone : ∀ k : MetaKey, startsWithKey k.text (metaEntry line) = false := fun k =>
      Bool.eq_false_iff.mpr fun hk => hsome ⟨k, hk⟩
    rw [readLine_of_none hnone, lineSets, if_neg (by rw [hnone j]; decide), Option.getD_none]

theorem foldl_readLine_get (lines : List Bytes) (f : MetaFields) (j : MetaKey) :
    (lines.foldl MetaFields.readLine f).get j = (lastValue j lines).getD (f.get j) := by
  induction lines generalizing f with
  | nil => rfl
  | cons line rest ih =>
      rw [List.foldl_cons, ih, readLine_get, ← List.singleton_append, lastValue_append,
        lastValue_singleton, Option.getD_or]

/-- The lines of a file; one that cannot be opened has none. -/
def textLines (text : Option Bytes) : List Bytes := text.elim [] (linesOf metaLineRoom)

theorem parseConfNetwork_get (text : Option Bytes) (f : MetaFields) (j : MetaKey) :
    (parseConfNetwork text f).get j = (lastValue j (textLines text)).getD (f.get j) := by
  cases text with
  | none => rfl
  | some t => exact foldl_readLine_get _ f j

theorem exists_get_ne (j : MetaKey) (v : MetaValue) : ∃ f : MetaFields, f.get j ≠ v := by
  let empty : MetaFields := ⟨.fit 64 [], .fit 64 [], .fit 128 [], .fit 512 [], 0, 0⟩
  let other : MetaFields := ⟨.fit 64 [1], .fit 64 [1], .fit 128 [1], .fit 512 [1], 1, 1⟩
  have hdiffer : empty.get j ≠ other.get j := by
    cases j <;> decide
  by_cases h : empty.get j = v
  · exact ⟨other, fun hv => hdiffer (h.trans hv.symm)⟩
  · exact ⟨empty, h⟩

/-- Two last values that act alike on every record are the same. -/
theorem getD_get_inj {j : MetaKey} {a b : Option MetaValue}
    (h : ∀ f : MetaFields, a.getD (f.get j) = b.getD (f.get j)) : a = b := by
  cases a with
  | none =>
      cases b with
      | none => rfl
      | some v =>
          obtain ⟨f, hf⟩ := exists_get_ne j v
          exact absurd (h f) hf
  | some u =>
      cases b with
      | none =>
          obtain ⟨f, hf⟩ := exists_get_ne j u
          exact absurd (h f).symm hf
      | some v => exact congrArg some (h ⟨.fit 64 [], .fit 64 [], .fit 128 [], .fit 512 [], 0, 0⟩)

end QnxHypervisor.GuestManager
