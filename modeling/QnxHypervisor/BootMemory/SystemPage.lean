import QnxHypervisor.BootMemory.Ram
import QnxHypervisor.Foundation.Text

/-! # The system page of startup

Named ranges of addresses, in sections that grow as long as the page has room. A range
is entered once for each part of it that lies in a range of the name it belongs under,
and a block that is taken later is cut out of the ranges named "sysram".
-/

namespace QnxHypervisor.BootMemory

open Foundation

/-- An `asinfo_entry`. Its end is inside; the names are its own and, going up, those of
its owners, and never change. -/
structure AsInfo where
  start : Paddr
  stop : Paddr
  names : List Bytes
  deriving DecidableEq

/-- The condition of `as_find_containing`. -/
def AsInfo.meets (as : AsInfo) (start stop : Paddr) (container : Bytes) : Bool :=
  as.names.contains container ∧
    (as.start ≤ start ∧ start ≤ as.stop ∨ as.start ≤ stop ∧ stop ≤ as.stop ∨
      start ≤ as.start ∧ as.stop ≤ stop)

/-- `elementSize` is `sizeof(struct asinfo_entry)`, of a header of the system. -/
structure Syspage where
  asinfo : List AsInfo
  strings : List Bytes
  stringsSize : Nat
  totalSize : Nat
  size : Nat
  elementSize : Nat

namespace Syspage

variable {p p' : Syspage} {c : Crash}

/-! ## Sections -/

/-- `grow_syspage_section`; where the sections lie is left out. -/
def grow (add : Nat) (p : Syspage) : Except Crash Syspage :=
  let add := (add + 7) / 8 * 8
  if 0 < add ∧ p.size < p.totalSize + add then .error .syspageFull
  else .ok { p with totalSize := p.totalSize + add }

/-- `add_string`: the section grows in chunks and keeps each string once. -/
def addString (name : Bytes) (p : Syspage) : Except Crash Syspage :=
  if p.strings.contains name then .ok p
  else
    let used := (p.strings.map fun s => s.length + 1).sum
    let len := name.length + 2
    let spare := p.stringsSize - used
    let more := if spare < len then (len - spare + 127) / 128 * 128 else 0
    match p.grow more with
    | .error c => .error c
    | .ok p => .ok { p with strings := p.strings ++ [name], stringsSize := p.stringsSize + more }

/-- `as_add`, with the names of the owner. -/
def asAdd (start stop : Paddr) (name : Bytes) (owner : List Bytes) (p : Syspage) :
    Except Crash Syspage :=
  match p.addString name with
  | .error c => .error c
  | .ok p =>
      match p.grow p.elementSize with
      | .error c => .error c
      | .ok p => .ok { p with asinfo := p.asinfo ++ [⟨start, stop, name :: owner⟩] }

theorem grow_stops {n : Nat} (h : p.grow n = .error c) : c = .syspageFull := by
  unfold grow at h
  dsimp only at h
  split at h <;> cases h
  rfl

theorem grow_asinfo {n : Nat} (h : p.grow n = .ok p') : p'.asinfo = p.asinfo := by
  unfold grow at h
  dsimp only at h
  split at h <;> cases h
  rfl

theorem addString_stops {name : Bytes} (h : p.addString name = .error c) : c = .syspageFull := by
  unfold addString at h
  split at h
  · cases h
  · dsimp only at h
    split at h
    · next hgrow =>
      cases h
      exact grow_stops hgrow
    · cases h

theorem addString_asinfo {name : Bytes} (h : p.addString name = .ok p') : p'.asinfo = p.asinfo := by
  unfold addString at h
  split at h
  · cases h
    rfl
  · dsimp only at h
    split at h
    · cases h
    · next hgrow =>
      cases h
      exact (grow_asinfo hgrow :)

variable {start stop : Paddr} {name : Bytes}

theorem asAdd_stops {owner : List Bytes} (h : p.asAdd start stop name owner = .error c) :
    c = .syspageFull := by
  unfold asAdd at h
  split at h
  · next hstring =>
    cases h
    exact addString_stops hstring
  · split at h
    · next hgrow =>
      cases h
      exact grow_stops hgrow
    · cases h

theorem asAdd_asinfo {owner : List Bytes} (h : p.asAdd start stop name owner = .ok p') :
    p'.asinfo = p.asinfo ++ [⟨start, stop, name :: owner⟩] := by
  unfold asAdd at h
  split at h
  · cases h
  · next hstring =>
    split at h
    · cases h
    · next hgrow =>
      cases h
      rw [← addString_asinfo hstring, ← grow_asinfo hgrow]

/-! ## Parts of a range -/

/-- An `as_range`, with the names of its owner. -/
structure Part where
  start : Paddr
  stop : Paddr
  owner : List Bytes

/-- The inner loop of `as_add_containing`: a part inside one that is listed takes it over. -/
def insertPart (new : Part) : List Part → List Part
  | [] => [new]
  | curr :: rest =>
      if curr.start ≤ new.start ∧ new.start ≤ curr.stop then
        if curr.start = new.start ∧ curr.stop = new.stop then { curr with owner := new.owner } :: rest
        else if curr.start = new.start then new :: { curr with start := new.stop + 1 } :: rest
        else
          let behind := if curr.stop ≠ new.stop then ⟨new.stop + 1, curr.stop, curr.owner⟩ :: rest else rest
          { curr with stop := new.start - 1 } :: new :: behind
      else curr :: insertPart new rest

def parts (start stop : Paddr) (container : Bytes) (p : Syspage) : List Part :=
  (p.asinfo.filter fun as => as.meets start stop container).foldl (fun list as =>
    insertPart ⟨if start < as.start then as.start else start, if as.stop < stop then as.stop else stop,
      as.names⟩ list) []

/-- The entries of `as_add_containing`, one after the other. -/
def addParts (name : Bytes) : List Part → Syspage → Except Crash Syspage
  | [], p => .ok p
  | part :: rest, p =>
      if part.start ≤ part.stop then
        match p.asAdd part.start part.stop name part.owner with
        | .error c => .error c
        | .ok p => addParts name rest p
      else addParts name rest p

def asAddContaining (start stop : Paddr) (name container : Bytes) (p : Syspage) :
    Except Crash Syspage :=
  addParts name (p.parts start stop container) p

theorem asAddContaining_stops {container : Bytes}
    (h : p.asAddContaining start stop name container = .error c) : c = .syspageFull := by
  unfold asAddContaining at h
  generalize p.parts start stop container = list at h
  induction list generalizing p with
  | nil => cases h
  | cons part rest ih =>
      unfold addParts at h
      split at h
      · split at h
        · next hadd =>
          cases h
          exact asAdd_stops hadd
        · exact ih h
      · exact ih h

/-! ## Cutting out a block -/

def sysram : Bytes := utf8 "sysram"

/-- The last loop of `alloc_ram`, from the entry at `off` on; `stop` is the last address of
the block. What is left behind the block is entered anew, and the loop meets it again. -/
def cutSysram (addr stop : Paddr) : Nat → Nat → Syspage → Except Crash Syspage
  | 0, _, _ => .error .stuck
  | fuel + 1, off, p =>
      match p.asinfo[off]? with
      | none => .ok p
      | some as =>
          if as.meets addr stop sysram then
            let e := if as.stop < stop then stop else as.stop
            let s := if addr < as.start then addr else as.start
            if addr = s ∧ stop = e then .error .wholeSysram
            else if addr = s then
              cutSysram addr stop fuel (off + 1)
                { p with asinfo := p.asinfo.set off { as with start := stop + 1 } }
            else
              let p := { p with asinfo := p.asinfo.set off { as with stop := addr - 1 } }
              if e ≠ stop then
                match p.asAdd (stop + 1) e sysram as.names.tail with
                | .error c => .error c
                | .ok p => cutSysram addr stop fuel (off + 1) p
              else cutSysram addr stop fuel (off + 1) p
          else cutSysram addr stop fuel (off + 1) p

def takeSysram (addr size : Paddr) (p : Syspage) : Except Crash Syspage :=
  cutSysram addr (addr + size - 1) (2 * p.asinfo.length + 1) 0 p

structure Covered (p : Syspage) (addr stop : Paddr) (as : AsInfo) : Prop where
  entered : as ∈ p.asinfo
  named : sysram ∈ as.names
  low : addr ≤ as.start
  high : as.stop ≤ stop

/-- The section before entry `off` is done. Behind the entries that there were, only such
are to come that begin and end behind the block. -/
structure Walked (before : Syspage) (addr stop : Paddr) (off : Nat) (p : Syspage) : Prop where
  same : ∀ i, off ≤ i → i < before.asinfo.length → p.asinfo[i]? = before.asinfo[i]?
  late : ∀ i as, off ≤ i → before.asinfo.length ≤ i → p.asinfo[i]? = some as →
    addr ≤ as.start ∧ stop < as.stop
  long : before.asinfo.length ≤ p.asinfo.length

section
variable {before : Syspage} {addr : Paddr} {off : Nat}

theorem Walked.refl (p : Syspage) : Walked p addr stop 0 p where
  same _ _ _ := rfl
  late i as _ hi has := by
    rw [List.getElem?_eq_none hi] at has
    cases has
  long := Nat.le_refl _

theorem Walked.skip (h : Walked before addr stop off p) : Walked before addr stop (off + 1) p :=
  ⟨fun i hi => h.same i (Nat.le_of_succ_le hi), fun i as hi => h.late i as (Nat.le_of_succ_le hi), h.long⟩

theorem Walked.set (h : Walked before addr stop off p) (as : AsInfo) :
    Walked before addr stop (off + 1) { p with asinfo := p.asinfo.set off as } := by
  have hset : ∀ i, off + 1 ≤ i → (p.asinfo.set off as)[i]? = p.asinfo[i]? := fun i hi =>
    List.getElem?_set_ne (Nat.ne_of_lt hi)
  refine ⟨fun i hi hin => (hset i hi).trans (h.skip.same i hi hin), fun i as' hi hin has => ?_, ?_⟩
  · exact h.skip.late i as' hi hin ((hset i hi).symm.trans has)
  · dsimp only
    rw [List.length_set]
    exact h.long

theorem Walked.push {as : AsInfo} (h : Walked before addr stop off p) (hlow : addr ≤ as.start)
    (hhigh : stop < as.stop) (hp : p'.asinfo = p.asinfo ++ [as]) :
    Walked before addr stop off p' := by
  refine ⟨fun i hi hin => ?_, fun i as' hi hin has => ?_, ?_⟩
  · rw [hp, List.getElem?_append_left (Nat.lt_of_lt_of_le hin h.long)]
    exact h.same i hi hin
  · rw [hp] at has
    by_cases hlt : i < p.asinfo.length
    · rw [List.getElem?_append_left hlt] at has
      exact h.late i as' hi hin has
    · rw [List.getElem?_append_right (Nat.le_of_not_lt hlt)] at has
      obtain rfl := List.mem_singleton.mp (List.mem_of_getElem? has)
      exact ⟨hlow, hhigh⟩
  · rw [hp, List.length_append]
    exact Nat.le_trans h.long (Nat.le_add_right _ _)

/-- An entry that does not begin and end behind the block is one of those that there were. -/
theorem Walked.entered {as : AsInfo} (h : Walked before addr stop off p)
    (has : p.asinfo[off]? = some as) (hlate : ¬ (addr ≤ as.start ∧ stop < as.stop)) :
    off < before.asinfo.length ∧ as ∈ before.asinfo := by
  have hold : off < before.asinfo.length := by
    by_contra hnew
    exact hlate (h.late off as (Nat.le_refl _) (Nat.le_of_not_lt hnew) has)
  exact ⟨hold, List.mem_of_getElem? ((h.same off (Nat.le_refl _) hold).symm.trans has)⟩

theorem lowEnd_iff {a b : Paddr} : a = (if a < b then a else b) ↔ a ≤ b := by
  split
  · next hlt => exact iff_of_true rfl (BitVec.le_of_lt hlt)
  · next hge => exact ⟨fun h => BitVec.le_of_eq h, fun h => BitVec.le_antisymm h (BitVec.not_lt.mp hge)⟩

theorem highEnd_iff {a b : Paddr} : b = (if a < b then b else a) ↔ a ≤ b := by
  split
  · next hlt => exact iff_of_true rfl (BitVec.le_of_lt hlt)
  · next hge =>
    exact ⟨fun h => BitVec.le_of_eq h.symm, fun h => BitVec.le_antisymm (BitVec.not_lt.mp hge) h⟩

theorem le_highEnd {a b : Paddr} : b ≤ (if a < b then b else a) := by
  split
  · exact BitVec.le_refl b
  · next hge => exact BitVec.not_lt.mp hge

/-- The entries that the walk adds are never cut, so it comes to an end. -/
theorem cutSysram_stops {fuel : Nat} (hfit : addr ≤ stop + 1) (hwalk : Walked before addr stop off p)
    (hfuel : p.asinfo.length - off + (before.asinfo.length - off) < fuel)
    (h : cutSysram addr stop fuel off p = .error c) :
    c = .syspageFull ∨ c = .wholeSysram ∧ ∃ as, Covered before addr stop as := by
  induction fuel generalizing off p with
  | zero => exact absurd hfuel (Nat.not_lt_zero _)
  | succ fuel ih =>
      unfold cutSysram at h
      split at h
      · cases h
      · next as has =>
        have hoff : off < p.asinfo.length := (List.getElem?_eq_some_iff.mp has).1
        split at h
        · next hmeets =>
          obtain ⟨e, he, hwithin, hend⟩ : ∃ e, (if as.stop < stop then stop else as.stop) = e ∧
            (stop = e ↔ as.stop ≤ stop) ∧ stop ≤ e := ⟨_, rfl, highEnd_iff, le_highEnd⟩
          simp only [he, lowEnd_iff, hwithin] at h
          split at h
          · next hwhole =>
            cases h
            have hentered := hwalk.entered has fun hlate => BitVec.not_lt.mpr hwhole.2 hlate.2
            simp only [AsInfo.meets, decide_eq_true_eq] at hmeets
            exact .inr ⟨rfl, as, hentered.2, List.contains_iff_mem.mp hmeets.1, hwhole.1, hwhole.2⟩
          · next hpart =>
            split at h
            · refine ih (hwalk.set _) ?_ h
              simp only [List.length_set]
              omega
            · next hcut =>
              have hold := (hwalk.entered has fun hlate => hcut hlate.1).1
              split at h
              · next hbehind =>
                split at h
                · next hadd =>
                  cases h
                  exact .inl (asAdd_stops hadd)
                · next p₁ hadd =>
                  have hadded := asAdd_asinfo hadd
                  refine ih ((hwalk.set _).push hfit ?_ hadded) ?_ h
                  · exact BitVec.lt_of_le_ne hend hbehind.symm
                  · rw [hadded]
                    simp only [List.length_append, List.length_set, List.length_singleton]
                    omega
              · refine ih (hwalk.set _) ?_ h
                simp only [List.length_set]
                omega
        · exact ih hwalk.skip (by omega) h

theorem takeSysram_stops {size : Paddr} (hfit : addr.toNat + size.toNat < 2 ^ 64)
    (h : p.takeSysram addr size = .error c) :
    c = .syspageFull ∨ c = .wholeSysram ∧ ∃ as, Covered p addr (addr + size - 1) as := by
  refine cutSysram_stops ?_ (.refl p) ?_ h
  · rw [BitVec.sub_add_cancel, BitVec.le_def, BitVec.toNat_add, Nat.mod_eq_of_lt hfit]
    exact Nat.le_add_right _ _
  · omega

end

end Syspage

end QnxHypervisor.BootMemory
