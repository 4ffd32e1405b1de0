import Mathlib.Data.List.Basic

/-! # The memory manager of startup

Two arrays before there is a heap: the RAM that is free, in order, and the ranges to
avoid when looking for some. Both end at an entry that is zero where the loops look,
so an entry with a zero inside hides what is behind it.
-/

namespace QnxHypervisor.BootMemory

abbrev Paddr := BitVec 64

/-- `TRUNC` and `ROUND`. -/
def trunc (x a : Paddr) : Paddr := x &&& ~~~(a - 1)

def round (x a : Paddr) : Paddr := trunc (x + (a - 1)) a

structure RamEntry where
  addr : Paddr
  size : Paddr
  deriving DecidableEq

structure AvoidEntry where
  start : Paddr
  stop : Paddr
  deriving DecidableEq

inductive Crash where
  | ramOverflow
  | avoidOverflow
  | wholeSysram
  | syspageFull
  /-- no crash of the source: the model's loop did not end -/
  | stuck
  deriving DecidableEq

def entrySize : Nat := 16
def maxRamListSize : Nat := 3 * 1024
def maxAvoidListSize : Nat := 1024

/-! ## Adding -/

/-- `ram_list_size`, with the entry that ends the array. -/
def ramListSize (ram : List RamEntry) : Nat := entrySize * (ram.length + 1)

def insertRam (new : RamEntry) : List RamEntry → List RamEntry
  | [] => [new]
  | r :: ram => if r.size = 0 ∨ new.addr < r.addr then new :: r :: ram else r :: insertRam new ram

/-- The second loop of `add_mem`, `p` being `r[-1]`. -/
def coalesceRam (p : RamEntry) : List RamEntry → List RamEntry
  | [] => [p]
  | r :: ram =>
      if r.size = 0 then p :: r :: ram
      else
        let e := p.addr + p.size
        if r.addr ≤ e then
          let e := if e < r.addr + r.size then r.addr + r.size else e
          coalesceRam ⟨p.addr, e - p.addr⟩ ram
        else p :: coalesceRam r ram

def addMem (start size : Paddr) (ram : List RamEntry) : Except Crash (List RamEntry) :=
  if size = 0 then .ok ram
  else if maxRamListSize - entrySize < ramListSize ram then .error .ramOverflow
  else
    match insertRam ⟨start, size⟩ ram with
    | [] => .ok []
    | p :: ram => .ok (coalesceRam p ram)

/-! ## Looking -/

/-- `fix_size`: `none` if all is lost. -/
def fixSize (p : Paddr × Paddr) (a : AvoidEntry) : Option (Paddr × Paddr) :=
  let (s, e) := p
  if a.stop ≤ s ∨ e ≤ a.start then some (s, e)
  else if a.start ≤ s then
    if e ≤ a.stop then none else some (a.stop, e)
  else if e < a.stop then some (s, a.start)
  else if e - a.stop < a.start - s then some (s, a.start)
  else some (a.stop, e)

/-- The entries that the loops see. -/
def liveRam (ram : List RamEntry) : List RamEntry := ram.takeWhile fun r => r.size != 0

def liveAvoid (avoid : List AvoidEntry) : List AvoidEntry := avoid.takeWhile fun a => a.stop != 0

/-- The piece of an entry that is left by the ranges to avoid. -/
def piece (avoid : List AvoidEntry) (r : RamEntry) : Option (Paddr × Paddr) :=
  (liveAvoid avoid).foldlM fixSize (r.addr, r.addr + r.size)

structure Wanted where
  rangeStart : Paddr
  rangeEnd : Paddr
  size : Paddr
  align : BitVec 32
  colour : BitVec 32
  mask : BitVec 32

/-- Where the memory would start in an entry, if there is room. -/
def Wanted.inEntry (w : Wanted) (avoid : List AvoidEntry) (r : RamEntry) : Option Paddr :=
  (piece avoid r).bind fun (s, e) =>
    let addr := round s (w.align.setWidth 64)
    let addr :=
      if addr &&& w.mask.setWidth 64 ≠ w.colour.setWidth 64 then
        let incr : BitVec 32 := ((w.mask - 1) ||| w.mask) + 1
        ((addr + incr.setWidth 64) &&& (~~~w.mask).setWidth 64) ||| w.colour.setWidth 64
      else addr
    let addr := if w.rangeStart ≠ 0 ∧ addr < w.rangeStart then w.rangeStart else addr
    let e := if w.rangeEnd ≠ 0 ∧ w.rangeEnd < e then w.rangeEnd else e
    if e ≤ addr then none else if w.size ≤ e - addr then some addr else none

/-- `none` for `NULL_PADDR`, here and below. -/
def findRamInRange (w : Wanted) (avoid : List AvoidEntry) (ram : List RamEntry) : Option Paddr :=
  (liveRam ram).findSome? (w.inEntry avoid)

def findRam (size : Paddr) (align colour mask : BitVec 32) (avoid : List AvoidEntry)
    (ram : List RamEntry) : Option Paddr :=
  findRamInRange ⟨0, -1, size, align, colour, mask⟩ avoid ram

/-- The loop of `find_top_ram_aligned_limit`. -/
def topLoop (size align limit : Paddr) (avoid : List AvoidEntry) :
    Paddr → List RamEntry → Paddr
  | top, [] => top
  | top, r :: ram =>
      match piece avoid r with
      | none => topLoop size align limit avoid top ram
      | some (s, e) =>
          if size ≤ e - s then
            let chk := if align ≠ 0 then trunc (e - size) align else e - size
            if s ≤ chk ∧ top < chk then
              if limit ≤ chk + size then
                if limit - size < s then top else limit - size
              else topLoop size align limit avoid chk ram
            else topLoop size align limit avoid top ram
          else topLoop size align limit avoid top ram

def findTopRamAlignedLimit (size : Paddr) (align pagesize : BitVec 32) (limit : Paddr)
    (avoid : List AvoidEntry) (ram : List RamEntry) : Option Paddr :=
  if limit < size then none
  else
    let size := round size (pagesize.setWidth 64)
    let top := topLoop size (align.setWidth 64) limit avoid 0 (liveRam ram)
    if top = 0 then none else some top

/-! ## Taking -/

/-- The loop of `alloc_ram` over `[addr, stop)`, with the entries it has passed. A
piece behind the block goes back through `add_mem`, and the loop meets it again. -/
def allocLoop (addr stop : Paddr) : Nat → List RamEntry → List RamEntry →
    Except Crash (List RamEntry)
  | 0, _, _ => .error .stuck
  | _ + 1, passed, [] => .ok passed
  | fuel + 1, passed, r :: ram =>
      if r.size = 0 then .ok (passed ++ r :: ram)
      else
        let s := r.addr
        let e := s + r.size
        if (addr ≤ s ∧ s < stop) ∨ (s ≤ addr ∧ addr < e) ∨ (s ≤ stop ∧ stop < e) then
          let e := if e < stop then stop else e
          let s := if addr < s then addr else s
          if addr = s ∧ stop = e then allocLoop addr stop fuel passed ram
          else if addr = s then allocLoop addr stop fuel (passed ++ [⟨stop, e - stop⟩]) ram
          else
            let r := { r with size := addr - s }
            if e ≠ stop then
              match addMem stop (e - stop) (passed ++ r :: ram) with
              | .error c => .error c
              | .ok all =>
                  let n := passed.length + 1
                  allocLoop addr stop fuel (all.take n) (all.drop n)
            else allocLoop addr stop fuel (passed ++ [r]) ram
        else allocLoop addr stop fuel (passed ++ [r]) ram

/-- `alloc_ram` of a block at an address, as far as the list is concerned. -/
def takeRam (addr size : Paddr) (ram : List RamEntry) : Except Crash (List RamEntry) :=
  allocLoop addr (addr + size) (ram.length + 2) [] ram

/-! ## Avoiding -/

/-- `avoid_ram` after `ws_init`; the array has its two first entries. -/
def avoidRam (start size : Paddr) (avoid : List AvoidEntry) : Except Crash (List AvoidEntry) :=
  let new :=
    match avoid.getLast? with
    | some last =>
        if last.stop = start then avoid.dropLast ++ [{ last with stop := last.stop + size }]
        else avoid ++ [⟨start, start + size⟩]
    | none => avoid ++ [⟨start, start + size⟩]
  if maxAvoidListSize < entrySize * (new.length + 1) then .error .avoidOverflow else .ok new

end QnxHypervisor.BootMemory
