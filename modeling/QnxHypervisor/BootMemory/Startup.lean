import QnxHypervisor.BootMemory.Search
import QnxHypervisor.BootMemory.SystemPage
import QnxHypervisor.Foundation.Machine

/-! # Memory over a startup

Every order of the calls that announce RAM, take it, look for it, forbid it or enter it
in the system page, with a history of what they did beside the two arrays.
-/

namespace QnxHypervisor.BootMemory

open Foundation Foundation.Span

/-- Where the image lies in RAM, `__PAGESIZE`, the last address that the CPU can decode, and
the page that `init_syspage_memory` leaves. -/
structure Boot where
  fullRamPaddr : Paddr
  ramSize : Paddr
  startupSize : Paddr
  pageSize : BitVec 32
  addressEnd : Paddr
  syspage : Syspage

structure Memory where
  ram : List RamEntry
  avoid : List AvoidEntry
  wsEarlyNext : Paddr
  tempSyspage : Option Paddr
  syspage : Syspage
  sysramAdded : Bool

def tempSyspageSize : Paddr := 48 * 1024

inductive Stop where
  | crash (c : Crash)
  | noReserve
  deriving DecidableEq

def orCrash {α : Type} : Except Crash α → Except Stop α
  | .ok a => .ok a
  | .error c => .error (.crash c)

/-- `ws_init`; the first workspace is the RAM list itself. -/
def wsInit (boot : Boot) : Except Stop Memory :=
  let next := round (boot.fullRamPaddr + boot.ramSize) 8
  let avoidSize := round (BitVec.ofNat 64 maxAvoidListSize) 8
  let ramSize := round (BitVec.ofNat 64 maxRamListSize) 8
  orCrash do
    let avoid ← avoidRam (next + avoidSize) ramSize [⟨next, next + avoidSize⟩]
    let avoid ← avoidRam boot.fullRamPaddr boot.startupSize avoid
    .ok ⟨[], avoid, next + avoidSize + ramSize, none, boot.syspage, false⟩

def Boot.imageStart (boot : Boot) : Paddr := boot.fullRamPaddr + boot.startupSize

def Boot.imageSize (boot : Boot) : Paddr := boot.ramSize - boot.startupSize

/-- A block at an address is taken: first out of the list, then, once `add_sysram` has been
called, out of the system page. -/
def takeBlock (addr size : Paddr) (m : Memory) : Except Crash Memory := do
  let ram ← takeRam addr size m.ram
  if m.sysramAdded then
    let syspage ← m.syspage.takeSysram addr size
    .ok { m with ram, syspage }
  else .ok { m with ram }

/-- The part of `add_ram` that finds space for the temporary system page, once. -/
def findTempSyspage (boot : Boot) (m : Memory) : Except Crash (Option Paddr × Memory) :=
  match m.tempSyspage with
  | some _ => .ok (none, m)
  | none =>
      match findRam tempSyspageSize boot.pageSize 0 0 m.avoid m.ram with
      | none => .ok (none, m)
      | some page => do
          let avoid ← avoidRam page tempSyspageSize m.avoid
          let syspage := { m.syspage with size := tempSyspageSize.toNat }
          .ok (some page, { m with avoid, tempSyspage := some page, syspage })

/-- The entries of `add_ram`. The board's `init_asinfo` has none of its own. -/
def enterRam (boot : Boot) (start size : Paddr) (p : Syspage) : Except Crash Syspage := do
  let memory := utf8 "memory"
  if p.asinfo = [] then
    let p ← p.asAdd 0 boot.addressEnd memory []
    let p ← p.asAdd 0 (4 * 1024 * 1024 * 1024 - 1) (utf8 "below4G") [memory]
    p.asAddContaining start (start + size - 1) (utf8 "ram") memory
  else p.asAddContaining start (start + size - 1) (utf8 "ram") memory

/-- `add_ram`; the block it hands out is the temporary system page. -/
def addRam (boot : Boot) (start size : Paddr) (m : Memory) :
    Except Stop (Option Paddr × Memory) := orCrash do
  let syspage ← enterRam boot start size m.syspage
  let ram ← addMem start size m.ram
  let m ← takeBlock boot.imageStart boot.imageSize { m with ram, syspage }
  findTempSyspage boot m

/-- `alloc_ram`, `none` for `NULL_PADDR`. Zeroing a block is left out. -/
def allocRam (addr : Option Paddr) (size : Paddr) (align : BitVec 32) (m : Memory) :
    Except Stop (Option Paddr × Memory) :=
  match addr.or (findRam size align 0 0 m.avoid m.ram) with
  | none => .ok (none, m)
  | some addr => orCrash do
      let m ← takeBlock addr size m
      .ok (some addr, m)

/-- `add_sysram`. -/
def addSysram (m : Memory) : Except Stop (Option Paddr × Memory) := orCrash do
  let syspage ← (liveRam m.ram).foldlM (fun p r =>
    p.asAddContaining r.addr (r.addr + r.size - 1) Syspage.sysram (utf8 "ram")) m.syspage
  .ok (none, { m with syspage, sysramAdded := true })

def wsAlloc (size : Paddr) (m : Memory) : Except Stop (Option Paddr × Memory) :=
  let size := round size 8
  if ramListSize m.ram ≤ entrySize then orCrash do
    let avoid ← avoidRam m.wsEarlyNext size m.avoid
    .ok (some m.wsEarlyNext, { m with avoid, wsEarlyNext := m.wsEarlyNext + size })
  else
    match findRam size 8 0 0 m.avoid m.ram with
    | none => .ok (none, m)
    | some paddr => orCrash do
        let avoid ← avoidRam paddr size m.avoid
        .ok (some paddr, { m with avoid })

/-- The end of `reserve_ram`: it crashes on `NULL_PADDR` and enters what it got. -/
def enterReserved (size : Paddr) (name : Bytes) :
    Except Stop (Option Paddr × Memory) → Except Stop (Option Paddr × Memory)
  | .error e => .error e
  | .ok (none, _) => .error .noReserve
  | .ok (some reserved, m) => orCrash do
      let name := if name = [] then utf8 "reserved" else name
      let syspage ← m.syspage.asAddContaining reserved (reserved + size - 1) name (utf8 "ram")
      .ok (some reserved, { m with syspage })

def reserveRam (size align : BitVec 32) (name : Bytes) (pagesize : BitVec 32) (lowRegion : Bool)
    (m : Memory) : Except Stop (Option Paddr × Memory) :=
  if size = 0 then .ok (none, m)
  else
    let align := if align ≠ 0 then align else pagesize
    let size := size.setWidth 64
    let reserved :=
      if lowRegion then some none
      else (findTopRamAlignedLimit size align pagesize (-1) m.avoid m.ram).map some
    match reserved with
    | none => .error .noReserve
    | some addr => enterReserved size name (allocRam addr size align m)

/-- What else startup puts into the system page; `grow` is any other section. -/
inductive PageCall where
  | asAdd (start stop : Paddr) (name : Bytes) (owner : List Bytes)
  | asAddContaining (start stop : Paddr) (name container : Bytes)
  | addString (name : Bytes)
  | grow (add : Nat)

def PageCall.run (p : Syspage) : PageCall → Except Crash Syspage
  | .asAdd start stop name owner => p.asAdd start stop name owner
  | .asAddContaining start stop name container => p.asAddContaining start stop name container
  | .addString name => p.addString name
  | .grow add => p.grow add

inductive Call where
  | add (start size : Paddr)
  | alloc (addr : Option Paddr) (size : Paddr) (align : BitVec 32)
  | avoid (start size : Paddr)
  | workspace (size : Paddr)
  | reserve (size align : BitVec 32) (name : Bytes) (pagesize : BitVec 32) (lowRegion : Bool)
  | sysram
  | page (call : PageCall)

/-- The block that a call hands out, and the memory behind it. -/
def Call.run (boot : Boot) (m : Memory) : Call → Except Stop (Option Paddr × Memory)
  | .add start size => addRam boot start size m
  | .alloc addr size align => allocRam addr size align m
  | .avoid start size => orCrash do
      let avoid ← avoidRam start size m.avoid
      .ok (none, { m with avoid })
  | .workspace size => wsAlloc size m
  | .reserve size align name pagesize lowRegion => reserveRam size align name pagesize lowRegion m
  | .sysram => addSysram m
  | .page call => orCrash do
      let syspage ← call.run m.syspage
      .ok (none, { m with syspage })

/-! ## Histories -/

/-- The addresses added as RAM, taken out of it, and announced as to be avoided. -/
structure History where
  added : Set Nat
  taken : Set Nat
  announced : Set Nat

def Boot.image (boot : Boot) : Set Nat := block boot.imageStart boot.imageSize

def blockAt (addr : Option Paddr) (size : Paddr) : Set Nat :=
  match addr with
  | none => ∅
  | some addr => block addr size

def History.after (boot : Boot) (h : History) (call : Call) (out : Option Paddr) : History :=
  match call with
  | .add start size =>
      { added := block start size ∪ h.added
        taken := boot.image ∪ h.taken
        announced := blockAt out tempSyspageSize ∪ h.announced }
  | .alloc _ size _ => { h with taken := blockAt out size ∪ h.taken }
  | .avoid start size => { h with announced := block start size ∪ h.announced }
  | .workspace size => { h with announced := blockAt out (round size 8) ∪ h.announced }
  | .reserve size _ _ _ _ => { h with taken := blockAt out (size.setWidth 64) ∪ h.taken }
  | .sysram => h
  | .page _ => h

/-- The ranges that `ws_init` announces: its own arrays and the startup code. -/
def Boot.history (boot : Boot) : History where
  added := ∅
  taken := ∅
  announced :=
    block (round (boot.fullRamPaddr + boot.ramSize) 8) (4 * 1024) ∪
      block boot.fullRamPaddr boot.startupSize

/-! ## Runs -/

def PowerOfTwo (n : BitVec 32) : Prop := ∃ k, n.toNat = 2 ^ k

/-- Blocks do not wrap, alignments are powers of two, and RAM is not added again after
it was taken, but for the image, which `add_ram` takes each time. -/
def Call.Fits (boot : Boot) (h : History) (m : Memory) : Call → Prop
  | .add start size => start.toNat + size.toNat ≤ ramTop ∧
      Disjoint (block start size) (h.taken \ boot.image)
  | .alloc (some addr) size _ => addr.toNat + size.toNat < 2 ^ 64
  | .alloc none _ align => PowerOfTwo align
  | .avoid start size => 0 < start.toNat + size.toNat ∧ start.toNat + size.toNat < 2 ^ 64
  | .workspace size => 0 < size.toNat ∧ size.toNat + 8 ≤ 2 ^ 64 ∧
      (m.ram = [] → m.wsEarlyNext.toNat + (round size 8).toNat < 2 ^ 64)
  | .reserve _ align _ pagesize _ => PowerOfTwo pagesize ∧ (align ≠ 0 → PowerOfTwo align)
  | .sysram => True
  | .page _ => True

structure Boot.Fits (boot : Boot) : Prop where
  startup : 0 < boot.startupSize.toNat ∧ boot.startupSize.toNat ≤ boot.ramSize.toNat
  top : boot.fullRamPaddr.toNat + boot.ramSize.toNat ≤ ramTop
  page : PowerOfTwo boot.pageSize

/-- A startup after its first workspace: the calls that fit and do not stop it. -/
def startup (boot : Boot) : Machine (Memory × History) Call where
  initial s := wsInit boot = .ok s.1 ∧ s.2 = boot.history
  step s call :=
    match call.run boot s.1 with
    | .error _ => none
    | .ok (out, m) => some (m, s.2.after boot call out)

def startupRun (boot : Boot) (m : Memory) (h : History) : Prop :=
  (startup boot).ReachableBy (fun s call => call.Fits boot s.2 s.1) (m, h)

end QnxHypervisor.BootMemory
