import QnxHypervisor.MotorWire.Frame

/-! # The shared-memory contract of `motor_shm.h`

The region the controller publishes into: a snapshot of the latest row and a
ring of whole blocks, each guarded by its own sequence word. The functions of
this module run without interference; `MotorShm.Interleaved` splits them into
single loads and stores. Row type and rows per block stay parameters, since
the header is compiled against two versions of the wire contract.
-/

namespace QnxHypervisor.MotorShm

open MotorWire

variable {Row : Type}

def motorRingDepth : UInt32 := 16
def motorShmMagic : UInt32 := 0x4D435452
def readTries : Nat := 64

/-! ## Layout -/

/-- The guarded fields of the snapshot. -/
structure SnapshotData (Row : Type) where
  producerSeq : UInt32
  timestamp : UInt64
  flags : UInt16
  row : Row

/-- `shm_snapshot_t`. -/
structure ShmSnapshot (Row : Type) extends SnapshotData Row where
  seqlock : UInt32

/-- The guarded fields of a slot; also `motor_block_copy_t`. -/
structure BlockData (Row : Type) where
  producerSeq : UInt32
  timestamp : UInt64
  nRows : UInt16
  flags : UInt16
  rows : Nat → Row

/-- `shm_block_t`: `seq` is odd while the producer writes the other fields. -/
structure ShmBlock (Row : Type) extends BlockData Row where
  seq : UInt32

/-- `shm_block_ring_t`. -/
structure ShmBlockRing (Row : Type) where
  writePos : UInt64
  depth : UInt32
  slots : Nat → ShmBlock Row

/-- `shm_region_t`. -/
structure ShmRegion (Row : Type) where
  magic : UInt32
  version : UInt16
  rowSize : UInt32
  snapshot : ShmSnapshot Row
  ring : ShmBlockRing Row

def motorShmRegionInit (rowSize : UInt32) (r : ShmRegion Row) : ShmRegion Row where
  magic := motorShmMagic
  version := motorContractVersion
  rowSize := rowSize
  snapshot := { r.snapshot with seqlock := 0 }
  ring :=
    { depth := motorRingDepth
      writePos := 0
      slots := fun i =>
        if i < motorRingDepth.toNat then { r.ring.slots i with seq := 0 } else r.ring.slots i }

/-! ## Blocks as values -/

/-- What a consumer gets of a block: the header fields and the valid rows. -/
structure BlockCopy (Row : Type) where
  producerSeq : UInt32
  timestamp : UInt64
  nRows : UInt16
  flags : UInt16
  rows : List Row
  deriving DecidableEq

/-- Both sides bound `n_rows` by `MOTOR_MAX_ROWS_PER_BLOCK`. -/
def clampRows (maxRows : Nat) (n : UInt16) : UInt16 :=
  if maxRows < n.toNat then UInt16.ofNat maxRows else n

theorem clampRows_toNat (maxRows : Nat) (n : UInt16) :
    (clampRows maxRows n).toNat = min n.toNat maxRows := by
  have hn := n.toNat_lt
  unfold clampRows
  split
  · rw [UInt16.toNat_ofNat_of_lt' (show maxRows < 2 ^ 16 by omega)]
    omega
  · omega

theorem clampRows_idem (maxRows : Nat) (n : UInt16) :
    clampRows maxRows (clampRows maxRows n) = clampRows maxRows n := by
  apply UInt16.toNat_inj.mp
  simp only [clampRows_toNat]
  omega

/-- The block a publish call announces. -/
def blockOf (maxRows : Nat) (hdr : FrameHeader) (rows : Nat → Row) : BlockCopy Row where
  producerSeq := hdr.seq
  timestamp := hdr.timestamp
  nRows := clampRows maxRows hdr.nRows
  flags := hdr.flags
  rows := (List.range (clampRows maxRows hdr.nRows).toNat).map rows

def BlockData.block (maxRows : Nat) (b : BlockData Row) : BlockCopy Row where
  producerSeq := b.producerSeq
  timestamp := b.timestamp
  nRows := clampRows maxRows b.nRows
  flags := b.flags
  rows := (List.range (clampRows maxRows b.nRows).toNat).map b.rows

/-- Hand out a copied slot: its header fields and `n_rows` rows. -/
def copyOut (b : BlockData Row) : BlockCopy Row where
  producerSeq := b.producerSeq
  timestamp := b.timestamp
  nRows := b.nRows
  flags := b.flags
  rows := (List.range b.nRows.toNat).map b.rows

def BlockData.setRow (b : BlockData Row) (i : Nat) (row : Row) : BlockData Row :=
  { b with rows := fun j => if j = i then row else b.rows j }

/-- The copy loop `for (i = 0; i < n; ++i) b.rows[i] = rows[i]`. -/
def BlockData.copyRows (b : BlockData Row) (rows : Nat → Row) : Nat → BlockData Row
  | 0 => b
  | n + 1 => (b.copyRows rows n).setRow n (rows n)

theorem BlockData.copyRows_eq (b : BlockData Row) (rows : Nat → Row) (n : Nat) :
    b.copyRows rows n = { b with rows := fun j => if j < n then rows j else b.rows j } := by
  induction n with
  | zero => simp [copyRows]
  | succ n ih =>
      simp only [copyRows, ih, setRow]
      congr 1
      funext j
      by_cases hj : j = n
      · simp [hj]
      · have hlt : j < n + 1 ↔ j < n := by omega
        simp [hj, hlt]

/-! ## Producer -/

def motorSnapshotPublish (s : ShmSnapshot Row) (row : Row) (producerSeq : UInt32)
    (timestamp : UInt64) (flags : UInt16) : ShmSnapshot Row :=
  let s0 := s.seqlock
  { seqlock := s0 + 2, producerSeq, timestamp, flags, row }

/-- `slots[pos % depth]`. -/
def slotIndex (depth : UInt32) (pos : UInt64) : Nat := pos.toNat % depth.toNat

/-- The guarded fields after a publish into a slot that held `old`. -/
def storeBlock (maxRows : Nat) (hdr : FrameHeader) (rows : Nat → Row) (old : BlockData Row) :
    BlockData Row :=
  let n := clampRows maxRows hdr.nRows
  BlockData.copyRows
    { old with producerSeq := hdr.seq, timestamp := hdr.timestamp, nRows := n, flags := hdr.flags }
    rows n.toNat

def setSlot (slots : Nat → ShmBlock Row) (k : Nat) (b : ShmBlock Row) : Nat → ShmBlock Row :=
  fun i => if i = k then b else slots i

@[simp] theorem setSlot_self (slots : Nat → ShmBlock Row) (k : Nat) (b : ShmBlock Row) :
    setSlot slots k b k = b := by simp [setSlot]

theorem setSlot_ne (slots : Nat → ShmBlock Row) {k i : Nat} (b : ShmBlock Row) (h : i ≠ k) :
    setSlot slots k b i = slots i := by simp [setSlot, h]

def motorRingPublish (maxRows : Nat) (ring : ShmBlockRing Row) (hdr : FrameHeader)
    (rows : Nat → Row) : ShmBlockRing Row :=
  let pos := ring.writePos
  let k := slotIndex ring.depth pos
  let slot := ring.slots k
  let s0 := slot.seq
  { ring with
    writePos := pos + 1
    slots := setSlot ring.slots k
      { toBlockData := storeBlock maxRows hdr rows slot.toBlockData, seq := s0 + 2 } }

/-- A publish leaves exactly its block in the slot, whatever was there. -/
theorem block_storeBlock (maxRows : Nat) (hdr : FrameHeader) (rows : Nat → Row)
    (old : BlockData Row) :
    (storeBlock maxRows hdr rows old).block maxRows = blockOf maxRows hdr rows := by
  simp only [storeBlock, BlockData.copyRows_eq, BlockData.block, blockOf, clampRows_idem]
  congr 1
  apply List.map_congr_left
  intro i hi
  simp [List.mem_range.mp hi]

/-! ## Consumer -/

/-- One pass of the copy in `motor_ring_read_slot`. -/
def copySlot (maxRows : Nat) (slot out : BlockData Row) : BlockData Row :=
  let n := clampRows maxRows slot.nRows
  BlockData.copyRows
    { out with
      producerSeq := slot.producerSeq, timestamp := slot.timestamp, nRows := n
      flags := slot.flags }
    slot.rows n.toNat

def readSlotLoop (maxRows : Nat) (slot : ShmBlock Row) :
    Nat → BlockData Row → Bool × BlockData Row
  | 0, out => (false, out)
  | tries + 1, out =>
      let s1 := slot.seq
      if s1 &&& 1 ≠ 0 then readSlotLoop maxRows slot tries out
      else
        let out := copySlot maxRows slot.toBlockData out
        let s2 := slot.seq
        if s1 = s2 then (true, out) else readSlotLoop maxRows slot tries out

def motorRingReadSlot (maxRows : Nat) (ring : ShmBlockRing Row) (pos : UInt64)
    (out : BlockData Row) : Bool × BlockData Row :=
  readSlotLoop maxRows (ring.slots (slotIndex ring.depth pos)) readTries out

def motorRingWritePos (ring : ShmBlockRing Row) : UInt64 := ring.writePos

theorem block_copySlot (maxRows : Nat) (slot out : BlockData Row) :
    (copySlot maxRows slot out).block maxRows = slot.block maxRows := by
  simp only [copySlot, BlockData.copyRows_eq, BlockData.block, clampRows_idem]
  congr 1
  apply List.map_congr_left
  intro i hi
  simp [List.mem_range.mp hi]

theorem copyOut_copySlot (maxRows : Nat) (slot out : BlockData Row) :
    copyOut (copySlot maxRows slot out) = slot.block maxRows := by
  rw [← block_copySlot maxRows slot out]
  have hn : clampRows maxRows (copySlot maxRows slot out).nRows =
      (copySlot maxRows slot out).nRows := by
    simp only [copySlot, BlockData.copyRows_eq, clampRows_idem]
  simp only [copyOut, BlockData.block, hn]

theorem readSlot_even (maxRows : Nat) (ring : ShmBlockRing Row) (pos : UInt64)
    (out : BlockData Row)
    (heven : (ring.slots (slotIndex ring.depth pos)).seq &&& 1 = 0) :
    motorRingReadSlot maxRows ring pos out =
      (true, copySlot maxRows (ring.slots (slotIndex ring.depth pos)).toBlockData out) := by
  simp [motorRingReadSlot, readTries, readSlotLoop, heven]

theorem readSlotLoop_odd (maxRows : Nat) (slot : ShmBlock Row) (hodd : slot.seq &&& 1 ≠ 0)
    (tries : Nat) (out : BlockData Row) :
    readSlotLoop maxRows slot tries out = (false, out) := by
  induction tries with
  | zero => rfl
  | succ tries ih => simp [readSlotLoop, hodd, ih]

theorem readSlot_odd (maxRows : Nat) (ring : ShmBlockRing Row) (pos : UInt64)
    (out : BlockData Row)
    (hodd : (ring.slots (slotIndex ring.depth pos)).seq &&& 1 ≠ 0) :
    motorRingReadSlot maxRows ring pos out = (false, out) :=
  readSlotLoop_odd maxRows _ hodd readTries out

/-! ## A new object -/

def zeroRow : MotorRow :=
  { current := Vector.replicate 8 0, vibX := 0, vibY := 0, vibZ := 0, rpm := 0 }

def zeroBlock : ShmBlock MotorRow :=
  { seq := 0, producerSeq := 0, timestamp := 0, nRows := 0, flags := 0, rows := fun _ => zeroRow }

/-- A new shared-memory object is zero filled. -/
def zeroRegion : ShmRegion MotorRow where
  magic := 0
  version := 0
  rowSize := 0
  snapshot := { seqlock := 0, producerSeq := 0, timestamp := 0, flags := 0, row := zeroRow }
  ring := { writePos := 0, depth := 0, slots := fun _ => zeroBlock }

end QnxHypervisor.MotorShm
