import Mathlib.Logic.Function.Basic
import QnxHypervisor.Foundation.Machine
import QnxHypervisor.Foundation.Seqlock
import QnxHypervisor.MotorShm.Region

/-! # Publishing beside consumers, one access at a time

The calls of `motor_shm.h` split into their single loads, stores and field
copies. Consumers never write the region, so a system is the region with its one
producer, next to whatever the consumers keep.
-/

namespace QnxHypervisor.MotorShm

open Foundation MotorWire

variable {Row γ α : Type} {maxRows : Nat}

/-! ## The guarded accesses -/

/-- What `motor_ring_publish` stores while `seq` is odd. -/
def ringStores (maxRows : Nat) (hdr : FrameHeader) (rows : Nat → Row) :
    List (BlockData Row → BlockData Row) :=
  let n := clampRows maxRows hdr.nRows
  [fun slot => { slot with producerSeq := hdr.seq },
    fun slot => { slot with timestamp := hdr.timestamp },
    fun slot => { slot with nRows := n },
    fun slot => { slot with flags := hdr.flags }] ++
  (List.range n.toNat).map fun i slot => slot.setRow i (rows i)

theorem stored_setRow (rows : Nat → Row) (b : BlockData Row) (n : Nat) :
    Cell.stored ((List.range n).map fun i (slot : BlockData Row) => slot.setRow i (rows i)) b =
      b.copyRows rows n := by
  induction n with
  | zero => rfl
  | succ n ih =>
      rw [List.range_succ, List.map_append, Cell.stored_append, ih]
      rfl

/-- Together the stores are the uninterrupted `storeBlock`. -/
theorem stored_ringStores (maxRows : Nat) (hdr : FrameHeader) (rows : Nat → Row)
    (old : BlockData Row) :
    Cell.stored (ringStores maxRows hdr rows) old = storeBlock maxRows hdr rows old := by
  simp only [ringStores, Cell.stored_append, stored_setRow]
  rfl

/-- What `motor_snapshot_publish` stores while `seqlock` is odd. -/
def snapshotStores (d : SnapshotData Row) : List (SnapshotData Row → SnapshotData Row) :=
  [fun s => { s with row := d.row },
    fun s => { s with producerSeq := d.producerSeq },
    fun s => { s with timestamp := d.timestamp },
    fun s => { s with flags := d.flags }]

theorem stored_snapshotStores (d old : SnapshotData Row) :
    Cell.stored (snapshotStores d) old = d := rfl

def rowLoads (out : BlockData Row) (i : Nat) : Nat → Loads (BlockData Row) (BlockData Row)
  | 0 => .ret out
  | left + 1 => .load fun slot => rowLoads (out.setRow i (slot.rows i)) (i + 1) left

/-- What `motor_ring_read_slot` loads between the two loads of `seq`. -/
def slotLoads (maxRows : Nat) (out : BlockData Row) : Loads (BlockData Row) (BlockData Row) :=
  .load fun slot =>
    let n := clampRows maxRows slot.nRows
    .load fun slot =>
      let out := { out with producerSeq := slot.producerSeq }
      .load fun slot =>
        let out := { out with timestamp := slot.timestamp }
        let out := { out with nRows := n }
        .load fun slot =>
          let out := { out with flags := slot.flags }
          rowLoads out 0 n.toNat

theorem run_rowLoads (slot b : BlockData Row) (i left : Nat) :
    (rowLoads (b.copyRows slot.rows i) i left).run slot = b.copyRows slot.rows (i + left) := by
  induction left generalizing i with
  | zero => rfl
  | succ left ih =>
      rw [show i + (left + 1) = i + 1 + left by omega, ← ih (i + 1)]
      rfl

theorem run_slotLoads (maxRows : Nat) (out slot : BlockData Row) :
    (slotLoads maxRows out).run slot = copySlot maxRows slot out := by
  have hrows := run_rowLoads slot
    { out with
      producerSeq := slot.producerSeq, timestamp := slot.timestamp
      nRows := clampRows maxRows slot.nRows, flags := slot.flags }
    0 (clampRows maxRows slot.nRows).toNat
  rw [Nat.zero_add] at hrows
  exact hrows

/-- Where `motor_snapshot_read` stores: the row, and fields whose pointer may be
null. -/
structure SnapshotOut (Row : Type) where
  row : Row
  seq : Option UInt32
  ts : Option UInt64
  flags : Option UInt16

/-- `if (out_p) *out_p = s->field`. -/
def loadInto {D O A : Type} (p : Option A) (field : D → A) (k : Option A → Loads D O) : Loads D O :=
  match p with
  | none => k none
  | some _ => .load fun d => k (some (field d))

/-- What `motor_snapshot_read` loads between the two loads of `seqlock`. -/
def snapshotLoads (out : SnapshotOut Row) : Loads (SnapshotData Row) (SnapshotOut Row) :=
  .load fun s =>
    let row := s.row
    loadInto out.seq SnapshotData.producerSeq fun seq =>
      loadInto out.ts SnapshotData.timestamp fun ts =>
        loadInto out.flags SnapshotData.flags fun flags =>
          .ret { row, seq, ts, flags }

theorem run_loadInto {D O A : Type} (p : Option A) (field : D → A) (k : Option A → Loads D O)
    (d : D) : (loadInto p field k).run d = (k (p.map fun _ => field d)).run d := by
  cases p <;> rfl

theorem run_snapshotLoads (out : SnapshotOut Row) (s : SnapshotData Row) :
    (snapshotLoads out).run s =
      { row := s.row, seq := out.seq.map fun _ => s.producerSeq
        ts := out.ts.map fun _ => s.timestamp, flags := out.flags.map fun _ => s.flags } := by
  simp only [snapshotLoads, Loads.run, run_loadInto]

/-! ## The region and its producer -/

inductive PublishCall (Row : Type) where
  | ring (hdr : FrameHeader) (rows : Nat → Row)
  | snapshot (d : SnapshotData Row)

/-- The producer before its next access, or between two calls. -/
inductive Producer (Row : Type) where
  | idle
  | loadPos (hdr : FrameHeader) (rows : Nat → Row)
  | loadDepth (hdr : FrameHeader) (rows : Nat → Row) (pos : UInt64)
  | writeSlot (hdr : FrameHeader) (rows : Nat → Row) (pos : UInt64) (k : Nat)
      (w : Writer (BlockData Row))
  | storePos (pos : UInt64)
  | writeSnapshot (d : SnapshotData Row) (w : Writer (SnapshotData Row))

def PublishCall.entered : PublishCall Row → Producer Row
  | .ring hdr rows => .loadPos hdr rows
  | .snapshot d => .writeSnapshot d (.load (snapshotStores d))

/-- The shared region with its producer. `published` and `snapshots` are history:
the blocks and snapshots whose sequence word has been made even again. -/
structure Live (Row : Type) where
  writePos : UInt64
  depth : UInt32
  slots : Nat → Cell (BlockData Row)
  snapshot : Cell (SnapshotData Row)
  producer : Producer Row
  published : List (BlockCopy Row)
  snapshots : List (SnapshotData Row)

namespace Live

/-- A region nothing has been published into. -/
def start (r : ShmRegion Row) : Live Row where
  writePos := r.ring.writePos
  depth := r.ring.depth
  slots := fun i =>
    { word := (r.ring.slots i).seq, data := (r.ring.slots i).toBlockData, commits := 0
      busy := false }
  snapshot :=
    { word := r.snapshot.seqlock, data := r.snapshot.toSnapshotData, commits := 0, busy := false }
  producer := .idle
  published := []
  snapshots := []

/-- Enter a publish function. -/
def call (l : Live Row) (p : PublishCall Row) : Option (Live Row) :=
  match l.producer with
  | .idle => some { l with producer := p.entered }
  | _ => none

theorem call_eq {l l' : Live Row} {p : PublishCall Row} (h : l.call p = some l') :
    l.producer = .idle ∧ l' = { l with producer := p.entered } := by
  cases hp : l.producer <;> simp only [call, hp, Option.some.injEq] at h <;> try cases h
  exact ⟨rfl, rfl⟩

/-- The producer's next access. -/
def produce (maxRows : Nat) (l : Live Row) : Option (Live Row) :=
  match l.producer with
  | .idle => none
  | .loadPos hdr rows => some { l with producer := .loadDepth hdr rows l.writePos }
  | .loadDepth hdr rows pos =>
      some
        { l with
          producer := .writeSlot hdr rows pos (slotIndex l.depth pos)
            (.load (ringStores maxRows hdr rows)) }
  | .writeSlot hdr rows pos k w =>
      let (c, rest) := w.step (l.slots k)
      match rest with
      | some w =>
          some
            { l with
              slots := Function.update l.slots k c, producer := .writeSlot hdr rows pos k w }
      | none =>
          some
            { l with
              slots := Function.update l.slots k c, producer := .storePos pos
              published := l.published ++ [blockOf maxRows hdr rows] }
  | .storePos pos => some { l with writePos := pos + 1, producer := .idle }
  | .writeSnapshot d w =>
      let (c, rest) := w.step l.snapshot
      match rest with
      | some w => some { l with snapshot := c, producer := .writeSnapshot d w }
      | none =>
          some { l with snapshot := c, producer := .idle, snapshots := l.snapshots ++ [d] }

inductive Move (maxRows : Nat) (l : Live Row) : Live Row → Prop
  | loadPos (hdr : FrameHeader) (rows : Nat → Row) (hp : l.producer = .loadPos hdr rows) :
      Move maxRows l { l with producer := .loadDepth hdr rows l.writePos }
  | loadDepth (hdr : FrameHeader) (rows : Nat → Row) (pos : UInt64)
      (hp : l.producer = .loadDepth hdr rows pos) :
      Move maxRows l
        { l with
          producer := .writeSlot hdr rows pos (slotIndex l.depth pos)
            (.load (ringStores maxRows hdr rows)) }
  | storeSlot (hdr : FrameHeader) (rows : Nat → Row) (pos : UInt64) (k : Nat)
      (w w' : Writer (BlockData Row)) (c : Cell (BlockData Row))
      (hp : l.producer = .writeSlot hdr rows pos k w) (hs : w.step (l.slots k) = (c, some w')) :
      Move maxRows l
        { l with
          slots := Function.update l.slots k c, producer := .writeSlot hdr rows pos k w' }
  | commitSlot (hdr : FrameHeader) (rows : Nat → Row) (pos : UInt64) (k : Nat)
      (w : Writer (BlockData Row)) (c : Cell (BlockData Row))
      (hp : l.producer = .writeSlot hdr rows pos k w) (hs : w.step (l.slots k) = (c, none)) :
      Move maxRows l
        { l with
          slots := Function.update l.slots k c, producer := .storePos pos
          published := l.published ++ [blockOf maxRows hdr rows] }
  | storePos (pos : UInt64) (hp : l.producer = .storePos pos) :
      Move maxRows l { l with writePos := pos + 1, producer := .idle }
  | storeSnapshot (d : SnapshotData Row) (w w' : Writer (SnapshotData Row))
      (c : Cell (SnapshotData Row)) (hp : l.producer = .writeSnapshot d w)
      (hs : w.step l.snapshot = (c, some w')) :
      Move maxRows l { l with snapshot := c, producer := .writeSnapshot d w' }
  | commitSnapshot (d : SnapshotData Row) (w : Writer (SnapshotData Row))
      (c : Cell (SnapshotData Row)) (hp : l.producer = .writeSnapshot d w)
      (hs : w.step l.snapshot = (c, none)) :
      Move maxRows l
        { l with snapshot := c, producer := .idle, snapshots := l.snapshots ++ [d] }

theorem produce_move {l l' : Live Row} (h : l.produce maxRows = some l') : Move maxRows l l' := by
  cases hp : l.producer with
  | idle => simp [produce, hp] at h
  | loadPos hdr rows =>
      simp only [produce, hp, Option.some.injEq] at h
      exact h ▸ .loadPos hdr rows hp
  | loadDepth hdr rows pos =>
      simp only [produce, hp, Option.some.injEq] at h
      exact h ▸ .loadDepth hdr rows pos hp
  | writeSlot hdr rows pos k w =>
      rcases hs : w.step (l.slots k) with ⟨c, _ | w'⟩ <;>
        simp only [produce, hp, hs, Option.some.injEq] at h
      · exact h ▸ .commitSlot hdr rows pos k w c hp hs
      · exact h ▸ .storeSlot hdr rows pos k w w' c hp hs
  | storePos pos =>
      simp only [produce, hp, Option.some.injEq] at h
      exact h ▸ .storePos pos hp
  | writeSnapshot d w =>
      rcases hs : w.step l.snapshot with ⟨c, _ | w'⟩ <;>
        simp only [produce, hp, hs, Option.some.injEq] at h
      · exact h ▸ .commitSnapshot d w c hp hs
      · exact h ▸ .storeSnapshot d w w' c hp hs

end Live

end QnxHypervisor.MotorShm
