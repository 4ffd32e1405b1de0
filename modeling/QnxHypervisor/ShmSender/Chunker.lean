import Mathlib.Algebra.Ring.Nat
import Mathlib.Data.List.Forall2
import QnxHypervisor.MotorShm.Region

/-! # The chunker of `shm_sender`

`chunker.hpp` groups polled blocks into chunks of at least `min_rows` rows. A run is any
sequence of `feed` and `flush`; beside the chunker stand the blocks that were fed and the
chunks that were returned.
-/

namespace QnxHypervisor.ShmSender

open MotorShm

/-! ## Source types -/

/-- `motor_row_copy_t`. -/
structure MotorRowCopy where
  current : Vector UInt16 3
  vibX : Int16
  vibY : Int16
  vibZ : Int16
  rpm : UInt16

/-- `motor_block_copy_t`. -/
abbrev MotorBlockCopy := BlockData MotorRowCopy

structure MotorRow where
  current : Vector UInt16 3
  vibX : Int16
  vibY : Int16
  vibZ : Int16
  rpm : UInt16

structure BlockRef where
  producerSeq : UInt32
  timestamp : UInt64
  flags : UInt16
  rows : List MotorRow

structure Chunk where
  chunkId : UInt64
  blocks : List BlockRef

def totalRows (blocks : List BlockRef) : Nat := (blocks.map fun b => b.rows.length).sum

def Chunk.totalRows (c : Chunk) : Nat := ShmSender.totalRows c.blocks

structure Chunker where
  minRows : Nat
  pending : Chunk
  nextChunkId : UInt64

def Chunk.empty : Chunk := ⟨0, []⟩

def Chunker.new (minRows : Nat) : Chunker := ⟨minRows, .empty, 0⟩

/-! ## Source functions -/

/-- The row that the loop of `feed` pushes. -/
def copyRow (src : MotorRowCopy) : MotorRow where
  current := #v[src.current[0], src.current[1], src.current[2]]
  vibX := src.vibX
  vibY := src.vibY
  vibZ := src.vibZ
  rpm := src.rpm

def blockRef (blk : MotorBlockCopy) : BlockRef where
  producerSeq := blk.producerSeq
  timestamp := blk.timestamp
  flags := blk.flags
  rows := (List.range blk.nRows.toNat).map fun i => copyRow (blk.rows i)

/-- Move the pending chunk out under the next id. -/
def Chunker.take (c : Chunker) : Option Chunk × Chunker :=
  (some { c.pending with chunkId := c.nextChunkId },
    { c with pending := .empty, nextChunkId := c.nextChunkId + 1 })

def Chunker.feed (c : Chunker) (blk : MotorBlockCopy) : Option Chunk × Chunker :=
  let c := { c with pending := { c.pending with blocks := c.pending.blocks ++ [blockRef blk] } }
  if c.minRows ≤ c.pending.totalRows then c.take else (none, c)

def Chunker.flush (c : Chunker) : Option Chunk × Chunker :=
  if c.pending.blocks = [] then (none, c) else c.take

/-! ## Runs -/

inductive ChunkerEvent where
  | feed (blk : MotorBlockCopy)
  | flush

structure ChunkerRun where
  chunker : Chunker
  fed : List MotorBlockCopy
  /-- the chunks that `feed` has returned, and in `all` those of `flush` as well -/
  full : List Chunk
  all : List Chunk

def chunkerStep (s : ChunkerRun) : ChunkerEvent → ChunkerRun
  | .feed blk =>
      let r := s.chunker.feed blk
      { chunker := r.2
        fed := s.fed ++ [blk]
        full := s.full ++ r.1.toList
        all := s.all ++ r.1.toList }
  | .flush =>
      let r := s.chunker.flush
      { s with chunker := r.2, all := s.all ++ r.1.toList }

def chunkerRun (minRows : Nat) (es : List ChunkerEvent) : ChunkerRun :=
  es.foldl chunkerStep ⟨.new minRows, [], [], []⟩

/-! ## What is promised -/

/-- All fields equal. -/
structure RowCarried (src : MotorRowCopy) (row : MotorRow) : Prop where
  current : row.current = src.current
  vibX : row.vibX = src.vibX
  vibY : row.vibY = src.vibY
  vibZ : row.vibZ = src.vibZ
  rpm : row.rpm = src.rpm

/-- The metadata and the `n_rows` rows of the block. -/
structure Carried (blk : MotorBlockCopy) (ref : BlockRef) : Prop where
  producerSeq : ref.producerSeq = blk.producerSeq
  timestamp : ref.timestamp = blk.timestamp
  flags : ref.flags = blk.flags
  rows : List.Forall₂ RowCarried ((List.range blk.nRows.toNat).map blk.rows) ref.rows

structure KeepsOrder (minRows : Nat) (s : ChunkerRun) : Prop where
  blocks : List.Forall₂ Carried s.fed (s.all.flatMap Chunk.blocks ++ s.chunker.pending.blocks)
  ids : s.all.map Chunk.chunkId = (List.range s.all.length).map UInt64.ofNat
  enough : ∀ c ∈ s.full, minRows ≤ c.totalRows
  notMore : ∀ c ∈ s.full, totalRows c.blocks.dropLast < minRows ∨ c.blocks.dropLast = []
  flushed : s.chunker.flush.2.pending.blocks = []
  flushes : s.chunker.flush.1.isSome = true ↔ s.chunker.pending.blocks ≠ []

/-! ## The invariant -/

variable {minRows : Nat} {s : ChunkerRun}

/-- What is pending stays below the threshold, and the next id is the number of chunks. -/
structure ChunkerInv (minRows : Nat) (s : ChunkerRun) : Prop where
  threshold : s.chunker.minRows = minRows
  below : totalRows s.chunker.pending.blocks < minRows ∨ s.chunker.pending.blocks = []
  nextId : s.chunker.nextChunkId = UInt64.ofNat s.all.length
  blocks : List.Forall₂ Carried s.fed (s.all.flatMap Chunk.blocks ++ s.chunker.pending.blocks)
  ids : s.all.map Chunk.chunkId = (List.range s.all.length).map UInt64.ofNat
  enough : ∀ c ∈ s.full, minRows ≤ c.totalRows
  notMore : ∀ c ∈ s.full, totalRows c.blocks.dropLast < minRows ∨ c.blocks.dropLast = []

theorem copyRow_carried (src : MotorRowCopy) : RowCarried src (copyRow src) where
  current := by
    refine Vector.ext fun i hi => ?_
    match i, hi with
    | 0, _ => rfl
    | 1, _ => rfl
    | 2, _ => rfl
  vibX := rfl
  vibY := rfl
  vibZ := rfl
  rpm := rfl

theorem blockRef_carried (blk : MotorBlockCopy) : Carried blk (blockRef blk) where
  producerSeq := rfl
  timestamp := rfl
  flags := rfl
  rows := by
    rw [blockRef, List.forall₂_map_left_iff, List.forall₂_map_right_iff, List.forall₂_same]
    exact fun i _ => copyRow_carried (blk.rows i)

theorem ids_append {all : List Chunk} {blocks : List BlockRef}
    (h : all.map Chunk.chunkId = (List.range all.length).map UInt64.ofNat) :
    (all ++ [(⟨UInt64.ofNat all.length, blocks⟩ : Chunk)]).map Chunk.chunkId =
      (List.range (all ++ [(⟨UInt64.ofNat all.length, blocks⟩ : Chunk)]).length).map UInt64.ofNat := by
  rw [List.length_append, List.length_singleton, List.range_succ, List.map_append, List.map_append,
    h]
  rfl

theorem ChunkerInv.begin (minRows : Nat) : ChunkerInv minRows ⟨.new minRows, [], [], []⟩ where
  threshold := rfl
  below := .inr rfl
  nextId := rfl
  blocks := .nil
  ids := rfl
  enough := fun _ h => by cases h
  notMore := fun _ h => by cases h

theorem ChunkerInv.taken {fed : List MotorBlockCopy} {full : List Chunk} {blocks : List BlockRef}
    (h : ChunkerInv minRows s) (hblocks : List.Forall₂ Carried fed (s.all.flatMap Chunk.blocks ++ blocks))
    (henough : ∀ c ∈ full, minRows ≤ c.totalRows)
    (hnotMore : ∀ c ∈ full, totalRows c.blocks.dropLast < minRows ∨ c.blocks.dropLast = []) :
    ChunkerInv minRows
      { chunker := ⟨minRows, .empty, s.chunker.nextChunkId + 1⟩
        fed, full, all := s.all ++ [⟨s.chunker.nextChunkId, blocks⟩] } where
  threshold := rfl
  below := .inr rfl
  nextId := by
    rw [h.nextId, List.length_append]
    exact (UInt64.ofNat_add _ 1).symm
  blocks := by
    rw [List.flatMap_append, List.flatMap_singleton]
    exact (List.append_nil _).symm ▸ hblocks
  ids := by
    rw [h.nextId]
    exact ids_append h.ids
  enough := henough
  notMore := hnotMore

theorem ChunkerInv.feed (h : ChunkerInv minRows s) (blk : MotorBlockCopy) :
    ChunkerInv minRows (chunkerStep s (.feed blk)) := by
  have hblocks : List.Forall₂ Carried (s.fed ++ [blk])
      (s.all.flatMap Chunk.blocks ++ (s.chunker.pending.blocks ++ [blockRef blk])) := by
    rw [← List.append_assoc]
    exact List.rel_append h.blocks (.cons (blockRef_carried blk) .nil)
  simp only [chunkerStep, Chunker.feed, Chunker.take, h.threshold]
  split
  · next hfull =>
    refine h.taken hblocks ?_ ?_
    · intro c hc
      rcases List.mem_append.mp hc with hold | hnew
      · exact h.enough c hold
      · rw [List.mem_singleton.mp hnew]
        exact hfull
    · intro c hc
      rcases List.mem_append.mp hc with hold | hnew
      · exact h.notMore c hold
      · rw [List.mem_singleton.mp hnew]
        simp only [List.dropLast_concat]
        exact h.below
  · next hless =>
    simp only [Option.toList_none, List.append_nil]
    exact
      { threshold := rfl
        below := .inl (Nat.lt_of_not_le hless)
        nextId := h.nextId
        blocks := hblocks
        ids := h.ids
        enough := h.enough
        notMore := h.notMore }

theorem ChunkerInv.flush (h : ChunkerInv minRows s) : ChunkerInv minRows (chunkerStep s .flush) := by
  simp only [chunkerStep, Chunker.flush, Chunker.take, h.threshold]
  split
  · simp only [Option.toList_none, List.append_nil]
    exact ⟨h.threshold, h.below, h.nextId, h.blocks, h.ids, h.enough, h.notMore⟩
  · exact h.taken h.blocks h.enough h.notMore

theorem chunkerInv_run (minRows : Nat) (es : List ChunkerEvent) :
    ChunkerInv minRows (chunkerRun minRows es) := by
  have hrun : ∀ s, ChunkerInv minRows s → ChunkerInv minRows (es.foldl chunkerStep s) := by
    induction es with
    | nil => exact fun _ h => h
    | cons e es ih =>
        intro s h
        cases e with
        | feed blk => exact ih _ (h.feed blk)
        | flush => exact ih _ h.flush
  exact hrun _ (.begin minRows)

theorem flush_pending (c : Chunker) : c.flush.2.pending.blocks = [] := by
  unfold Chunker.flush
  split
  · next hnone => exact hnone
  · rfl

theorem flush_isSome (c : Chunker) : c.flush.1.isSome = true ↔ c.pending.blocks ≠ [] := by
  unfold Chunker.flush
  split
  · next hnone => simp [hnone]
  · next hsome => simp [hsome, Chunker.take]

/-- Whatever is fed and whenever it is flushed, every block comes out once, in order and
whole. -/
theorem chunker_keeps_order (minRows : Nat) (es : List ChunkerEvent) :
    KeepsOrder minRows (chunkerRun minRows es) := by
  have h := chunkerInv_run minRows es
  exact ⟨h.blocks, h.ids, h.enough, h.notMore, flush_pending _, flush_isSome _⟩

end QnxHypervisor.ShmSender
