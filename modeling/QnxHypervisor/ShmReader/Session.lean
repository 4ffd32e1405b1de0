import QnxHypervisor.Foundation.Machine
import QnxHypervisor.ShmReader.Poll

/-! # One reader beside the producers

A reader stays mapped while publishes and polls alternate, each call being one
step, and while producers are restarted onto the same object. Published and
delivered blocks are recorded from the moment the reader was opened.
-/

namespace QnxHypervisor.ShmReader

open Foundation MotorWire MotorShm

variable {Row : Type}

/-- Which of the two poll functions the consumer uses. -/
inductive Poller where
  | reader
  | recorder

/-- A call looks at the ring unless it asks the reader for no blocks. -/
def Poller.looks : Poller → Nat → Bool
  | .reader, maxBlocks => maxBlocks ≠ 0
  | .recorder, _ => true

def Poller.poll (poller : Poller) (maxRows : Nat) (ring : ShmBlockRing Row)
    (bufs : Nat → BlockData Row) (maxBlocks : Nat) (readPos dropped : UInt64) : PollState Row :=
  match poller with
  | .reader => shmReaderPollBlocks maxRows ring (bufs 0) maxBlocks readPos (some dropped)
  | .recorder => shmPoll maxRows ring bufs maxBlocks readPos dropped

/-- Which buffer the `i`-th block of a poll is copied into. -/
def Poller.dest : Poller → Nat → Nat
  | .reader, _ => 0
  | .recorder, i => i

/-- The buffers of a poll: one scratch block, or the caller's array. -/
def Poller.buffers (poller : Poller) (bufs : Nat → BlockData Row) : Nat → BlockData Row :=
  match poller with
  | .reader => fun _ => bufs 0
  | .recorder => bufs

theorem Poller.poll_eq (poller : Poller) (maxRows : Nat) (ring : ShmBlockRing Row)
    (bufs : Nat → BlockData Row) (maxBlocks : Nat) (readPos dropped : UInt64) :
    poller.poll maxRows ring bufs maxBlocks readPos dropped =
      if poller.looks maxBlocks = true then
        pollRing maxRows ring poller.dest maxBlocks
          { readPos, dropped := some dropped, bufs := poller.buffers bufs, written := [] }
      else { readPos, dropped := some dropped, bufs := poller.buffers bufs, written := [] } := by
  cases poller with
  | reader =>
      by_cases hmax : maxBlocks = 0
      · simp [poll, looks, shmReaderPollBlocks, buffers, hmax]
      · simp only [poll, shmReaderPollBlocks, hmax, if_false, looks, ne_eq, not_false_eq_true,
          decide_true, if_true]
        rfl
  | recorder => rfl

/-- A delivered block, and the drop counter its poll returned with. -/
structure Delivery (Row : Type) where
  block : BlockCopy Row
  drops : UInt64

structure Session (Row : Type) where
  region : ShmRegion Row
  start : UInt64
  readPos : UInt64
  dropped : UInt64
  /-- the write position the last poll read -/
  polledAt : UInt64
  published : List (BlockCopy Row)
  delivered : List (Delivery Row)

inductive SessionEvent (Row : Type) where
  | publish (hdr : FrameHeader) (rows : Nat → Row)
  | poll (maxBlocks : Nat) (bufs : Nat → BlockData Row)
  | restart (rowSize : UInt32)

def sessionStep (poller : Poller) (maxRows : Nat) (s : Session Row) :
    SessionEvent Row → Session Row
  | .publish hdr rows =>
      { s with
        region := { s.region with ring := motorRingPublish maxRows s.region.ring hdr rows }
        published := s.published ++ [blockOf maxRows hdr rows] }
  | .poll maxBlocks bufs =>
      let r := poller.poll maxRows s.region.ring bufs maxBlocks s.readPos s.dropped
      let dropped := r.dropped.getD s.dropped
      { s with
        readPos := r.readPos, dropped
        polledAt := if poller.looks maxBlocks then s.region.ring.writePos else s.polledAt
        delivered := s.delivered ++ r.written.map fun b => ⟨b, dropped⟩ }
  | .restart rowSize => { s with region := motorShmRegionInit rowSize s.region }

/-- A reader opened at position `start` of a ring; the blocks from there on count
as published. -/
def openedAt (maxRows : Nat) (region : ShmRegion Row) (start : UInt64) : Session Row where
  region := region
  start := start
  readPos := start
  dropped := 0
  polledAt := region.ring.writePos
  published := (List.range (region.ring.writePos.toNat - start.toNat)).map fun i =>
    blockAt maxRows region.ring (start.toNat + i)
  delivered := []

/-- `shm_reader_open` starts at `write_pos`, the recorder up to 16 blocks before. -/
structure SessionStart (maxRows : Nat) (s : Session Row) : Prop where
  opened : s = openedAt maxRows s.region s.start
  ready : RingReady s.region.ring
  start_le : s.start.toNat ≤ s.region.ring.writePos.toNat
  recent : s.region.ring.writePos.toNat ≤ s.start.toNat + 16

def sessionMachine (poller : Poller) (maxRows : Nat) :
    Machine (Session Row) (SessionEvent Row) where
  initial := SessionStart maxRows
  step s e := some (sessionStep poller maxRows s e)

theorem reachable_session {poller : Poller} {maxRows : Nat}
    {ok : Session Row → SessionEvent Row → Prop} {s : Session Row}
    (h : (sessionMachine poller maxRows).ReachableBy ok s) (e : SessionEvent Row) (hok : ok s e) :
    (sessionMachine poller maxRows).ReachableBy ok (sessionStep poller maxRows s e) :=
  h.step hok rfl

/-! ## One poll -/

/-- What a poll that does not start ahead of `write_pos` hands out and counts. -/
theorem Poller.poll_ready (poller : Poller) {ring : ShmBlockRing Row} (h : RingReady ring)
    (maxRows : Nat) (bufs : Nat → BlockData Row) (maxBlocks : Nat) (readPos dropped : UInt64)
    (hle : poller.looks maxBlocks = true → readPos.toNat ≤ ring.writePos.toNat) :
    ∃ skipped n,
      (poller.poll maxRows ring bufs maxBlocks readPos dropped).readPos.toNat =
        readPos.toNat + skipped + n ∧
      (poller.poll maxRows ring bufs maxBlocks readPos dropped).dropped =
        some (dropped + UInt64.ofNat skipped) ∧
      (poller.poll maxRows ring bufs maxBlocks readPos dropped).written =
        (List.range n).map (fun i => blockAt maxRows ring (readPos.toNat + skipped + i)) ∧
      (poller.looks maxBlocks = true → readPos.toNat + skipped + n ≤ ring.writePos.toNat ∧
        ring.writePos.toNat ≤ readPos.toNat + skipped + 16) ∧
      (poller.looks maxBlocks = false → skipped = 0 ∧ n = 0) := by
  rw [poller.poll_eq]
  by_cases hlooks : poller.looks maxBlocks = true
  · rw [if_pos hlooks]
    obtain ⟨n, hpos, hend, hdrop, hout⟩ := pollRing_ready h maxRows poller.dest maxBlocks
      { readPos, dropped := some dropped, bufs := poller.buffers bufs, written := [] }
      (hle hlooks) rfl
    exact ⟨ring.writePos.toNat - readPos.toNat - 16, n, hpos, hdrop, hout,
      fun _ => ⟨hend, by omega⟩, fun hno => absurd hlooks (by simp [hno])⟩
  · rw [if_neg hlooks]
    exact ⟨0, 0, rfl, by simp, rfl, fun hyes => absurd hyes hlooks, fun _ => ⟨rfl, rfl⟩⟩

end QnxHypervisor.ShmReader
