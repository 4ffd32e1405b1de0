import QnxHypervisor.Foundation.Seqlock
import QnxHypervisor.MotorShm.Region

/-! # Polling the block ring

`shm_reader_poll_blocks` and the recorder's `shm_poll` share one loop. They
differ in where a slot is copied to, in the drop counter, which the first may do
without, and in what a request for no blocks does.
-/

namespace QnxHypervisor.ShmReader

open Foundation MotorShm

variable {Row : Type}

/-! ## The loop -/

/-- The cursor, the drop counter (absent when the caller passes no pointer), the
buffers slots are copied into, and the blocks handed out so far. -/
structure PollState (Row : Type) where
  readPos : UInt64
  dropped : Option UInt64
  bufs : Nat → BlockData Row
  written : List (BlockCopy Row)

/-- The rest of a turn, given what `motor_ring_read_slot` returned and left in its
buffer; `dest i` is the buffer the `i`-th block is copied into. -/
def pollTurn (dest : Nat → Nat) (s : PollState Row) (r : Bool × BlockData Row) : PollState Row :=
  let k := dest s.written.length
  let bufs := fun i => if i = k then r.2 else s.bufs i
  if r.1 then
    { s with bufs, written := s.written ++ [copyOut r.2], readPos := s.readPos + 1 }
  else { s with bufs, dropped := s.dropped.map (· + 1), readPos := s.readPos + 1 }

/-- The loop body. -/
def pollStep (maxRows : Nat) (ring : ShmBlockRing Row) (dest : Nat → Nat) (s : PollState Row) :
    PollState Row :=
  let k := dest s.written.length
  pollTurn dest s (motorRingReadSlot maxRows ring s.readPos (s.bufs k))

/-- `while (read_pos < wp && written < max_blocks)`. -/
def pollLoop (maxRows : Nat) (ring : ShmBlockRing Row) (dest : Nat → Nat) (wp : UInt64)
    (maxBlocks : Nat) : Nat → PollState Row → PollState Row
  | 0, s => s
  | fuel + 1, s =>
      if s.readPos < wp ∧ s.written.length < maxBlocks then
        pollLoop maxRows ring dest wp maxBlocks fuel (pollStep maxRows ring dest s)
      else s

def skipLapped (wp : UInt64) (depth : UInt32) (s : PollState Row) : PollState Row :=
  if depth.toUInt64 < wp - s.readPos then
    let lapped := wp - s.readPos - depth.toUInt64
    { s with dropped := s.dropped.map (· + lapped), readPos := wp - depth.toUInt64 }
  else s

def pollRing (maxRows : Nat) (ring : ShmBlockRing Row) (dest : Nat → Nat) (maxBlocks : Nat)
    (s : PollState Row) : PollState Row :=
  let wp := motorRingWritePos ring
  let s := skipLapped wp ring.depth s
  -- each turn advances the cursor by one, so this many turns are enough
  pollLoop maxRows ring dest wp maxBlocks (wp.toNat - s.readPos.toNat) s

/-- Slots are copied through one scratch block. -/
def shmReaderPollBlocks (maxRows : Nat) (ring : ShmBlockRing Row) (scratch : BlockData Row)
    (maxBlocks : Nat) (readPos : UInt64) (dropped : Option UInt64) : PollState Row :=
  let s : PollState Row := { readPos, dropped, bufs := fun _ => scratch, written := [] }
  if maxBlocks = 0 then s else pollRing maxRows ring (fun _ => 0) maxBlocks s

/-- Slots are copied straight into the caller's array. -/
def shmPoll (maxRows : Nat) (ring : ShmBlockRing Row) (out : Nat → BlockData Row)
    (maxBlocks : Nat) (readPos droppedBlocks : UInt64) : PollState Row :=
  pollRing maxRows ring id maxBlocks
    { readPos, dropped := some droppedBlocks, bufs := out, written := [] }

/-! ## A ring at rest -/

/-- The ring between two publishes. -/
structure RingReady (ring : ShmBlockRing Row) : Prop where
  depth : ring.depth = motorRingDepth
  even : ∀ k < 16, (ring.slots k).seq &&& 1 = 0

/-- The block in the slot of position `p`. -/
def blockAt (maxRows : Nat) (ring : ShmBlockRing Row) (p : Nat) : BlockCopy Row :=
  (ring.slots (p % 16)).block maxRows

theorem slotIndex_eq {ring : ShmBlockRing Row} (h : RingReady ring) (pos : UInt64) :
    slotIndex ring.depth pos = pos.toNat % 16 := by
  rw [slotIndex, h.depth]
  rfl

theorem ringReady_init (rowSize : UInt32) (r : ShmRegion Row) :
    RingReady (motorShmRegionInit rowSize r).ring := by
  refine ⟨rfl, ?_⟩
  intro k hk
  simp only [motorShmRegionInit]
  rw [if_pos (show k < motorRingDepth.toNat from hk)]
  exact (even_word_iff 0).mpr rfl

theorem ringReady_publish {ring : ShmBlockRing Row} (h : RingReady ring) (maxRows : Nat)
    (hdr : MotorWire.FrameHeader) (rows : Nat → Row) :
    RingReady (motorRingPublish maxRows ring hdr rows) := by
  refine ⟨h.depth, ?_⟩
  intro k hk
  by_cases hslot : k = slotIndex ring.depth ring.writePos
  · subst hslot
    simp only [motorRingPublish, setSlot_self]
    exact even_add_two (h.even _ hk)
  · simp only [motorRingPublish, setSlot_ne _ _ hslot]
    exact h.even k hk

theorem blockAt_publish {ring : ShmBlockRing Row} (h : RingReady ring) (maxRows : Nat)
    (hdr : MotorWire.FrameHeader) (rows : Nat → Row) (p : Nat) :
    blockAt maxRows (motorRingPublish maxRows ring hdr rows) p =
      if p % 16 = ring.writePos.toNat % 16 then blockOf maxRows hdr rows
      else blockAt maxRows ring p := by
  simp only [blockAt, motorRingPublish, slotIndex_eq h]
  by_cases hslot : p % 16 = ring.writePos.toNat % 16
  · rw [if_pos hslot, hslot, setSlot_self]
    exact block_storeBlock maxRows hdr rows _
  · rw [if_neg hslot, setSlot_ne _ _ hslot]

/-! ## What a poll returns -/

/-- A cursor behind `wp` can be advanced. -/
theorem toNat_next {pos wp : UInt64} (h : pos.toNat < wp.toNat) :
    (pos + 1).toNat = pos.toNat + 1 := by
  have hbound := wp.toNat_lt
  rw [UInt64.toNat_add]
  exact Nat.mod_eq_of_lt (show pos.toNat + 1 < 2 ^ 64 by omega)

theorem pollStep_ready {ring : ShmBlockRing Row} (h : RingReady ring) (maxRows : Nat)
    (dest : Nat → Nat) (s : PollState Row) :
    (pollStep maxRows ring dest s).readPos = s.readPos + 1 ∧
      (pollStep maxRows ring dest s).dropped = s.dropped ∧
      (pollStep maxRows ring dest s).written =
        s.written ++ [blockAt maxRows ring s.readPos.toNat] := by
  have heven : (ring.slots (slotIndex ring.depth s.readPos)).seq &&& 1 = 0 := by
    rw [slotIndex_eq h]
    exact h.even _ (Nat.mod_lt _ (by decide))
  have hcopy : copyOut (copySlot maxRows (ring.slots (slotIndex ring.depth s.readPos)).toBlockData
      (s.bufs (dest s.written.length))) = blockAt maxRows ring s.readPos.toNat := by
    rw [copyOut_copySlot, slotIndex_eq h]
    rfl
  simp only [pollStep, pollTurn, readSlot_even _ _ _ _ heven, if_true, hcopy]
  exact ⟨trivial, trivial, trivial⟩

/-- The loop hands out consecutive blocks until it reaches `wp` or has enough. -/
theorem pollLoop_ready {ring : ShmBlockRing Row} (h : RingReady ring) (maxRows : Nat)
    (dest : Nat → Nat) (wp : UInt64) (maxBlocks fuel : Nat) (s : PollState Row)
    (hfuel : s.readPos.toNat + fuel = wp.toNat) :
    ∃ n, (pollLoop maxRows ring dest wp maxBlocks fuel s).readPos.toNat = s.readPos.toNat + n ∧
      (pollLoop maxRows ring dest wp maxBlocks fuel s).dropped = s.dropped ∧
      (pollLoop maxRows ring dest wp maxBlocks fuel s).written = s.written ++
        (List.range n).map (fun i => blockAt maxRows ring (s.readPos.toNat + i)) ∧
      n ≤ fuel ∧
      (n = fuel ∨
        maxBlocks ≤ (pollLoop maxRows ring dest wp maxBlocks fuel s).written.length) := by
  induction fuel generalizing s with
  | zero => exact ⟨0, by simp [pollLoop], rfl, by simp [pollLoop], Nat.le_refl _, .inl rfl⟩
  | succ fuel ih =>
      have hlt : s.readPos < wp := UInt64.lt_iff_toNat_lt.mpr (by omega)
      by_cases hmax : s.written.length < maxBlocks
      · obtain ⟨hpos, hdrop, hwritten⟩ := pollStep_ready h maxRows dest s
        have hnext := toNat_next (show s.readPos.toNat < wp.toNat by omega)
        obtain ⟨n, hrpos, hrdrop, hrwritten, hrle, hrdone⟩ := ih (pollStep maxRows ring dest s)
          (by rw [hpos, hnext]; omega)
        simp only [pollLoop, hlt, hmax, and_self, if_true]
        refine ⟨n + 1, by rw [hrpos, hpos, hnext]; omega, hrdrop.trans hdrop, ?_, by omega, ?_⟩
        · rw [hrwritten, hwritten, hpos, hnext, List.append_assoc, List.range_succ_eq_map,
            List.map_cons, List.map_map, List.singleton_append]
          simp only [Function.comp_def, Nat.add_zero, Nat.succ_eq_add_one]
          congr 3
          funext i
          congr 1
          omega
        · exact hrdone.imp (by omega) id
      · simp only [pollLoop, hlt, hmax, and_false, if_false]
        exact ⟨0, by simp, trivial, by simp, by omega, .inr (by omega)⟩

/-- A cursor behind `write_pos` is moved up to the last 16 blocks. -/
theorem skipLapped_ready {wp : UInt64} {depth : UInt32} (hdepth : depth = motorRingDepth)
    (s : PollState Row) (hle : s.readPos.toNat ≤ wp.toNat) :
    (skipLapped wp depth s).readPos.toNat =
        s.readPos.toNat + (wp.toNat - s.readPos.toNat - 16) ∧
      (skipLapped wp depth s).dropped =
        s.dropped.map (· + UInt64.ofNat (wp.toNat - s.readPos.toNat - 16)) ∧
      (skipLapped wp depth s).written = s.written := by
  have hbound := wp.toNat_lt
  have hlag : (wp - s.readPos).toNat = wp.toNat - s.readPos.toNat :=
    UInt64.toNat_sub_of_le _ _ (UInt64.le_iff_toNat_le.mpr hle)
  have h16 : depth.toUInt64.toNat = 16 := by
    rw [hdepth]
    rfl
  by_cases hlapped : depth.toUInt64 < wp - s.readPos
  · have hgt : 16 < wp.toNat - s.readPos.toNat := by
      have := UInt64.lt_iff_toNat_lt.mp hlapped
      omega
    have hstart : (wp - depth.toUInt64).toNat = wp.toNat - 16 := by
      rw [UInt64.toNat_sub_of_le _ _ (UInt64.le_iff_toNat_le.mpr (by omega)), h16]
    have hskip : wp - s.readPos - depth.toUInt64 =
        UInt64.ofNat (wp.toNat - s.readPos.toNat - 16) := by
      apply UInt64.toNat_inj.mp
      rw [UInt64.toNat_sub_of_le _ _ (UInt64.le_iff_toNat_le.mpr (by omega)), hlag, h16,
        UInt64.toNat_ofNat_of_lt' (show _ < 2 ^ 64 by omega)]
    simp only [skipLapped, hlapped, if_true, hskip, hstart]
    exact ⟨by omega, trivial, trivial⟩
  · have hnone : wp.toNat - s.readPos.toNat - 16 = 0 := by
      have := mt UInt64.lt_iff_toNat_lt.mpr hlapped
      omega
    simp only [skipLapped, hlapped, if_false, hnone]
    simp

/-- A poll that finds the cursor behind `write_pos` counts what it was lapped by,
then hands out consecutive blocks. -/
theorem pollRing_ready {ring : ShmBlockRing Row} (h : RingReady ring) (maxRows : Nat)
    (dest : Nat → Nat) (maxBlocks : Nat) (s : PollState Row)
    (hle : s.readPos.toNat ≤ ring.writePos.toNat) {skipped : Nat}
    (hskipped : skipped = ring.writePos.toNat - s.readPos.toNat - 16) :
    ∃ n, (pollRing maxRows ring dest maxBlocks s).readPos.toNat =
        s.readPos.toNat + skipped + n ∧
      s.readPos.toNat + skipped + n ≤ ring.writePos.toNat ∧
      (pollRing maxRows ring dest maxBlocks s).dropped =
        s.dropped.map (· + UInt64.ofNat skipped) ∧
      (pollRing maxRows ring dest maxBlocks s).written = s.written ++
        (List.range n).map (fun i => blockAt maxRows ring (s.readPos.toNat + skipped + i)) := by
  obtain ⟨hpos, hdrop, hwritten⟩ := skipLapped_ready h.depth s hle
  rw [← hskipped] at hpos hdrop
  obtain ⟨n, hrpos, hrdrop, hrwritten, hn, -⟩ := pollLoop_ready h maxRows dest ring.writePos
    maxBlocks (ring.writePos.toNat - (skipLapped ring.writePos ring.depth s).readPos.toNat)
    (skipLapped ring.writePos ring.depth s) (by omega)
  exact ⟨n, by rw [← hpos]; exact hrpos, by omega, hrdrop.trans hdrop,
    hrwritten.trans (by rw [hwritten, hpos])⟩

end QnxHypervisor.ShmReader
