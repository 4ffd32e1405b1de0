import QnxHypervisor.ShmReader.Poll

/-! # The terminal monitor

`motor_monitor.c` reads the snapshot and drains the ring once per refresh, and
counts what it has seen and what it has missed. Its loop has no limit on the
blocks of one refresh and copies every slot into the same scratch block.
-/

namespace QnxHypervisor.MotorPath

open Foundation MotorWire MotorShm ShmReader

/-! ## Source functions -/

/-- The loop of `motor_snapshot_read` over a snapshot at rest. -/
def readSnapshotLoop {Row : Type} (s : ShmSnapshot Row) : Nat → Option (SnapshotData Row)
  | 0 => none
  | tries + 1 =>
      let s1 := s.seqlock
      if s1 &&& 1 ≠ 0 then readSnapshotLoop s tries
      else
        let out := s.toSnapshotData
        let s2 := s.seqlock
        if s1 = s2 then some out else readSnapshotLoop s tries

def motorSnapshotRead {Row : Type} (s : ShmSnapshot Row) : Option (SnapshotData Row) :=
  readSnapshotLoop s readTries

/-- The variables of the loop that drains the ring. -/
structure Drain where
  readPos : UInt64
  blocksSeen : UInt64
  drops : UInt64
  blk : BlockData MotorRow
  lastFirstCurrent : UInt32

/-- `drops` grows by what the producer has lapped. -/
def Drain.skipLapped (wp : UInt64) (depth : UInt32) (d : Drain) : Drain :=
  if depth.toUInt64 < wp - d.readPos then
    { d with
      drops := d.drops + (wp - d.readPos - depth.toUInt64), readPos := wp - depth.toUInt64 }
  else d

/-- The loop body. -/
def Drain.turn (ring : ShmBlockRing MotorRow) (d : Drain) : Drain :=
  let r := motorRingReadSlot motorMaxRowsPerBlock ring d.readPos d.blk
  if r.1 then
    { d with
      blk := r.2, blocksSeen := d.blocksSeen + 1, readPos := d.readPos + 1
      lastFirstCurrent :=
        if 0 < r.2.nRows then ((r.2.rows 0).current.get 0).toUInt32 else d.lastFirstCurrent }
  else { d with blk := r.2, drops := d.drops + 1, readPos := d.readPos + 1 }

/-- `while (read_pos < wp)`. -/
def Drain.loop (ring : ShmBlockRing MotorRow) (wp : UInt64) : Nat → Drain → Drain
  | 0, d => d
  | fuel + 1, d => if d.readPos < wp then Drain.loop ring wp fuel (d.turn ring) else d

/-- What one refresh prints; no snapshot when its reading was contended. -/
structure MonitorLine where
  snap : Option (SnapshotData MotorRow)
  wp : UInt64
  blocksSeen : UInt64
  drops : UInt64
  firstCurrent : UInt32

/-- The variables of `main` that outlive a refresh. -/
structure Monitor where
  readPos : UInt64
  blocksSeen : UInt64
  drops : UInt64
  blk : BlockData MotorRow

def Monitor.attach (ring : ShmBlockRing MotorRow) (blk : BlockData MotorRow) : Monitor :=
  ⟨motorRingWritePos ring, 0, 0, blk⟩

def Monitor.refresh (r : ShmRegion MotorRow) (m : Monitor) : Monitor × MonitorLine :=
  let snap := motorSnapshotRead r.snapshot
  let wp := motorRingWritePos r.ring
  let d : Drain := ⟨m.readPos, m.blocksSeen, m.drops, m.blk, 0⟩
  let d := d.skipLapped wp r.ring.depth
  -- each turn advances the cursor by one, so this many turns are enough
  let d := d.loop r.ring wp (wp.toNat - d.readPos.toNat)
  (⟨d.readPos, d.blocksSeen, d.drops, d.blk⟩,
    ⟨snap, wp, d.blocksSeen, d.drops, d.lastFirstCurrent⟩)

/-! ## A region at rest -/

theorem motorSnapshotRead_even {Row : Type} {s : ShmSnapshot Row} (h : s.seqlock &&& 1 = 0) :
    motorSnapshotRead s = some s.toSnapshotData := by
  simp [motorSnapshotRead, readTries, readSnapshotLoop, h]

/-- The first current of a block, as the last column of the line shows it. -/
def firstCurrent (b : BlockCopy MotorRow) : UInt32 :=
  match b.rows with
  | [] => 0
  | row :: _ => (row.current.get 0).toUInt32

theorem firstCurrent_copyOut {out : BlockData MotorRow} (h : (copyOut out).rows ≠ []) (old : UInt32) :
    (if 0 < out.nRows then ((out.rows 0).current.get 0).toUInt32 else old) =
      firstCurrent (copyOut out) := by
  have hpos : 0 < out.nRows.toNat := by
    by_contra hzero
    have hzero : out.nRows.toNat = 0 := by omega
    exact h (by simp [copyOut, hzero])
  have hlt : 0 < out.nRows := UInt16.lt_iff_toNat_lt.mpr hpos
  obtain ⟨n, hn⟩ : ∃ n, out.nRows.toNat = n + 1 := ⟨out.nRows.toNat - 1, by omega⟩
  simp [hlt, firstCurrent, copyOut, hn, List.range_succ_eq_map]

variable {ring : ShmBlockRing MotorRow}

theorem Drain.turn_ready (h : RingReady ring) (d : Drain) :
    (d.turn ring).readPos = d.readPos + 1 ∧ (d.turn ring).drops = d.drops ∧
      (d.turn ring).blocksSeen = d.blocksSeen + 1 ∧
      ((blockAt motorMaxRowsPerBlock ring d.readPos.toNat).rows ≠ [] →
        (d.turn ring).lastFirstCurrent =
          firstCurrent (blockAt motorMaxRowsPerBlock ring d.readPos.toNat)) := by
  have heven : (ring.slots (slotIndex ring.depth d.readPos)).seq &&& 1 = 0 := by
    rw [slotIndex_eq h]
    exact h.even _ (Nat.mod_lt _ (by decide))
  have hcopy := copyOut_copySlot motorMaxRowsPerBlock
    (ring.slots (slotIndex ring.depth d.readPos)).toBlockData d.blk
  simp only [Drain.turn, readSlot_even _ _ _ _ heven, if_true, true_and]
  intro hrows
  have hat : blockAt motorMaxRowsPerBlock ring d.readPos.toNat =
      (ring.slots (slotIndex ring.depth d.readPos)).block motorMaxRowsPerBlock := by
    rw [slotIndex_eq h]
    rfl
  rw [hat] at hrows ⊢
  rw [← hcopy] at hrows ⊢
  exact firstCurrent_copyOut hrows _

/-- The loop sees every block up to `wp` and ends with the newest. -/
theorem Drain.loop_ready (h : RingReady ring) (d : Drain) (wp : UInt64) (fuel : Nat)
    (hfuel : d.readPos.toNat + fuel = wp.toNat) :
    (d.loop ring wp fuel).readPos = wp ∧ (d.loop ring wp fuel).drops = d.drops ∧
      (d.loop ring wp fuel).blocksSeen = d.blocksSeen + UInt64.ofNat fuel ∧
      (0 < fuel → (blockAt motorMaxRowsPerBlock ring (wp.toNat - 1)).rows ≠ [] →
        (d.loop ring wp fuel).lastFirstCurrent =
          firstCurrent (blockAt motorMaxRowsPerBlock ring (wp.toNat - 1))) := by
  induction fuel generalizing d with
  | zero =>
      refine ⟨UInt64.toNat_inj.mp hfuel, rfl, by simp [Drain.loop], fun hlt => ?_⟩
      exact absurd hlt (Nat.lt_irrefl 0)
  | succ fuel ih =>
      have hlt : d.readPos < wp := UInt64.lt_iff_toNat_lt.mpr (by omega)
      obtain ⟨hpos, hdrops, hseen, hcurrent⟩ := Drain.turn_ready h d
      have hnext := toNat_next (show d.readPos.toNat < wp.toNat by omega)
      obtain ⟨hrpos, hrdrops, hrseen, hrcurrent⟩ := ih (d.turn ring)
        (by rw [hpos, hnext]; omega)
      simp only [Drain.loop, if_pos hlt]
      refine ⟨hrpos, hrdrops.trans hdrops, ?_, fun _ hrows => ?_⟩
      · rw [hrseen, hseen, UInt64.ofNat_add, UInt64.add_assoc, UInt64.add_comm 1]
        rfl
      · by_cases hlast : fuel = 0
        · subst hlast
          have hat : d.readPos.toNat = wp.toNat - 1 := by omega
          rw [← hat] at hrows ⊢
          exact hcurrent hrows
        · exact hrcurrent (Nat.pos_of_ne_zero hlast) hrows

theorem Drain.skipLapped_ready (d : Drain) (wp : UInt64) (hle : d.readPos.toNat ≤ wp.toNat) :
    (d.skipLapped wp motorRingDepth).readPos.toNat = wp.toNat - min (wp.toNat - d.readPos.toNat) 16 ∧
      (d.skipLapped wp motorRingDepth).drops =
        d.drops + UInt64.ofNat (wp.toNat - d.readPos.toNat - 16) ∧
      (d.skipLapped wp motorRingDepth).blocksSeen = d.blocksSeen := by
  have hsub : (wp - d.readPos).toNat = wp.toNat - d.readPos.toNat :=
    UInt64.toNat_sub_of_le _ _ (UInt64.le_iff_toNat_le.mpr hle)
  have hbound := wp.toNat_lt
  have hdepth : (motorRingDepth.toUInt64).toNat = 16 := rfl
  unfold Drain.skipLapped
  split
  · next hlapped =>
    rw [UInt64.lt_iff_toNat_lt, hdepth, hsub] at hlapped
    have hle16 : motorRingDepth.toUInt64 ≤ wp :=
      UInt64.le_iff_toNat_le.mpr (by rw [hdepth]; omega)
    have hle16' : motorRingDepth.toUInt64 ≤ wp - d.readPos :=
      UInt64.le_iff_toNat_le.mpr (by rw [hdepth, hsub]; omega)
    have hlost : wp - d.readPos - motorRingDepth.toUInt64 =
        UInt64.ofNat (wp.toNat - d.readPos.toNat - 16) := by
      rw [← UInt64.toNat_inj, UInt64.toNat_sub_of_le _ _ hle16', hsub, hdepth,
        UInt64.toNat_ofNat_of_lt' (by show _ < 2 ^ 64; omega)]
    refine ⟨?_, congrArg (d.drops + ·) hlost, rfl⟩
    simp only
    rw [UInt64.toNat_sub_of_le _ _ hle16, hdepth]
    omega
  · next hclose =>
    rw [UInt64.lt_iff_toNat_lt, hdepth, hsub] at hclose
    have hzero : wp.toNat - d.readPos.toNat - 16 = 0 := by omega
    exact ⟨by omega, by simp [hzero], rfl⟩

/-- What a refresh of a monitor that is not ahead does, given how far it is behind. -/
structure Refreshed (r : ShmRegion MotorRow) (behind : Nat) (m m' : Monitor) (line : MonitorLine) :
    Prop where
  readPos : m'.readPos = r.ring.writePos
  drops : m'.drops = m.drops + UInt64.ofNat (behind - 16)
  blocksSeen : m'.blocksSeen = m.blocksSeen + UInt64.ofNat (min behind 16)
  snap : line.snap = some r.snapshot.toSnapshotData
  wp : line.wp = r.ring.writePos
  counts : line.blocksSeen = m'.blocksSeen ∧ line.drops = m'.drops
  newest : 0 < behind →
    (blockAt motorMaxRowsPerBlock r.ring (r.ring.writePos.toNat - 1)).rows ≠ [] →
    line.firstCurrent =
      firstCurrent (blockAt motorMaxRowsPerBlock r.ring (r.ring.writePos.toNat - 1))

theorem Monitor.refresh_ready {r : ShmRegion MotorRow} (h : RingReady r.ring)
    (heven : r.snapshot.seqlock &&& 1 = 0) {m : Monitor}
    (hle : m.readPos.toNat ≤ r.ring.writePos.toNat) :
    Refreshed r (r.ring.writePos.toNat - m.readPos.toNat) m (m.refresh r).1 (m.refresh r).2 := by
  obtain ⟨hpos, hdrops, hseen⟩ :=
    Drain.skipLapped_ready ⟨m.readPos, m.blocksSeen, m.drops, m.blk, 0⟩ r.ring.writePos hle
  rw [← h.depth] at hpos hdrops hseen
  simp only [Monitor.refresh, motorRingWritePos, motorSnapshotRead_even heven]
  generalize Drain.skipLapped r.ring.writePos r.ring.depth
    ⟨m.readPos, m.blocksSeen, m.drops, m.blk, 0⟩ = d at hpos hdrops hseen ⊢
  simp only at hpos hdrops hseen
  obtain ⟨hlpos, hldrops, hlseen, hlcurrent⟩ := Drain.loop_ready h d r.ring.writePos
    (r.ring.writePos.toNat - d.readPos.toNat) (by omega)
  have hcount : r.ring.writePos.toNat - d.readPos.toNat =
      min (r.ring.writePos.toNat - m.readPos.toNat) 16 := by omega
  constructor
  case readPos => exact hlpos
  case drops => exact hldrops.trans hdrops
  case blocksSeen => rw [hlseen, hseen, hcount]
  case snap => rfl
  case wp => rfl
  case counts => exact ⟨rfl, rfl⟩
  case newest => exact fun hsome hrows => hlcurrent (by omega) hrows

end QnxHypervisor.MotorPath
