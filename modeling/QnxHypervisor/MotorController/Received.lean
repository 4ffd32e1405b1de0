import QnxHypervisor.MotorController.Pending

/-! # Received frames

What the loop body reads of the receive buffer, when it publishes, and what a
frame laid out by the wire contract leaves in shared memory.
-/

namespace QnxHypervisor.MotorController

open Foundation MotorWire MotorShm

/-! ## The parts of the receive buffer that are read -/

/-- A run of bytes of the receive buffer. -/
structure Stretch where
  off : Nat
  len : Nat

def Stretch.bytes (s : Stretch) (b : XferBuffer) : Bytes := (b.val.drop s.off).take s.len

def headerStretch : Stretch := ⟨0, frameHeaderBytes⟩

/-- The bytes under the checksum and the word behind them. -/
def crcStretches (h : FrameHeader) : List Stretch :=
  [⟨0, coveredBytes h⟩, ⟨coveredBytes h, frameCrcBytes⟩]

def rowStretch (i : Nat) : Stretch := ⟨frameHeaderBytes + motorRowBytes * i, motorRowBytes⟩

/-- The block is published: there is no baseline yet or its number is new. -/
def freshSeq (h : FrameHeader) (c : Controller) : Bool := !(c.haveLast && decide (h.seq = c.lastSeq))

/-- What the loop body reads, in the order of its checks: the checksum only when
the header passes, the rows only when they are published. -/
def stretchesRead (rx : XferBuffer) (c : Controller) : List Stretch :=
  let h := frameHeader rx
  match validateFrame c.activeStm rx with
  | .badMagic | .badVersion | .badSize => [headerStretch]
  | .badCrc => headerStretch :: crcStretches h
  | .accepted =>
      headerStretch :: (crcStretches h ++
        if freshSeq h c then (List.range h.nRows.toNat).map rowStretch else [])

theorem fieldAt_stretch (b : Bytes) {off len i k : Nat} (h : i + k ≤ len) :
    fieldAt b (off + i) k = leNat ((((b.drop off).take len).drop i).take k) := by
  have hlen : min k (len - i) = k := by omega
  rw [fieldAt, List.drop_take, List.take_take, hlen, List.drop_drop]

theorem fieldAt_congr {b b' : Bytes} {off len i k : Nat}
    (hbytes : (b'.drop off).take len = (b.drop off).take len) (h : i + k ≤ len) :
    fieldAt b' (off + i) k = fieldAt b (off + i) k := by
  rw [fieldAt_stretch b' h, fieldAt_stretch b h, hbytes]

theorem frameHeader_congr {rx rx' : XferBuffer}
    (h : headerStretch.bytes rx' = headerStretch.bytes rx) : frameHeader rx' = frameHeader rx := by
  have hfield : ∀ i k, i + k ≤ frameHeaderBytes → fieldAt rx'.val i k = fieldAt rx.val i k := by
    intro i k hik
    have hread : fieldAt rx'.val (0 + i) k = fieldAt rx.val (0 + i) k := fieldAt_congr h hik
    rwa [Nat.zero_add] at hread
  simp only [frameHeader, FrameHeader.ofBytes, u16At, u32At, u64At]
  rw [hfield 0 4 (by decide), hfield 4 4 (by decide), hfield 8 8 (by decide),
    hfield 16 2 (by decide), hfield 18 2 (by decide), hfield 20 2 (by decide),
    hfield 22 2 (by decide)]

theorem rowAt_congr {rx rx' : XferBuffer} {i : Nat}
    (h : (rowStretch i).bytes rx' = (rowStretch i).bytes rx) : rowAt rx' i = rowAt rx i := by
  have hfield : ∀ j, j + 2 ≤ motorRowBytes →
      u16At (rx'.val.drop (frameHeaderBytes + motorRowBytes * i)) j =
        u16At (rx.val.drop (frameHeaderBytes + motorRowBytes * i)) j := by
    intro j hj
    rw [u16At, u16At, fieldAt_drop, fieldAt_drop]
    exact congrArg UInt16.ofNat (fieldAt_congr h hj)
  have hcurrent : (Vector.ofFn fun k : Fin 8 =>
        u16At (rx'.val.drop (frameHeaderBytes + motorRowBytes * i)) (2 * k)) =
      Vector.ofFn fun k : Fin 8 =>
        u16At (rx.val.drop (frameHeaderBytes + motorRowBytes * i)) (2 * k) := by
    congr 1
    funext k
    have hk := k.isLt
    exact hfield (2 * k) (by simp only [motorRowBytes]; omega)
  rw [rowAt, rowAt, MotorRow.ofBytes, MotorRow.ofBytes, hcurrent, hfield 16 (by decide),
    hfield 18 (by decide), hfield 20 (by decide), hfield 22 (by decide)]

theorem crcMatches_congr {rx rx' : XferBuffer} {h : FrameHeader}
    (hbytes : ∀ s ∈ crcStretches h, s.bytes rx' = s.bytes rx) :
    CrcMatches rx'.val (coveredBytes h) ↔ CrcMatches rx.val (coveredBytes h) := by
  have hcovered : rx'.val.take (coveredBytes h) = rx.val.take (coveredBytes h) :=
    hbytes ⟨0, coveredBytes h⟩ (by simp [crcStretches])
  have hword := hbytes ⟨coveredBytes h, frameCrcBytes⟩ (by simp [crcStretches])
  have hread : fieldAt rx'.val (coveredBytes h + 0) 4 = fieldAt rx.val (coveredBytes h + 0) 4 :=
    fieldAt_congr hword (Nat.le_refl _)
  rw [Nat.add_zero] at hread
  rw [CrcMatches, CrcMatches, hcovered, u32At, u32At, hread]

/-! ## The verdict -/

/-- The verdict is the header's alone until the checksum is compared. -/
theorem validateFrame_congr {active : ConfigPayload} {rx rx' : XferBuffer}
    (hheader : frameHeader rx' = frameHeader rx)
    (hcrc : validateFrame active rx = .badCrc ∨ validateFrame active rx = .accepted →
      (CrcMatches rx'.val (coveredBytes (frameHeader rx)) ↔
        CrcMatches rx.val (coveredBytes (frameHeader rx)))) :
    validateFrame active rx' = validateFrame active rx := by
  have hcrc' : (validateFrame active rx = .badCrc ∨ validateFrame active rx = .accepted) →
      (¬ CrcMatches rx'.val (coveredBytes (frameHeader rx)) ↔
        ¬ CrcMatches rx.val (coveredBytes (frameHeader rx))) := fun h => not_congr (hcrc h)
  unfold validateFrame at hcrc' ⊢
  simp only [hheader]
  by_cases hmagic : (frameHeader rx).magic ≠ motorFrameMagic
  · simp only [if_pos hmagic]
  by_cases hversion : (frameHeader rx).version ≠ motorContractVersion
  · simp only [if_neg hmagic, if_pos hversion]
  by_cases hrows : (frameHeader rx).nRows = 0 ∨ motorMaxRowsPerBlock < (frameHeader rx).nRows.toNat
  · simp only [if_neg hmagic, if_neg hversion, if_pos hrows]
  by_cases hlock : sizeLocked active (frameHeader rx) = true
  · simp only [if_neg hmagic, if_neg hversion, if_neg hrows, if_pos hlock]
  by_cases hfits : motorMaxFrameBytes < coveredBytes (frameHeader rx) + frameCrcBytes
  · simp only [if_neg hmagic, if_neg hversion, if_neg hrows, if_neg hlock, if_pos hfits]
  simp only [if_neg hmagic, if_neg hversion, if_neg hrows, if_neg hlock, if_neg hfits] at hcrc' ⊢
  by_cases hmatch : ¬ CrcMatches rx.val (coveredBytes (frameHeader rx))
  · rw [if_pos hmatch] at hcrc' ⊢
    rw [if_pos ((hcrc' (.inl rfl)).mpr hmatch)]
  · rw [if_neg hmatch] at hcrc' ⊢
    rw [if_neg (mt (hcrc' (.inr rfl)).mp hmatch)]

theorem covered_fits {active : ConfigPayload} {rx : XferBuffer}
    (h : validateFrame active rx = .badCrc ∨ validateFrame active rx = .accepted) :
    coveredBytes (frameHeader rx) + frameCrcBytes ≤ motorMaxFrameBytes := by
  by_contra hlong
  rw [Nat.not_le] at hlong
  unfold validateFrame at h
  simp only [if_pos hlong] at h
  split at h
  · rcases h with h | h <;> cases h
  · split at h
    · rcases h with h | h <;> cases h
    · split at h
      · rcases h with h | h <;> cases h
      · split at h <;> rcases h with h | h <;> cases h

/-! ## Publishing -/

theorem toInt_sub_eq_zero (a b : UInt32) : (a - b).toInt32.toInt = 0 ↔ a = b := by
  have hzero : (a - b).toInt32.toInt = 0 ↔ a - b = 0 := by
    rw [← Int32.toInt_zero, Int32.toInt_inj]
    constructor
    · intro h
      exact congrArg Int32.toUInt32 h
    · intro h
      rw [h]
      rfl
  rw [hzero]
  constructor
  · intro h
    have hadd := UInt32.sub_add_cancel a b
    rw [h] at hadd
    simpa using hadd.symm
  · rintro rfl
    exact UInt32.sub_self a

theorem accountSequence_fresh (h : FrameHeader) (c : Controller) :
    (accountSequence h c).1 = freshSeq h c ∧ (accountSequence h c).2.region = c.region := by
  have hdiff := toInt_sub_eq_zero h.seq c.lastSeq
  unfold accountSequence freshSeq
  cases hlast : c.haveLast
  · simp
  · by_cases hseq : h.seq = c.lastSeq
    · simp [hseq]
    · simp only [not_true_eq_false, if_false, if_neg (mt hdiff.mp hseq), hseq, decide_false,
        Bool.and_false, Bool.not_false]
      split_ifs <;> exact ⟨rfl, rfl⟩

/-- The shared memory after the block of `rx` has been published. -/
def publishedRegion (rx : XferBuffer) (r : ShmRegion MotorRow) : ShmRegion MotorRow :=
  let h := frameHeader rx
  { r with
    snapshot := motorSnapshotPublish r.snapshot (rowAt rx (h.nRows.toNat - 1)) h.seq h.timestamp
      h.flags
    ring := motorRingPublish motorMaxRowsPerBlock r.ring h (rowAt rx) }

theorem publishFrame_region (rx : XferBuffer) (c : Controller) :
    (publishFrame rx c).region = publishedRegion rx c.region := rfl

theorem acceptFrame_region (rx : XferBuffer) (c : Controller) :
    (acceptFrame rx c).region =
      if freshSeq (frameHeader rx) c = true then publishedRegion rx c.region else c.region := by
  unfold acceptFrame
  dsimp only
  generalize cmdObserve (frameHeader rx) c.cmd c.activeStm c.st = o
  obtain ⟨hfresh, hregion⟩ := accountSequence_fresh (frameHeader rx)
    { c with cmd := o.cmd, activeStm := o.activeStm, st := o.st }
  have hsame : freshSeq (frameHeader rx)
      { c with cmd := o.cmd, activeStm := o.activeStm, st := o.st } =
        freshSeq (frameHeader rx) c := rfl
  rw [hfresh, hsame]
  split
  · rw [publishFrame_region, hregion]
  · exact hregion

/-- Shared memory changes only for a block that is let through and is new. -/
theorem receiveFrame_region (rx : XferBuffer) (c : Controller) :
    (receiveFrame rx c).region =
      if validateFrame c.activeStm rx = .accepted ∧ freshSeq (frameHeader rx) c = true then
        publishedRegion rx c.region
      else c.region := by
  unfold receiveFrame
  dsimp only
  cases hv : validateFrame c.activeStm rx with
  | accepted =>
      simp only [true_and]
      exact acceptFrame_region rx { c with cmd := cmdCountAttempt c.cmd }
  | badMagic => rfl
  | badVersion => rfl
  | badSize => rfl
  | badCrc => rfl

/-! ## Only what is read matters -/

theorem storeBlock_congr {maxRows : Nat} {hdr : FrameHeader} {rows rows' : Nat → MotorRow}
    {old : BlockData MotorRow} (h : ∀ i < hdr.nRows.toNat, rows' i = rows i) :
    storeBlock maxRows hdr rows' old = storeBlock maxRows hdr rows old := by
  simp only [storeBlock, BlockData.copyRows_eq]
  congr 1
  funext j
  by_cases hj : j < (clampRows maxRows hdr.nRows).toNat
  · have hlt : j < hdr.nRows.toNat := by
      rw [clampRows_toNat] at hj
      omega
    simp only [if_pos hj, h j hlt]
  · simp only [if_neg hj]

theorem publishFrame_congr {rx rx' : XferBuffer} (hheader : frameHeader rx' = frameHeader rx)
    (hpos : 1 ≤ (frameHeader rx).nRows.toNat)
    (hrows : ∀ i < (frameHeader rx).nRows.toNat, rowAt rx' i = rowAt rx i) (c : Controller) :
    publishFrame rx' c = publishFrame rx c := by
  have hlast := hrows ((frameHeader rx).nRows.toNat - 1) (by omega)
  have hring : motorRingPublish motorMaxRowsPerBlock c.region.ring (frameHeader rx) (rowAt rx') =
      motorRingPublish motorMaxRowsPerBlock c.region.ring (frameHeader rx) (rowAt rx) := by
    simp only [motorRingPublish, storeBlock_congr hrows]
  simp only [publishFrame, hheader, hlast, hring]

theorem receiveFrame_congr {rx rx' : XferBuffer} {c : Controller}
    (h : ∀ s ∈ stretchesRead rx c, s.bytes rx' = s.bytes rx) :
    receiveFrame rx' c = receiveFrame rx c := by
  have hheader : frameHeader rx' = frameHeader rx := by
    refine frameHeader_congr (h _ ?_)
    unfold stretchesRead
    cases validateFrame c.activeStm rx <;> exact List.mem_cons_self
  have hverdict : validateFrame c.activeStm rx' = validateFrame c.activeStm rx := by
    refine validateFrame_congr hheader fun hv => crcMatches_congr fun s hs => h s ?_
    unfold stretchesRead
    rcases hv with hv | hv <;> rw [hv]
    · exact List.mem_cons_of_mem _ hs
    · exact List.mem_cons_of_mem _ (List.mem_append_left _ hs)
  unfold receiveFrame
  dsimp only
  rw [hverdict]
  cases hv : validateFrame c.activeStm rx with
  | accepted =>
      have hframe := ((validateFrame_accepted_iff _ _).mp hv).1
      simp only [acceptFrame, hheader]
      obtain ⟨hfresh, -⟩ := accountSequence_fresh (frameHeader rx)
        { c with
          cmd := (cmdObserve (frameHeader rx) (cmdCountAttempt c.cmd) c.activeStm c.st).cmd
          activeStm :=
            (cmdObserve (frameHeader rx) (cmdCountAttempt c.cmd) c.activeStm c.st).activeStm
          st := (cmdObserve (frameHeader rx) (cmdCountAttempt c.cmd) c.activeStm c.st).st }
      split
      · next hpublish =>
        have hnew : freshSeq (frameHeader rx) c = true := hfresh.symm.trans hpublish
        refine publishFrame_congr hheader hframe.rows_pos (fun i hi => rowAt_congr (h _ ?_)) _
        rw [stretchesRead, hv, hnew]
        refine List.mem_cons_of_mem _ (List.mem_append_right _ ?_)
        exact List.mem_map.mpr ⟨i, List.mem_range.mpr hi, rfl⟩
      · rfl
  | badMagic => rfl
  | badVersion => rfl
  | badSize => rfl
  | badCrc => rfl

theorem stretchesRead_in_bounds (rx : XferBuffer) (c : Controller) :
    ∀ s ∈ stretchesRead rx c, s.off + s.len ≤ motorMaxFrameBytes := by
  have hheader : headerStretch.off + headerStretch.len ≤ motorMaxFrameBytes := by decide
  have hcrc : (validateFrame c.activeStm rx = .badCrc ∨ validateFrame c.activeStm rx = .accepted) →
      ∀ s ∈ crcStretches (frameHeader rx), s.off + s.len ≤ motorMaxFrameBytes := by
    intro hv s hs
    have hfits := covered_fits hv
    rcases List.mem_pair.mp hs with rfl | rfl
    · simp only
      omega
    · exact hfits
  intro s hs
  unfold stretchesRead at hs
  cases hv : validateFrame c.activeStm rx <;> rw [hv] at hs <;> dsimp only at hs <;>
    rcases List.mem_cons.mp hs with rfl | hs <;> try exact hheader
  · cases hs
  · cases hs
  · cases hs
  · exact hcrc (.inl hv) s hs
  · rcases List.mem_append.mp hs with hs | hs
    · exact hcrc (.inr hv) s hs
    · have hfits := covered_fits (.inr hv)
      split at hs
      · obtain ⟨i, hi, rfl⟩ := List.mem_map.mp hs
        have hi := List.mem_range.mp hi
        simp only [rowStretch, coveredBytes, motorRowBytes] at hfits ⊢
        omega
      · cases hs

/-! ## A frame of the contract -/

/-- The block of a frame and its last row, as they are to be found in shared memory. -/
structure HoldsBlock (r : ShmRegion MotorRow) (slot : Nat) (h : FrameHeader) (rows : Nat → MotorRow) :
    Prop where
  block : (r.ring.slots slot).toBlockData.block motorMaxRowsPerBlock =
    ⟨h.seq, h.timestamp, h.nRows, h.flags, (List.range h.nRows.toNat).map rows⟩
  snapshot : r.snapshot.toSnapshotData =
    ⟨h.seq, h.timestamp, h.flags, rows (h.nRows.toNat - 1)⟩

/-- Only a well-formed frame reaches shared memory, every byte read lies in the
buffer, and a frame laid out by the contract that passes the size lock is
accepted and, unless it is a duplicate, found in shared memory whatever was
there before. -/
theorem received_frames (c : Controller) :
    (∀ rx, ¬ FrameWellFormed rx → (receiveFrame rx c).region = c.region) ∧
    (∀ rx, ∀ s ∈ stretchesRead rx c, s.off + s.len ≤ motorMaxFrameBytes) ∧
    (∀ rx rx', (∀ s ∈ stretchesRead rx c, s.bytes rx' = s.bytes rx) →
      receiveFrame rx' c = receiveFrame rx c) ∧
    ∀ (h : FrameHeader) (rows : Nat → MotorRow), h.magic = motorFrameMagic →
      h.version = motorContractVersion → 1 ≤ h.nRows.toNat →
      h.nRows.toNat ≤ motorMaxRowsPerBlock → sizeLocked c.activeStm h = false →
      validateFrame c.activeStm (wireFrame h rows) = .accepted ∧
      (¬ (c.haveLast = true ∧ h.seq = c.lastSeq) →
        HoldsBlock (receiveFrame (wireFrame h rows) c).region
          (slotIndex c.region.ring.depth c.region.ring.writePos) h rows) := by
  refine ⟨fun rx hbad => ?_, fun rx => stretchesRead_in_bounds rx c,
    fun rx rx' => receiveFrame_congr, fun h rows hm hv hpos hle hlock => ?_⟩
  · rw [receiveFrame_region, if_neg]
    rintro ⟨hv, -⟩
    exact hbad ((validateFrame_accepted_iff _ _).mp hv).1
  have haccepted : validateFrame c.activeStm (wireFrame h rows) = .accepted :=
    (validateFrame_accepted_iff _ _).mpr
      ⟨wireFrame_wellFormed rows hm hv hpos hle, by rwa [frameHeader_wireFrame]⟩
  refine ⟨haccepted, fun hnew => ?_⟩
  have hfresh : freshSeq (frameHeader (wireFrame h rows)) c = true := by
    rw [frameHeader_wireFrame, freshSeq]
    cases hlast : c.haveLast
    · rfl
    · have hne : h.seq ≠ c.lastSeq := fun heq => hnew ⟨hlast, heq⟩
      simp [hne]
  have hclamp : clampRows motorMaxRowsPerBlock h.nRows = h.nRows := by
    rw [clampRows, if_neg (Nat.not_lt.mpr hle)]
  rw [receiveFrame_region, if_pos ⟨haccepted, hfresh⟩]
  constructor
  · simp only [publishedRegion, motorRingPublish, setSlot_self, block_storeBlock,
      frameHeader_wireFrame, blockOf, hclamp]
    congr 1
    refine List.map_congr_left fun i hi => ?_
    exact rowAt_wireFrame rows hle (List.mem_range.mp hi)
  · simp only [publishedRegion, motorSnapshotPublish, frameHeader_wireFrame]
    rw [rowAt_wireFrame rows hle (by omega)]

/-- The first block after the start, one row long. -/
theorem received_first_block :
    HoldsBlock (receiveFrame (wireFrame (dataHeader 7 0 0 1 0) fun _ => zeroRow)
      defaultController).region 0 (dataHeader 7 0 0 1 0) fun _ => zeroRow :=
  ((received_frames defaultController).2.2.2 (dataHeader 7 0 0 1 0) (fun _ => zeroRow) rfl rfl
    (by decide) (by decide) (by decide)).2 (by decide)

end QnxHypervisor.MotorController
