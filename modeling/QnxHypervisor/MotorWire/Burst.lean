import QnxHypervisor.Foundation.ShiftRegister
import QnxHypervisor.MotorWire.Frame

/-! # Bursts on the link

`frame_crc_compute` is a 32-bit shift register over the bits of its bytes.  A
burst in the covered bytes of a command is therefore always noticed.  A data
frame carries the length of its covered part in `n_rows`, inside that part, and
the same is true of a burst that leaves this field alone.
-/

namespace QnxHypervisor.MotorWire

open Foundation Foundation.Register

/-! ## The checksum as a register -/

/-- The feedback polynomial of CRC-32/MPEG-2. -/
def crcPoly : BitVec 32 := 0x04C11DB7#32

theorem highBit_iff (crc : UInt32) : crc &&& 0x80000000 ≠ 0 ↔ crc.toBitVec.msb = true := by
  have hmask : (0x80000000 : UInt32).toBitVec = BitVec.twoPow 32 31 := by decide
  rw [ne_eq, ← UInt32.toBitVec_inj, UInt32.toBitVec_and, hmask, BitVec.and_twoPow,
    BitVec.msb_eq_getLsbD_last]
  cases crc.toBitVec.getLsbD (32 - 1) <;> simp

theorem crcShift_toBitVec (crc : UInt32) :
    (crcShift crc).toBitVec = Register.shift crcPoly crc.toBitVec := by
  unfold crcShift Register.shift
  by_cases h : crc &&& 0x80000000 ≠ 0
  · rw [if_pos h, if_pos ((highBit_iff crc).mp h)]
    rfl
  · rw [if_neg h, if_neg (mt (highBit_iff crc).mpr h)]
    rfl

theorem crcShift_repeat (n : Nat) (crc : UInt32) :
    (Nat.repeat crcShift n crc).toBitVec = (Register.shift crcPoly)^[n] crc.toBitVec := by
  induction n with
  | zero => rfl
  | succ n ih => rw [Nat.repeat, crcShift_toBitVec, ih, Function.iterate_succ_apply']


theorem byteBits_getD (b : UInt8) (j : Nat) :
    (byteBits b).getD j false = (decide (j < 8) && b.toBitVec.getLsbD (7 - j)) := by
  by_cases hj : j < 8
  · simp [byteBits, hj]
  · simp [byteBits, hj]

theorem pack_byteBits (b : UInt8) : pack 32 (byteBits b) = (b.toUInt32 <<< 24).toBitVec := by
  have hshift : (b.toUInt32 <<< 24).toBitVec = b.toBitVec.setWidth 32 <<< 24 := by
    rw [UInt32.toBitVec_shiftLeft]
    rfl
  rw [hshift]
  apply BitVec.eq_of_getLsbD_eq
  intro i hi
  rw [getLsbD_pack, byteBits_getD, BitVec.getLsbD_shiftLeft, BitVec.getLsbD_setWidth]
  by_cases hlow : i < 24
  · have hout : ¬ 32 - 1 - i < 8 := by omega
    simp [hout, hlow]
  · have hin : 32 - 1 - i < 8 := by omega
    have hidx : 7 - (32 - 1 - i) = i - 24 := by omega
    have hlt : i - 24 < 32 := by omega
    simp [hin, hidx, hlow, hi, hlt]

theorem crcByte_toBitVec (crc : UInt32) (b : UInt8) :
    (crcByte crc b).toBitVec = run crcPoly crc.toBitVec (byteBits b) := by
  rw [crcByte, crcShift_repeat, UInt32.toBitVec_xor, ← pack_byteBits,
    run_pack crcPoly _ (by simp), byteBits_length]

theorem frameCrcCompute_toBitVec (data : Bytes) :
    (frameCrcCompute data).toBitVec = run crcPoly (BitVec.allOnes 32) (messageBits data) := by
  have hfold : ∀ crc : UInt32, (data.foldl crcByte crc).toBitVec =
      run crcPoly crc.toBitVec (messageBits data) := by
    induction data with
    | nil => exact fun crc => rfl
    | cons b data ih =>
        intro crc
        rw [List.foldl_cons, ih, crcByte_toBitVec, ← run_append]
        rfl
  exact hfold 0xFFFFFFFF

theorem frameCrcCompute_corrupt_ne {data err : Bytes} (hlen : err.length = data.length)
    (hburst : Burst 32 (messageBits err)) :
    frameCrcCompute (corrupt data err) ≠ frameCrcCompute data := by
  intro heq
  have hbits : (messageBits data).length = (messageBits err).length := by
    rw [messageBits_length, messageBits_length, hlen]
  have hpoly : crcPoly.getLsbD 0 = true := by decide
  apply run_corrupted_ne hpoly (BitVec.allOnes 32) hbits hburst
  rw [← messageBits_corrupt hlen.symm, ← frameCrcCompute_toBitVec, heq,
    frameCrcCompute_toBitVec]

/-! ## Frames hit in their covered bytes -/

/-- The exchange buffer with the bits of `err` flipped in its first bytes. -/
def hit (b : XferBuffer) (err : Bytes) : XferBuffer :=
  ⟨corrupt (b.val.take err.length) err ++ b.val.drop err.length, by
    simp only [corrupt, List.length_append, List.length_zipWith, List.length_take,
      List.length_drop, b.property]
    omega⟩

theorem hit_val (b : XferBuffer) (err : Bytes) :
    (hit b err).val = corrupt (b.val.take err.length) err ++ b.val.drop err.length := rfl

theorem hit_length {b : XferBuffer} {err : Bytes} (hlen : err.length ≤ motorMaxFrameBytes) :
    (corrupt (b.val.take err.length) err).length = err.length := by
  simp only [corrupt, List.length_zipWith, List.length_take, b.property]
  omega

theorem hit_take {b : XferBuffer} {err : Bytes} (hlen : err.length ≤ motorMaxFrameBytes) :
    (hit b err).val.take err.length = corrupt (b.val.take err.length) err := by
  have hwhole := hit_length (b := b) hlen
  rw [hit_val, List.take_left' hwhole]

theorem hit_drop {b : XferBuffer} {err : Bytes} (hlen : err.length ≤ motorMaxFrameBytes) :
    (hit b err).val.drop err.length = b.val.drop err.length := by
  have hwhole := hit_length (b := b) hlen
  rw [hit_val, List.drop_left' hwhole]

theorem burst_breaks_crc {b : XferBuffer} {err : Bytes} (hlen : err.length ≤ motorMaxFrameBytes)
    (hcrc : CrcMatches b.val err.length) (hburst : Burst 32 (messageBits err)) :
    ¬ CrcMatches (hit b err).val err.length := by
  intro hmatch
  have hword : u32At (hit b err).val err.length = u32At b.val err.length := by
    have hread := fieldAt_drop (hit b err).val err.length 0 4
    rw [hit_drop hlen, fieldAt_drop] at hread
    exact congrArg UInt32.ofNat hread.symm
  have htake : err.length = (b.val.take err.length).length := by
    rw [List.length_take, b.property]
    omega
  rw [CrcMatches, hit_take hlen, hword, ← hcrc] at hmatch
  exact frameCrcCompute_corrupt_ne htake hburst hmatch

theorem coveredBytes_le {h : FrameHeader} (hn : h.nRows.toNat ≤ motorMaxRowsPerBlock) :
    coveredBytes h ≤ motorMaxFrameBytes := by
  simp only [coveredBytes, motorMaxFrameBytes, frameHeaderBytes, motorRowBytes, frameCrcBytes,
    motorMaxRowsPerBlock] at hn ⊢
  omega

/-- A burst changes the checksum of every message, and the comparison of the
checksum refuses every command, and every data frame with its row count intact,
that a burst has hit in the covered bytes alone. -/
theorem bursts_are_noticed :
    (∀ data err : Bytes, err.length = data.length → Burst 32 (messageBits err) →
      frameCrcCompute (corrupt data err) ≠ frameCrcCompute data) ∧
    (∀ (tx : XferBuffer) (err : Bytes), CommandWellFormed tx → err.length = cmdCoveredBytes →
      Burst 32 (messageBits err) → ¬ CrcMatches (hit tx err).val cmdCoveredBytes) ∧
    ∀ (rx : XferBuffer) (err : Bytes), FrameWellFormed rx →
      err.length = coveredBytes (frameHeader rx) → Burst 32 (messageBits err) →
      (frameHeader (hit rx err)).nRows = (frameHeader rx).nRows →
      ¬ CrcMatches (hit rx err).val (coveredBytes (frameHeader (hit rx err))) := by
  refine ⟨fun data err => frameCrcCompute_corrupt_ne, ?_, ?_⟩
  · intro tx err hcmd hlen hburst
    have hfits : err.length ≤ motorMaxFrameBytes := by
      rw [hlen]
      decide
    have hcrc := hcmd.crc
    rw [← hlen] at hcrc ⊢
    exact burst_breaks_crc hfits hcrc hburst
  · intro rx err hframe hlen hburst hrows
    have hsame : coveredBytes (frameHeader (hit rx err)) = err.length := by
      rw [hlen, coveredBytes, hrows, coveredBytes]
    have hcrc := hframe.crc
    rw [← hlen] at hcrc
    rw [hsame]
    exact burst_breaks_crc (hlen ▸ coveredBytes_le hframe.rows_le) hcrc hburst

def silentRow : MotorRow := ⟨Vector.replicate 8 0, 0, 0, 0, 0⟩

/-- One changed bit, in the sequence number of a frame of one row. -/
def seqError : Bytes := List.replicate 4 0 ++ (1 :: List.replicate 43 0)

theorem bursts_are_noticed_seq :
    ¬ CrcMatches (hit (wireFrame (dataHeader 0 0 0 1 0) fun _ => silentRow) seqError).val 48 := by
  have hframe : FrameWellFormed (wireFrame (dataHeader 0 0 0 1 0) fun _ => silentRow) :=
    dataFrame_wellFormed 0 0 0 0 _ (by decide) (by decide)
  have hlen : seqError.length =
      coveredBytes (frameHeader (wireFrame (dataHeader 0 0 0 1 0) fun _ => silentRow)) := by
    rw [frameHeader_wireFrame]
    decide
  have hbits : messageBits seqError =
      List.replicate 39 false ++ ([true] ++ List.replicate 344 false) := by decide +kernel
  have hburst : Burst 32 (messageBits seqError) :=
    hbits ▸ Burst.of_word (by decide) (by decide)
  have hrows : (frameHeader (hit (wireFrame (dataHeader 0 0 0 1 0) fun _ => silentRow)
      seqError)).nRows = 1 := by decide +kernel
  have hrefused := bursts_are_noticed.2.2 _ _ hframe hlen hburst
    (by rw [hrows, frameHeader_wireFrame]; rfl)
  rwa [coveredBytes, hrows] at hrefused

/-! ## A burst in the row count -/

/-- The checksum of a frame with one silent row, as the start of a row. -/
def crcRow : MotorRow := ⟨#v[33073, 26730, 0, 0, 0, 0, 0, 0], 0, 0, 0, 0⟩

def twoRows (i : Nat) : MotorRow :=
  if i = 0 then silentRow else crcRow

/-- Two rows, the second of which begins with the checksum of the first alone. -/
def twoRowFrame : XferBuffer := wireFrame (dataHeader 0 0 0 2 0) twoRows

/-- Both changed bits lie in the low byte of `n_rows`. -/
def rowCountError : Bytes := List.replicate 20 0 ++ (3 :: List.replicate 51 0)

theorem sealed_wellFormed {b : XferBuffer} {h : FrameHeader} {rows : Nat → MotorRow} {rest : Bytes}
    (hb : b.val = sealBytes (frameBody h rows) ++ rest) (hm : h.magic = motorFrameMagic)
    (hv : h.version = motorContractVersion) (hpos : 1 ≤ h.nRows.toNat)
    (hle : h.nRows.toNat ≤ motorMaxRowsPerBlock) : FrameWellFormed b := by
  have hheader : frameHeader b = h := by
    rw [frameHeader, hb, sealBytes, frameBody, List.append_assoc, List.append_assoc]
    exact FrameHeader.ofBytes_toBytes h _
  have hcrc := crcMatches_seal (frameBody h rows) rest
  rw [← hb, frameBody_length] at hcrc
  exact ⟨hheader ▸ hm, hheader ▸ hv, hheader ▸ hpos, hheader ▸ hle, hheader ▸ hcrc⟩

/-- The frame is taken for a whole frame of one row. -/
theorem row_count_burst_unnoticed :
    FrameWellFormed twoRowFrame ∧ rowCountError.length = coveredBytes (frameHeader twoRowFrame) ∧
      Burst 32 (messageBits rowCountError) ∧ FrameWellFormed (hit twoRowFrame rowCountError) := by
  have hlen : rowCountError.length = coveredBytes (dataHeader 0 0 0 2 0) := by decide
  refine ⟨dataFrame_wellFormed 0 0 0 0 _ (by decide) (by decide), ?_, ?_, ?_⟩
  · rw [twoRowFrame, frameHeader_wireFrame]
    exact hlen
  · have hbits : messageBits rowCountError = List.replicate 166 false ++
        ([true, true] ++ List.replicate 408 false) := by decide +kernel
    rw [hbits]
    exact Burst.of_word (by decide) (by decide)
  · have hbody : twoRowFrame.val.take rowCountError.length =
        frameBody (dataHeader 0 0 0 2 0) twoRows := by
      rw [hlen, ← frameBody_length _ twoRows, twoRowFrame, wireFrame,
        Buffer.fill_val (sealed_frame_fits (by decide) twoRows), sealBytes, List.append_assoc,
        List.take_left]
    -- the checksum of the shorter frame stands where the second row began
    have hshort : corrupt (frameBody (dataHeader 0 0 0 2 0) twoRows) rowCountError =
        sealBytes (frameBody (dataHeader 0 0 0 1 0) twoRows) ++ List.replicate 20 0 := by
      decide +kernel
    have hval : (hit twoRowFrame rowCountError).val =
        sealBytes (frameBody (dataHeader 0 0 0 1 0) twoRows) ++
          (List.replicate 20 0 ++ twoRowFrame.val.drop rowCountError.length) := by
      rw [hit_val, hbody, hshort, List.append_assoc]
    exact sealed_wellFormed hval rfl rfl (by decide) (by decide)

end QnxHypervisor.MotorWire
