import QnxHypervisor.MotorWire.Layout

/-! # Checksummed frames

The CRC-32/MPEG-2 of `frame_crc_compute`, the data frame
`[header][rows][crc]` and the command frame `[header][payload][crc]`, both
carried in one exchange buffer of `MOTOR_MAX_FRAME_BYTES` bytes.
-/

namespace QnxHypervisor.MotorWire

open Foundation

/-! ## CRC-32/MPEG-2 -/

/-- One bit of the shift register, most significant bit first. -/
def crcShift (crc : UInt32) : UInt32 :=
  if crc &&& 0x80000000 ≠ 0 then (crc <<< 1) ^^^ 0x04C11DB7 else crc <<< 1

def crcByte (crc : UInt32) (b : UInt8) : UInt32 :=
  Nat.repeat crcShift 8 (crc ^^^ (b.toUInt32 <<< 24))

def frameCrcCompute (data : Bytes) : UInt32 := data.foldl crcByte 0xFFFFFFFF

/-- Covered bytes followed by their checksum. -/
def sealBytes (body : Bytes) : Bytes := body ++ u32Bytes (frameCrcCompute body)

theorem sealBytes_length (body : Bytes) :
    (sealBytes body).length = body.length + frameCrcBytes := by
  simp [sealBytes, frameCrcBytes]

/-- The checksum stored behind the first `covered` bytes is theirs. -/
def CrcMatches (b : Bytes) (covered : Nat) : Prop :=
  frameCrcCompute (b.take covered) = u32At b covered

instance (b : Bytes) (covered : Nat) : Decidable (CrcMatches b covered) :=
  inferInstanceAs (Decidable (_ = _))

theorem crcMatches_seal (body rest : Bytes) :
    CrcMatches (sealBytes body ++ rest) body.length := by
  have htake : (sealBytes body ++ rest).take body.length = body := by
    simp [sealBytes, List.append_assoc]
  rw [CrcMatches, htake, sealBytes, List.append_assoc, u32At_skip _ _ _ (Nat.le_refl _),
    Nat.sub_self, u32At_bytes]

/-! ## Data frames -/

def frameHeader (rx : XferBuffer) : FrameHeader := FrameHeader.ofBytes rx.val

/-- Bytes under the checksum: the header and `n_rows` rows. -/
def coveredBytes (h : FrameHeader) : Nat := frameHeaderBytes + h.nRows.toNat * motorRowBytes

/-- Row `i` behind the frame header. -/
def rowAt (rx : XferBuffer) (i : Nat) : MotorRow :=
  MotorRow.ofBytes (rx.val.drop (frameHeaderBytes + motorRowBytes * i))

/-- Magic, version, row count and checksum of a data frame are right. -/
structure FrameWellFormed (rx : XferBuffer) : Prop where
  magic : (frameHeader rx).magic = motorFrameMagic
  version : (frameHeader rx).version = motorContractVersion
  rows_pos : 1 ≤ (frameHeader rx).nRows.toNat
  rows_le : (frameHeader rx).nRows.toNat ≤ motorMaxRowsPerBlock
  crc : CrcMatches rx.val (coveredBytes (frameHeader rx))

instance (rx : XferBuffer) : Decidable (FrameWellFormed rx) :=
  decidable_of_iff ((frameHeader rx).magic = motorFrameMagic ∧
      (frameHeader rx).version = motorContractVersion ∧
      1 ≤ (frameHeader rx).nRows.toNat ∧
      (frameHeader rx).nRows.toNat ≤ motorMaxRowsPerBlock ∧
      CrcMatches rx.val (coveredBytes (frameHeader rx)))
    ⟨fun ⟨h1, h2, h3, h4, h5⟩ => ⟨h1, h2, h3, h4, h5⟩,
      fun ⟨h1, h2, h3, h4, h5⟩ => ⟨h1, h2, h3, h4, h5⟩⟩

def rowsBytes (rows : Nat → MotorRow) (n : Nat) : Bytes :=
  (List.range n).flatMap fun i => (rows i).toBytes

/-- `[frame_header_t][n_rows * motor_row_t]`. -/
def frameBody (h : FrameHeader) (rows : Nat → MotorRow) : Bytes :=
  h.toBytes ++ rowsBytes rows h.nRows.toNat

/-- The exchange buffer holding the sealed frame, zero padded. -/
def wireFrame (h : FrameHeader) (rows : Nat → MotorRow) : XferBuffer :=
  Buffer.fill motorMaxFrameBytes (sealBytes (frameBody h rows))

theorem rowsBytes_length (rows : Nat → MotorRow) (n : Nat) :
    (rowsBytes rows n).length = motorRowBytes * n := by
  rw [rowsBytes, length_flatMap _ motorRowBytes (fun i => (rows i).toBytes_length)]
  simp

theorem frameBody_length (h : FrameHeader) (rows : Nat → MotorRow) :
    (frameBody h rows).length = coveredBytes h := by
  simp [frameBody, rowsBytes_length, coveredBytes, Nat.mul_comm]

@[simp] theorem frameHeader_wireFrame (h : FrameHeader) (rows : Nat → MotorRow) :
    frameHeader (wireFrame h rows) = h := by
  -- the header survives even when an oversized frame is cut at the buffer end
  have hcut : frameHeaderBytes ≤ motorMaxFrameBytes := by decide
  simp only [frameHeader, wireFrame, Buffer.fill, sealBytes, frameBody, List.append_assoc]
  rw [List.take_append, List.take_of_length_le (by simpa using hcut)]
  exact FrameHeader.ofBytes_toBytes h _

theorem sealed_frame_fits {h : FrameHeader} (hn : h.nRows.toNat ≤ motorMaxRowsPerBlock)
    (rows : Nat → MotorRow) : (sealBytes (frameBody h rows)).length ≤ motorMaxFrameBytes := by
  rw [sealBytes_length, frameBody_length]
  simp only [coveredBytes, motorMaxFrameBytes, frameHeaderBytes, motorRowBytes, frameCrcBytes,
    motorMaxRowsPerBlock] at hn ⊢
  omega

/-- What `motor_wire.h` lays out is accepted by the header and checksum tests. -/
theorem wireFrame_wellFormed {h : FrameHeader} (rows : Nat → MotorRow)
    (hm : h.magic = motorFrameMagic) (hv : h.version = motorContractVersion)
    (hpos : 1 ≤ h.nRows.toNat) (hle : h.nRows.toNat ≤ motorMaxRowsPerBlock) :
    FrameWellFormed (wireFrame h rows) := by
  have hcrc := crcMatches_seal (frameBody h rows)
    (List.replicate (motorMaxFrameBytes - (sealBytes (frameBody h rows)).length) 0)
  rw [← Buffer.fill_val (sealed_frame_fits hle rows), frameBody_length] at hcrc
  constructor <;> simp only [frameHeader_wireFrame]
  · exact hm
  · exact hv
  · exact hpos
  · exact hle
  · exact hcrc

theorem rowAt_wireFrame {h : FrameHeader} (rows : Nat → MotorRow) {i : Nat}
    (hle : h.nRows.toNat ≤ motorMaxRowsPerBlock) (hi : i < h.nRows.toNat) :
    rowAt (wireFrame h rows) i = rows i := by
  have hrow : (rowsBytes rows h.nRows.toNat).drop (motorRowBytes * i) =
      (rows i).toBytes ++ ((List.range h.nRows.toNat).drop (i + 1)).flatMap
        fun j => (rows j).toBytes := by
    rw [rowsBytes, drop_flatMap _ motorRowBytes (fun j => (rows j).toBytes_length),
      List.drop_eq_getElem_cons (by simpa using hi), List.flatMap_cons, List.getElem_range]
  have hskip : motorRowBytes * i ≤ (rowsBytes rows h.nRows.toNat).length := by
    rw [rowsBytes_length]
    exact Nat.mul_le_mul_left _ (Nat.le_of_lt hi)
  rw [rowAt, wireFrame, Buffer.fill_val (sealed_frame_fits hle rows), sealBytes, frameBody,
    ← List.drop_drop, List.append_assoc, List.append_assoc,
    show frameHeaderBytes = h.toBytes.length by simp, List.drop_left,
    List.drop_append_of_le_length hskip, hrow, List.append_assoc]
  exact MotorRow.ofBytes_toBytes _ _

/-- The header the firmware stamps on a block. -/
def dataHeader (seq : UInt32) (timestamp : UInt64) (flags nRows reserved : UInt16) :
    FrameHeader :=
  { magic := motorFrameMagic, seq, timestamp, version := motorContractVersion, flags, nRows
    reserved }

theorem dataFrame_wellFormed (seq : UInt32) (timestamp : UInt64) (flags reserved : UInt16)
    {nRows : UInt16} (rows : Nat → MotorRow) (hpos : 1 ≤ nRows.toNat)
    (hle : nRows.toNat ≤ motorMaxRowsPerBlock) :
    FrameWellFormed (wireFrame (dataHeader seq timestamp flags nRows reserved) rows) :=
  wireFrame_wellFormed rows rfl rfl hpos hle

/-- A silent line reads as zeros and carries no frame. -/
theorem zero_not_wellFormed : ¬ FrameWellFormed (Buffer.zero motorMaxFrameBytes) := by
  intro h
  exact absurd h.magic (by decide)

/-! ## Command frames -/

def cmdHeader (b : XferBuffer) : CmdHeader := CmdHeader.ofBytes b.val

def cmdPayload (b : XferBuffer) : ConfigPayload :=
  ConfigPayload.ofBytes (b.val.drop cmdHeaderBytes)

def cmdCoveredBytes : Nat := cmdHeaderBytes + configPayloadBytes

/-- A command frame whose checksum holds. -/
structure CommandWellFormed (b : XferBuffer) : Prop where
  magic : (cmdHeader b).magic = motorCmdMagic
  crc : CrcMatches b.val cmdCoveredBytes

instance (b : XferBuffer) : Decidable (CommandWellFormed b) :=
  decidable_of_iff ((cmdHeader b).magic = motorCmdMagic ∧ CrcMatches b.val cmdCoveredBytes)
    ⟨fun ⟨h1, h2⟩ => ⟨h1, h2⟩, fun ⟨h1, h2⟩ => ⟨h1, h2⟩⟩

def commandBody (h : CmdHeader) (p : ConfigPayload) : Bytes := h.toBytes ++ p.toBytes

theorem commandBody_length (h : CmdHeader) (p : ConfigPayload) :
    (commandBody h p).length = cmdCoveredBytes := by
  simp [commandBody, cmdCoveredBytes]

theorem sealed_command_length (h : CmdHeader) (p : ConfigPayload) :
    (sealBytes (commandBody h p)).length = motorCmdFrameBytes := by
  rw [sealBytes_length, commandBody_length]
  rfl

/-- A sealed command laid at the start of the exchange buffer. -/
def wireCommand (h : CmdHeader) (p : ConfigPayload) : XferBuffer :=
  Buffer.fill motorMaxFrameBytes (sealBytes (commandBody h p))

theorem wireCommand_val (h : CmdHeader) (p : ConfigPayload) :
    (wireCommand h p).val = sealBytes (commandBody h p) ++
      List.replicate (motorMaxFrameBytes - motorCmdFrameBytes) 0 := by
  rw [wireCommand, Buffer.fill_val, sealed_command_length]
  rw [sealed_command_length]
  decide

@[simp] theorem cmdHeader_wireCommand (h : CmdHeader) (p : ConfigPayload) :
    cmdHeader (wireCommand h p) = h := by
  rw [cmdHeader, wireCommand_val, sealBytes, commandBody, List.append_assoc, List.append_assoc]
  exact CmdHeader.ofBytes_toBytes h _

@[simp] theorem cmdPayload_wireCommand (h : CmdHeader) (p : ConfigPayload) :
    cmdPayload (wireCommand h p) = p := by
  rw [cmdPayload, wireCommand_val, sealBytes, commandBody, List.append_assoc, List.append_assoc,
    show cmdHeaderBytes = h.toBytes.length by simp, List.drop_left]
  exact ConfigPayload.ofBytes_toBytes p _

theorem wireCommand_wellFormed (h : CmdHeader) (p : ConfigPayload)
    (hm : h.magic = motorCmdMagic) : CommandWellFormed (wireCommand h p) := by
  refine ⟨by simpa using hm, ?_⟩
  have hcrc := crcMatches_seal (commandBody h p)
    (List.replicate (motorMaxFrameBytes - motorCmdFrameBytes) 0)
  rwa [← wireCommand_val, commandBody_length] at hcrc

theorem zero_not_command : (cmdHeader (Buffer.zero motorMaxFrameBytes)).magic ≠ motorCmdMagic := by
  decide

end QnxHypervisor.MotorWire
