import QnxHypervisor.Foundation.LittleEndian

/-! # The wire contract of `motor_wire.h`

Packed little-endian layouts of the data frame and of the command frame that
cross the SPI link. Decoders read the fields at the offsets of the packed
structures; the round trips below are stated for a structure at the head of a
longer buffer, which is how both ends overlay them.
-/

namespace QnxHypervisor.MotorWire

open Foundation

/-! ## Contract constants -/

def motorContractVersion : UInt16 := 4
def motorFrameMagic : UInt32 := 0x4D4F5452
def motorMaxRowsPerBlock : Nat := 200

def motorFlagAckOk : UInt16 := 0x0001
def motorFlagAckNack : UInt16 := 0x0002
def motorFlagNackRange : UInt16 := 0x0004
def motorFlagNackCrc : UInt16 := 0x0008
def motorFlagNackVer : UInt16 := 0x0010
def motorFlagNackCmd : UInt16 := 0x0020
def motorFlagConfigApplied : UInt16 := 0x0040

def motorCmdMagic : UInt32 := 0x434D4452
def motorCmdSetConfig : UInt16 := 1
def motorConfigSchemaVersion : UInt16 := 2
def motorSourceAdc : UInt16 := 1
def motorRunStop : UInt16 := 0
def motorRunRun : UInt16 := 1

/-! ## Structures -/

/-- `motor_row_t`. -/
structure MotorRow where
  current : Vector UInt16 8
  vibX : Int16
  vibY : Int16
  vibZ : Int16
  rpm : UInt16
  deriving DecidableEq

/-- `frame_header_t`. -/
structure FrameHeader where
  magic : UInt32
  seq : UInt32
  timestamp : UInt64
  version : UInt16
  flags : UInt16
  nRows : UInt16
  reserved : UInt16
  deriving DecidableEq

/-- `cmd_header_t`. -/
structure CmdHeader where
  magic : UInt32
  cmd : UInt16
  schemaVersion : UInt16
  cmdSeq : UInt16
  pad : UInt16
  deriving DecidableEq

/-- `config_payload_t`. -/
structure ConfigPayload where
  blockRows : UInt16
  reserved0 : UInt16
  source : UInt16
  runState : UInt16
  sampleRateHz : UInt32
  imuRateHz : UInt32
  reserved : Vector UInt8 12
  deriving DecidableEq

def motorRowBytes : Nat := 24
def frameHeaderBytes : Nat := 24
def frameCrcBytes : Nat := 4
def cmdHeaderBytes : Nat := 12
def configPayloadBytes : Nat := 28

/-- `MOTOR_MAX_FRAME_BYTES`, the size of every SPI exchange. -/
def motorMaxFrameBytes : Nat :=
  frameHeaderBytes + motorMaxRowsPerBlock * motorRowBytes + frameCrcBytes

/-- `MOTOR_CMD_FRAME_BYTES`. -/
def motorCmdFrameBytes : Nat := cmdHeaderBytes + configPayloadBytes + frameCrcBytes

abbrev XferBuffer := Buffer motorMaxFrameBytes

/-- The payload with its reserved bytes zeroed, as the sender must emit it. -/
def ConfigPayload.zeroReserved (p : ConfigPayload) : ConfigPayload :=
  { p with reserved := Vector.replicate 12 0 }

/-! ## Scalar fields -/

def u16Bytes (x : UInt16) : Bytes := leBytes 2 x.toNat
def u32Bytes (x : UInt32) : Bytes := leBytes 4 x.toNat
def u64Bytes (x : UInt64) : Bytes := leBytes 8 x.toNat

def u16At (b : Bytes) (off : Nat) : UInt16 := UInt16.ofNat (fieldAt b off 2)
def u32At (b : Bytes) (off : Nat) : UInt32 := UInt32.ofNat (fieldAt b off 4)
def u64At (b : Bytes) (off : Nat) : UInt64 := UInt64.ofNat (fieldAt b off 8)

@[simp] theorem u16Bytes_length (x : UInt16) : (u16Bytes x).length = 2 := by simp [u16Bytes]
@[simp] theorem u32Bytes_length (x : UInt32) : (u32Bytes x).length = 4 := by simp [u32Bytes]
@[simp] theorem u64Bytes_length (x : UInt64) : (u64Bytes x).length = 8 := by simp [u64Bytes]

theorem u16At_bytes (x : UInt16) (rest : Bytes) : u16At (u16Bytes x ++ rest) 0 = x := by
  simp [u16At, u16Bytes]

theorem u32At_bytes (x : UInt32) (rest : Bytes) : u32At (u32Bytes x ++ rest) 0 = x := by
  simp [u32At, u32Bytes]

theorem u64At_bytes (x : UInt64) (rest : Bytes) : u64At (u64Bytes x ++ rest) 0 = x := by
  simp [u64At, u64Bytes]

theorem u16At_skip (pre rest : Bytes) (off : Nat) (h : pre.length ≤ off) :
    u16At (pre ++ rest) off = u16At rest (off - pre.length) := by
  rw [u16At, fieldAt_append_right _ _ _ _ h, u16At]

theorem u32At_skip (pre rest : Bytes) (off : Nat) (h : pre.length ≤ off) :
    u32At (pre ++ rest) off = u32At rest (off - pre.length) := by
  rw [u32At, fieldAt_append_right _ _ _ _ h, u32At]

theorem u64At_skip (pre rest : Bytes) (off : Nat) (h : pre.length ≤ off) :
    u64At (pre ++ rest) off = u64At rest (off - pre.length) := by
  rw [u64At, fieldAt_append_right _ _ _ _ h, u64At]

/-! ## Frame header -/

def FrameHeader.toBytes (h : FrameHeader) : Bytes :=
  u32Bytes h.magic ++ (u32Bytes h.seq ++ (u64Bytes h.timestamp ++ (u16Bytes h.version ++
    (u16Bytes h.flags ++ (u16Bytes h.nRows ++ u16Bytes h.reserved)))))

/-- Overlay a `frame_header_t` on the head of a buffer. -/
def FrameHeader.ofBytes (b : Bytes) : FrameHeader where
  magic := u32At b 0
  seq := u32At b 4
  timestamp := u64At b 8
  version := u16At b 16
  flags := u16At b 18
  nRows := u16At b 20
  reserved := u16At b 22

@[simp] theorem FrameHeader.toBytes_length (h : FrameHeader) :
    h.toBytes.length = frameHeaderBytes := by
  simp [toBytes, frameHeaderBytes]

theorem FrameHeader.ofBytes_toBytes (h : FrameHeader) (rest : Bytes) :
    FrameHeader.ofBytes (h.toBytes ++ rest) = h := by
  simp [ofBytes, toBytes, u16At_skip, u32At_skip, u64At_skip, u16At_bytes, u32At_bytes,
    u64At_bytes]

/-! ## Rows -/

def MotorRow.toBytes (r : MotorRow) : Bytes :=
  r.current.toList.flatMap u16Bytes ++ (u16Bytes r.vibX.toUInt16 ++
    (u16Bytes r.vibY.toUInt16 ++ (u16Bytes r.vibZ.toUInt16 ++ u16Bytes r.rpm)))

def MotorRow.ofBytes (b : Bytes) : MotorRow where
  current := Vector.ofFn fun i => u16At b (2 * i)
  vibX := (u16At b 16).toInt16
  vibY := (u16At b 18).toInt16
  vibZ := (u16At b 20).toInt16
  rpm := u16At b 22

theorem currentBytes_length (v : Vector UInt16 8) :
    (v.toList.flatMap u16Bytes).length = 16 := by
  rw [length_flatMap u16Bytes 2 u16Bytes_length]
  simp

@[simp] theorem MotorRow.toBytes_length (r : MotorRow) : r.toBytes.length = motorRowBytes := by
  rw [toBytes, List.length_append, currentBytes_length]
  simp [motorRowBytes]

/-- The `i`-th of a sequence of 16-bit fields. -/
theorem u16At_flatMap (l : List UInt16) (i : Nat) (hi : i < l.length) (rest : Bytes) :
    u16At (l.flatMap u16Bytes ++ rest) (2 * i) = l[i] := by
  have hlen : 2 * i ≤ (l.flatMap u16Bytes).length := by
    rw [length_flatMap u16Bytes 2 u16Bytes_length]
    omega
  have hdrop : (l.flatMap u16Bytes ++ rest).drop (2 * i) =
      u16Bytes l[i] ++ ((l.drop (i + 1)).flatMap u16Bytes ++ rest) := by
    rw [List.drop_append_of_le_length hlen, drop_flatMap u16Bytes 2 u16Bytes_length,
      List.drop_eq_getElem_cons hi, List.flatMap_cons, List.append_assoc]
  have hread := u16At_bytes l[i] ((l.drop (i + 1)).flatMap u16Bytes ++ rest)
  rw [← hdrop, u16At, fieldAt_drop] at hread
  simpa [u16At] using hread

theorem MotorRow.ofBytes_toBytes (r : MotorRow) (rest : Bytes) :
    MotorRow.ofBytes (r.toBytes ++ rest) = r := by
  have hcur : (Vector.ofFn fun i : Fin 8 => u16At (r.toBytes ++ rest) (2 * i)) = r.current := by
    apply Vector.ext
    intro i hi
    rw [Vector.getElem_ofFn, toBytes, List.append_assoc,
      u16At_flatMap _ _ (by simpa using hi)]
    simp
  have hskip := currentBytes_length r.current
  rw [ofBytes, hcur]
  simp [toBytes, u16At_skip, hskip, u16At_bytes]

/-! ## Command header and payload -/

def CmdHeader.toBytes (h : CmdHeader) : Bytes :=
  u32Bytes h.magic ++ (u16Bytes h.cmd ++ (u16Bytes h.schemaVersion ++
    (u16Bytes h.cmdSeq ++ u16Bytes h.pad)))

def CmdHeader.ofBytes (b : Bytes) : CmdHeader where
  magic := u32At b 0
  cmd := u16At b 4
  schemaVersion := u16At b 6
  cmdSeq := u16At b 8
  pad := u16At b 10

@[simp] theorem CmdHeader.toBytes_length (h : CmdHeader) :
    h.toBytes.length = cmdHeaderBytes := by
  simp [toBytes, cmdHeaderBytes]

theorem CmdHeader.ofBytes_toBytes (h : CmdHeader) (rest : Bytes) :
    CmdHeader.ofBytes (h.toBytes ++ rest) = h := by
  simp [ofBytes, toBytes, u16At_skip, u16At_bytes, u32At_bytes]

def ConfigPayload.toBytes (p : ConfigPayload) : Bytes :=
  u16Bytes p.blockRows ++ (u16Bytes p.reserved0 ++ (u16Bytes p.source ++ (u16Bytes p.runState ++
    (u32Bytes p.sampleRateHz ++ (u32Bytes p.imuRateHz ++ p.reserved.toList)))))

def ConfigPayload.ofBytes (b : Bytes) : ConfigPayload where
  blockRows := u16At b 0
  reserved0 := u16At b 2
  source := u16At b 4
  runState := u16At b 6
  sampleRateHz := u32At b 8
  imuRateHz := u32At b 12
  reserved := Vector.ofFn fun i => (b.drop 16).getD i 0

@[simp] theorem ConfigPayload.toBytes_length (p : ConfigPayload) :
    p.toBytes.length = configPayloadBytes := by
  simp [toBytes, configPayloadBytes]

theorem ConfigPayload.ofBytes_toBytes (p : ConfigPayload) (rest : Bytes) :
    ConfigPayload.ofBytes (p.toBytes ++ rest) = p := by
  have htail : (p.toBytes ++ rest).drop 16 = p.reserved.toList ++ rest := by
    simp [toBytes, List.drop_append, List.drop_eq_nil_of_le]
  have hres : (Vector.ofFn fun i : Fin 12 => ((p.toBytes ++ rest).drop 16).getD i 0) =
      p.reserved := by
    apply Vector.ext
    intro i hi
    have hlen : i < p.reserved.toList.length := by simpa using hi
    simp [htail, List.getElem?_append_left hlen, hi]
  rw [ofBytes, hres]
  simp [toBytes, u16At_skip, u32At_skip, u16At_bytes, u32At_bytes]

theorem ConfigPayload.toBytes_injective {p q : ConfigPayload} (h : p.toBytes = q.toBytes) :
    p = q := by
  have hp := ConfigPayload.ofBytes_toBytes p []
  rw [h, ConfigPayload.ofBytes_toBytes] at hp
  exact hp.symm

end QnxHypervisor.MotorWire
