import Mathlib.Tactic.Ring
import QnxHypervisor.FrameRouter.Router

/-! # Frame buffers in the region

The first `fb_guest` that finds no magic lays the buffers out for its display. Later runs
keep that header, whatever size they start with, and capture into a pixmap of their own size.
Addresses count from the header.
-/

namespace QnxHypervisor.FrameRouter

/-! ## Source types -/

def shmPageSize : Nat := 4096
def fbMaxWidth : UInt32 := 1920
def fbMaxHeight : UInt32 := 1080
def fbBpp : UInt32 := 4

/-- `sizeof(struct fb_shm_header)`. -/
def fbHeaderSize : Nat := 48

/-- `disp_w` and `disp_h`. -/
structure FbSize where
  width : UInt32
  height : UInt32
  deriving DecidableEq

/-- The fields of `fb_shm_header` that lay the buffers out. -/
structure FbLayout where
  width : UInt32
  height : UInt32
  stride : UInt32
  bufferSize : UInt32
  bufferOffset : Fin fbMaxBuffers → UInt32

/-- How a run gets its size. -/
inductive FbArgs where
  /-- what Screen answers -/
  | detect (actualWidth actualHeight : Int32)
  /-- `--test`, and what `atoi` makes of the arguments behind it -/
  | test (size : Option (Int32 × Int32))

/-- The pixmap for a size. Screen chooses the bytes of a row, and a row holds its pixels. -/
structure Pixmap (size : FbSize) where
  stride : UInt32
  wide : 4 * size.width.toNat ≤ stride.toNat

def Pixmap.bytes {size : FbSize} (p : Pixmap size) : Nat := p.stride.toNat * size.height.toNat

/-- One `memcpy` of a captured row. -/
structure RowCopy where
  dst : Nat
  src : Nat
  len : Nat

/-! ## Source functions -/

/-- `fb_shm_total_size`. -/
def fbShmTotalSize (width height bytesPerPixel : UInt32) : Nat :=
  let stride := width * bytesPerPixel
  let bufSz := stride * height
  let dataSz := fbHeaderSize + bufSz.toNat * fbMaxBuffers
  (shmPageSize + dataSz + (shmPageSize - 1)) / shmPageSize * shmPageSize

/-- What is mapped from the header on. -/
def dataRoom : Nat := fbShmTotalSize fbMaxWidth fbMaxHeight fbBpp - shmPageSize

def screenQueryDisplaySize (actualWidth actualHeight : Int32) : Option FbSize :=
  if actualWidth ≤ 0 ∨ actualHeight ≤ 0 then none
  else
    let size : FbSize := ⟨actualWidth.toUInt32, actualHeight.toUInt32⟩
    if fbMaxWidth < size.width ∨ fbMaxHeight < size.height then none else some size

/-- The size with which the run goes on. -/
def startSize : FbArgs → Option FbSize
  | .detect w h => screenQueryDisplaySize w h
  | .test none => some ⟨1024, 600⟩
  | .test (some (w, h)) => some ⟨w.toUInt32, h.toUInt32⟩

/-- The header that is stored where no magic is. -/
def layOut (size : FbSize) : FbLayout :=
  let stride := size.width * fbBpp
  let bufSz := stride * size.height
  { width := size.width
    height := size.height
    stride := stride
    bufferSize := bufSz
    bufferOffset := fun i => UInt32.ofNat fbHeaderSize + UInt32.ofNat i * bufSz }

def initHeader (region : Option FbLayout) (size : FbSize) : FbLayout := region.getD (layOut size)

/-- What a run leaves in the region; `none` is a region without the magic. -/
def runStart (region : Option FbLayout) (args : FbArgs) : Option FbLayout :=
  match startSize args with
  | none => region
  | some size => some (initHeader region size)

/-- The region after earlier runs. -/
def regionAfter (earlier : List FbArgs) : Option FbLayout := earlier.foldl runStart none

/-- The rows that `screen_capture_frame` copies. -/
def screenCaptureFrame (dest : Nat) (width height destStride captureStride : UInt32) : List RowCopy :=
  (List.range height.toNat).map fun y =>
    ⟨dest + y * destStride.toNat, y * captureStride.toNat, width.toNat * fbBpp.toNat⟩

/-- The bytes of the pixmap that are printed every thirty frames. -/
def captureSample (height captureStride : UInt32) : List Nat :=
  let mid := (height / 2).toNat * captureStride.toNat
  [0, 1, 2, 3, mid, mid + 1, mid + 2, mid + 3]

/-- The four stores for a pixel; the index is an `uint32_t`. -/
def patternPixel (row : Nat) (x y phase : UInt32) : List (Nat × UInt8) :=
  let v : UInt8 := if (x + y + phase) / 8 % 2 ≠ 0 then 0xFF else 0x00
  [(row + (x * 4 + 0).toNat, v), (row + (x * 4 + 1).toNat, (phase &&& 0xFF).toUInt8),
    (row + (x * 4 + 2).toNat, 0xFF - v), (row + (x * 4 + 3).toNat, 0xFF)]

def fillTestPattern (dest : Nat) (width height stride phase : UInt32) : List (Nat × UInt8) :=
  (List.range height.toNat).flatMap fun y =>
    (List.range width.toNat).flatMap fun x =>
      patternPixel (dest + y * stride.toNat) (UInt32.ofNat x) (UInt32.ofNat y) phase

/-! ## What is promised -/

def FbLayout.InBuffer (hdr : FbLayout) (i : Fin fbMaxBuffers) (a : Nat) : Prop :=
  (hdr.bufferOffset i).toNat ≤ a ∧ a < (hdr.bufferOffset i).toNat + hdr.bufferSize.toNat

/-- The frame that a run puts into buffer `i` stays in it, and what it captures comes from
the pixmap. -/
def FrameStays (hdr : FbLayout) {size : FbSize} (pixmap : Pixmap size) (i : Fin fbMaxBuffers) :
    FbArgs → Prop
  | .test _ => ∀ phase, ∀ store ∈ fillTestPattern (hdr.bufferOffset i).toNat hdr.width hdr.height
      hdr.stride phase, hdr.InBuffer i store.1
  | .detect _ _ =>
      (∀ row ∈ screenCaptureFrame (hdr.bufferOffset i).toNat hdr.width hdr.height hdr.stride
        pixmap.stride, ∀ k < row.len, hdr.InBuffer i (row.dst + k) ∧ row.src + k < pixmap.bytes) ∧
      ∀ a ∈ captureSample hdr.height pixmap.stride, a < pixmap.bytes

structure FramesInBounds (hdr : FbLayout) {size : FbSize} (pixmap : Pixmap size) (args : FbArgs) :
    Prop where
  apart : ∀ i j, i ≠ j → ∀ a, hdr.InBuffer i a → ¬ hdr.InBuffer j a
  inside : ∀ i, (hdr.bufferOffset i).toNat + hdr.bufferSize.toNat ≤ dataRoom
  stays : ∀ i, FrameStays hdr pixmap i args

/-- The size that the header is laid out for: the first with which a run went on. -/
def laidOutSize (earlier : List FbArgs) (size : FbSize) : FbSize :=
  (earlier.filterMap startSize).head?.getD size

/-- Three frames of the laid out size fit into the region, and a frame of this size that is
captured fits into the pixmap of the current one. -/
structure FramesFit (laid : FbSize) {size : FbSize} (pixmap : Pixmap size) (args : FbArgs) :
    Prop where
  region : fbHeaderSize + 12 * (laid.width.toNat * laid.height.toNat) ≤ dataRoom
  captured : (∃ w h, args = .detect w h) →
    (laid.width ≠ 0 → laid.height ≠ 0 → (laid.height.toNat - 1) * pixmap.stride.toNat +
      4 * laid.width.toNat ≤ pixmap.bytes) ∧ laid.height.toNat / 2 < size.height.toNat

/-! ## The layout -/

variable {size laid : FbSize} {pixmap : Pixmap size} {args : FbArgs} {earlier : List FbArgs}
  {i : Fin fbMaxBuffers}

theorem dataRoom_eq : dataRoom = 24887296 := by
  decide

theorem layOut_stride (size : FbSize) :
    (layOut size).stride.toNat = 4 * size.width.toNat % 2 ^ 32 := by
  simp only [layOut, UInt32.toNat_mul, fbBpp]
  rw [Nat.mul_comm]
  rfl

theorem layOut_bufferSize (size : FbSize) :
    (layOut size).bufferSize.toNat = 4 * (size.width.toNat * size.height.toNat) % 2 ^ 32 := by
  have hstride := layOut_stride size
  show ((layOut size).stride * size.height).toNat = _
  rw [UInt32.toNat_mul, hstride, Nat.mod_mul_mod, Nat.mul_assoc]

theorem layOut_offset (size : FbSize) (i : Fin fbMaxBuffers) :
    ((layOut size).bufferOffset i).toNat = (48 + i * (layOut size).bufferSize.toNat) % 2 ^ 32 := by
  have hi : i.val < 2 ^ 32 := Nat.lt_trans i.isLt (by decide)
  show (UInt32.ofNat fbHeaderSize + UInt32.ofNat i * (layOut size).bufferSize).toNat = _
  rw [UInt32.toNat_add, UInt32.toNat_mul, UInt32.toNat_ofNat_of_lt' hi]
  show (48 + _ % 2 ^ 32) % 2 ^ 32 = _
  rw [Nat.add_mod_mod]

structure LaidOut (size : FbSize) : Prop where
  bufferSize : (layOut size).bufferSize.toNat = 4 * (size.width.toNat * size.height.toNat)
  offset : ∀ i, ((layOut size).bufferOffset i).toNat =
    48 + i.val * (4 * (size.width.toNat * size.height.toNat))
  stride : size.height ≠ 0 → (layOut size).stride.toNat = 4 * size.width.toNat

theorem laidOut_of_fits
    (h : fbHeaderSize + 12 * (size.width.toNat * size.height.toNat) ≤ dataRoom) : LaidOut size := by
  rw [dataRoom_eq] at h
  have hsmall : 48 + 12 * (size.width.toNat * size.height.toNat) ≤ 24887296 := h
  have hbuffer : (layOut size).bufferSize.toNat = 4 * (size.width.toNat * size.height.toNat) := by
    rw [layOut_bufferSize, Nat.mod_eq_of_lt (by omega)]
  refine ⟨hbuffer, fun i => ?_, fun hheight => ?_⟩
  · have hi : i.val ≤ 2 := Nat.le_of_lt_succ i.isLt
    have hle := Nat.mul_le_mul_right (4 * (size.width.toNat * size.height.toNat)) hi
    rw [layOut_offset, hbuffer, Nat.mod_eq_of_lt (by omega)]
  · have hpos : 0 < size.height.toNat :=
      Nat.pos_of_ne_zero fun hzero => hheight (UInt32.toNat_inj.mp hzero)
    have hle := Nat.le_mul_of_pos_right size.width.toNat hpos
    rw [layOut_stride, Nat.mod_eq_of_lt (by omega)]

/-! ## What a frame touches -/

theorem mem_screenCaptureFrame {dest : Nat} {width height destStride captureStride : UInt32}
    {row : RowCopy} : row ∈ screenCaptureFrame dest width height destStride captureStride ↔
      ∃ y < height.toNat,
        row = ⟨dest + y * destStride.toNat, y * captureStride.toNat, width.toNat * 4⟩ := by
  simp only [screenCaptureFrame, List.mem_map, List.mem_range, eq_comm (b := row)]
  rfl

theorem mem_patternPixel {row a : Nat} {x y phase : UInt32} {b : UInt8}
    (h : (a, b) ∈ patternPixel row x y phase) :
    ∃ c < 4, a = row + (x * 4 + UInt32.ofNat c).toNat := by
  simp only [patternPixel, List.mem_cons, Prod.mk.injEq, List.not_mem_nil, or_false] at h
  rcases h with ⟨rfl, -⟩ | ⟨rfl, -⟩ | ⟨rfl, -⟩ | ⟨rfl, -⟩
  · exact ⟨0, by decide, rfl⟩
  · exact ⟨1, by decide, rfl⟩
  · exact ⟨2, by decide, rfl⟩
  · exact ⟨3, by decide, rfl⟩

theorem patternPixel_mem (row : Nat) (x y phase : UInt32) {c : Nat} (hc : c < 4) :
    ∃ b, (row + (x * 4 + UInt32.ofNat c).toNat, b) ∈ patternPixel row x y phase := by
  simp only [patternPixel, List.mem_cons, Prod.mk.injEq]
  obtain rfl | rfl | rfl | rfl : c = 0 ∨ c = 1 ∨ c = 2 ∨ c = 3 := by omega
  · exact ⟨_, .inl ⟨rfl, rfl⟩⟩
  · exact ⟨_, .inr (.inl ⟨rfl, rfl⟩)⟩
  · exact ⟨_, .inr (.inr (.inl ⟨rfl, rfl⟩))⟩
  · exact ⟨_, .inr (.inr (.inr (.inl ⟨rfl, rfl⟩)))⟩

/-- The index of a pixel's byte, as an `uint32_t`. -/
theorem pixelIndex (x c : Nat) (hx : x < 2 ^ 32) (hc : c < 4) :
    (UInt32.ofNat x * 4 + UInt32.ofNat c).toNat = (4 * x + c) % 2 ^ 32 := by
  rw [UInt32.toNat_add, UInt32.toNat_mul, UInt32.toNat_ofNat_of_lt' hx,
    UInt32.toNat_ofNat_of_lt' (Nat.lt_trans hc (by decide))]
  show (x * 4 % 2 ^ 32 + c) % 2 ^ 32 = _
  rw [Nat.mod_add_mod, Nat.mul_comm]

theorem fillTestPattern_mem (dest : Nat) {width height : UInt32} (stride phase : UInt32) {y k : Nat}
    (hy : y < height.toNat) (hk : k < 4 * width.toNat) (hword : k < 2 ^ 32) :
    ∃ b, (dest + y * stride.toNat + k, b) ∈ fillTestPattern dest width height stride phase := by
  have hx : k / 4 < width.toNat := by omega
  have hxWord : k / 4 < 2 ^ 32 := Nat.lt_trans hx width.toNat_lt
  have hc : k % 4 < 4 := Nat.mod_lt k (by decide)
  obtain ⟨b, hb⟩ := patternPixel_mem (dest + y * stride.toNat) (UInt32.ofNat (k / 4))
    (UInt32.ofNat y) phase hc
  rw [pixelIndex _ _ hxWord hc, Nat.div_add_mod, Nat.mod_eq_of_lt hword] at hb
  refine ⟨b, ?_⟩
  simp only [fillTestPattern, List.mem_flatMap, List.mem_range]
  exact ⟨y, hy, k / 4, hx, hb⟩

theorem mem_fillTestPattern {dest a : Nat} {width height stride phase : UInt32} {b : UInt8}
    (hwidth : 4 * width.toNat ≤ 2 ^ 32) (h : (a, b) ∈ fillTestPattern dest width height stride phase) :
    ∃ y < height.toNat, ∃ k < 4 * width.toNat, a = dest + y * stride.toNat + k := by
  simp only [fillTestPattern, List.mem_flatMap, List.mem_range] at h
  obtain ⟨y, hy, x, hx, hmem⟩ := h
  obtain ⟨c, hc, ha⟩ := mem_patternPixel hmem
  rw [pixelIndex x c (Nat.lt_trans hx width.toNat_lt) hc, Nat.mod_eq_of_lt (by omega)] at ha
  exact ⟨y, hy, 4 * x + c, by omega, ha⟩

theorem frameStays_reaches {hdr : FbLayout} (h : FrameStays hdr pixmap i args) {y k : Nat}
    (hy : y < hdr.height.toNat) (hk : k < 4 * hdr.width.toNat) (hword : k < 2 ^ 32) :
    y * hdr.stride.toNat + k < hdr.bufferSize.toNat := by
  cases args with
  | test given =>
      obtain ⟨b, hb⟩ := fillTestPattern_mem (hdr.bufferOffset i).toNat hdr.stride 0 hy hk hword
      have hin := (h 0 _ hb).2
      omega
  | detect w h' =>
      have hin := ((h.1 _ (mem_screenCaptureFrame.mpr ⟨y, hy, rfl⟩)) k (by
        show k < hdr.width.toNat * 4
        omega)).1.2
      simp only at hin
      omega

/-! ## When the buffers stay in bounds -/

theorem row_end {height y : Nat} (width : Nat) (hy : y < height) :
    y * (4 * width) + 4 * width ≤ 4 * (width * height) := by
  calc y * (4 * width) + 4 * width = (y + 1) * (4 * width) := by ring
    _ ≤ height * (4 * width) := Nat.mul_le_mul_right _ hy
    _ = 4 * (width * height) := by ring

theorem toNat_pos {n : UInt32} (h : n ≠ 0) : 0 < n.toNat :=
  Nat.pos_of_ne_zero fun hzero => h (UInt32.toNat_inj.mp hzero)

theorem ne_zero_of_lt {n : UInt32} {k : Nat} (h : k < n.toNat) : n ≠ 0 := by
  rintro rfl
  exact Nat.not_lt_zero k h

theorem region_of_inBounds (h : FramesInBounds (layOut laid) pixmap args) :
    fbHeaderSize + 12 * (laid.width.toNat * laid.height.toNat) ≤ dataRoom := by
  have hroom := dataRoom_eq
  have hheader : fbHeaderSize = 48 := rfl
  have hinside (j : Fin fbMaxBuffers) := h.inside j
  simp only [layOut_offset] at hinside
  by_cases hzero : laid.width = 0 ∨ laid.height = 0
  · have hprod : laid.width.toNat * laid.height.toNat = 0 := by
      rcases hzero with hw | hh
      · rw [hw]
        exact Nat.zero_mul _
      · rw [hh]
        exact Nat.mul_zero _
    omega
  · obtain ⟨hw, hh⟩ := not_or.mp hzero
    have hwidth := toNat_pos hw
    have hheight := toNat_pos hh
    have hreach {y k : Nat} (hy : y < laid.height.toNat) (hk : k < 4 * laid.width.toNat)
        (hword : k < 2 ^ 32) := frameStays_reaches (h.stays ⟨0, by decide⟩) hy hk hword
    have hfirst : (48 + 0 * (layOut laid).bufferSize.toNat) % 2 ^ 32 +
        (layOut laid).bufferSize.toNat ≤ dataRoom := hinside ⟨0, by decide⟩
    -- a row of 2^32 bytes or more would fill the buffer up to there
    have hrow : 4 * laid.width.toNat < 2 ^ 32 := by
      by_contra hlong
      have hend := hreach hheight (k := 2 ^ 32 - 1) (by omega) (by decide)
      omega
    have hlast := hreach (y := laid.height.toNat - 1) (k := 4 * laid.width.toNat - 1) (by omega)
      (by omega) (by omega)
    rw [show (layOut laid).stride.toNat = 4 * laid.width.toNat by
      rw [layOut_stride, Nat.mod_eq_of_lt hrow]] at hlast
    have hall : 4 * (laid.width.toNat * laid.height.toNat) =
        (laid.height.toNat - 1) * (4 * laid.width.toNat) + 4 * laid.width.toNat := by
      obtain ⟨rows, hrows⟩ := Nat.exists_eq_add_of_lt hheight
      rw [hrows]
      simp only [Nat.zero_add, Nat.add_sub_cancel]
      ring
    have hsecond : (48 + 2 * (layOut laid).bufferSize.toNat) % 2 ^ 32 +
        (layOut laid).bufferSize.toNat ≤ dataRoom := hinside ⟨2, by decide⟩
    omega

theorem detected_width {w h : Int32} (hsize : startSize (.detect w h) = some size) :
    size.width ≠ 0 := by
  simp only [startSize, screenQueryDisplaySize] at hsize
  split at hsize
  case isTrue => cases hsize
  case isFalse hpos =>
    split at hsize
    case isTrue => cases hsize
    case isFalse =>
      cases hsize
      intro hzero
      refine hpos (.inl ?_)
      cases w with
      | ofUInt32 n =>
          obtain rfl : n = 0 := hzero
          decide

theorem toNat_half (n : UInt32) : (n / 2).toNat = n.toNat / 2 := by
  rw [UInt32.toNat_div]
  rfl

theorem captured_of_inBounds {w h' : Int32}
    (h : FrameStays (layOut laid) pixmap i (.detect w h')) :
    (laid.width ≠ 0 → laid.height ≠ 0 → (laid.height.toNat - 1) * pixmap.stride.toNat +
      4 * laid.width.toNat ≤ pixmap.bytes) ∧ laid.height.toNat / 2 < size.height.toNat := by
  refine ⟨fun hw hh => ?_, ?_⟩
  · have hwidth := toNat_pos hw
    have hheight := toNat_pos hh
    have hread := (h.1 _ (mem_screenCaptureFrame.mpr ⟨laid.height.toNat - 1, by
      show _ < laid.height.toNat
      omega, rfl⟩) (4 * laid.width.toNat - 1) (by
      show _ < laid.width.toNat * 4
      omega)).2
    simp only at hread
    omega
  · have hread := h.2 (((layOut laid).height / 2).toNat * pixmap.stride.toNat) (by simp [captureSample])
    rw [toNat_half, Pixmap.bytes, Nat.mul_comm] at hread
    exact Nat.lt_of_mul_lt_mul_left hread

theorem LaidOut.inBuffer (hlaid : LaidOut laid) {y k : Nat} (hy : y < laid.height.toNat)
    (hk : k < 4 * laid.width.toNat) :
    (layOut laid).InBuffer i (((layOut laid).bufferOffset i).toNat +
      y * (layOut laid).stride.toNat + k) := by
  have hbuffer := hlaid.bufferSize
  have hend := row_end laid.width.toNat hy
  rw [hlaid.stride (ne_zero_of_lt hy), FbLayout.InBuffer]
  omega

theorem stays_of_fits (hsize : startSize args = some size) (h : FramesFit laid pixmap args) :
    FrameStays (layOut laid) pixmap i args := by
  have hlaid := laidOut_of_fits h.region
  cases args with
  | test given =>
      intro phase store hstore
      by_cases hheight : laid.height = 0
      · simp [fillTestPattern, layOut, hheight] at hstore
      · have hrow : 4 * laid.width.toNat ≤ 2 ^ 32 := by
          have hstride := hlaid.stride hheight
          have hlt := (layOut laid).stride.toNat_lt
          omega
        obtain ⟨y, hy, k, hk, ha⟩ := mem_fillTestPattern hrow hstore
        rw [ha]
        exact hlaid.inBuffer hy hk
  | detect w h' =>
      obtain ⟨hrows, hmid⟩ := h.captured ⟨w, h', rfl⟩
      refine ⟨fun row hrow k hk => ?_, fun a ha => ?_⟩
      · obtain ⟨y, hy, rfl⟩ := mem_screenCaptureFrame.mp hrow
        have hy : y < laid.height.toNat := hy
        have hk : k < laid.width.toNat * 4 := hk
        refine ⟨hlaid.inBuffer hy (by omega), ?_⟩
        have hw : laid.width ≠ 0 := ne_zero_of_lt (show k / 4 < laid.width.toNat by omega)
        have hend := hrows hw (ne_zero_of_lt hy)
        have hle := Nat.mul_le_mul_right pixmap.stride.toNat (show y ≤ laid.height.toNat - 1 by omega)
        simp only
        omega
      · have hwide := pixmap.wide
        have hpos := toNat_pos (detected_width hsize)
        have hle := Nat.mul_le_mul_right pixmap.stride.toNat
          (show laid.height.toNat / 2 + 1 ≤ size.height.toNat by omega)
        rw [Nat.add_mul, Nat.one_mul] at hle
        have hbytes : pixmap.bytes = size.height.toNat * pixmap.stride.toNat := Nat.mul_comm ..
        simp only [captureSample, layOut, toNat_half, List.mem_cons, List.not_mem_nil, or_false] at ha
        omega

theorem framesInBounds_iff (hsize : startSize args = some size) :
    FramesInBounds (layOut laid) pixmap args ↔ FramesFit laid pixmap args := by
  constructor
  · intro h
    refine ⟨region_of_inBounds h, ?_⟩
    rintro ⟨w, h', rfl⟩
    exact captured_of_inBounds (h.stays ⟨0, by decide⟩)
  · intro h
    have hlaid := laidOut_of_fits h.region
    have hbuffer := hlaid.bufferSize
    have hregion := h.region
    have hheader : fbHeaderSize = 48 := rfl
    refine ⟨fun i j hij a hi hj => ?_, fun i => ?_, fun i => stays_of_fits hsize h⟩
    · simp only [FbLayout.InBuffer, hlaid.offset, hbuffer] at hi hj
      rcases Nat.lt_or_gt_of_ne (Fin.val_ne_of_ne hij) with hlt | hgt
      · have hle := Nat.mul_le_mul_right (4 * (laid.width.toNat * laid.height.toNat)) hlt
        rw [Nat.succ_mul] at hle
        omega
      · have hle := Nat.mul_le_mul_right (4 * (laid.width.toNat * laid.height.toNat)) hgt
        rw [Nat.succ_mul] at hle
        omega
    · have hle := Nat.mul_le_mul_right (4 * (laid.width.toNat * laid.height.toNat))
        (Nat.succ_le_of_lt i.isLt)
      rw [Nat.succ_mul] at hle
      have hthree : fbMaxBuffers * (4 * (laid.width.toNat * laid.height.toNat)) =
          3 * (4 * (laid.width.toNat * laid.height.toNat)) := rfl
      rw [hlaid.offset, hbuffer]
      omega

/-! ## Earlier runs -/

theorem runs_keep (region : Option FbLayout) (earlier : List FbArgs) :
    earlier.foldl runStart region = region.or ((earlier.filterMap startSize).head?.map layOut) := by
  induction earlier generalizing region with
  | nil => cases region <;> rfl
  | cons args earlier ih =>
      rw [List.foldl_cons, ih, runStart]
      cases hsize : startSize args with
      | none => rw [List.filterMap_cons_none hsize]
      | some size =>
          rw [List.filterMap_cons_some hsize]
          cases region <;> rfl

theorem initHeader_eq (earlier : List FbArgs) (size : FbSize) :
    initHeader (regionAfter earlier) size = layOut (laidOutSize earlier size) := by
  rw [initHeader, regionAfter, runs_keep, laidOutSize]
  cases (earlier.filterMap startSize).head? <;> rfl

theorem frame_buffers_in_bounds_iff (earlier : List FbArgs) (args : FbArgs) (size : FbSize)
    (hsize : startSize args = some size) (pixmap : Pixmap size) :
    FramesInBounds (initHeader (regionAfter earlier) size) pixmap args ↔
      FramesFit (laidOutSize earlier size) pixmap args := by
  rw [initHeader_eq]
  exact framesInBounds_iff hsize

/-- The pixmap of a 1024 x 600 display. -/
def packedPixmap : Pixmap ⟨1024, 600⟩ := ⟨4096, by decide⟩

/-- On a display that is larger than the one of an earlier run. -/
theorem frame_buffers_in_bounds_iff_display :
    laidOutSize [.detect 800 480] ⟨1024, 600⟩ = ⟨800, 480⟩ ∧
      FramesInBounds (initHeader (regionAfter [.detect 800 480]) ⟨1024, 600⟩) packedPixmap
        (.detect 1024 600) :=
  ⟨by decide, (frame_buffers_in_bounds_iff [.detect 800 480] (.detect 1024 600) _ (by decide)
    packedPixmap).mpr ⟨by decide, fun _ => ⟨fun _ _ => by decide, by decide⟩⟩⟩

/-- A header left for 1920 x 1080 reads past the pixmap of a 1024 x 600 display. -/
theorem left_header_reads_past_pixmap :
    ¬ ∀ (earlier : List FbArgs) (args : FbArgs) (size : FbSize), startSize args = some size →
      ∀ pixmap : Pixmap size, FramesInBounds (initHeader (regionAfter earlier) size) pixmap args := by
  intro hall
  have hin := hall [.detect 1920 1080] (.detect 1024 600) ⟨1024, 600⟩ (by decide) packedPixmap
  rw [initHeader_eq] at hin
  have hread := (captured_of_inBounds (hin.stays ⟨0, by decide⟩)).1 (by decide) (by decide)
  exact absurd hread (by decide)

end QnxHypervisor.FrameRouter
