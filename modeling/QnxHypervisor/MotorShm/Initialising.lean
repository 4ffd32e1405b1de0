import QnxHypervisor.MotorShm.System

/-! # Initialising the region, one store at a time

`motor_shm_region_init` stores the words that identify the region before it
stores the depth of the ring and `write_pos`, so a reader can find the region
valid before its ring is.
-/

namespace QnxHypervisor.MotorShm

open Foundation MotorWire

variable {Row : Type} {rowSize : UInt32}

/-! ## The stores -/

/-- `shm_region_t`: the words that identify it, beside the live part. -/
structure LiveRegion (Row : Type) where
  magic : UInt32
  version : UInt16
  rowSize : UInt32
  live : Live Row

/-- A region nothing has been published into. -/
def LiveRegion.start (r : ShmRegion Row) : LiveRegion Row where
  magic := r.magic
  version := r.version
  rowSize := r.rowSize
  live := Live.start r

/-- The next access computes `pos % ring->depth`. -/
def Producer.IndexesSlot : Producer Row → Prop
  | .loadDepth _ _ _ => True
  | _ => False

/-- Store 0 into a sequence word. -/
def clearWord {D : Type} (c : Cell D) : Cell D := { c with word := 0 }

/-- `atomic_store(&r->ring.slots[i].seq, 0)`. -/
def clearSlot (i : Nat) (r : LiveRegion Row) : LiveRegion Row :=
  { r with live.slots := Function.update r.live.slots i (clearWord (r.live.slots i)) }

/-- The stores of `motor_shm_region_init` in their order, without those to
`_pad0` and `reserved`, which nothing loads. -/
def regionInitStores (rowSize : UInt32) : List (LiveRegion Row → LiveRegion Row) :=
  [fun r => { r with magic := motorShmMagic },
    fun r => { r with version := motorContractVersion },
    fun r => { r with rowSize },
    fun r => { r with live.snapshot := clearWord r.live.snapshot },
    fun r => { r with live.depth := motorRingDepth },
    fun r => { r with live.writePos := 0 }] ++
  (List.range motorRingDepth.toNat).map clearSlot

theorem stored_clearSlot (r : LiveRegion Row) (n : Nat) :
    Cell.stored ((List.range n).map clearSlot) r =
      { r with
        live.slots := fun i => if i < n then clearWord (r.live.slots i) else r.live.slots i } := by
  induction n with
  | zero => simp [Cell.stored]
  | succ n ih =>
      rw [List.range_succ, List.map_append, Cell.stored_append, ih]
      show clearSlot n _ = _
      simp only [clearSlot]
      congr 2
      funext i
      by_cases hi : i = n
      · subst hi
        simp
      · have hlt : i < n + 1 ↔ i < n := by omega
        simp [Function.update_of_ne hi, hlt]

/-- Together the stores are the uninterrupted `motorShmRegionInit`. -/
theorem stored_regionInitStores (rowSize : UInt32) (r : ShmRegion Row) :
    Cell.stored (regionInitStores rowSize) (LiveRegion.start r) =
      LiveRegion.start (motorShmRegionInit rowSize r) := by
  rw [regionInitStores, Cell.stored_append, stored_clearSlot]
  simp only [Cell.stored, List.foldl_cons, List.foldl_nil, LiveRegion.start, Live.start,
    motorShmRegionInit, clearWord]
  congr 2
  funext i
  split <;> rfl

/-- While `write_pos` is 0, no store is seen in the ring but that of the depth. -/
theorem store_advances {r : LiveRegion Row} {store : LiveRegion Row → LiveRegion Row}
    (hmem : store ∈ regionInitStores rowSize) (hzero : r.live.writePos = 0) :
    (store r).live.writePos = 0 ∧ (store r).live.producer = r.live.producer ∧
      (store r).live.published = r.live.published ∧ r.live.Advances (store r).live := by
  have hsame : r.live.Advances r.live := .outside r.live r.live.producer
  rcases List.mem_append.mp hmem with hmem | hmem
  · simp only [List.mem_cons, List.not_mem_nil, or_false] at hmem
    rcases hmem with rfl | rfl | rfl | rfl | rfl | rfl
    · exact ⟨hzero, rfl, rfl, hsame⟩
    · exact ⟨hzero, rfl, rfl, hsame⟩
    · exact ⟨hzero, rfl, rfl, hsame⟩
    · exact ⟨hzero, rfl, rfl, fun _ _ => .refl _, ⟨Nat.le_refl _, fun _ h => ⟨h, rfl⟩⟩,
        List.prefix_rfl, List.prefix_rfl, .inl rfl⟩
    · exact ⟨hzero, rfl, rfl, fun _ _ => .refl _, .refl _, List.prefix_rfl, List.prefix_rfl,
        .inl rfl⟩
    · exact ⟨rfl, rfl, rfl, fun _ _ => .refl _, .refl _, List.prefix_rfl, List.prefix_rfl,
        .inl hzero.symm⟩
  · obtain ⟨i, -, rfl⟩ := List.mem_map.mp hmem
    refine ⟨hzero, rfl, rfl, ?_, .refl _, List.prefix_rfl, List.prefix_rfl, .inl rfl⟩
    exact Live.evolves_update ⟨Nat.le_refl _, fun _ h => ⟨h, rfl⟩⟩

/-! ## A new object -/

/-- A zero-filled object; `row` is the row of all zero bytes. -/
def zeroFilled (row : Row) : ShmRegion Row where
  magic := 0
  version := 0
  rowSize := 0
  snapshot := { seqlock := 0, producerSeq := 0, timestamp := 0, flags := 0, row }
  ring :=
    { writePos := 0
      depth := 0
      slots := fun _ =>
        { seq := 0, producerSeq := 0, timestamp := 0, nRows := 0, flags := 0
          rows := fun _ => row } }

/-! ## The validity check -/

def motorShmRegionValid (rowSize : UInt32) (r : ShmRegion Row) : Bool :=
  r.magic = motorShmMagic && r.version = motorContractVersion && r.rowSize = rowSize

/-- The loads of `motor_shm_region_valid`. -/
inductive ValidLoad where
  | magic
  | version
  | rowSize

namespace ValidLoad

/-- The load finds the expected word. -/
def found (rowSize : UInt32) (r : LiveRegion Row) : ValidLoad → Bool
  | .magic => r.magic = motorShmMagic
  | .version => r.version = motorContractVersion
  | .rowSize => r.rowSize = rowSize

/-- `&&` goes on to the next load once a word was found. -/
def next : ValidLoad → Option ValidLoad
  | .magic => some .version
  | .version => some .rowSize
  | .rowSize => none

end ValidLoad

/-- Without interference the loads decide the check. -/
theorem valid_iff_found (rowSize : UInt32) (r : ShmRegion Row) :
    motorShmRegionValid rowSize r = true ↔
      ∀ load : ValidLoad, load.found rowSize (LiveRegion.start r) = true := by
  simp only [motorShmRegionValid, Bool.and_eq_true]
  refine ⟨fun ⟨⟨hmagic, hversion⟩, hsize⟩ load => ?_, fun h => ⟨⟨h .magic, h .version⟩, h .rowSize⟩⟩
  cases load with
  | magic => exact hmagic
  | version => exact hversion
  | rowSize => exact hsize

theorem valid_init (rowSize : UInt32) (r : ShmRegion Row) :
    motorShmRegionValid rowSize (motorShmRegionInit rowSize r) = true := by
  simp [motorShmRegionValid, motorShmRegionInit]

end QnxHypervisor.MotorShm
