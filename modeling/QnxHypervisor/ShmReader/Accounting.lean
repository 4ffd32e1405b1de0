import QnxHypervisor.ShmReader.Session

/-! # The reader's accounts

Over every run of publishes and polls with one producer, each position the
cursor passes is either delivered, in order, or counted as dropped.
-/

namespace QnxHypervisor.ShmReader

open Foundation MotorWire MotorShm

variable {Row : Type} {poller : Poller} {maxRows : Nat} {s : Session Row}

/-- One producer whose 64-bit `write_pos` does not wrap. -/
def Steady (s : Session Row) : SessionEvent Row → Prop
  | .publish _ _ => s.region.ring.writePos.toNat + 1 < 2 ^ 64
  | .poll _ _ => True
  | .restart _ => False

/-- What the claims of the two counters amount to. Block `i` of those delivered
is number `i + drops` of those published, where `drops` is the drop counter it
was delivered under: between two deliveries exactly as many blocks are missing
as the counter has grown by. -/
structure Accounts (s : Session Row) : Prop where
  bounded : s.readPos ≤ s.region.ring.writePos
  ordered : (s.delivered.map Delivery.block).Sublist s.published
  placed : ∀ (i : Nat) (d : Delivery Row), s.delivered[i]? = some d →
    s.published[i + d.drops.toNat]? = some d.block
  growing : s.delivered.Pairwise fun d d' => d.drops ≤ d'.drops
  total : s.delivered.length + s.dropped.toNat = s.readPos.toNat - s.start.toNat

/-- The ring holds the last 16 published blocks, and all before the cursor are
delivered or counted. -/
structure SessionInv (maxRows : Nat) (s : Session Row) : Prop where
  ready : RingReady s.region.ring
  start_le : s.start.toNat ≤ s.readPos.toNat
  readPos_le : s.readPos.toNat ≤ s.region.ring.writePos.toNat
  count : s.region.ring.writePos.toNat = s.start.toNat + s.published.length
  slots : ∀ k, k < s.published.length → s.published.length ≤ k + 16 →
    s.published[k]? = some (blockAt maxRows s.region.ring (s.start.toNat + k))
  ordered : (s.delivered.map Delivery.block).Sublist
    (s.published.take (s.readPos.toNat - s.start.toNat))
  placed : ∀ (i : Nat) (d : Delivery Row), s.delivered[i]? = some d →
    s.published[i + d.drops.toNat]? = some d.block
  counted : ∀ d ∈ s.delivered, d.drops ≤ s.dropped
  growing : s.delivered.Pairwise fun d d' => d.drops ≤ d'.drops
  total : s.delivered.length + s.dropped.toNat = s.readPos.toNat - s.start.toNat

theorem SessionInv.accounts (h : SessionInv maxRows s) : Accounts s where
  bounded := UInt64.le_iff_toNat_le.mpr h.readPos_le
  ordered := h.ordered.trans (List.take_sublist _ _)
  placed := h.placed
  growing := h.growing
  total := h.total

theorem sessionInv_start (h : SessionStart maxRows s) : SessionInv maxRows s := by
  have hopened := h.opened
  have hstart := h.start_le
  generalize hregion : s.region = region at hopened hstart
  generalize s.start = start at hopened hstart
  subst hopened
  have hready : RingReady region.ring := h.ready
  refine ⟨hready, Nat.le_refl _, hstart, ?_, ?_, ?_, ?_, ?_, ?_, ?_⟩
  · simp only [openedAt, List.length_map, List.length_range]
    omega
  · intro k hk _
    simp only [openedAt, List.length_map, List.length_range] at hk
    simp [openedAt, hk]
  · simp [openedAt]
  · intro i d hd
    simp [openedAt] at hd
  · intro d hd
    simp [openedAt] at hd
  · simp [openedAt]
  · simp [openedAt]

theorem sessionInv_publish (h : SessionInv maxRows s)
    (hwrap : s.region.ring.writePos.toNat + 1 < 2 ^ 64) (hdr : FrameHeader) (rows : Nat → Row) :
    SessionInv maxRows (sessionStep poller maxRows s (.publish hdr rows)) := by
  have hpos : (motorRingPublish maxRows s.region.ring hdr rows).writePos.toNat =
      s.region.ring.writePos.toNat + 1 := by
    simp only [motorRingPublish, UInt64.toNat_add]
    exact Nat.mod_eq_of_lt hwrap
  have hcount := h.count
  have hlen : s.readPos.toNat - s.start.toNat ≤ s.published.length := by
    have := h.readPos_le
    omega
  refine ⟨ringReady_publish h.ready maxRows hdr rows, h.start_le, ?_, ?_, ?_, ?_, ?_, h.counted,
    h.growing, h.total⟩ <;> simp only [sessionStep]
  · rw [hpos]
    exact Nat.le_succ_of_le h.readPos_le
  · rw [hpos, List.length_append, List.length_singleton]
    omega
  · intro k hk hrecent
    rw [List.length_append, List.length_singleton] at hk hrecent
    rw [blockAt_publish h.ready]
    by_cases hlast : k = s.published.length
    · have hslot : (s.start.toNat + k) % 16 = s.region.ring.writePos.toNat % 16 := by
        rw [hcount, hlast]
      rw [if_pos hslot, hlast, List.getElem?_concat_length]
    · -- at most 15 positions apart, so another slot
      have hslot : ¬ (s.start.toNat + k) % 16 = s.region.ring.writePos.toNat % 16 := by omega
      rw [if_neg hslot, List.getElem?_append_left (by omega)]
      exact h.slots k (by omega) (by omega)
  · rw [List.take_append_of_le_length hlen]
    exact h.ordered
  · intro i d hd
    have hplaced := h.placed i d hd
    obtain ⟨hi, -⟩ := List.getElem?_eq_some_iff.mp hplaced
    rw [List.getElem?_append_left hi]
    exact hplaced

theorem sessionInv_poll (h : SessionInv maxRows s) (maxBlocks : Nat)
    (bufs : Nat → BlockData Row) :
    SessionInv maxRows (sessionStep poller maxRows s (.poll maxBlocks bufs)) := by
  obtain ⟨skipped, n, hpos, hdrop, hout, hlook, hblind⟩ := poller.poll_ready h.ready maxRows bufs
    maxBlocks s.readPos s.dropped fun _ => h.readPos_le
  have hcount := h.count
  have hstart := h.start_le
  have htotal := h.total
  have hend : s.readPos.toNat + skipped + n ≤ s.region.ring.writePos.toNat := by
    by_cases hl : poller.looks maxBlocks = true
    · exact (hlook hl).1
    · obtain ⟨rfl, rfl⟩ := hblind (by simpa using hl)
      exact h.readPos_le
  have hdropped : (s.dropped + UInt64.ofNat skipped).toNat = s.dropped.toNat + skipped := by
    have hbound := s.region.ring.writePos.toNat_lt
    rw [UInt64.toNat_add, UInt64.toNat_ofNat_of_lt' (show skipped < 2 ^ 64 by omega)]
    exact Nat.mod_eq_of_lt (by omega)
  have hle : s.dropped ≤ s.dropped + UInt64.ofNat skipped :=
    UInt64.le_iff_toNat_le.mpr (by omega)
  -- what the poll hands out are the published blocks behind the skipped ones
  have hblock : ∀ j < n, s.published[s.readPos.toNat - s.start.toNat + skipped + j]? =
      some (blockAt maxRows s.region.ring (s.readPos.toNat + skipped + j)) := by
    intro j hj
    have hl : poller.looks maxBlocks = true := by
      by_contra hl
      obtain ⟨-, rfl⟩ := hblind (by simpa using hl)
      omega
    have hrecent := (hlook hl).2
    rw [h.slots _ (by omega) (by omega)]
    congr 2
    omega
  have hnew : (List.range n).map (fun j =>
      blockAt maxRows s.region.ring (s.readPos.toNat + skipped + j)) =
      (s.published.drop (s.readPos.toNat - s.start.toNat + skipped)).take n := by
    apply List.ext_getElem?
    intro j
    by_cases hj : j < n
    · rw [List.getElem?_take_of_lt hj, List.getElem?_drop, hblock j hj]
      simp [hj]
    · rw [List.getElem?_eq_none (by simp; omega), List.getElem?_eq_none (by simp; omega)]
  have hadvance : (s.readPos.toNat + skipped + n) - s.start.toNat =
      s.readPos.toNat - s.start.toNat + skipped + n := by omega
  refine ⟨h.ready, ?_, ?_, hcount, h.slots, ?_, ?_, ?_, ?_, ?_⟩ <;>
    simp only [sessionStep, hpos, hdrop, hout, Option.getD_some]
  · omega
  · exact hend
  · rw [hadvance, List.take_add, List.map_append, List.map_map, ← hnew]
    refine List.Sublist.append (h.ordered.trans ?_) ?_
    · exact List.take_sublist_take_left (by omega)
    · simp [Function.comp_def]
  · intro i d hd
    by_cases hi : i < s.delivered.length
    · rw [List.getElem?_append_left hi] at hd
      exact h.placed i d hd
    · rw [List.getElem?_append_right (by omega)] at hd
      simp only [List.getElem?_map, Option.map_eq_some_iff] at hd
      obtain ⟨b, ⟨j, hj, rfl⟩, rfl⟩ := hd
      obtain ⟨hjn, rfl⟩ := List.getElem?_eq_some_iff.mp hj
      rw [List.length_range] at hjn
      rw [List.getElem_range, ← hblock _ hjn, hdropped]
      congr 1
      omega
  · intro d hd
    rcases List.mem_append.mp hd with hold | hnew
    · exact UInt64.le_trans (h.counted d hold) hle
    · obtain ⟨b, -, rfl⟩ := List.mem_map.mp hnew
      exact UInt64.le_refl _
  · refine List.pairwise_append.mpr ⟨h.growing, ?_, ?_⟩
    · rw [List.pairwise_map]
      exact List.pairwise_of_forall fun _ _ => UInt64.le_refl _
    · intro d hd d' hd'
      obtain ⟨b, -, rfl⟩ := List.mem_map.mp hd'
      exact UInt64.le_trans (h.counted d hd) hle
  · simp only [List.length_append, List.length_map, List.length_range, hdropped]
    omega

theorem sessionInv_reachable (h : (sessionMachine poller maxRows).ReachableBy Steady s) :
    SessionInv maxRows s := by
  refine h.invariant (fun _ => sessionInv_start) ?_
  intro s e s' _ hinv hok hs
  obtain rfl := Option.some.inj hs
  cases e with
  | publish hdr rows => exact sessionInv_publish hinv hok hdr rows
  | poll maxBlocks bufs => exact sessionInv_poll hinv maxBlocks bufs
  | restart rowSize => exact hok.elim

/-- In every run of publishes and polls the reader's accounts add up, as long as
`write_pos` does not wrap. -/
theorem accounts_of_steady (h : (sessionMachine poller maxRows).ReachableBy Steady s) :
    Accounts s :=
  (sessionInv_reachable h).accounts

/-! ## Concrete sessions -/

/-- An initialised object whose producer has reached `pos`. -/
def regionAt (pos : UInt64) : ShmRegion MotorRow :=
  let r := motorShmRegionInit (UInt32.ofNat motorRowBytes) zeroRegion
  { r with ring := { r.ring with writePos := pos } }

theorem regionAt_ready (pos : UInt64) : RingReady (regionAt pos).ring :=
  ⟨rfl, (ringReady_init (UInt32.ofNat motorRowBytes) zeroRegion).even⟩

/-- A reader opened at the write position. -/
def sessionAt (pos : UInt64) : Session MotorRow :=
  openedAt motorMaxRowsPerBlock (regionAt pos) pos

theorem sessionAt_start (pos : UInt64) : SessionStart motorMaxRowsPerBlock (sessionAt pos) :=
  ⟨rfl, regionAt_ready pos, Nat.le_refl _, Nat.le_add_right _ _⟩

/-- One publish and one poll. -/
theorem accounts_of_one_block :
    Accounts (sessionStep .reader motorMaxRowsPerBlock
      (sessionStep .reader motorMaxRowsPerBlock (sessionAt 5)
        (.publish (dataHeader 1 0 0 2 0) fun _ => zeroRow))
      (.poll 4 fun _ => zeroBlock.toBlockData)) := by
  have hstart : (sessionMachine .reader motorMaxRowsPerBlock).ReachableBy Steady (sessionAt 5) :=
    .initial (sessionAt_start 5)
  have hroom : (sessionAt 5).region.ring.writePos.toNat + 1 < 2 ^ 64 := by decide
  have hpublish := reachable_session hstart
    (.publish (dataHeader 1 0 0 2 0) fun _ => zeroRow) hroom
  exact accounts_of_steady
    (reachable_session hpublish (.poll 4 fun _ => zeroBlock.toBlockData) trivial)

/-- The producer is not restarted. -/
def OneProducer (_ : Session Row) (e : SessionEvent Row) : Prop := ∀ rowSize, e ≠ .restart rowSize

/-- A reader opened at the last 64-bit position is ahead of `write_pos` after
one more publish. -/
theorem accounts_fail_at_wrap :
    ¬ ∀ s : Session MotorRow,
      (sessionMachine .reader motorMaxRowsPerBlock).ReachableBy OneProducer s → Accounts s := by
  intro hall
  have hstart : (sessionMachine .reader motorMaxRowsPerBlock).ReachableBy OneProducer
      (sessionAt 18446744073709551615) := .initial (sessionAt_start _)
  have hbounded := (hall _ (reachable_session hstart
    (.publish (dataHeader 1 0 0 2 0) fun _ => zeroRow) (fun _ => by simp))).bounded
  revert hbounded
  decide

end QnxHypervisor.ShmReader
