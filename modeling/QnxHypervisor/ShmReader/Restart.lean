import QnxHypervisor.ShmReader.Accounting

/-! # A reader across producer restarts

A restarted producer initialises the object again, so `write_pos` falls back to
0 under a reader that stays mapped. The reader's numbers stay sound as long as
no poll finds `write_pos` behind its cursor.
-/

namespace QnxHypervisor.ShmReader

open Foundation MotorWire MotorShm

variable {Row : Type} {poller : Poller} {maxRows : Nat} {s : Session Row}

/-- A poll that looks at the ring finds `write_pos` at the cursor or past it. -/
def CaughtUp (poller : Poller) (s : Session Row) : SessionEvent Row → Prop
  | .poll maxBlocks _ => poller.looks maxBlocks = true → s.readPos ≤ s.region.ring.writePos
  | _ => True

/-- Nothing is delivered or counted that was not published since the reader was
opened, and the cursor stays within what the last poll saw. -/
structure Sound (s : Session Row) : Prop where
  counted : s.dropped.toNat ≤ s.published.length
  bounded : s.readPos ≤ s.polledAt
  delivered : ∀ d ∈ s.delivered, d.block ∈ s.published

/-- What is still to be read has been published since the reader was opened, and
published blocks pay for what was counted and what may still be. -/
structure RestartInv (maxRows : Nat) (s : Session Row) : Prop where
  ready : RingReady s.region.ring
  budget : s.dropped.toNat + (s.region.ring.writePos.toNat - s.readPos.toNat) ≤ s.published.length
  ahead : ∀ p, s.readPos.toNat ≤ p → p < s.region.ring.writePos.toNat →
    s.region.ring.writePos.toNat ≤ p + 16 → blockAt maxRows s.region.ring p ∈ s.published
  bounded : s.readPos ≤ s.polledAt
  delivered : ∀ d ∈ s.delivered, d.block ∈ s.published

theorem restartInv_start (h : SessionStart maxRows s) : RestartInv maxRows s := by
  have hinv := sessionInv_start h
  have hpos : s.readPos = s.start := by
    rw [h.opened]
    rfl
  have hcount := hinv.count
  have htotal := hinv.total
  refine ⟨hinv.ready, ?_, ?_, ?_, ?_⟩
  · rw [hpos] at htotal ⊢
    omega
  · intro p hfrom hto hrecent
    rw [hpos] at hfrom
    have hslot := hinv.slots (p - s.start.toNat) (by omega) (by omega)
    rw [show s.start.toNat + (p - s.start.toNat) = p by omega] at hslot
    exact List.mem_of_getElem? hslot
  · rw [hpos, h.opened]
    exact UInt64.le_iff_toNat_le.mpr h.start_le
  · intro d hd
    rw [h.opened] at hd
    cases hd

theorem restartInv_publish (h : RestartInv maxRows s) (hdr : FrameHeader) (rows : Nat → Row) :
    RestartInv maxRows (sessionStep poller maxRows s (.publish hdr rows)) := by
  have hbudget := h.budget
  have hwp := s.region.ring.writePos.toNat_lt
  have hpos : (motorRingPublish maxRows s.region.ring hdr rows).writePos.toNat =
      (s.region.ring.writePos.toNat + 1) % 2 ^ 64 := by
    simp only [motorRingPublish, UInt64.toNat_add]
    rfl
  refine ⟨ringReady_publish h.ready maxRows hdr rows, ?_, ?_, h.bounded, ?_⟩ <;>
    simp only [sessionStep, hpos]
  · rw [List.length_append, List.length_singleton]
    omega
  · intro p hfrom hto hrecent
    rw [blockAt_publish h.ready]
    by_cases hlast : p = s.region.ring.writePos.toNat
    · rw [if_pos (by rw [hlast])]
      exact List.mem_append_right _ (List.mem_singleton_self _)
    · rw [if_neg (by omega)]
      exact List.mem_append_left _ (h.ahead p hfrom (by omega) (by omega))
  · intro d hd
    exact List.mem_append_left _ (h.delivered d hd)

theorem restartInv_poll (h : RestartInv maxRows s) (maxBlocks : Nat)
    (bufs : Nat → BlockData Row)
    (hok : poller.looks maxBlocks = true → s.readPos ≤ s.region.ring.writePos) :
    RestartInv maxRows (sessionStep poller maxRows s (.poll maxBlocks bufs)) := by
  obtain ⟨skipped, n, hpos, hdrop, hout, hlook, hblind⟩ := poller.poll_ready h.ready maxRows bufs
    maxBlocks s.readPos s.dropped fun hl => UInt64.le_iff_toNat_le.mp (hok hl)
  have hbudget := h.budget
  have hdropped : (s.dropped + UInt64.ofNat skipped).toNat ≤ s.dropped.toNat + skipped := by
    rw [UInt64.toNat_add, UInt64.toNat_ofNat']
    exact Nat.le_trans (Nat.mod_le _ _) (Nat.add_le_add_left (Nat.mod_le _ _) _)
  by_cases hl : poller.looks maxBlocks = true
  · obtain ⟨hend, hrecent⟩ := hlook hl
    refine ⟨h.ready, ?_, ?_, ?_, ?_⟩ <;>
      simp only [sessionStep, hpos, hdrop, hout, Option.getD_some, hl, if_true]
    · omega
    · intro p hfrom hto hp
      exact h.ahead p (by omega) hto hp
    · exact UInt64.le_iff_toNat_le.mpr (by rw [hpos]; exact hend)
    · intro d hd
      rcases List.mem_append.mp hd with hold | hnew
      · exact h.delivered d hold
      · obtain ⟨b, hb, rfl⟩ := List.mem_map.mp hnew
        obtain ⟨i, hi, rfl⟩ := List.mem_map.mp hb
        have hi := List.mem_range.mp hi
        exact h.ahead _ (by omega) (by omega) (by omega)
  · obtain ⟨rfl, rfl⟩ := hblind (by simpa using hl)
    have hsame : (poller.poll maxRows s.region.ring bufs maxBlocks s.readPos s.dropped).readPos =
        s.readPos := UInt64.toNat_inj.mp (by rw [hpos]; rfl)
    refine ⟨h.ready, ?_, ?_, ?_, ?_⟩ <;>
      simp only [sessionStep, hsame, hdrop, hout, Option.getD_some, hl]
    · omega
    · exact h.ahead
    · exact h.bounded
    · simpa using h.delivered

theorem restartInv_restart (h : RestartInv maxRows s) (rowSize : UInt32) :
    RestartInv maxRows (sessionStep poller maxRows s (.restart rowSize)) := by
  have hbudget := h.budget
  have hzero : (motorShmRegionInit rowSize s.region).ring.writePos.toNat = 0 := rfl
  refine ⟨ringReady_init rowSize s.region, ?_, ?_, h.bounded, h.delivered⟩ <;>
    simp only [sessionStep, hzero]
  · omega
  · intro p _ hto
    omega

theorem restartInv_reachable
    (h : (sessionMachine poller maxRows).ReachableBy (CaughtUp poller) s) :
    RestartInv maxRows s := by
  refine h.invariant (fun _ => restartInv_start) ?_
  intro s e s' _ hinv hok hs
  obtain rfl := Option.some.inj hs
  cases e with
  | publish hdr rows => exact restartInv_publish hinv hdr rows
  | poll maxBlocks bufs => exact restartInv_poll hinv maxBlocks bufs hok
  | restart rowSize => exact restartInv_restart hinv rowSize

/-- Over every history of producer lifetimes in which no poll finds `write_pos`
behind the cursor, the reader counts and delivers only what was published. -/
theorem sound_of_caught_up
    (h : (sessionMachine poller maxRows).ReachableBy (CaughtUp poller) s) : Sound s := by
  have hinv := restartInv_reachable h
  have hbudget := hinv.budget
  exact ⟨by omega, hinv.bounded, hinv.delivered⟩

/-- One block is delivered, the producer restarts and publishes two more before the next
poll, which delivers the second of these. -/
theorem sound_after_early_restart :
    ∃ s : Session MotorRow, s.published.length = 3 ∧ s.delivered.length = 2 ∧ Sound s := by
  have hstart : (sessionMachine .reader motorMaxRowsPerBlock).ReachableBy (CaughtUp .reader)
      (sessionAt 0) := .initial (sessionAt_start 0)
  have hfirst := reachable_session hstart (.publish (dataHeader 1 0 0 1 0) fun _ => zeroRow) trivial
  have hread := reachable_session hfirst (.poll 4 fun _ => zeroBlock.toBlockData)
    fun _ => by decide
  have hrestart := reachable_session hread (.restart 24) trivial
  have hsecond := reachable_session hrestart
    (.publish (dataHeader 1 0 0 1 0) fun _ => zeroRow) trivial
  have hthird := reachable_session hsecond
    (.publish (dataHeader 2 0 0 1 0) fun _ => zeroRow) trivial
  have hagain := reachable_session hthird (.poll 4 fun _ => zeroBlock.toBlockData)
    fun _ => by decide
  exact ⟨_, by decide, by decide, sound_of_caught_up hagain⟩

/-- A reader opened at position 1 polls a restarted producer that has not
published yet: the drop counter jumps to 2^64 - 17. -/
theorem restart_underflows :
    ¬ ∀ s : Session MotorRow,
      (sessionMachine .reader motorMaxRowsPerBlock).Reachable s → Sound s := by
  intro hall
  have hstart : (sessionMachine .reader motorMaxRowsPerBlock).Reachable (sessionAt 1) :=
    .initial (sessionAt_start 1)
  have hrestart := reachable_session hstart (.restart 24) trivial
  have hcounted := (hall _ (reachable_session hrestart
    (.poll 1 fun _ => zeroBlock.toBlockData) trivial)).counted
  revert hcounted
  decide

end QnxHypervisor.ShmReader
