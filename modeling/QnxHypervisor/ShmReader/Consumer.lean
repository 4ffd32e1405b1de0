import QnxHypervisor.MotorShm.System
import QnxHypervisor.ShmReader.Session

/-! # A poll, one access at a time

The consumer of `ShmReader.Session` as a consumer of a live region: its accesses
to the ring are single steps, and between any two of them the producer may go on.
-/

namespace QnxHypervisor.ShmReader

open Foundation MotorWire MotorShm

variable {Row : Type} {poller : Poller} {maxRows : Nat} {l : Live Row}

/-- The consumer before its next access, or between two calls. -/
inductive Phase (Row : Type) where
  | closed
  | opened (wp : UInt64)
  | idle
  | entered (maxBlocks : Nat)
  | sampled (maxBlocks : Nat) (wp : UInt64)
  | looping (maxBlocks : Nat) (wp : UInt64)
  | reading (maxBlocks : Nat) (wp : UInt64) (k : Nat)
      (r : Reader (BlockData Row) (BlockData Row))

def Phase.isReading : Phase Row → Bool
  | .reading _ _ _ _ => true
  | _ => false

/-- A delivered block and the cursor position it was delivered for. -/
structure Placed (Row : Type) where
  pos : UInt64
  block : BlockCopy Row

/-- `poll` is the state of the last call; `start` and `delivered` are history. -/
structure Consumer (Row : Type) where
  phase : Phase Row
  start : UInt64
  poll : PollState Row
  delivered : List (Placed Row)

inductive ConsumerEvent (Row : Type) where
  | attach
  | poll (maxBlocks : Nat) (bufs : Nat → BlockData Row)
  | access

/-- `shm_reader_open` starts at `write_pos`, the recorder up to a ring before it. -/
def Poller.firstPos (poller : Poller) (wp : UInt64) (depth : UInt32) : UInt64 :=
  match poller with
  | .reader => wp
  | .recorder => if depth.toUInt64 ≤ wp then wp - depth.toUInt64 else 0

def Consumer.access (poller : Poller) (maxRows : Nat) (l : Live Row) (c : Consumer Row) :
    Option (Consumer Row) :=
  match c.phase with
  | .closed | .idle => none
  | .opened wp =>
      let pos := poller.firstPos wp l.depth
      some
        { c with
          phase := .idle, start := pos
          poll := { c.poll with readPos := pos, dropped := some 0 } }
  | .entered maxBlocks => some { c with phase := .sampled maxBlocks l.writePos }
  | .sampled maxBlocks wp =>
      some { c with phase := .looping maxBlocks wp, poll := skipLapped wp l.depth c.poll }
  | .looping maxBlocks wp =>
      if c.poll.readPos < wp ∧ c.poll.written.length < maxBlocks then
        some
          { c with
            phase := .reading maxBlocks wp (slotIndex l.depth c.poll.readPos)
              (.opening readTries (c.poll.bufs (poller.dest c.poll.written.length))) }
      else some { c with phase := .idle }
  | .reading maxBlocks wp k r =>
      match r with
      | .returned res out =>
          some
            { c with
              phase := .looping maxBlocks wp, poll := pollTurn poller.dest c.poll (res, out)
              delivered :=
                if res then c.delivered ++ [⟨c.poll.readPos, copyOut out⟩] else c.delivered }
      | r =>
          some { c with phase := .reading maxBlocks wp k (r.step (slotLoads maxRows) (l.slots k)) }

def consumerAct (poller : Poller) (maxRows : Nat) (l : Live Row) (c : Consumer Row) :
    ConsumerEvent Row → Option (Consumer Row)
  | .attach =>
      match c.phase with
      | .closed => some { c with phase := .opened l.writePos }
      | _ => none
  | .poll maxBlocks bufs =>
      match c.phase with
      | .idle =>
          some
            { c with
              phase := if poller.looks maxBlocks then .entered maxBlocks else .idle
              poll := { c.poll with bufs := poller.buffers bufs, written := [] } }
      | _ => none
  | .access => c.access poller maxRows l

/-- Not attached yet. -/
def Consumer.initial (bufs : Nat → BlockData Row) : Consumer Row where
  phase := .closed
  start := 0
  poll := { readPos := 0, dropped := some 0, bufs, written := [] }
  delivered := []

/-- A consumer of a region that was just initialised. -/
def pollMachine (poller : Poller) (maxRows : Nat) (rowSize : UInt32) (r : ShmRegion Row)
    (bufs : Nat → BlockData Row) : Machine (System Row (Consumer Row))
      (SystemEvent Row (ConsumerEvent Row)) :=
  systemMachine maxRows (Live.start (motorShmRegionInit rowSize r)) (.initial bufs)
    (consumerAct poller maxRows)

inductive Consumer.Move (poller : Poller) (maxRows : Nat) (l : Live Row) (c : Consumer Row) :
    Consumer Row → Prop
  | openAt (wp : UInt64) (hp : c.phase = .opened wp) :
      Move poller maxRows l c
        { c with
          phase := .idle, start := poller.firstPos wp l.depth
          poll := { c.poll with readPos := poller.firstPos wp l.depth, dropped := some 0 } }
  | sample (maxBlocks : Nat) (hp : c.phase = .entered maxBlocks) :
      Move poller maxRows l c { c with phase := .sampled maxBlocks l.writePos }
  | skip (maxBlocks : Nat) (wp : UInt64) (hp : c.phase = .sampled maxBlocks wp) :
      Move poller maxRows l c
        { c with phase := .looping maxBlocks wp, poll := skipLapped wp l.depth c.poll }
  | enter (maxBlocks : Nat) (wp : UInt64) (hp : c.phase = .looping maxBlocks wp)
      (hlt : c.poll.readPos < wp) (hmax : c.poll.written.length < maxBlocks) :
      Move poller maxRows l c
        { c with
          phase := .reading maxBlocks wp (slotIndex l.depth c.poll.readPos)
            (.opening readTries (c.poll.bufs (poller.dest c.poll.written.length))) }
  | leave (maxBlocks : Nat) (wp : UInt64) (hp : c.phase = .looping maxBlocks wp) :
      Move poller maxRows l c { c with phase := .idle }
  | read (maxBlocks : Nat) (wp : UInt64) (k : Nat) (r : Reader (BlockData Row) (BlockData Row))
      (hp : c.phase = .reading maxBlocks wp k r) (hrunning : r.running = true) :
      Move poller maxRows l c
        { c with phase := .reading maxBlocks wp k (r.step (slotLoads maxRows) (l.slots k)) }
  | deliver (maxBlocks : Nat) (wp : UInt64) (k : Nat) (out : BlockData Row)
      (hp : c.phase = .reading maxBlocks wp k (.returned true out)) :
      Move poller maxRows l c
        { c with
          phase := .looping maxBlocks wp, poll := pollTurn poller.dest c.poll (true, out)
          delivered := c.delivered ++ [⟨c.poll.readPos, copyOut out⟩] }
  | drop (maxBlocks : Nat) (wp : UInt64) (k : Nat) (out : BlockData Row)
      (hp : c.phase = .reading maxBlocks wp k (.returned false out)) :
      Move poller maxRows l c
        { c with
          phase := .looping maxBlocks wp, poll := pollTurn poller.dest c.poll (false, out) }

theorem Consumer.access_move {c c' : Consumer Row} (h : c.access poller maxRows l = some c') :
    c.Move poller maxRows l c' := by
  cases hp : c.phase with
  | closed => simp [access, hp] at h
  | idle => simp [access, hp] at h
  | opened wp =>
      simp only [access, hp, Option.some.injEq] at h
      exact h ▸ .openAt wp hp
  | entered maxBlocks =>
      simp only [access, hp, Option.some.injEq] at h
      exact h ▸ .sample maxBlocks hp
  | sampled maxBlocks wp =>
      simp only [access, hp, Option.some.injEq] at h
      exact h ▸ .skip maxBlocks wp hp
  | looping maxBlocks wp =>
      by_cases hloop : c.poll.readPos < wp ∧ c.poll.written.length < maxBlocks
      · simp only [access, hp, hloop, and_self, if_true, Option.some.injEq] at h
        exact h ▸ .enter maxBlocks wp hp hloop.1 hloop.2
      · simp only [access, hp, hloop, if_false, Option.some.injEq] at h
        exact h ▸ .leave maxBlocks wp hp
  | reading maxBlocks wp k r =>
      cases r with
      | opening left out =>
          simp only [access, hp, Option.some.injEq] at h
          exact h ▸ .read maxBlocks wp k _ hp rfl
      | copying left a =>
          simp only [access, hp, Option.some.injEq] at h
          exact h ▸ .read maxBlocks wp k _ hp rfl
      | returned res out =>
          simp only [access, hp, Option.some.injEq] at h
          cases res
          · exact h ▸ .drop maxBlocks wp k out hp
          · exact h ▸ .deliver maxBlocks wp k out hp

/-! ## An uninterrupted poll -/

section Uninterrupted

variable {rowSize : UInt32} {r : ShmRegion Row} {bufs : Nat → BlockData Row} {c : Consumer Row}
  {ok : System Row (Consumer Row) → SystemEvent Row (ConsumerEvent Row) → Prop}
  {maxBlocks : Nat} {wp : UInt64}

/-- A turn nobody interrupts is `pollStep`. -/
theorem reachable_turn (hp : c.phase = .looping maxBlocks wp) (hlt : c.poll.readPos < wp)
    (hmax : c.poll.written.length < maxBlocks) (hloop : ok ⟨l, c⟩ (.consume .access))
    (hread : ∀ r, r.Window (l.slots (slotIndex l.depth c.poll.readPos)) →
      ok ⟨l, { c with phase := .reading maxBlocks wp (slotIndex l.depth c.poll.readPos) r }⟩
        (.consume .access))
    (h : (pollMachine poller maxRows rowSize r bufs).ReachableBy ok ⟨l, c⟩) :
    (pollMachine poller maxRows rowSize r bufs).ReachableBy ok
      ⟨l, { c with
        phase := .looping maxBlocks wp, poll := pollStep maxRows l.ring poller.dest c.poll
        delivered :=
          let r := motorRingReadSlot maxRows l.ring c.poll.readPos
            (c.poll.bufs (poller.dest c.poll.written.length))
          if r.1 then c.delivered ++ [⟨c.poll.readPos, copyOut r.2⟩] else c.delivered }⟩ := by
  have hentered := reachable_consume (a := .access) h hloop
    (b := { c with
      phase := .reading maxBlocks wp (slotIndex l.depth c.poll.readPos)
        (.opening readTries (c.poll.bufs (poller.dest c.poll.written.length))) })
    (by simp [consumerAct, Consumer.access, hp, hlt, hmax])
  have hreturned := reachable_runs (a := .access)
    (readSlot_runs maxRows l c.poll.readPos (c.poll.bufs (poller.dest c.poll.written.length)))
    (f := fun r =>
      { c with phase := .reading maxBlocks wp (slotIndex l.depth c.poll.readPos) r })
    ?_ hread hentered
  · exact reachable_consume (a := .access) hreturned (hread (.returned _ _) trivial) rfl
  · intro r hr
    cases r with
    | opening left out => rfl
    | copying left a => rfl
    | returned res out => cases hr

theorem reachable_delivered (hp : c.phase = .looping maxBlocks wp) (hlt : c.poll.readPos < wp)
    (hmax : c.poll.written.length < maxBlocks) (hloop : ok ⟨l, c⟩ (.consume .access)) {k : Nat}
    (hk : slotIndex l.depth c.poll.readPos = k) (heven : (l.slots k).word &&& 1 = 0)
    (hread : ∀ r, r.Window (l.slots k) →
      ok ⟨l, { c with phase := .reading maxBlocks wp k r }⟩ (.consume .access))
    (h : (pollMachine poller maxRows rowSize r bufs).ReachableBy ok ⟨l, c⟩) :
    (pollMachine poller maxRows rowSize r bufs).ReachableBy ok
      ⟨l, { c with
        phase := .looping maxBlocks wp, poll := pollStep maxRows l.ring poller.dest c.poll
        delivered := c.delivered ++ [⟨c.poll.readPos, (l.slots k).data.block maxRows⟩] }⟩ := by
  subst hk
  have hturn := reachable_turn hp hlt hmax hloop hread h
  have hslot := readSlot_even maxRows l.ring c.poll.readPos
    (c.poll.bufs (poller.dest c.poll.written.length)) heven
  simp only [hslot, if_true, copyOut_copySlot] at hturn
  exact hturn

theorem readPos_pollStep (maxRows : Nat) (ring : ShmBlockRing Row) (dest : Nat → Nat)
    (s : PollState Row) : (pollStep maxRows ring dest s).readPos = s.readPos + 1 := by
  simp only [pollStep, pollTurn]
  split <;> rfl

theorem reachable_pollLoop (hok : ∀ c : Consumer Row, ok ⟨l, c⟩ (.consume .access)) (fuel : Nat)
    (hp : c.phase = .looping maxBlocks wp) (hfuel : fuel = wp.toNat - c.poll.readPos.toNat)
    (h : (pollMachine poller maxRows rowSize r bufs).ReachableBy ok ⟨l, c⟩) :
    ∃ delivered, (pollMachine poller maxRows rowSize r bufs).ReachableBy ok
      ⟨l, { c with
        phase := .idle
        poll := pollLoop maxRows l.ring poller.dest wp maxBlocks fuel c.poll, delivered }⟩ := by
  induction fuel generalizing c with
  | zero =>
      have hge : ¬ c.poll.readPos < wp := fun hlt => by
        have := UInt64.lt_iff_toNat_lt.mp hlt
        omega
      exact ⟨c.delivered, reachable_consume (a := .access) h (hok c)
        (by simp [consumerAct, Consumer.access, hp, hge, pollLoop])⟩
  | succ fuel ih =>
      have hlt : c.poll.readPos < wp := UInt64.lt_iff_toNat_lt.mpr (by omega)
      by_cases hmax : c.poll.written.length < maxBlocks
      · have hturn := reachable_turn hp hlt hmax (hok c) (fun _ _ => hok _) h
        have hnext := toNat_next (UInt64.lt_iff_toNat_lt.mp hlt)
        obtain ⟨delivered, hrest⟩ := ih rfl
          (by simp only [readPos_pollStep, hnext]; omega) hturn
        simp only [pollLoop, hlt, hmax, and_self, if_true]
        exact ⟨delivered, hrest⟩
      · exact ⟨c.delivered, reachable_consume (a := .access) h (hok c)
          (by simp [consumerAct, Consumer.access, hp, hmax, pollLoop])⟩

/-- A call nobody interrupts is the poll of `ShmReader.Session`. -/
theorem reachable_poll (hok : ∀ (c : Consumer Row) e, ok ⟨l, c⟩ (.consume e))
    (hp : c.phase = .idle) {dropped : UInt64} (hdropped : c.poll.dropped = some dropped)
    (maxBlocks : Nat) (callBufs : Nat → BlockData Row)
    (h : (pollMachine poller maxRows rowSize r bufs).ReachableBy ok ⟨l, c⟩) :
    ∃ delivered, (pollMachine poller maxRows rowSize r bufs).ReachableBy ok
      ⟨l, { c with
        poll := poller.poll maxRows l.ring callBufs maxBlocks c.poll.readPos dropped
        delivered }⟩ := by
  have hcalled := reachable_consume (a := .poll maxBlocks callBufs) h (hok c _)
    (b := { c with
      phase := if poller.looks maxBlocks then .entered maxBlocks else .idle
      poll := { c.poll with bufs := poller.buffers callBufs, written := [] } })
    (by simp [consumerAct, hp])
  rw [poller.poll_eq]
  by_cases hlooks : poller.looks maxBlocks = true
  · rw [if_pos hlooks] at hcalled ⊢
    have hsampled := reachable_consume (a := .access) hcalled (hok _ _) rfl
    have hskipped := reachable_consume (a := .access) hsampled (hok _ _) rfl
    obtain ⟨delivered, hdone⟩ := reachable_pollLoop (fun c => hok c _) _ rfl rfl hskipped
    refine ⟨delivered, ?_⟩
    rw [hp, ← hdropped]
    exact hdone
  · rw [if_neg hlooks] at hcalled ⊢
    refine ⟨c.delivered, ?_⟩
    rw [hp, ← hdropped]
    exact hcalled

end Uninterrupted

end QnxHypervisor.ShmReader
