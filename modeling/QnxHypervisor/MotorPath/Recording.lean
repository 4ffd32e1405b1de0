import QnxHypervisor.Foundation.Simulation
import QnxHypervisor.MotorRecorder.RowAccounts
import QnxHypervisor.ShmReader.Accounting

/-! # From the ring to the CSV file

The recorder's three threads beside a producer: publishes into the ring, polls of
the reader thread, and single steps of reader, writer and stop. The ring keeps rows
with their time stamps, as the recorder reads them.
-/

namespace QnxHypervisor.MotorPath

open Foundation MotorWire MotorShm ShmReader MotorRecorder

variable {maxRows : Nat}

/-! ## Joint runs -/

/-- The ring with the recorder's cursor, and the threads of one recording. -/
structure Recording where
  ring : Session CsvRow
  flow : RowFlow

inductive RecordingEvent where
  | publish (hdr : FrameHeader) (rows : Nat → CsvRow)
  /-- `shm_poll` into an array that holds anything -/
  | poll (bufs : Nat → BlockData CsvRow)
  /-- any other step of the threads -/
  | thread (e : RowEvent)

/-- `shm_block_t blocks[16]`. -/
def pollBlocks : Nat := 16

def polledRows (maxRows : Nat) (s : Session CsvRow) (bufs : Nat → BlockData CsvRow) :
    List (List CsvRow) :=
  (Poller.recorder.poll maxRows s.region.ring bufs pollBlocks s.readPos s.dropped).written.map
    BlockCopy.rows

def recordingStep (maxRows : Nat) (s : Recording) : RecordingEvent → Option Recording
  | .publish hdr rows =>
      some { s with ring := sessionStep .recorder maxRows s.ring (.publish hdr rows) }
  | .poll bufs =>
      (rowStep s.flow (.readerPoll (polledRows maxRows s.ring bufs))).map fun flow =>
        ⟨sessionStep .recorder maxRows s.ring (.poll pollBlocks bufs), flow⟩
  | .thread (.readerPoll _) => none
  | .thread e => (rowStep s.flow e).map fun flow => { s with flow }

/-- `start_recording_internal` has set the cursor and created the threads. -/
structure RecordingStart (maxRows : Nat) (s : Recording) : Prop where
  ring : SessionStart maxRows s.ring
  flow : RowStart s.flow

def recordingMachine (maxRows : Nat) : Machine Recording RecordingEvent :=
  ⟨RecordingStart maxRows, recordingStep maxRows⟩

/-- `write_pos` and the row counts do not wrap, and the writer leaves no row behind. -/
def Orderly (maxRows : Nat) (s : Recording) : RecordingEvent → Prop
  | .publish _ _ => s.ring.region.ring.writePos.toNat + 1 < 2 ^ 64
  | .poll bufs => NoRowLeft s.flow (.readerPoll (polledRows maxRows s.ring bufs))
  | .thread e => NoRowLeft s.flow e

instance (s : Recording) : (e : RecordingEvent) → Decidable (Orderly maxRows s e)
  | .publish _ _ => inferInstanceAs (Decidable (_ < _))
  | .poll bufs =>
      inferInstanceAs (Decidable (NoRowLeft s.flow (.readerPoll (polledRows maxRows s.ring bufs))))
  | .thread e => inferInstanceAs (Decidable (NoRowLeft s.flow e))

/-! ## What the file should hold -/

def Recording.publishedRows (s : Recording) : List CsvRow := s.ring.published.flatMap BlockCopy.rows

/-- The file of a finished recording: its lines are published rows in their order,
none twice, and what is missing is counted, as rows or as blocks. -/
structure Recorded (s : Recording) (m : RowCounts) : Prop where
  lines : ∃ kept : List CsvRow, kept.Sublist s.publishedRows ∧ kept.length = m.rows.toNat ∧
    s.flow.file = csvHeader ++ kept.flatMap csvLine
  rows : m.rows.toNat + m.drops.toNat = (s.ring.delivered.map fun d => d.block.rows.length).sum
  blocks : s.ring.delivered.length + s.ring.dropped.toNat =
    s.ring.readPos.toNat - s.ring.start.toNat
  whole : m.drops = 0 → s.ring.dropped = 0 →
    s.flow.file = csvHeader ++
      ((s.ring.published.take (s.ring.readPos.toNat - s.ring.start.toNat)).flatMap
        BlockCopy.rows).flatMap csvLine

/-! ## The parts of a run -/

theorem rowStep_polled {f f' : RowFlow} {e : RowEvent} (hno : ∀ blocks, e ≠ .readerPoll blocks)
    (hs : rowStep f e = some f') : f'.polled = f.polled := by
  have hreader : f.readerStep e = some f' → f'.polled = f.polled := by
    intro hs
    cases e with
    | readerPoll blocks => exact absurd rfl (hno blocks)
    | pushCheck =>
        simp only [RowFlow.readerStep] at hs
        split at hs
        · cases hs
          rfl
        · split at hs <;> cases hs <;> rfl
        · cases hs
    | _ =>
        simp only [RowFlow.readerStep] at hs
        try split at hs
        all_goals cases hs
        all_goals rfl
  have hwriter : f.writerStep e = some f' → f'.polled = f.polled := by
    intro hs
    cases e with
    | writerAdd stored =>
        simp only [RowFlow.writerStep, RowFlow.addRow] at hs
        split at hs
        · cases hs
          simp only
          split <;> rfl
        · cases hs
    | _ =>
        simp only [RowFlow.writerStep] at hs
        try split at hs
        all_goals cases hs
        all_goals rfl
  have hstop : f.stopStep e = some f' → f'.polled = f.polled := by
    intro hs
    cases e
    all_goals simp only [RowFlow.stopStep] at hs
    all_goals try split at hs
    all_goals cases hs
    all_goals rfl
  unfold rowStep at hs
  split at hs
  · exact hreader hs
  · split at hs
    · exact hstop hs
    · exact hwriter hs

theorem thread_step {s s' : Recording} {e : RowEvent}
    (hs : recordingStep maxRows s (.thread e) = some s') :
    s'.ring = s.ring ∧ rowStep s.flow e = some s'.flow ∧ s'.flow.polled = s.flow.polled := by
  have hno : ∀ blocks, e ≠ .readerPoll blocks := by
    rintro blocks rfl
    cases hs
  have hthread : (rowStep s.flow e).map (fun flow => ({ s with flow } : Recording)) = some s' := by
    cases e with
    | readerPoll blocks => exact absurd rfl (hno blocks)
    | _ => exact hs
  obtain ⟨flow, hflow, rfl⟩ := Option.map_eq_some_iff.mp hthread
  exact ⟨rfl, hflow, rowStep_polled hno hflow⟩

theorem poll_step {s s' : Recording} {bufs : Nat → BlockData CsvRow}
    (hs : recordingStep maxRows s (.poll bufs) = some s') :
    s'.ring = sessionStep .recorder maxRows s.ring (.poll pollBlocks bufs) ∧
      rowStep s.flow (.readerPoll (polledRows maxRows s.ring bufs)) = some s'.flow ∧
      s'.flow.polled = s.flow.polled ++ (polledRows maxRows s.ring bufs).flatten := by
  obtain ⟨flow, hflow, rfl⟩ := Option.map_eq_some_iff.mp hs
  refine ⟨rfl, hflow, ?_⟩
  simp only [rowStep, RowEvent.ofReader, if_true, RowFlow.readerStep] at hflow
  split at hflow
  · split at hflow
    · cases hflow
      rfl
    · cases hflow
  · cases hflow

theorem ring_reachable {s : Recording} (h : (recordingMachine maxRows).ReachableBy (Orderly maxRows) s) :
    (sessionMachine .recorder maxRows).ReachableBy Steady s.ring := by
  apply h.seen Recording.ring (fun _ hs => hs.ring)
  intro s e s' _ hok hs
  cases e with
  | publish hdr rows =>
      obtain rfl := Option.some.inj hs
      exact .inr ⟨.publish hdr rows, hok, rfl⟩
  | poll bufs => exact .inr ⟨.poll pollBlocks bufs, trivial, congrArg some (poll_step hs).1.symm⟩
  | thread e => exact .inl (thread_step hs).1

theorem flow_reachable {s : Recording} (h : (recordingMachine maxRows).ReachableBy (Orderly maxRows) s) :
    rowMachine.ReachableBy NoRowLeft s.flow := by
  apply h.seen Recording.flow (fun _ hs => hs.flow)
  intro s e s' _ hok hs
  cases e with
  | publish hdr rows =>
      obtain rfl := Option.some.inj hs
      exact .inl rfl
  | poll bufs => exact .inr ⟨.readerPoll _, hok, (poll_step hs).2.1⟩
  | thread e => exact .inr ⟨e, hok, (thread_step hs).2.1⟩

theorem polled_delivered {s : Recording} (h : (recordingMachine maxRows).ReachableBy (Orderly maxRows) s) :
    s.flow.polled = s.ring.delivered.flatMap fun d => d.block.rows := by
  apply h.invariant
  · intro s hs
    have hbegin := congrArg RowFlow.polled hs.flow.begin
    have hpolled : s.flow.polled = [] := hbegin
    have hdelivered : s.ring.delivered = [] := by
      rw [hs.ring.opened]
      rfl
    rw [hpolled, hdelivered, List.flatMap_nil]
  · intro s e s' _ hpolled _ hs
    cases e with
    | publish hdr rows =>
        obtain rfl := Option.some.inj hs
        exact hpolled
    | poll bufs =>
        obtain ⟨hring, -, hrows⟩ := poll_step hs
        rw [hrows, hpolled, hring]
        simp only [sessionStep, List.flatMap_append, List.append_cancel_left_eq, polledRows,
          List.flatMap_map]
        rfl
    | thread e =>
        obtain ⟨hring, -, hrows⟩ := thread_step hs
        rw [hrows, hpolled, hring]

/-! ## The finished file -/

theorem delivered_whole {s : Session CsvRow} (h : SessionInv maxRows s) (hdrop : s.dropped = 0) :
    s.delivered.map Delivery.block = s.published.take (s.readPos.toNat - s.start.toNat) := by
  apply h.ordered.eq_of_length
  have htotal := h.total
  have hcount := h.count
  have hread := h.readPos_le
  rw [hdrop] at htotal
  rw [List.length_map, List.length_take]
  simp only [UInt64.toNat_zero] at htotal
  omega

theorem accepted_whole {f : RowFlow} (h : (f.pushed.filter fun p => !p.2).length = 0) :
    f.accepted = f.pushed.map (·.1) := by
  unfold RowFlow.accepted
  congr 1
  apply List.filter_eq_self.mpr
  intro p hp
  by_contra hrefused
  have hmem : p ∈ f.pushed.filter fun p => !p.2 := List.mem_filter.mpr ⟨hp, by simpa using hrefused⟩
  rw [List.eq_nil_of_length_eq_zero h] at hmem
  cases hmem

/-- A recording that is stopped in order holds published rows only, in their order,
and accounts for the others, whatever the producer has published meanwhile. -/
theorem recording_recorded {s : Recording} {m : RowCounts}
    (h : (recordingMachine maxRows).ReachableBy (Orderly maxRows) s) (hm : s.flow.metadata = some m) :
    Recorded s m := by
  have hring := sessionInv_reachable (ring_reachable h)
  have hflow := (rowed_of_reachable (flow_reachable h)).accounted hm
  have hpolled := polled_delivered h
  have haccepted : s.flow.accepted.Sublist s.flow.polled := by
    rw [← hflow.offered]
    exact List.filter_sublist.map _
  have hpublished : s.flow.polled.Sublist s.publishedRows := by
    have hdelivered := hring.ordered.trans (List.take_sublist _ _)
    rw [hpolled, ← List.flatMap_map Delivery.block BlockCopy.rows]
    exact hdelivered.flatMap _
  have hoffered : s.flow.pushed.length = s.flow.polled.length := by
    rw [← hflow.offered, List.length_map]
  constructor
  case lines =>
    refine ⟨s.flow.accepted, haccepted.trans hpublished, ?_, hflow.file⟩
    have hlength := s.flow.accepted_length
    have htotal := hflow.total
    rw [← hflow.drops] at hlength
    omega
  case rows => rw [hflow.total, hpolled, List.length_flatMap]
  case blocks => exact hring.total
  case whole =>
    intro hrows hblocks
    have hnone : (s.flow.pushed.filter fun p => !p.2).length = 0 :=
      hflow.drops.symm.trans (congrArg UInt64.toNat hrows)
    rw [hflow.file, accepted_whole hnone, hflow.offered, hpolled,
      ← delivered_whole hring hblocks, List.flatMap_map]

/-! ## One recorded block -/

/-- A slot of zeros, as a new ring and the array of a poll hold it. -/
def zeroRows : BlockData CsvRow := ⟨0, 0, 0, 0, fun _ => MotorRecorder.zeroRow⟩

def zeroRing : ShmRegion CsvRow where
  magic := 0
  version := 0
  rowSize := 0
  snapshot := { seqlock := 0, producerSeq := 0, timestamp := 0, flags := 0, row := zeroRows.rows 0 }
  ring := { writePos := 0, depth := 0, slots := fun _ => { zeroRows with seq := 0 } }

def recordingBegin : Recording :=
  ⟨openedAt motorMaxRowsPerBlock (motorShmRegionInit 32 zeroRing) 0, RowFlow.begin⟩

theorem recordingBegin_start : RecordingStart motorMaxRowsPerBlock recordingBegin :=
  ⟨⟨rfl, ringReady_init 32 zeroRing, Nat.le_refl _, Nat.le_add_right _ _⟩, ⟨rfl⟩⟩

/-- A block of one row is published, polled, queued and written before the stop. -/
theorem recording_recorded_one_row :
    ∃ s, s.flow.metadata = some ⟨1, 0⟩ ∧ Recorded s ⟨1, 0⟩ := by
  have hstart : (recordingMachine motorMaxRowsPerBlock).ReachableBy (Orderly motorMaxRowsPerBlock) recordingBegin :=
    .initial recordingBegin_start
  obtain ⟨s, hreach, hm⟩ := hstart.after_any
    ([.publish (dataHeader 1 0 0 1 0) zeroRows.rows, .thread .readerTest,
      .poll fun _ => zeroRows] ++
      [RowEvent.pushCheck, .pushStore, .pushPublish, .pushCheck, .writerTest, .popCheck,
        .popRead, .popRelease, .writerAdd 0, .writerTest, .popCheck, .writerDrain 100,
        .stopRequest, .readerTest, .writerTest, .writerFinish 0, .stopPublish].map .thread)
    (fun s => decide (s.flow.metadata = some ⟨1, 0⟩)) (by decide)
  have hm := of_decide_eq_true hm
  exact ⟨s, hm, recording_recorded hreach hm⟩

end QnxHypervisor.MotorPath
