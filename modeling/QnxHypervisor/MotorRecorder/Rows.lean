import QnxHypervisor.Foundation.Machine
import QnxHypervisor.Foundation.RingBuffer
import QnxHypervisor.Foundation.Text
import QnxHypervisor.MotorWire.Layout

/-! # The rows of one recording

The reader thread, the writer thread and `stop_recording` of `recorder.c`, from
the creation of the threads to the metadata. A step is one access to the queue's
indexes or cells or to a flag, one poll or one write; what `shm_poll` returns and
how much of a write the file takes come with the events.
-/

namespace QnxHypervisor.MotorRecorder

open Foundation MotorWire

/-! ## Queue -/

/-- `csv_row_t`. -/
structure CsvRow where
  ts : UInt64
  row : MotorRow
  deriving DecidableEq

/-- `queue_alloc(18)`. -/
def queueCap : Nat := 2 ^ 18

def queueMask : Nat := queueCap - 1

abbrev RowQueue := RingBuffer CsvRow

def zeroRow : CsvRow := ⟨0, ⟨Vector.replicate 8 0, 0, 0, 0, 0⟩⟩

def queueAlloc : RowQueue := ⟨fun _ => zeroRow, 0, 0⟩

def nextSlot (i : Nat) : Nat := (i + 1) &&& queueMask

theorem nextSlot_eq (i : Nat) : nextSlot i = (i + 1) % queueCap :=
  Nat.and_two_pow_sub_one_eq_mod (i + 1) 18

/-! ## Row buffer -/

def rowBufSize : Nat := 4096

def comma : UInt8 := 44

def MotorRow.fields (row : MotorRow) : List Bytes :=
  row.current.toList.map (fun c => decimal c.toNat) ++
    [decimalInt row.vibX.toInt, decimalInt row.vibY.toInt, decimalInt row.vibZ.toInt,
      decimal row.rpm.toNat]

/-- The line that `row_buf_add` prints. -/
def csvLine (r : CsvRow) : Bytes :=
  decimal r.ts.toNat ++ (MotorRow.fields r.row).flatMap (comma :: ·) ++ [newline]

/-- `row_buf_add`: `snprintf` stops one byte before the end of the buffer. -/
def rowBufAdd (buf : Bytes) (r : CsvRow) : Bytes :=
  buf ++ (csvLine r).take (rowBufSize - buf.length - 1)

def csvHeader : Bytes :=
  utf8 "timestamp,current_0,current_1,current_2,current_3,current_4,current_5,current_6,current_7,vib_x,vib_y,vib_z,rpm\n"

/-! ## Threads -/

inductive ReaderPhase where
  /-- before the test of the loop -/
  | looping
  | polling
  /-- rows of the polled blocks, before `queue_push` of the first -/
  | pushing (rows : List CsvRow)
  /-- there is room, before the cell is written -/
  | storing (x : CsvRow) (rows : List CsvRow)
  /-- before the store to `head` -/
  | publishing (x : CsvRow) (rows : List CsvRow)
  | done
  deriving DecidableEq

inductive WriterPhase where
  /-- before the test of the loop -/
  | looping
  /-- before `queue_pop` looks at the indexes -/
  | popping
  /-- there is a row, before the cell is read -/
  | reading
  /-- before the store to `tail` -/
  | releasing (x : CsvRow)
  /-- before `row_buf_add` -/
  | adding (x : CsvRow)
  /-- the queue was empty -/
  | draining
  /-- behind the loop -/
  | finishing
  | done
  deriving DecidableEq

/-- Where `stop_recording` is. -/
inductive StopPhase where
  | notYet | joining | published
  deriving DecidableEq

structure RowCounts where
  rows : UInt64
  drops : UInt64
  deriving DecidableEq

structure RowFlow where
  /-- `g_running` -/
  running : Bool
  /-- `g_recording` -/
  recording : Bool
  queue : RowQueue
  reader : ReaderPhase
  firstTs : UInt64
  lastTs : UInt64
  firstSeen : Bool
  dropped : UInt64
  totalRows : UInt64
  writer : WriterPhase
  rowBuf : Bytes
  /-- `g_rec_rows` -/
  recRows : UInt64
  file : Bytes
  stopping : StopPhase
  /-- rows and drops in the published metadata -/
  metadata : Option RowCounts
  /-- all rows that `shm_poll` has returned -/
  polled : List CsvRow
  /-- rows with the answers of their `queue_push` -/
  pushed : List (CsvRow × Bool)
  /-- number of rows that `queue_pop` has returned -/
  popped : Nat

namespace RowFlow

/-- The rows that went into the queue. -/
def accepted (s : RowFlow) : List CsvRow := (s.pushed.filter (·.2)).map (·.1)

/-- `first_ts` and `last_ts`, which precede the push. -/
def stampRow (s : RowFlow) (x : CsvRow) : RowFlow :=
  { s with
    firstTs := if s.firstSeen then s.firstTs else x.ts
    firstSeen := true
    lastTs := x.ts }

def goOn (s : RowFlow) : Bool := s.running && s.recording

/-- `row_buf_flush`; `stored` is how much of the write reaches the file. -/
def rowBufFlush (s : RowFlow) (stored : Nat) : RowFlow :=
  { s with file := s.file ++ s.rowBuf.take stored, rowBuf := [] }

end RowFlow

inductive RowEvent where
  | readerTest
  /-- `shm_poll` returns these blocks -/
  | readerPoll (blocks : List (List CsvRow))
  | pushCheck
  | pushStore
  | pushPublish
  | writerTest
  | popCheck
  | popRead
  | popRelease
  | writerAdd (stored : Nat)
  | writerDrain (stored : Nat)
  | writerFinish (stored : Nat)
  /-- SIGINT or SIGTERM -/
  | signal
  /-- `stop_recording` clears the flag -/
  | stopRequest
  /-- both threads are joined, the figures taken and published -/
  | stopPublish
  deriving DecidableEq

namespace RowFlow

def readerStep (s : RowFlow) : RowEvent → Option RowFlow
  | .readerTest =>
      match s.reader with
      | .looping => some { s with reader := if s.goOn then .polling else .done }
      | _ => none
  | .readerPoll blocks =>
      match s.reader with
      | .polling =>
          if blocks.length ≤ 16 then
            some { s with
              reader := .pushing blocks.flatten
              totalRows := s.totalRows + .ofNat blocks.flatten.length
              polled := s.polled ++ blocks.flatten }
          else none
      | _ => none
  | .pushCheck =>
      match s.reader with
      | .pushing [] => some { s with reader := .looping }
      | .pushing (x :: rows) =>
          if nextSlot s.queue.head = s.queue.tail then
            some { s.stampRow x with
              reader := .pushing rows
              dropped := s.dropped + 1
              pushed := s.pushed ++ [(x, false)] }
          else some { s.stampRow x with reader := .storing x rows }
      | _ => none
  | .pushStore =>
      match s.reader with
      | .storing x rows =>
          some { s with queue := s.queue.store x, reader := .publishing x rows }
      | _ => none
  | .pushPublish =>
      match s.reader with
      | .publishing x rows =>
          some { s with
            queue := { s.queue with head := nextSlot s.queue.head }
            reader := .pushing rows
            pushed := s.pushed ++ [(x, true)] }
      | _ => none
  | _ => none

/-- `row_buf_add`, the row counter and the flush at half a buffer. -/
def addRow (s : RowFlow) (x : CsvRow) (stored : Nat) : RowFlow :=
  let s := { s with rowBuf := rowBufAdd s.rowBuf x, recRows := s.recRows + 1 }
  if rowBufSize / 2 ≤ s.rowBuf.length then s.rowBufFlush stored else s

def writerStep (s : RowFlow) : RowEvent → Option RowFlow
  | .writerTest =>
      match s.writer with
      | .looping => some { s with writer := if s.goOn then .popping else .finishing }
      | _ => none
  | .popCheck =>
      match s.writer with
      | .popping =>
          some { s with writer := if s.queue.head = s.queue.tail then .draining else .reading }
      | _ => none
  | .popRead =>
      match s.writer with
      | .reading => some { s with writer := .releasing (s.queue.cells s.queue.tail) }
      | _ => none
  | .popRelease =>
      match s.writer with
      | .releasing x =>
          some { s with
            queue := { s.queue with tail := nextSlot s.queue.tail }
            writer := .adding x
            popped := s.popped + 1 }
      | _ => none
  | .writerAdd stored =>
      match s.writer with
      | .adding x => some { s.addRow x stored with writer := .looping }
      | _ => none
  | .writerDrain stored =>
      match s.writer with
      | .draining => some { s.rowBufFlush stored with writer := .looping }
      | _ => none
  | .writerFinish stored =>
      match s.writer with
      | .finishing => some { s.rowBufFlush stored with writer := .done }
      | _ => none
  | _ => none

/-- The main thread or the MQTT thread in `stop_recording`, and the signal handler. -/
def stopStep (s : RowFlow) : RowEvent → Option RowFlow
  | .signal => some { s with running := false }
  | .stopRequest =>
      match s.stopping with
      | .notYet => some { s with recording := false, stopping := .joining }
      | _ => none
  | .stopPublish =>
      if s.stopping = .joining ∧ s.reader = .done ∧ s.writer = .done then
        some { s with metadata := some ⟨s.recRows, s.dropped⟩, stopping := .published }
      else none
  | _ => none

end RowFlow

def RowEvent.ofReader : RowEvent → Bool
  | .readerTest | .readerPoll _ | .pushCheck | .pushStore | .pushPublish => true
  | _ => false

def RowEvent.ofStop : RowEvent → Bool
  | .signal | .stopRequest | .stopPublish => true
  | _ => false

def rowStep (s : RowFlow) (e : RowEvent) : Option RowFlow :=
  if e.ofReader then s.readerStep e
  else if e.ofStop then s.stopStep e
  else s.writerStep e

/-- The recording at the creation of its threads. -/
def RowFlow.begin : RowFlow where
  running := true
  recording := true
  queue := queueAlloc
  reader := .looping
  firstTs := 0
  lastTs := 0
  firstSeen := false
  dropped := 0
  totalRows := 0
  writer := .looping
  rowBuf := []
  recRows := 0
  file := csvHeader
  stopping := .notYet
  metadata := none
  polled := []
  pushed := []
  popped := 0

/-- A signal may have come before the threads start. -/
structure RowStart (s : RowFlow) : Prop where
  begin : { s with running := true } = RowFlow.begin

def rowMachine : Machine RowFlow RowEvent := ⟨RowStart, rowStep⟩

/-! ## What should hold -/

/-- File and metadata account for every row read: each was offered to the queue
once, in order, the refused ones are the drops, and the others are the lines of the file. -/
structure Accounted (s : RowFlow) (m : RowCounts) : Prop where
  offered : s.pushed.map (·.1) = s.polled
  drops : m.drops.toNat = (s.pushed.filter fun p => !p.2).length
  total : m.rows.toNat + m.drops.toNat = s.polled.length
  file : s.file = csvHeader ++ s.accepted.flatMap csvLine

/-- The writer leaves its loop with an empty queue only, nothing enters the queue
behind it, every write is complete, and the rows read do not exceed a 64-bit count. -/
def NoRowLeft (s : RowFlow) : RowEvent → Prop
  | .readerPoll blocks => s.polled.length + blocks.flatten.length < 2 ^ 64
  | .writerTest => s.goOn = true ∨ s.queue.head = s.queue.tail
  | .pushPublish => s.writer ≠ .finishing ∧ s.writer ≠ .done
  | .writerAdd stored =>
      match s.writer with
      | .adding x =>
          rowBufSize / 2 ≤ (rowBufAdd s.rowBuf x).length → (rowBufAdd s.rowBuf x).length ≤ stored
      | _ => True
  | .writerDrain stored | .writerFinish stored => s.rowBuf.length ≤ stored
  | _ => True

instance (s : RowFlow) : (e : RowEvent) → Decidable (NoRowLeft s e)
  | .writerTest => inferInstanceAs (Decidable (_ ∨ _))
  | .pushPublish => inferInstanceAs (Decidable (_ ∧ _))
  | .writerAdd stored =>
      match h : s.writer with
      | .adding x => decidable_of_iff (rowBufSize / 2 ≤ (rowBufAdd s.rowBuf x).length →
          (rowBufAdd s.rowBuf x).length ≤ stored) (by simp only [NoRowLeft, h])
      | .looping | .popping | .reading | .releasing _ | .draining | .finishing | .done =>
          isTrue (by simp only [NoRowLeft, h])
  | .writerDrain stored | .writerFinish stored => inferInstanceAs (Decidable (_ ≤ stored))
  | .readerPoll _ => inferInstanceAs (Decidable (_ < _))
  | .readerTest | .pushCheck | .pushStore | .popCheck | .popRead | .popRelease
  | .signal | .stopRequest | .stopPublish => isTrue trivial

end QnxHypervisor.MotorRecorder
