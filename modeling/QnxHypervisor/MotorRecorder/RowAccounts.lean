import QnxHypervisor.MotorRecorder.Rows

/-! # No row is lost unnoticed

A recorder whose writer empties the queue before it leaves accounts for every row
read. The invariant follows a row from the poll through the queue and the
writer's hands into the text of the file; the ring rules carry it past the steps
of the other thread.
-/

namespace QnxHypervisor.MotorRecorder

open Foundation MotorWire

/-! ## Lines fit the buffer -/

theorem decimal_length_u16 (x : UInt16) : (decimal x.toNat).length ≤ 5 :=
  decimal_length_le (by decide) (Nat.lt_trans x.toNat_lt (by decide))

theorem decimalInt_length_i16 (x : Int16) : (decimalInt x.toInt).length ≤ 6 := by
  have hlow := x.le_toInt
  have hhigh := x.toInt_lt
  have hdigits : (decimal x.toInt.natAbs).length ≤ 5 :=
    decimal_length_le (by decide) (by omega)
  unfold decimalInt
  split
  · rw [List.length_cons]
    omega
  · omega

theorem fields_spec (row : MotorRow) :
    (MotorRow.fields row).length = 12 ∧ ∀ f ∈ MotorRow.fields row, f.length ≤ 6 := by
  constructor
  · simp [MotorRow.fields]
  · intro f hf
    simp only [MotorRow.fields, List.mem_append, List.mem_map, List.mem_cons, List.not_mem_nil,
      or_false] at hf
    obtain ⟨c, -, rfl⟩ | rfl | rfl | rfl | rfl := hf
    · exact Nat.le_trans (decimal_length_u16 c) (by decide)
    · exact decimalInt_length_i16 row.vibX
    · exact decimalInt_length_i16 row.vibY
    · exact decimalInt_length_i16 row.vibZ
    · exact Nat.le_trans (decimal_length_u16 row.rpm) (by decide)

theorem flatMap_comma_length_le {fs : List Bytes} (h : ∀ f ∈ fs, f.length ≤ 6) :
    (fs.flatMap (comma :: ·)).length ≤ 7 * fs.length := by
  induction fs with
  | nil => simp
  | cons f fs ih =>
      have hf := h f (by simp)
      have hfs := ih fun g hg => h g (List.mem_cons_of_mem _ hg)
      rw [List.flatMap_cons, List.length_append, List.length_cons, List.length_cons]
      omega

theorem csvLine_length_le (r : CsvRow) : (csvLine r).length ≤ 105 := by
  have hts : (decimal r.ts.toNat).length ≤ 20 :=
    decimal_length_le (by decide) (Nat.lt_trans r.ts.toNat_lt (by decide))
  have hspec := fields_spec r.row
  have hfields := flatMap_comma_length_le hspec.2
  rw [hspec.1] at hfields
  simp only [csvLine, List.length_append, List.length_singleton]
  omega

theorem rowBufAdd_eq {buf : Bytes} (h : buf.length < rowBufSize / 2) (r : CsvRow) :
    rowBufAdd buf r = buf ++ csvLine r := by
  have hline := csvLine_length_le r
  have hsize : rowBufSize = 4096 := rfl
  unfold rowBufAdd
  rw [List.take_of_length_le (by omega)]

/-! ## The invariant -/

def ReaderPhase.pending : ReaderPhase → List CsvRow
  | .pushing rows => rows
  | .storing x rows | .publishing x rows => x :: rows
  | .looping | .polling | .done => []

/-- Out of the queue and not yet in the buffer. -/
def WriterPhase.inHand : WriterPhase → List CsvRow
  | .adding x => [x]
  | _ => []

def WriterPhase.left : WriterPhase → Bool
  | .finishing | .done => true
  | _ => false

/-- What the reader's check of the indexes has established. -/
def ReaderPhase.Pushes (queue : RowQueue) (room : Prop) : ReaderPhase → Prop
  | .storing _ _ => room
  | .publishing x _ => room ∧ queue.cells queue.head = x
  | _ => True

/-- What the writer's check of the indexes has established. -/
def WriterPhase.Pops (accepted : List CsvRow) (popped : Nat) : WriterPhase → Prop
  | .reading => popped < accepted.length
  | .releasing x => accepted[popped]? = some x
  | _ => True

/-- The accepted rows that the writer has taken are in its hand, its buffer or the file. -/
structure WriterBooks (w : WriterPhase) (file buf : Bytes) (recRows : UInt64) (popped : Nat)
    (accepted : List CsvRow) : Prop where
  pops : w.Pops accepted popped
  rows : recRows + .ofNat w.inHand.length = .ofNat popped
  text : file ++ buf ++ w.inHand.flatMap csvLine =
    csvHeader ++ (accepted.take popped).flatMap csvLine
  small : buf.length < rowBufSize / 2
  left : w.left = true → popped = accepted.length
  flushed : w = .done → buf = []

structure Rowed (s : RowFlow) : Prop where
  queue : RingBuffer.Holds queueCap s.queue s.accepted s.popped
  offered : s.polled = s.pushed.map (·.1) ++ s.reader.pending
  drops : s.dropped = .ofNat (s.pushed.filter fun p => !p.2).length
  few : s.polled.length < 2 ^ 64
  pushes : s.reader.Pushes s.queue (s.accepted.length + 1 < s.popped + queueCap)
  books : WriterBooks s.writer s.file s.rowBuf s.recRows s.popped s.accepted
  published : ∀ m, s.metadata = some m →
    s.reader = .done ∧ s.writer = .done ∧ m = ⟨s.recRows, s.dropped⟩

theorem RowStart.rowed {s : RowFlow} (h : RowStart s) : Rowed s := by
  obtain ⟨running, recording, queue, reader, firstTs, lastTs, firstSeen, dropped, totalRows, writer,
    rowBuf, recRows, file, stopping, metadata, polled, pushed, popped⟩ := s
  have hbegin := h.begin
  simp only [RowFlow.begin, RowFlow.mk.injEq, true_and] at hbegin
  obtain ⟨rfl, rfl, rfl, rfl, rfl, rfl, rfl, rfl, rfl, rfl, rfl, rfl, rfl, rfl, rfl, rfl, rfl⟩ :=
    hbegin
  constructor
  case queue => exact RingBuffer.Holds.new _ (by decide)
  case offered => rfl
  case drops => rfl
  case few => exact (by decide : 0 < 2 ^ 64)
  case pushes => trivial
  case books =>
    constructor
    · trivial
    · rfl
    · simp [WriterPhase.inHand]
    · exact (by decide : 0 < rowBufSize / 2)
    · simp [WriterPhase.left]
    · simp
  case published => simp

/-! ## Steps of the reader -/

section Reader

variable {s s' : RowFlow}

theorem WriterBooks.accept {w : WriterPhase} {file buf : Bytes} {recRows : UInt64} {popped : Nat}
    {accepted : List CsvRow} (h : WriterBooks w file buf recRows popped accepted) (x : CsvRow)
    (hle : popped ≤ accepted.length) (hw : w.left = false) :
    WriterBooks w file buf recRows popped (accepted ++ [x]) where
  pops := by
    have hp := h.pops
    cases w with
    | reading =>
        have hlt : popped < accepted.length := hp
        simp only [WriterPhase.Pops, List.length_append]
        omega
    | releasing y =>
        have hget : accepted[popped]? = some y := hp
        have hlt : popped < accepted.length := (List.getElem?_eq_some_iff.mp hget).1
        exact (List.getElem?_append_left hlt).trans hget
    | _ => trivial
  rows := h.rows
  text := by
    rw [List.take_append_of_le_length hle]
    exact h.text
  small := h.small
  left := by
    intro hl
    rw [hw] at hl
    cases hl
  flushed := h.flushed

theorem Rowed.read (h : Rowed s) {φ : ReaderPhase} {firstTs lastTs : UInt64} {firstSeen : Bool}
    {totalRows : UInt64} {polled : List CsvRow} (hr : s.reader ≠ .done)
    (hoffered : polled = s.pushed.map (·.1) ++ φ.pending) (hfew : polled.length < 2 ^ 64)
    (hpushes : φ.Pushes s.queue (s.accepted.length + 1 < s.popped + queueCap)) :
    Rowed { s with
      reader := φ, firstTs, lastTs, firstSeen, totalRows, polled } where
  queue := h.queue
  offered := hoffered
  drops := h.drops
  few := hfew
  pushes := hpushes
  books := h.books
  published := fun m hm => absurd (h.published m hm).1 hr

theorem Rowed.pushCheck (h : Rowed s) (hs : s.readerStep .pushCheck = some s') : Rowed s' := by
  simp only [RowFlow.readerStep] at hs
  split at hs
  · next hr =>
    cases hs
    exact h.read (by simp [hr]) (by simpa [hr, ReaderPhase.pending] using h.offered) h.few trivial
  · next x rows hr =>
    have hpending : s.polled = s.pushed.map (·.1) ++ x :: rows := by
      simpa [hr, ReaderPhase.pending] using h.offered
    split at hs
    · -- the queue is full
      cases hs
      constructor
      case queue =>
        have hq := h.queue
        simpa [RowFlow.accepted, RowFlow.stampRow] using hq
      case offered => simpa [RowFlow.stampRow, ReaderPhase.pending] using hpending
      case drops =>
        have hmore : (s.pushed ++ [(x, false)]).filter (fun p => !p.2) =
            s.pushed.filter (fun p => !p.2) ++ [(x, false)] := by simp
        simp only [hmore, List.length_append, UInt64.ofNat_add]
        exact congrArg (· + 1) h.drops
      case few => exact h.few
      case pushes => trivial
      case books =>
        have hb := h.books
        simpa [RowFlow.accepted, RowFlow.stampRow] using hb
      case published => exact fun m hm => absurd (h.published m hm).1 (by simp [hr])
    · next hfull =>
      cases hs
      rw [nextSlot_eq, h.queue.full_iff] at hfull
      have hroom : s.accepted.length + 1 < s.popped + queueCap := by
        have hlt := h.queue.lt
        omega
      exact h.read (by simp [hr]) hpending h.few hroom
  · cases hs

theorem Rowed.pushPublish (h : Rowed s) (hw : s.writer ≠ .finishing ∧ s.writer ≠ .done)
    (hs : s.readerStep .pushPublish = some s') : Rowed s' := by
  simp only [RowFlow.readerStep] at hs
  split at hs
  · next x rows hr =>
    cases hs
    have hp := h.pushes
    rw [hr] at hp
    obtain ⟨hroom, hcell⟩ := hp
    have haccepted : ((s.pushed ++ [(x, true)]).filter (·.2)).map (·.1) = s.accepted ++ [x] := by
      simp [RowFlow.accepted]
    have hleft : s.writer.left = false := by
      cases hφ : s.writer with
      | finishing => exact absurd hφ hw.1
      | done => exact absurd hφ hw.2
      | _ => rfl
    constructor
    case queue =>
      have hq := h.queue.publish hroom hcell
      rw [← nextSlot_eq, ← haccepted] at hq
      exact hq
    case offered => simpa [hr, ReaderPhase.pending] using h.offered
    case drops => simpa using h.drops
    case few => exact h.few
    case pushes => trivial
    case books =>
      have hb := h.books.accept x h.queue.taken_le hleft
      rw [← haccepted] at hb
      exact hb
    case published => exact fun m hm => absurd (h.published m hm).1 (by simp [hr])
  · cases hs

theorem Rowed.readerStep (h : Rowed s) {e : RowEvent} (hok : NoRowLeft s e)
    (hs : s.readerStep e = some s') : Rowed s' := by
  cases e with
  | readerTest =>
      simp only [RowFlow.readerStep] at hs
      split at hs
      · next hr =>
        cases hs
        apply h.read (by simp [hr])
        · have hoffered := h.offered
          rw [hr] at hoffered
          rw [hoffered]
          split <;> rfl
        · exact h.few
        · split <;> trivial
      · cases hs
  | readerPoll blocks =>
      simp only [RowFlow.readerStep] at hs
      split at hs
      · next hr =>
        split at hs
        · cases hs
          have hoffered := h.offered
          rw [hr] at hoffered
          apply h.read (by simp [hr])
          · rw [hoffered]
            simp [ReaderPhase.pending]
          · rw [List.length_append]
            exact hok
          · trivial
        · cases hs
      · cases hs
  | pushCheck => exact h.pushCheck hs
  | pushStore =>
      simp only [RowFlow.readerStep] at hs
      split at hs
      · next x rows hr =>
        cases hs
        have hroom := h.pushes
        rw [hr] at hroom
        constructor
        case queue => exact h.queue.store x
        case offered => simpa [hr, ReaderPhase.pending] using h.offered
        case drops => exact h.drops
        case few => exact h.few
        case pushes => exact ⟨hroom, s.queue.store_cell x⟩
        case books => exact h.books
        case published => exact fun m hm => absurd (h.published m hm).1 (by simp [hr])
      · cases hs
  | pushPublish => exact h.pushPublish hok hs
  | _ => cases hs

end Reader

/-! ## Steps of the writer -/

section Writer

variable {s s' : RowFlow}

theorem Rowed.write (h : Rowed s) {w : WriterPhase} {file buf : Bytes} {recRows : UInt64}
    (hw : s.writer ≠ .done) (hbooks : WriterBooks w file buf recRows s.popped s.accepted) :
    Rowed { s with writer := w, file := file, rowBuf := buf, recRows := recRows } where
  queue := h.queue
  offered := h.offered
  drops := h.drops
  few := h.few
  pushes := h.pushes
  books := hbooks
  published := fun m hm => absurd (h.published m hm).2.1 hw

theorem WriterBooks.goto {w w' : WriterPhase} {file buf : Bytes} {recRows : UInt64}
    {popped : Nat} {accepted : List CsvRow} (h : WriterBooks w file buf recRows popped accepted)
    (hw : w.inHand = []) (hw' : w'.inHand = []) (hpops : w'.Pops accepted popped)
    (hleft : w'.left = true → popped = accepted.length) (hflushed : w' ≠ .done) :
    WriterBooks w' file buf recRows popped accepted where
  pops := hpops
  rows := by
    have hrows := h.rows
    rw [hw] at hrows
    rw [hw']
    exact hrows
  text := by
    have htext := h.text
    rw [hw] at htext
    rw [hw']
    exact htext
  small := h.small
  left := hleft
  flushed := fun hd => absurd hd hflushed

theorem WriterBooks.flush {w w' : WriterPhase} {file buf : Bytes} {recRows : UInt64}
    {popped : Nat} {accepted : List CsvRow} (h : WriterBooks w file buf recRows popped accepted)
    (hw : w.inHand = []) (hw' : w'.inHand = []) (hpops : w'.Pops accepted popped)
    (hleft : w'.left = true → popped = accepted.length) {stored : Nat}
    (hstored : buf.length ≤ stored) :
    WriterBooks w' (file ++ buf.take stored) [] recRows popped accepted where
  pops := hpops
  rows := by
    have hrows := h.rows
    rw [hw] at hrows
    rw [hw']
    exact hrows
  text := by
    have htext := h.text
    rw [hw] at htext
    rw [hw', List.take_of_length_le hstored]
    simpa using htext
  small := by decide
  left := hleft
  flushed := fun _ => rfl

theorem Rowed.popRelease (h : Rowed s) (hs : s.writerStep .popRelease = some s') : Rowed s' := by
  simp only [RowFlow.writerStep] at hs
  split at hs
  · next x hw =>
    cases hs
    have hb := h.books
    rw [hw] at hb
    have hget : s.accepted[s.popped]? = some x := hb.pops
    obtain ⟨hlt, hx⟩ := List.getElem?_eq_some_iff.mp hget
    constructor
    case queue =>
      have hq := h.queue.release hlt
      rw [← nextSlot_eq] at hq
      exact hq
    case offered => exact h.offered
    case drops => exact h.drops
    case few => exact h.few
    case pushes =>
      have hp := h.pushes
      have hmore : s.accepted.length + 1 < s.popped + queueCap →
          s.accepted.length + 1 < s.popped + 1 + queueCap := by omega
      change s.reader.Pushes _ (s.accepted.length + 1 < s.popped + 1 + queueCap)
      cases hr : s.reader with
      | storing y rows =>
          rw [hr] at hp
          exact hmore hp
      | publishing y rows =>
          rw [hr] at hp
          exact ⟨hmore hp.1, hp.2⟩
      | _ => trivial
    case books =>
      constructor
      · trivial
      · have hrows : s.recRows + 0 = .ofNat s.popped := hb.rows
        rw [UInt64.ofNat_add, ← hrows, UInt64.add_zero]
        rfl
      · have htext := hb.text
        simp only [WriterPhase.inHand, List.flatMap_nil, List.append_nil] at htext
        change s.file ++ s.rowBuf ++ [x].flatMap csvLine =
          csvHeader ++ (s.accepted.take (s.popped + 1)).flatMap csvLine
        rw [List.take_add_one, hget, htext]
        simp
      · exact hb.small
      · simp [WriterPhase.left]
      · simp
    case published => exact fun m hm => absurd (h.published m hm).2.1 (by simp [hw])
  · cases hs

theorem Rowed.writerAdd (h : Rowed s) {stored : Nat} (hok : NoRowLeft s (.writerAdd stored))
    (hs : s.writerStep (.writerAdd stored) = some s') : Rowed s' := by
  simp only [RowFlow.writerStep] at hs
  split at hs
  · next x hw =>
    cases hs
    have hb := h.books
    rw [hw] at hb
    have hadd := rowBufAdd_eq hb.small x
    have hrows : s.recRows + 1 + 0 = .ofNat s.popped := by
      rw [UInt64.add_zero]
      exact hb.rows
    have htext : s.file ++ rowBufAdd s.rowBuf x =
        csvHeader ++ (s.accepted.take s.popped).flatMap csvLine := by
      rw [hadd, ← hb.text]
      simp [WriterPhase.inHand]
    simp only [NoRowLeft, hw] at hok
    simp only [RowFlow.addRow, RowFlow.rowBufFlush]
    split
    · next hbig =>
      have hbooks : WriterBooks .looping (s.file ++ (rowBufAdd s.rowBuf x).take stored) []
          (s.recRows + 1) s.popped s.accepted := by
        constructor
        · trivial
        · exact hrows
        · rw [List.take_of_length_le (hok hbig)]
          simpa [WriterPhase.inHand] using htext
        · decide
        · simp [WriterPhase.left]
        · simp
      exact h.write (by simp [hw]) hbooks
    · next hbig =>
      have hbooks : WriterBooks .looping s.file (rowBufAdd s.rowBuf x) (s.recRows + 1) s.popped
          s.accepted := by
        constructor
        · trivial
        · exact hrows
        · simpa [WriterPhase.inHand] using htext
        · exact Nat.lt_of_not_le hbig
        · simp [WriterPhase.left]
        · simp
      exact h.write (by simp [hw]) hbooks
  · cases hs

theorem Rowed.writerStep (h : Rowed s) {e : RowEvent} (hok : NoRowLeft s e)
    (hs : s.writerStep e = some s') : Rowed s' := by
  cases e with
  | writerTest =>
      simp only [RowFlow.writerStep] at hs
      split at hs
      · next hw =>
        cases hs
        have hempty : s.goOn = false → s.popped = s.accepted.length := by
          intro hgo
          obtain hgo' | heq := hok
          · rw [hgo] at hgo'
            cases hgo'
          · exact h.queue.empty_iff.mp heq
        apply h.write (by simp [hw])
        apply h.books.goto (by simp [hw, WriterPhase.inHand])
        · split <;> rfl
        · split <;> trivial
        · intro hleft
          split at hleft
          · cases hleft
          · next hgo => exact hempty (by simpa using hgo)
        · split <;> simp
      · cases hs
  | popCheck =>
      simp only [RowFlow.writerStep] at hs
      split at hs
      · next hw =>
        cases hs
        apply h.write (by simp [hw])
        apply h.books.goto (by simp [hw, WriterPhase.inHand])
        · split <;> rfl
        · split
          · trivial
          · next hne =>
            rw [h.queue.empty_iff] at hne
            have hle := h.queue.taken_le
            exact Nat.lt_of_le_of_ne hle hne
        · split <;> simp [WriterPhase.left]
        · split <;> simp
      · cases hs
  | popRead =>
      simp only [RowFlow.writerStep] at hs
      split at hs
      · next hw =>
        cases hs
        have hlt := h.books.pops
        rw [hw] at hlt
        apply h.write (by simp [hw])
        apply h.books.goto (by simp [hw, WriterPhase.inHand]) rfl
        · rw [h.queue.read hlt]
          exact List.getElem?_eq_getElem hlt
        · simp [WriterPhase.left]
        · simp
      · cases hs
  | popRelease => exact h.popRelease hs
  | writerAdd stored => exact h.writerAdd hok hs
  | writerDrain stored =>
      simp only [RowFlow.writerStep] at hs
      split at hs
      · next hw =>
        cases hs
        have hb : WriterBooks .looping (s.file ++ s.rowBuf.take stored) [] s.recRows s.popped
            s.accepted :=
          h.books.flush (by simp [hw, WriterPhase.inHand]) rfl (by trivial)
            (by simp [WriterPhase.left]) hok
        exact h.write (by simp [hw]) hb
      · cases hs
  | writerFinish stored =>
      simp only [RowFlow.writerStep] at hs
      split at hs
      · next hw =>
        cases hs
        have hleft : s.popped = s.accepted.length :=
          h.books.left (by simp [hw, WriterPhase.left])
        have hb : WriterBooks .done (s.file ++ s.rowBuf.take stored) [] s.recRows s.popped
            s.accepted :=
          h.books.flush (by simp [hw, WriterPhase.inHand]) rfl (by trivial) (fun _ => hleft) hok
        exact h.write (by simp [hw]) hb
      · cases hs
  | _ => cases hs

end Writer

/-! ## Runs -/

theorem Rowed.stopStep {s s' : RowFlow} (h : Rowed s) {e : RowEvent}
    (hs : s.stopStep e = some s') : Rowed s' := by
  cases e with
  | signal =>
      cases hs
      exact ⟨h.queue, h.offered, h.drops, h.few, h.pushes, h.books, h.published⟩
  | stopRequest =>
      simp only [RowFlow.stopStep] at hs
      split at hs
      · cases hs
        exact ⟨h.queue, h.offered, h.drops, h.few, h.pushes, h.books, h.published⟩
      · cases hs
  | stopPublish =>
      simp only [RowFlow.stopStep] at hs
      split at hs
      · next hj =>
        cases hs
        refine ⟨h.queue, h.offered, h.drops, h.few, h.pushes, h.books,
          fun m hm => ⟨hj.2.1, hj.2.2, ?_⟩⟩
        cases hm
        rfl
      · cases hs
  | _ => cases hs

theorem Rowed.step {s s' : RowFlow} {e : RowEvent} (h : Rowed s) (hok : NoRowLeft s e)
    (hs : rowStep s e = some s') : Rowed s' := by
  unfold rowStep at hs
  split at hs
  · exact h.readerStep hok hs
  · split at hs
    · exact h.stopStep hs
    · exact h.writerStep hok hs

theorem rowed_of_reachable {s : RowFlow} (h : rowMachine.ReachableBy NoRowLeft s) : Rowed s :=
  h.invariant (fun _ h => h.rowed) fun _ _ _ _ hi hok hs => hi.step hok hs

theorem RowFlow.accepted_length (s : RowFlow) :
    s.accepted.length + (s.pushed.filter fun p => !p.2).length = s.pushed.length := by
  unfold accepted
  rw [List.length_map]
  induction s.pushed with
  | nil => rfl
  | cons p ps ih =>
      obtain ⟨x, ok⟩ := p
      cases ok <;> simp <;> omega

theorem Rowed.accounted {s : RowFlow} (h : Rowed s) {m : RowCounts}
    (hm : s.metadata = some m) : Accounted s m := by
  obtain ⟨hreader, hwriter, rfl⟩ := h.published m hm
  have hb := h.books
  rw [hwriter] at hb
  have hall : s.popped = s.accepted.length := hb.left rfl
  have hoffered := h.offered
  rw [hreader, ReaderPhase.pending, List.append_nil] at hoffered
  have hlength := s.accepted_length
  have hfew := h.few
  rw [hoffered, List.length_map] at hfew
  have hdrops : s.dropped.toNat = (s.pushed.filter fun p => !p.2).length := by
    rw [h.drops, UInt64.toNat_ofNat_of_lt' (by show _ < 2 ^ 64; omega)]
  have hrows : s.recRows.toNat = s.accepted.length := by
    have hpopped : s.recRows + 0 = .ofNat s.popped := hb.rows
    rw [UInt64.add_zero, hall] at hpopped
    rw [hpopped, UInt64.toNat_ofNat_of_lt' (by show _ < 2 ^ 64; omega)]
  constructor
  case offered => exact hoffered.symm
  case drops => exact hdrops
  case total =>
    rw [hoffered, List.length_map]
    simp only
    omega
  case file =>
    have htext := hb.text
    rw [hall, hb.flushed rfl, List.take_length] at htext
    simpa [WriterPhase.inHand] using htext

/-- A recording whose writer leaves no row behind accounts for all rows. -/
theorem rows_accounted {s : RowFlow} {m : RowCounts} (h : rowMachine.ReachableBy NoRowLeft s)
    (hm : s.metadata = some m) : Accounted s m :=
  (rowed_of_reachable h).accounted hm

theorem begin_start : rowMachine.initial RowFlow.begin := ⟨rfl⟩

/-- One row is polled and enters the queue; the reader is back at its test. -/
def oneRowQueued : List RowEvent :=
  [.readerTest, .readerPoll [[zeroRow]], .pushCheck, .pushStore, .pushPublish, .pushCheck]

/-- The writer takes the row and writes it before the stop. -/
theorem row_accounted : ∃ s, s.metadata = some ⟨1, 0⟩ ∧ Accounted s ⟨1, 0⟩ := by
  have hbegin : rowMachine.ReachableBy NoRowLeft RowFlow.begin := .initial begin_start
  obtain ⟨s, hreach, hm⟩ := hbegin.after_any (oneRowQueued ++ [.writerTest, .popCheck, .popRead, .popRelease,
      .writerAdd 0, .writerTest, .popCheck, .writerDrain 100, .stopRequest, .readerTest,
      .writerTest, .writerFinish 0, .stopPublish])
    (fun s => decide (s.metadata = some ⟨1, 0⟩)) (by decide)
  have hm := of_decide_eq_true hm
  exact ⟨s, hm, rows_accounted hreach hm⟩

/-- The stop comes while the row is in the queue. -/
theorem stopped_row_lost :
    ¬ ∀ s m, rowMachine.Reachable s → s.metadata = some m → Accounted s m := by
  intro hall
  have hbegin : rowMachine.Reachable RowFlow.begin := .initial begin_start
  obtain ⟨s, hreach, hs⟩ := hbegin.after_any (oneRowQueued ++ [.stopRequest, .readerTest, .writerTest,
      .writerFinish 0, .stopPublish])
    (fun s => decide (s.metadata = some ⟨0, 0⟩ ∧ s.polled.length = 1)) (by decide)
  obtain ⟨hm, hpolled⟩ := of_decide_eq_true hs
  have htotal := (hall s _ hreach hm).total
  rw [hpolled] at htotal
  cases htotal

end QnxHypervisor.MotorRecorder
