import QnxHypervisor.HmsStatus.EscapeBuffer
import QnxHypervisor.MotorRecorder.RowAccounts

/-! # What the writer thread puts into the CSV file

`writer_thread` over the answers of its polls, with the row buffer as `snprintf`
and `fwrite` see it, and a reader of the file that cuts it at newlines and commas.
-/

namespace QnxHypervisor.MotorRecorder

open Foundation MotorWire HmsStatus

/-! ## The writer -/

/-- The row buffer, with `len` as its position, and what `fwrite` was given so far. -/
structure CsvWriter where
  buf : OutBuffer
  written : Bytes

/-- `row_buf_add`: `len` moves on by what the format asks for. -/
def bufferRow (b : OutBuffer) (r : CsvRow) : Option OutBuffer := b.print (csvLine r)

/-- `row_buf_flush`. -/
def CsvWriter.flush (w : CsvWriter) : CsvWriter :=
  if 0 < w.buf.pos then
    ⟨{ w.buf with pos := 0 }, w.written ++ w.buf.bytes.take w.buf.pos⟩
  else w

/-- One turn of the loop; `none` is an empty queue. -/
def writerTurn (w : CsvWriter) : Option CsvRow → Option CsvWriter
  | some r =>
      (bufferRow w.buf r).map fun b =>
        if rowBufSize / 2 ≤ b.pos then CsvWriter.flush { w with buf := b } else { w with buf := b }
  | none => some w.flush

def writerTurns (w : CsvWriter) (polls : List (Option CsvRow)) : Option CsvWriter :=
  polls.foldlM writerTurn w

/-- `struct row_buf buf = { .len = 0 }`. -/
def csvWriterStart : CsvWriter := ⟨⟨List.replicate rowBufSize 0, 0⟩, []⟩

/-- `writer_thread`: the loop and the flush behind it. -/
def writerThread (polls : List (Option CsvRow)) : Option CsvWriter :=
  (writerTurns csvWriterStart polls).map CsvWriter.flush

/-! ## Reading the file -/

def lineNumbers (line : Bytes) : List Int :=
  match line.splitOn comma with
  | [] => []
  | ts :: fields => ((strtoul ts).toNat : Int) :: fields.map atoi

/-- The lines behind the header, without the empty one behind the last newline. -/
def csvNumbers (file : Bytes) : List (List Int) :=
  ((file.splitOn newline).tail.dropLast).map lineNumbers

def CsvRow.numbers (r : CsvRow) : List Int :=
  (r.ts.toNat : Int) :: (r.row.current.toList.map (fun c => (c.toNat : Int)) ++
    [r.row.vibX.toInt, r.row.vibY.toInt, r.row.vibZ.toInt, (r.row.rpm.toNat : Int)])

/-- The rows that the polls returned, in their order. -/
def poppedRows (polls : List (Option CsvRow)) : List CsvRow := polls.filterMap id

variable {w : CsvWriter} {r : CsvRow} {rows : List CsvRow} {polls : List (Option CsvRow)}

/-! ## Turns of the writer -/

/-- File and buffer together hold the rows popped so far. -/
structure CsvWriter.Holds (w : CsvWriter) (rows : List CsvRow) : Prop where
  small : w.buf.pos < rowBufSize / 2
  text : ∃ kept, w.buf.Has rowBufSize kept ∧ w.written ++ kept = rows.flatMap csvLine

/-- A row is stored whole, and `len` stays inside the buffer. -/
theorem bufferRow_whole (h : w.Holds rows) (r : CsvRow) :
    ∃ b, bufferRow w.buf r = some b ∧ b.pos < rowBufSize ∧
      b.bytes.take b.pos = w.buf.bytes.take w.buf.pos ++ csvLine r ∧
      ∀ kept, w.buf.Has rowBufSize kept → b.Has rowBufSize (rowBufAdd kept r) := by
  obtain ⟨kept, hkept, -⟩ := h.text
  have hline := csvLine_length_le r
  have hsmall : kept.length < rowBufSize / 2 := hkept.pos ▸ h.small
  have hsize : rowBufSize = 4096 := rfl
  obtain ⟨b, hb, hnext⟩ := hkept.print (csvLine r) (by omega)
  refine ⟨b, hb, ?_, ?_, fun other hother => ?_⟩
  · rw [hnext.pos, List.length_append]
    omega
  · rw [hnext.text, hkept.text]
  · obtain rfl : other = kept := hother.text.symm.trans hkept.text
    rwa [rowBufAdd_eq hsmall]

theorem CsvWriter.Holds.flush (h : w.Holds rows) : w.flush.Holds rows ∧ w.flush.buf.pos = 0 := by
  obtain ⟨kept, hkept, htext⟩ := h.text
  unfold CsvWriter.flush
  split
  · have hstart : (0 : Nat) < rowBufSize / 2 := by decide
    refine ⟨⟨hstart, [], ⟨hkept.size, rfl, rfl⟩, ?_⟩, rfl⟩
    rw [List.append_nil, hkept.text, htext]
  · next hempty => exact ⟨h, Nat.eq_zero_of_not_pos hempty⟩

theorem CsvWriter.Holds.written (h : w.Holds rows) (hempty : w.buf.pos = 0) :
    w.written = rows.flatMap csvLine := by
  obtain ⟨kept, hkept, htext⟩ := h.text
  have hnil : kept = [] := List.length_eq_zero_iff.mp (hkept.pos ▸ hempty)
  rwa [hnil, List.append_nil] at htext

theorem CsvWriter.Holds.turn (h : w.Holds rows) (poll : Option CsvRow) :
    ∃ w', writerTurn w poll = some w' ∧ w'.Holds (rows ++ poll.toList) := by
  cases poll with
  | none => exact ⟨w.flush, rfl, by simpa using h.flush.1⟩
  | some r =>
      obtain ⟨kept, hkept, htext⟩ := h.text
      obtain ⟨b, hb, hroom, -, hstored⟩ := bufferRow_whole h r
      have hb' : b.Has rowBufSize (kept ++ csvLine r) := by
        rw [← rowBufAdd_eq (hkept.pos ▸ h.small) r]
        exact hstored kept hkept
      have hrows : w.written ++ (kept ++ csvLine r) = (rows ++ [r]).flatMap csvLine := by
        rw [← List.append_assoc, htext]
        simp
      simp only [writerTurn, hb, Option.map_some]
      split
      · next hfull =>
        -- half the buffer is used: it is written out
        refine ⟨_, rfl, ?_⟩
        have hpos : 0 < b.pos := Nat.lt_of_lt_of_le (by decide) hfull
        simp only [CsvWriter.flush, if_pos hpos]
        have hstart : (0 : Nat) < rowBufSize / 2 := by decide
        refine ⟨hstart, [], ⟨hb'.size, rfl, rfl⟩, ?_⟩
        rw [List.append_nil, hb'.text, hrows]
        rfl
      · next hfull =>
        refine ⟨_, rfl, Nat.lt_of_not_le hfull, kept ++ csvLine r, hb', hrows⟩

theorem csvWriterStart_holds : csvWriterStart.Holds [] :=
  ⟨by decide, [], ⟨by simp [csvWriterStart], rfl, rfl⟩, rfl⟩

theorem CsvWriter.Holds.turns (h : w.Holds rows) (polls : List (Option CsvRow)) :
    ∃ w', writerTurns w polls = some w' ∧ w'.Holds (rows ++ poppedRows polls) := by
  induction polls generalizing w rows with
  | nil => exact ⟨w, rfl, by simpa [poppedRows] using h⟩
  | cons poll rest ih =>
      obtain ⟨w₁, hturn, hfirst⟩ := h.turn poll
      obtain ⟨w₂, hturns, hrest⟩ := ih hfirst
      refine ⟨w₂, ?_, ?_⟩
      · rw [writerTurns, List.foldlM_cons, hturn]
        exact hturns
      · have hrows : poppedRows (poll :: rest) = poll.toList ++ poppedRows rest := by
          cases poll <;> rfl
        rwa [hrows, ← List.append_assoc]

/-! ## Lines and fields -/

theorem decimalInt_bytes (i : Int) : ∀ b ∈ decimalInt i, b = 45 ∨ isDigit b = true := by
  intro b hb
  unfold decimalInt at hb
  split at hb
  · exact (List.mem_cons.mp hb).imp_right (decimal_isDigit _ b)
  · exact .inr (decimal_isDigit _ b hb)

theorem fields_bytes (row : MotorRow) :
    ∀ f ∈ MotorRow.fields row, ∀ b ∈ f, b = 45 ∨ isDigit b = true := by
  intro f hf
  simp only [MotorRow.fields, List.mem_append, List.mem_map, List.mem_cons, List.not_mem_nil,
    or_false] at hf
  obtain ⟨c, -, rfl⟩ | rfl | rfl | rfl | rfl := hf
  · exact fun b hb => .inr (decimal_isDigit _ b hb)
  · exact decimalInt_bytes _
  · exact decimalInt_bytes _
  · exact decimalInt_bytes _
  · exact fun b hb => .inr (decimal_isDigit _ b hb)

theorem not_mem_number {sep : UInt8} (hminus : sep ≠ 45) (hdigit : isDigit sep = false) {f : Bytes}
    (hf : ∀ b ∈ f, b = 45 ∨ isDigit b = true) : sep ∉ f := fun hmem =>
  (hf sep hmem).elim hminus fun h => by
    rw [hdigit] at h
    cases h

theorem splitOn_fields {first : Bytes} {fields : List Bytes} (hfirst : comma ∉ first)
    (hfields : ∀ f ∈ fields, comma ∉ f) :
    (first ++ fields.flatMap (comma :: ·)).splitOn comma = first :: fields := by
  induction fields generalizing first with
  | nil => simpa using List.splitOn_eq_singleton hfirst
  | cons f rest ih =>
      rw [List.flatMap_cons, List.cons_append, List.splitOn_append_cons_self_of_not_mem hfirst,
        ih (hfields f List.mem_cons_self) fun g hg => hfields g (List.mem_cons_of_mem f hg)]

/-- A line without its newline. -/
def csvBody (r : CsvRow) : Bytes := decimal r.ts.toNat ++ (MotorRow.fields r.row).flatMap (comma :: ·)

theorem csvBody_no_newline (r : CsvRow) : newline ∉ csvBody r := by
  simp only [csvBody, List.mem_append, List.mem_flatMap, List.mem_cons, not_or, not_exists, not_and]
  exact ⟨decimal_no_newline _, fun f hf => ⟨by decide,
    not_mem_number (by decide) (by decide) (fields_bytes r.row f hf)⟩⟩

theorem splitOn_lines {lines : List Bytes} (h : ∀ line ∈ lines, newline ∉ line) :
    (lines.flatMap (· ++ [newline])).splitOn newline = lines ++ [[]] := by
  induction lines with
  | nil => rfl
  | cons line rest ih =>
      rw [List.flatMap_cons, List.append_assoc, List.singleton_append,
        List.splitOn_append_cons_self_of_not_mem (h line List.mem_cons_self),
        ih fun l hl => h l (List.mem_cons_of_mem line hl), List.cons_append]

theorem atoi_field (i : Int) : atoi (decimalInt i) = i := by
  rw [← List.append_nil (decimalInt i)]
  exact atoi_decimalInt i (by simp)

theorem atoi_unsigned (n : Nat) : atoi (decimal n) = n := by
  rw [← List.append_nil (decimal n)]
  exact atoi_decimal n (by simp)

theorem lineNumbers_csvBody (r : CsvRow) : lineNumbers (csvBody r) = r.numbers := by
  have hts : strtoul (decimal r.ts.toNat) = r.ts := by
    rw [← List.append_nil (decimal r.ts.toNat)]
    exact (strtoul_decimal r.ts.toNat_lt (by simp)).trans UInt64.ofNat_toNat
  have hsplit : (csvBody r).splitOn comma = decimal r.ts.toNat :: MotorRow.fields r.row :=
    splitOn_fields (not_mem_number (by decide) (by decide) fun b hb => .inr (decimal_isDigit _ b hb))
      fun f hf => not_mem_number (by decide) (by decide) (fields_bytes r.row f hf)
  simp [lineNumbers, hsplit, hts, CsvRow.numbers, MotorRow.fields, atoi_field, atoi_unsigned]

theorem csvNumbers_rows (rows : List CsvRow) :
    csvNumbers (csvHeader ++ rows.flatMap csvLine) = rows.map CsvRow.numbers := by
  have hlines : rows.flatMap csvLine = (rows.map csvBody).flatMap (· ++ [newline]) := by
    rw [List.flatMap_map]
    rfl
  have hheader : csvHeader = csvHeader.dropLast ++ [newline] := by rfl
  have hplain : newline ∉ csvHeader.dropLast := by decide +kernel
  rw [csvNumbers, hheader, List.append_assoc, List.singleton_append,
    List.splitOn_append_cons_self_of_not_mem hplain, List.tail_cons, hlines,
    splitOn_lines (by simp [csvBody_no_newline]), List.dropLast_concat, List.map_map]
  exact List.map_congr_left fun r _ => lineNumbers_csvBody r

/-! ## The file -/

/-- For all polls: no row is cut or takes `len` out of the buffer, the bytes written are
the lines of the popped rows in their order, and reading them gives the rows' numbers. -/
theorem csv_holds_popped_rows (polls : List (Option CsvRow)) :
    (∀ before r after, polls = before ++ some r :: after →
      ∃ w b, writerTurns csvWriterStart before = some w ∧ bufferRow w.buf r = some b ∧
        b.pos ≤ rowBufSize ∧ b.bytes.take b.pos = w.buf.bytes.take w.buf.pos ++ csvLine r) ∧
    ∃ w, writerThread polls = some w ∧ w.written = (poppedRows polls).flatMap csvLine ∧
      csvNumbers (csvHeader ++ w.written) = (poppedRows polls).map CsvRow.numbers := by
  constructor
  · rintro before r after -
    obtain ⟨w, hturns, hw⟩ := csvWriterStart_holds.turns before
    obtain ⟨b, hb, hroom, hwhole, -⟩ := bufferRow_whole hw r
    exact ⟨w, b, hturns, hb, hroom.le, hwhole⟩
  · obtain ⟨w, hturns, hw⟩ := csvWriterStart_holds.turns polls
    obtain ⟨hflushed, hempty⟩ := hw.flush
    have hwritten : w.flush.written = (poppedRows polls).flatMap csvLine := hflushed.written hempty
    refine ⟨w.flush, by rw [writerThread, hturns]; rfl, hwritten, ?_⟩
    rw [hwritten, csvNumbers_rows]

end QnxHypervisor.MotorRecorder
