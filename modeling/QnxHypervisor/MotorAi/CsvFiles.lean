import QnxHypervisor.Foundation.Text
import QnxHypervisor.MotorAi.Batching

/-! # The CSV files of the AI server

`sendBatch` appends its rows to `motor_data_new.csv`; a full window moves that
file to `motor_data_old.csv` and starts a new one.  Whether a header is due is
read off the counter of rows.
-/

namespace QnxHypervisor.MotorAi

open Foundation

/-! ## Lines -/

def csvHeader : Bytes :=
  utf8 "timestamp,producer_seq,flags," ++ utf8 "current_a,current_b,current_c," ++
    utf8 "voltage_a,voltage_b,voltage_c,voltage_dc_bus,voltage_speed," ++
    utf8 "vib_x,vib_y,vib_z,rpm" ++ [newline]

def comma : UInt8 := 44

def csvRow (b : MotorDataBatch) (r : MotorDataRow) : Bytes :=
  decimal r.timestamp.toNat ++ [comma] ++ decimal b.producerSeq.toNat ++ [comma] ++
    decimal b.flags.toNat ++ [comma] ++
    decimal r.currentA.toNat ++ [comma] ++ decimal r.currentB.toNat ++ [comma] ++
    decimal r.currentC.toNat ++ [comma] ++
    decimal r.voltageA.toNat ++ [comma] ++ decimal r.voltageB.toNat ++ [comma] ++
    decimal r.voltageC.toNat ++ [comma] ++ decimal r.voltageDcBus.toNat ++ [comma] ++
    decimal r.voltageSpeed.toNat ++ [comma] ++
    decimalInt r.vibX.toInt ++ [comma] ++ decimalInt r.vibY.toInt ++ [comma] ++
    decimalInt r.vibZ.toInt ++ [comma] ++ decimal r.rpm.toNat ++ [newline]

/-! ## The server -/

/-- The two files and the stream on the first; an absent file is `none`. The
counter is bounded by the vectors it counts, so it is not cut to 64 bits here. -/
structure CsvServer where
  newFile : Option Bytes
  oldFile : Option Bytes
  isOpen : Bool
  totalRowsWritten : Nat

namespace CsvServer

/-- `csvFile_.open(CSV_NEW, std::ios::trunc)`. -/
def openNew (ok : Bool) (s : CsvServer) : CsvServer :=
  if ok then { s with newFile := some [], isOpen := true } else { s with isOpen := false }

/-- `csvFile_ << text`; a stream that is not open takes nothing. -/
def write (text : Bytes) (s : CsvServer) : CsvServer :=
  if s.isOpen then { s with newFile := s.newFile.map (· ++ text) } else s

def ensureCsvHeader (s : CsvServer) : CsvServer :=
  if s.totalRowsWritten = 0 ∧ s.isOpen then s.write csvHeader else s

/-- `std::remove(CSV_OLD)` and `std::rename(CSV_NEW, CSV_OLD)`. -/
def moveToOld (s : CsvServer) : CsvServer :=
  { s with newFile := none, oldFile := s.newFile }

/-- `reopens` tells whether the fresh file can be opened. -/
def rotateCsv (reopens : Bool) (s : CsvServer) : CsvServer :=
  let s := ({ s with isOpen := false }.moveToOld).openNew reopens
  if s.isOpen then { s with totalRowsWritten := 0 }.ensureCsvHeader else s

def runAnomalyDetection (_rows : List MotorDataRow) : Bytes := utf8 "normal"

def runFaultClassification (_rows : List MotorDataRow) : Bytes := utf8 "none"

def runPredictiveMaintenance (_rows : List MotorDataRow) : Bytes := utf8 "RUL: N/A"

def replyTo (rows : List MotorDataRow) : BatchReply :=
  let anomalyResult := runAnomalyDetection rows
  let anomaly := anomalyResult ≠ utf8 "normal"
  { success := true, accepted := true, anomalyResult
    faultClassResult := if anomaly then runFaultClassification rows else utf8 "none"
    predMaintResult := if anomaly then runPredictiveMaintenance rows else utf8 "RUL: N/A" }

def writeRows (b : MotorDataBatch) (s : CsvServer) : CsvServer :=
  let s := b.rows.foldl (fun s r => s.write (csvRow b r)) s.ensureCsvHeader
  { s with totalRowsWritten := s.totalRowsWritten + b.rows.length }

/-- The batch fills the file. -/
def rotates (b : MotorDataBatch) (s : CsvServer) : Bool :=
  decide (windowSize ≤ (s.writeRows b).totalRowsWritten)

def sendBatch (reopens : Bool) (b : MotorDataBatch) (s : CsvServer) : CsvServer × BatchReply :=
  let written := s.writeRows b
  (if windowSize ≤ written.totalRowsWritten then written.rotateCsv reopens else written,
    replyTo b.rows)

end CsvServer

/-! ## Runs with their history -/

/-- A call, and whether the fresh file can be opened should it rotate the files. -/
structure ServerCall where
  batch : MotorDataBatch
  reopens : Bool

/-- The server, the batches received since the last rotation, those between the
two last rotations, and whether any batch was received. -/
structure Served where
  server : CsvServer
  current : List MotorDataBatch
  previous : Option (List MotorDataBatch)
  received : Bool

/-- The constructor finds the files that an earlier server left. -/
def servedStart (opens : Bool) (newFile oldFile : Option Bytes) : Served :=
  { server := CsvServer.openNew opens ⟨newFile, oldFile, false, 0⟩
    current := [], previous := none, received := false }

def Served.receive (s : Served) (call : ServerCall) : Served :=
  let server := (s.server.sendBatch call.reopens call.batch).1
  if s.server.rotates call.batch then
    { server, current := [], previous := some (s.current ++ [call.batch]), received := true }
  else { s with server, current := s.current ++ [call.batch], received := true }

def serve (start : Served) (calls : List ServerCall) : Served := calls.foldl Served.receive start

def csvLines (batches : List MotorDataBatch) : Bytes :=
  batches.flatMap fun b => b.rows.flatMap (csvRow b)

/-- Both files are what they are meant to be. -/
structure FilesWellFormed (s : Served) : Prop where
  new : s.server.newFile = some ((if s.received then csvHeader else []) ++ csvLines s.current)
  old : ∀ batches, s.previous = some batches →
    s.server.oldFile = some (csvHeader ++ csvLines batches)

/-! ## Files with any number of headers -/

def rowCount (batches : List MotorDataBatch) : Nat := (batches.map fun b => b.rows.length).sum

@[simp] theorem rowCount_append (xs ys : List MotorDataBatch) :
    rowCount (xs ++ ys) = rowCount xs + rowCount ys := by
  simp [rowCount]

@[simp] theorem rowCount_singleton (b : MotorDataBatch) : rowCount [b] = b.rows.length := by
  simp [rowCount]

theorem csvLines_of_no_rows {batches : List MotorDataBatch} (h : rowCount batches = 0) :
    csvLines batches = [] := by
  induction batches with
  | nil => rfl
  | cons b bs ih =>
      simp only [rowCount, List.map_cons, List.sum_cons, Nat.add_eq_zero_iff,
        List.length_eq_zero_iff] at h
      have hrest := ih h.2
      simp only [csvLines] at hrest
      simp [csvLines, h.1, hrest]

theorem csvLines_append (xs ys : List MotorDataBatch) :
    csvLines (xs ++ ys) = csvLines xs ++ csvLines ys := by
  simp [csvLines]

/-- `n` header lines and the lines of the batches. -/
def csvText (n : Nat) (batches : List MotorDataBatch) : Bytes :=
  (List.replicate n csvHeader).flatten ++ csvLines batches

theorem csvText_inj {n m : Nat} {batches : List MotorDataBatch} :
    csvText n batches = csvText m batches ↔ n = m := by
  constructor
  · intro h
    have hlen := congrArg List.length h
    have hpos : 0 < csvHeader.length := by simp [csvHeader]
    simp only [csvText, List.length_append, List.length_flatten, List.map_replicate,
      List.sum_replicate_nat] at hlen
    exact Nat.eq_of_mul_eq_mul_right hpos (Nat.add_right_cancel hlen)
  · rintro rfl
    rfl

/-- The books of a server whose files could be opened: `h` headers in the new
file and `g` in the old one. -/
structure Books (s : Served) (h g : Nat) : Prop where
  opened : s.server.isOpen = true
  new : s.server.newFile = some (csvText h s.current)
  old : ∀ batches, s.previous = some batches → s.server.oldFile = some (csvText g batches)
  counted : s.server.totalRowsWritten = rowCount s.current
  below : rowCount s.current < windowSize

theorem books_start (newFile oldFile : Option Bytes) :
    Books (servedStart true newFile oldFile) 0 0 where
  opened := rfl
  new := rfl
  old := fun batches h => by cases h
  counted := rfl
  below := show 0 < windowSize by decide

theorem Books.wellFormed_iff {s : Served} {h g : Nat} (hb : Books s h g) :
    FilesWellFormed s ↔ h = (if s.received then 1 else 0) ∧ (s.previous.isSome = true → g = 1) := by
  have hnew : (if s.received then csvHeader else []) ++ csvLines s.current =
      csvText (if s.received then 1 else 0) s.current := by
    cases s.received <;> simp [csvText]
  have hold : ∀ batches, csvHeader ++ csvLines batches = csvText 1 batches := by
    simp [csvText]
  constructor
  · rintro ⟨hn, ho⟩
    rw [hb.new, hnew, Option.some.injEq, csvText_inj] at hn
    refine ⟨hn, fun hsome => ?_⟩
    obtain ⟨batches, hbatches⟩ := Option.isSome_iff_exists.mp hsome
    have hfile := ho batches hbatches
    rwa [hb.old batches hbatches, hold, Option.some.injEq, csvText_inj] at hfile
  · rintro ⟨hn, ho⟩
    refine ⟨by rw [hb.new, hnew, hn], fun batches hbatches => ?_⟩
    rw [hb.old batches hbatches, hold, ho (by simp [hbatches])]

/-! ## One call -/

theorem write_rows (b : MotorDataBatch) (rows : List MotorDataRow) {s : CsvServer} {text : Bytes}
    (hopen : s.isOpen = true) (hnew : s.newFile = some text) :
    rows.foldl (fun s r => s.write (csvRow b r)) s =
      { s with newFile := some (text ++ rows.flatMap (csvRow b)) } := by
  induction rows generalizing s text with
  | nil =>
      rw [List.foldl_nil, List.flatMap_nil, List.append_nil, ← hnew]
  | cons r rows ih =>
      have hwrite : s.write (csvRow b r) = { s with newFile := some (text ++ csvRow b r) } := by
        rw [CsvServer.write, if_pos hopen, hnew]
        rfl
      have hopen' : (s.write (csvRow b r)).isOpen = true := by rw [hwrite]; exact hopen
      have hnew' : (s.write (csvRow b r)).newFile = some (text ++ csvRow b r) := by rw [hwrite]
      rw [List.foldl_cons, ih hopen' hnew', hwrite, List.flatMap_cons, List.append_assoc]

/-- A header is written whenever the counter is at zero. -/
def headerDue (s : Served) : Nat := if rowCount s.current = 0 then 1 else 0

theorem Books.header {s : Served} {h g : Nat} (hb : Books s h g) :
    s.server.ensureCsvHeader =
      { s.server with newFile := some (csvText (h + headerDue s) s.current) } := by
  unfold CsvServer.ensureCsvHeader headerDue
  rw [hb.counted]
  by_cases hzero : rowCount s.current = 0
  · -- no row of the current batches stands before the new header
    rw [if_pos ⟨hzero, hb.opened⟩, if_pos hzero, CsvServer.write, if_pos hb.opened, hb.new]
    simp [csvText, csvLines_of_no_rows hzero, List.replicate_succ']
  · rw [if_neg (fun hdue => hzero hdue.1), if_neg hzero, Nat.add_zero, ← hb.new]

theorem Books.writeRows {s : Served} {h g : Nat} (hb : Books s h g) (b : MotorDataBatch) :
    s.server.writeRows b =
      { s.server with
        newFile := some (csvText (h + headerDue s) (s.current ++ [b]))
        totalRowsWritten := rowCount (s.current ++ [b]) } := by
  have htext : csvText (h + headerDue s) s.current ++ b.rows.flatMap (csvRow b) =
      csvText (h + headerDue s) (s.current ++ [b]) := by
    rw [csvText, csvText, csvLines_append, List.append_assoc]
    simp [csvLines]
  have hopen : ({ s.server with newFile := some (csvText (h + headerDue s) s.current) } :
      CsvServer).isOpen = true := hb.opened
  have hrows := write_rows b b.rows hopen rfl
  unfold CsvServer.writeRows
  rw [hb.header]
  dsimp only at hrows ⊢
  rw [hrows, htext, rowCount_append, rowCount_singleton, ← hb.counted]

theorem Books.rotates_iff {s : Served} {h g : Nat} (hb : Books s h g) (b : MotorDataBatch) :
    s.server.rotates b = true ↔ windowSize ≤ rowCount (s.current ++ [b]) := by
  rw [CsvServer.rotates, hb.writeRows, decide_eq_true_iff]

theorem Books.stay {s : Served} {h g : Nat} (hb : Books s h g) {call : ServerCall}
    (hbelow : rowCount (s.current ++ [call.batch]) < windowSize) :
    Books (s.receive call) (h + headerDue s) g ∧
      (s.receive call).current = s.current ++ [call.batch] ∧
      (s.receive call).previous = s.previous ∧ (s.receive call).received = true := by
  have hkeep : s.server.rotates call.batch = false := by
    rw [← Bool.not_eq_true, hb.rotates_iff]
    omega
  have hserver : (s.server.sendBatch call.reopens call.batch).1 = s.server.writeRows call.batch := by
    unfold CsvServer.sendBatch
    dsimp only
    rw [if_neg]
    rw [hb.writeRows]
    exact Nat.not_le.mpr hbelow
  have hreceive : s.receive call = { s with
      server := s.server.writeRows call.batch, current := s.current ++ [call.batch]
      received := true } := by
    rw [Served.receive, hserver, hkeep]
    rfl
  rw [hreceive, hb.writeRows]
  exact ⟨⟨hb.opened, rfl, hb.old, rfl, hbelow⟩, rfl, rfl, rfl⟩

theorem Books.rotate {s : Served} {h g : Nat} (hb : Books s h g) {call : ServerCall}
    (hreopens : call.reopens = true)
    (hfull : windowSize ≤ rowCount (s.current ++ [call.batch])) :
    Books (s.receive call) 1 (h + headerDue s) ∧ (s.receive call).current = [] ∧
      (s.receive call).previous = some (s.current ++ [call.batch]) ∧
      (s.receive call).received = true := by
  have hrotates := (hb.rotates_iff call.batch).mpr hfull
  have hserver : (s.server.sendBatch call.reopens call.batch).1 =
      ⟨some csvHeader, some (csvText (h + headerDue s) (s.current ++ [call.batch])), true, 0⟩ := by
    unfold CsvServer.sendBatch
    dsimp only
    rw [hb.writeRows, if_pos hfull, hreopens]
    rfl
  have hreceive : s.receive call =
      { server := (s.server.sendBatch call.reopens call.batch).1, current := []
        previous := some (s.current ++ [call.batch]), received := true } := by
    rw [Served.receive, hrotates]
    rfl
  rw [hreceive, hserver]
  refine ⟨⟨rfl, ?_, fun batches hp => ?_, rfl, show 0 < windowSize by decide⟩, rfl, rfl, rfl⟩
  · simp [csvText, csvLines]
  · obtain rfl := Option.some.inj hp
    rfl

/-! ## Whole runs -/

/-- More than one batch arrives only behind one that has rows. -/
def FirstHasRows (batches : List MotorDataBatch) : Prop :=
  batches.length ≤ 1 ∨ ∃ b rest, batches = b :: rest ∧ b.rows ≠ []

/-- Nothing arrives behind the batch that fills the first window. -/
def OneWindow (batches : List MotorDataBatch) : Prop :=
  rowCount batches.dropLast < windowSize ∧ FirstHasRows batches

/-- How the headers of the first file come about. -/
structure FirstFile (batches : List MotorDataBatch) (h : Nat) : Prop where
  none : batches = [] → h = 0
  some : batches ≠ [] → 1 ≤ h ∧ (h = 1 ↔ FirstHasRows batches)

theorem FirstFile.next {batches : List MotorDataBatch} {h : Nat} (hf : FirstFile batches h)
    (b : MotorDataBatch) :
    FirstFile (batches ++ [b]) (h + if rowCount batches = 0 then 1 else 0) := by
  refine ⟨fun hnil => by simp at hnil, fun _ => ?_⟩
  by_cases hempty : batches = []
  · subst hempty
    have hzero := hf.none rfl
    subst hzero
    exact ⟨Nat.le_refl _, by simp [FirstHasRows, rowCount]⟩
  obtain ⟨hpos, hone⟩ := hf.some hempty
  obtain ⟨first, rest, rfl⟩ := List.exists_cons_of_ne_nil hempty
  have hfirst : FirstHasRows (first :: rest ++ [b]) ↔ first.rows ≠ [] := by
    simp [FirstHasRows]
  rw [hfirst]
  by_cases hzero : rowCount (first :: rest) = 0
  · have hnone : first.rows = [] := by
      simp only [rowCount, List.map_cons, List.sum_cons, Nat.add_eq_zero_iff,
        List.length_eq_zero_iff] at hzero
      exact hzero.1
    rw [if_pos hzero]
    exact ⟨by omega, fun h1 => by omega, fun hrows => absurd hnone hrows⟩
  · rw [if_neg hzero, Nat.add_zero, hone]
    refine ⟨hpos, ?_⟩
    have hsingle : rest = [] → first.rows ≠ [] := by
      rintro rfl hnone
      simp [rowCount, hnone] at hzero
    simp only [FirstHasRows, List.length_cons, List.cons.injEq]
    constructor
    · rintro (hshort | ⟨b', rest', ⟨rfl, -⟩, hrows⟩)
      · exact hsingle (List.length_eq_zero_iff.mp (by omega))
      · exact hrows
    · intro hrows
      exact .inr ⟨first, rest, ⟨rfl, rfl⟩, hrows⟩

/-- Where a run stands: in its first file, just behind the first rotation, or past
it, and then one of the files has two headers. -/
inductive Course (batches : List MotorDataBatch) (s : Served) (h g : Nat) : Prop
  | first (hcurrent : s.current = batches) (hprevious : s.previous = none)
      (hreceived : s.received = !batches.isEmpty) (hfile : FirstFile batches h)
  | rotated (hempty : s.current = []) (hprevious : s.previous = some batches)
      (hreceived : s.received = true) (hnew : h = 1) (hne : batches ≠ [])
      (hfile : FirstFile batches g) (hbelow : rowCount batches.dropLast < windowSize)
      (hfull : windowSize ≤ rowCount batches)
  | later (hreceived : s.received = true) (hsome : s.previous.isSome = true)
      (htwice : 2 ≤ h ∨ s.current = [] ∧ 1 ≤ h ∧ 2 ≤ g)
      (hover : windowSize ≤ rowCount batches.dropLast)

theorem rowCount_dropLast_concat (batches : List MotorDataBatch) (b : MotorDataBatch) :
    rowCount (batches ++ [b]).dropLast = rowCount batches := by
  rw [List.dropLast_concat]

theorem rowCount_dropLast_le (batches : List MotorDataBatch) :
    rowCount batches.dropLast ≤ rowCount batches := by
  rcases List.eq_nil_or_concat batches with rfl | ⟨front, b, rfl⟩
  · exact Nat.le_refl _
  · rw [List.concat_eq_append, rowCount_dropLast_concat, rowCount_append]
    exact Nat.le_add_right _ _

theorem Course.next {batches : List MotorDataBatch} {s : Served} {h g : Nat} {call : ServerCall}
    (hc : Course batches s h g) (hb : Books s h g) (hreopens : call.reopens = true) :
    ∃ h' g', Course (batches ++ [call.batch]) (s.receive call) h' g' ∧
      Books (s.receive call) h' g' := by
  have hbefore := rowCount_dropLast_concat batches call.batch
  by_cases hfull : windowSize ≤ rowCount (s.current ++ [call.batch])
  · obtain ⟨hbooks, hempty, hprevious, hreceived⟩ := hb.rotate hreopens hfull
    refine ⟨1, h + headerDue s, ?_, hbooks⟩
    cases hc with
    | first hcurrent _ _ hfile =>
        rw [hcurrent] at hfull hprevious
        refine .rotated hempty hprevious hreceived rfl (by simp) ?_ ?_ hfull
        · rw [headerDue, hcurrent]
          exact hfile.next call.batch
        · rw [hbefore, ← hcurrent]
          exact hb.below
    | rotated hnone _ _ hnew _ _ _ hover =>
        have hdue : headerDue s = 1 := by rw [headerDue, hnone]; rfl
        refine .later hreceived (by rw [hprevious]; rfl) (.inr ⟨hempty, Nat.le_refl 1, ?_⟩) ?_
        · omega
        · rw [hbefore]
          exact hover
    | later _ _ htwice hover =>
        refine .later hreceived (by rw [hprevious]; rfl) (.inr ⟨hempty, Nat.le_refl 1, ?_⟩) ?_
        · rcases htwice with htwo | ⟨hnone, hone, -⟩
          · omega
          · have hdue : headerDue s = 1 := by rw [headerDue, hnone]; rfl
            omega
        · rw [hbefore]
          exact Nat.le_trans hover (rowCount_dropLast_le batches)
  · obtain ⟨hbooks, hcurrent', hprevious, hreceived⟩ := hb.stay (Nat.lt_of_not_le hfull)
    refine ⟨h + headerDue s, g, ?_, hbooks⟩
    cases hc with
    | first hcurrent hnone _ hfile =>
        rw [hcurrent] at hcurrent'
        refine .first hcurrent' (hprevious.trans hnone) (by rw [hreceived]; simp) ?_
        rw [headerDue, hcurrent]
        exact hfile.next call.batch
    | rotated hnone hsome _ hnew _ _ _ hover =>
        have hdue : headerDue s = 1 := by rw [headerDue, hnone]; rfl
        refine .later hreceived (by rw [hprevious, hsome]; rfl) (.inl (by omega)) ?_
        rw [hbefore]
        exact hover
    | later _ hsome htwice hover =>
        refine .later hreceived (by rw [hprevious]; exact hsome) (.inl ?_) ?_
        · rcases htwice with htwo | ⟨hnone, hone, -⟩
          · omega
          · have hdue : headerDue s = 1 := by rw [headerDue, hnone]; rfl
            omega
        · rw [hbefore]
          exact Nat.le_trans hover (rowCount_dropLast_le batches)

theorem Course.run {done : List MotorDataBatch} {s : Served} {h g : Nat} {calls : List ServerCall}
    (hc : Course done s h g) (hb : Books s h g) (hreopens : ∀ call ∈ calls, call.reopens = true) :
    ∃ h' g', Course (done ++ calls.map ServerCall.batch) (serve s calls) h' g' ∧
      Books (serve s calls) h' g' := by
  induction calls generalizing done s h g with
  | nil => exact ⟨h, g, by rwa [List.map_nil, List.append_nil], hb⟩
  | cons call calls ih =>
      obtain ⟨h', g', hnext, hbooks⟩ := hc.next hb (hreopens call List.mem_cons_self)
      have hrest := ih hnext hbooks fun c hmem => hreopens c (List.mem_cons_of_mem _ hmem)
      rwa [List.append_assoc] at hrest

theorem Course.one_window_iff {batches : List MotorDataBatch} {s : Served} {h g : Nat}
    (hc : Course batches s h g) (hb : Books s h g) :
    FilesWellFormed s ↔ OneWindow batches := by
  rw [hb.wellFormed_iff]
  cases hc with
  | first hcurrent hnone hreceived hfile =>
      have hbelow : rowCount batches.dropLast < windowSize :=
        Nat.lt_of_le_of_lt (rowCount_dropLast_le batches) (hcurrent ▸ hb.below)
      have hprev : s.previous.isSome = true → g = 1 := fun hsome => by
        rw [hnone] at hsome
        cases hsome
      by_cases hnil : batches = []
      · have hzero := hfile.none hnil
        subst hnil
        rw [hreceived]
        exact ⟨fun _ => ⟨hbelow, .inl (Nat.zero_le 1)⟩, fun _ => ⟨hzero, hprev⟩⟩
      · have hsome : s.received = true := by
          rw [hreceived]
          simpa using hnil
        rw [hsome, if_pos rfl, (hfile.some hnil).2]
        exact ⟨fun hw => ⟨hbelow, hw.1⟩, fun hw => ⟨hw.2, hprev⟩⟩
  | rotated _ hsome hreceived hnew hne hfile hbelow _ =>
      have hone := (hfile.some hne).2
      rw [hreceived, if_pos rfl, hsome]
      exact ⟨fun hw => ⟨hbelow, hone.mp (hw.2 rfl)⟩, fun hw => ⟨hnew, fun _ => hone.mpr hw.2⟩⟩
  | later hreceived hsome htwice hover =>
      rw [hreceived, if_pos rfl]
      constructor
      · rintro ⟨hone, hold⟩
        have hg := hold hsome
        rcases htwice with htwo | ⟨-, -, htwo⟩ <;> omega
      · rintro ⟨hbelow, -⟩
        exact absurd hover (Nat.not_le.mpr hbelow)

theorem serve_course (newFile oldFile : Option Bytes) {calls : List ServerCall}
    (hreopens : ∀ call ∈ calls, call.reopens = true) :
    ∃ h g, Course (calls.map ServerCall.batch) (serve (servedStart true newFile oldFile) calls) h g ∧
      Books (serve (servedStart true newFile oldFile) calls) h g := by
  have hstart : Course [] (servedStart true newFile oldFile) 0 0 :=
    .first rfl rfl rfl ⟨fun _ => rfl, fun hne => absurd rfl hne⟩
  exact hstart.run (books_start newFile oldFile) hreopens

/-- With files that can be opened, both are well formed exactly when nothing
arrives behind the batch that fills the first window and more than one batch
arrives only behind one that has rows. -/
theorem csv_files_well_formed_iff (newFile oldFile : Option Bytes) (calls : List ServerCall)
    (hreopens : ∀ call ∈ calls, call.reopens = true) :
    FilesWellFormed (serve (servedStart true newFile oldFile) calls) ↔
      OneWindow (calls.map ServerCall.batch) := by
  obtain ⟨h, g, hcourse, hbooks⟩ := serve_course newFile oldFile hreopens
  exact hcourse.one_window_iff hbooks

/-- A batch of `n` rows of zeros. -/
def zeroBatch (n : Nat) : MotorDataBatch :=
  ⟨0, 0, 0, 0, List.replicate n ⟨0, 0, 0, 0, 0, 0, 0, 0, 0, 0, 0, 0, 0⟩⟩

theorem rowCount_zeroBatch (n : Nat) : rowCount [zeroBatch n] = n := by
  rw [rowCount_singleton, zeroBatch, List.length_replicate]

/-- The second of two batches fills the window, and the file moves. -/
theorem csv_files_well_formed_rotation :
    ∃ s, s = serve (servedStart true none none) [⟨zeroBatch 1, true⟩, ⟨zeroBatch 199, true⟩] ∧
      s.previous = some [zeroBatch 1, zeroBatch 199] ∧ FilesWellFormed s := by
  have hone : rowCount [zeroBatch 1] < windowSize := by
    rw [rowCount_zeroBatch]
    decide
  have htwo : windowSize ≤ rowCount ([zeroBatch 1] ++ [zeroBatch 199]) := by
    rw [rowCount_append, rowCount_zeroBatch, rowCount_zeroBatch]
    decide
  have hreopens : ∀ call ∈ [(⟨zeroBatch 1, true⟩ : ServerCall), ⟨zeroBatch 199, true⟩],
      call.reopens = true := by simp
  obtain ⟨hfirst, hstays, -, -⟩ := @Books.stay _ 0 0 (books_start none none) ⟨zeroBatch 1, true⟩ hone
  have hcurrent : (Served.receive (servedStart true none none) ⟨zeroBatch 1, true⟩).current =
      [zeroBatch 1] := hstays
  have hmoved := (@Books.rotate _ _ _ hfirst ⟨zeroBatch 199, true⟩ rfl (by
    rw [hcurrent]
    exact htwo)).2.2.1
  rw [hcurrent] at hmoved
  have hrows : (zeroBatch 1).rows ≠ [] := List.cons_ne_nil _ _
  refine ⟨_, rfl, ?_, (csv_files_well_formed_iff none none _ hreopens).mpr
    ⟨hone, .inr ⟨zeroBatch 1, [zeroBatch 199], rfl, hrows⟩⟩⟩
  simp only [serve, List.foldl_cons, List.foldl_nil]
  exact hmoved

/-- The second full batch leaves a file with two header lines. -/
theorem second_batch_repeats_header :
    ¬ FilesWellFormed (serve (servedStart true none none)
      [⟨zeroBatch 200, true⟩, ⟨zeroBatch 200, true⟩]) := by
  have hreopens : ∀ call ∈ [(⟨zeroBatch 200, true⟩ : ServerCall), ⟨zeroBatch 200, true⟩],
      call.reopens = true := by simp
  obtain ⟨h, g, hcourse, hbooks⟩ := serve_course none none hreopens
  rw [hcourse.one_window_iff hbooks]
  rintro ⟨hbelow, -⟩
  exact absurd hbelow (by
    change ¬ rowCount [zeroBatch 200] < windowSize
    rw [rowCount_zeroBatch]
    decide)

end QnxHypervisor.MotorAi
