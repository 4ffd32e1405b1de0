import Mathlib.Data.List.Forall2
import QnxHypervisor.MotorShm.Region

/-! # Batches for the AI server

The poll loop of the AI client collects the rows of whole blocks until a window
is full and sends them in one call.  What the polls return and how the calls end
is chosen from outside.
-/

namespace QnxHypervisor.MotorAi

open Foundation MotorShm

/-! ## Rows -/

/-- `motor_row_copy_t`. -/
structure MotorRowCopy where
  timestamp : UInt64
  current : Vector UInt16 8
  vibX : Int16
  vibY : Int16
  vibZ : Int16
  rpm : UInt16
  deriving DecidableEq

/-- `motor_block_copy_t`. -/
abbrev MotorBlockCopy := BlockData MotorRowCopy

/-- `MotorDataService::MotorRow`. -/
structure MotorDataRow where
  timestamp : UInt64
  currentA : UInt16
  currentB : UInt16
  currentC : UInt16
  voltageA : UInt16
  voltageB : UInt16
  voltageC : UInt16
  voltageDcBus : UInt16
  voltageSpeed : UInt16
  vibX : Int16
  vibY : Int16
  vibZ : Int16
  rpm : UInt16
  deriving DecidableEq

/-- The loop body of `copyRows`. -/
def copyRow (src : MotorRowCopy) : MotorDataRow where
  timestamp := src.timestamp
  currentA := src.current[0]
  currentB := src.current[1]
  currentC := src.current[2]
  voltageA := src.current[3]
  voltageB := src.current[4]
  voltageC := src.current[5]
  voltageDcBus := src.current[6]
  voltageSpeed := src.current[7]
  vibX := src.vibX
  vibY := src.vibY
  vibZ := src.vibZ
  rpm := src.rpm

def copyRows (blk : MotorBlockCopy) (out : List MotorDataRow) : List MotorDataRow :=
  (List.range blk.nRows.toNat).foldl (fun out i => out ++ [copyRow (blk.rows i)]) out

/-! ## The client -/

/-- `WINDOW_SIZE`, in rows. -/
def windowSize : Nat := 200

/-- The arguments of one `sendBatch` call. -/
structure MotorDataBatch where
  timestamp : UInt64
  producerSeq : UInt32
  flags : UInt16
  blockRows : UInt32
  rows : List MotorDataRow

/-- How a call ends: its status, the verdict and the three results. -/
structure BatchReply where
  success : Bool
  accepted : Bool
  anomalyResult : Bytes
  faultClassResult : Bytes
  predMaintResult : Bytes

/-- What `ai_result_writer_publish` is called with. -/
structure AiResult where
  timestamp : UInt64
  producerSeq : UInt32
  flags : UInt16
  anomalyResult : Bytes
  faultClassResult : Bytes
  predMaintResult : Bytes

/-- A call that was made, with its end. -/
structure SentBatch where
  batch : MotorDataBatch
  reply : BatchReply

def SentBatch.taken (s : SentBatch) : Bool := s.reply.success && s.reply.accepted

structure AiClient where
  batch : List MotorDataRow
  batchTimestamp : UInt64
  batchProducerSeq : UInt32
  batchFlags : UInt16
  batchBlockRows : UInt32
  haveBatch : Bool
  totalRowsSent : UInt64
  totalBatchesSent : UInt64
  totalDropped : UInt64
  /-- results handed to the writer of the result memory -/
  published : List AiResult
  sent : List SentBatch

def aiClientStart : AiClient :=
  { batch := [], batchTimestamp := 0, batchProducerSeq := 0, batchFlags := 0, batchBlockRows := 0
    haveBatch := false, totalRowsSent := 0, totalBatchesSent := 0, totalDropped := 0
    published := [], sent := [] }

/-- What the outside decides: the end of the `n`-th call, and whether the result
memory could be created. -/
structure AiEnv where
  replies : Nat → BatchReply
  resultWriter : Bool

/-- One poll: the blocks copied out and the count of blocks lost before them. -/
structure PollResult where
  blocks : List MotorBlockCopy
  dropped : UInt64

namespace AiClient

/-- The batch as the call receives it. -/
def toSend (c : AiClient) : MotorDataBatch :=
  ⟨c.batchTimestamp, c.batchProducerSeq, c.batchFlags, c.batchBlockRows, c.batch⟩

/-- The call, its accounts and the clearing behind it. -/
def sendBatch (env : AiEnv) (c : AiClient) : AiClient :=
  let reply := env.replies c.sent.length
  let sent := c.sent ++ [⟨c.toSend, reply⟩]
  let cleared := { c with sent, batch := [], haveBatch := false }
  if reply.success ∧ reply.accepted then
    { cleared with
      totalBatchesSent := c.totalBatchesSent + 1
      totalRowsSent := c.totalRowsSent + UInt64.ofNat c.batch.length
      published :=
        if env.resultWriter then
          c.published ++ [⟨c.batchTimestamp, c.batchProducerSeq, c.batchFlags,
            reply.anomalyResult, reply.faultClassResult, reply.predMaintResult⟩]
        else c.published }
  else cleared

def openBatch (blk : MotorBlockCopy) (c : AiClient) : AiClient :=
  if c.haveBatch then c
  else
    { c with
      batchTimestamp := blk.timestamp, batchProducerSeq := blk.producerSeq, batchFlags := blk.flags
      batchBlockRows := UInt32.ofNat blk.nRows.toNat, haveBatch := true }

/-- The body of the loop over the polled blocks. -/
def takeBlock (env : AiEnv) (c : AiClient) (blk : MotorBlockCopy) : AiClient :=
  let c := c.openBatch blk
  let c := { c with batch := copyRows blk c.batch }
  if windowSize ≤ c.batch.length then c.sendBatch env else c

/-- One turn of the poll loop. -/
def poll (env : AiEnv) (c : AiClient) (p : PollResult) : AiClient :=
  p.blocks.foldl (takeBlock env) { c with totalDropped := c.totalDropped + p.dropped }

/-- What is left in the batch is sent behind the loop. -/
def flush (env : AiEnv) (c : AiClient) : AiClient :=
  if c.haveBatch ∧ c.batch ≠ [] then c.sendBatch env else c

end AiClient

/-- The poll loop until the shutdown, and the flush. -/
def aiClientRun (env : AiEnv) (polls : List PollResult) : AiClient :=
  (polls.foldl (AiClient.poll env) aiClientStart).flush env

/-! ## Rows of blocks -/

def blockRows (blk : MotorBlockCopy) : List MotorRowCopy :=
  (List.range blk.nRows.toNat).map blk.rows

def rowsSent (blocks : List MotorBlockCopy) : List MotorDataRow :=
  (blocks.flatMap blockRows).map copyRow

theorem rowsSent_append (xs ys : List MotorBlockCopy) :
    rowsSent (xs ++ ys) = rowsSent xs ++ rowsSent ys := by
  simp [rowsSent]

theorem copyRows_eq (blk : MotorBlockCopy) (out : List MotorDataRow) :
    copyRows blk out = out ++ rowsSent [blk] := by
  have hfold : ∀ (is : List Nat) (out : List MotorDataRow),
      is.foldl (fun out i => out ++ [copyRow (blk.rows i)]) out =
        out ++ is.map fun i => copyRow (blk.rows i) := by
    intro is
    induction is with
    | nil => simp
    | cons i is ih =>
        intro out
        rw [List.foldl_cons, ih, List.map_cons, List.append_assoc]
        rfl
  rw [copyRows, hfold, rowsSent, List.flatMap_singleton, blockRows, List.map_map]
  rfl

/-- The row of the service has the fields of the row in the ring. -/
structure SameFields (row : MotorDataRow) (src : MotorRowCopy) : Prop where
  timestamp : row.timestamp = src.timestamp
  currentA : row.currentA = src.current[0]
  currentB : row.currentB = src.current[1]
  currentC : row.currentC = src.current[2]
  voltageA : row.voltageA = src.current[3]
  voltageB : row.voltageB = src.current[4]
  voltageC : row.voltageC = src.current[5]
  voltageDcBus : row.voltageDcBus = src.current[6]
  voltageSpeed : row.voltageSpeed = src.current[7]
  vibX : row.vibX = src.vibX
  vibY : row.vibY = src.vibY
  vibZ : row.vibZ = src.vibZ
  rpm : row.rpm = src.rpm

theorem copyRow_fields (src : MotorRowCopy) : SameFields (copyRow src) src :=
  ⟨rfl, rfl, rfl, rfl, rfl, rfl, rfl, rfl, rfl, rfl, rfl, rfl, rfl⟩

/-! ## Groups of blocks -/

structure BatchOf (b : MotorDataBatch) (blocks : List MotorBlockCopy) : Prop where
  first : ∃ blk, blocks.head? = some blk ∧ b.timestamp = blk.timestamp ∧
    b.producerSeq = blk.producerSeq ∧ b.flags = blk.flags ∧ b.blockRows.toNat = blk.nRows.toNat
  rows : b.rows = rowsSent blocks

/-- The last block fills the window. -/
structure FillsWindow (blocks : List MotorBlockCopy) : Prop where
  full : windowSize ≤ (rowsSent blocks).length
  before : (rowsSent blocks.dropLast).length < windowSize

/-- The client between two blocks: the batches sent were made of the groups
`full`, the open one is made of the blocks `rest`. -/
structure Batched (blocks : List MotorBlockCopy) (c : AiClient) (full : List (List MotorBlockCopy))
    (rest : List MotorBlockCopy) : Prop where
  split : blocks = full.flatten ++ rest
  fills : ∀ g ∈ full, FillsWindow g
  sent : List.Forall₂ (fun s g => BatchOf s.batch g) c.sent full
  short : (rowsSent rest).length < windowSize
  batch : c.batch = rowsSent rest
  opened : c.haveBatch = !rest.isEmpty
  first : ∀ blk, rest.head? = some blk → c.batchTimestamp = blk.timestamp ∧
    c.batchProducerSeq = blk.producerSeq ∧ c.batchFlags = blk.flags ∧
    c.batchBlockRows.toNat = blk.nRows.toNat
  counted : c.totalRowsSent = UInt64.ofNat
    ((c.sent.filter SentBatch.taken).flatMap fun s => s.batch.rows).length

theorem batched_start : Batched [] aiClientStart [] [] where
  split := rfl
  fills := fun g hg => by cases hg
  sent := .nil
  short := by decide
  batch := rfl
  opened := rfl
  first := fun blk hblk => by cases hblk
  counted := rfl

namespace AiClient

theorem sendBatch_fields (env : AiEnv) (c : AiClient) :
    (c.sendBatch env).batch = [] ∧ (c.sendBatch env).haveBatch = false ∧
      (c.sendBatch env).sent = c.sent ++ [⟨c.toSend, env.replies c.sent.length⟩] := by
  unfold sendBatch
  dsimp only
  split <;> exact ⟨rfl, rfl, rfl⟩

theorem sendBatch_counted {env : AiEnv} {c : AiClient} (h : c.totalRowsSent = UInt64.ofNat
      ((c.sent.filter SentBatch.taken).flatMap fun s => s.batch.rows).length) :
    (c.sendBatch env).totalRowsSent = UInt64.ofNat
      (((c.sendBatch env).sent.filter SentBatch.taken).flatMap fun s => s.batch.rows).length := by
  rw [(sendBatch_fields env c).2.2, List.filter_append, List.flatMap_append, List.length_append,
    UInt64.ofNat_add, ← h]
  unfold sendBatch
  dsimp only
  split
  · next htaken =>
    have hone : [(⟨c.toSend, env.replies c.sent.length⟩ : SentBatch)].filter SentBatch.taken =
        [⟨c.toSend, env.replies c.sent.length⟩] := by
      simp [SentBatch.taken, htaken.1, htaken.2]
    rw [hone]
    simp [toSend]
  · next hlost =>
    have hnone : [(⟨c.toSend, env.replies c.sent.length⟩ : SentBatch)].filter SentBatch.taken =
        [] := by
      simpa [SentBatch.taken] using hlost
    rw [hnone]
    simp

theorem openBatch_fields (blk : MotorBlockCopy) (c : AiClient) :
    (c.openBatch blk).haveBatch = true ∧ (c.openBatch blk).batch = c.batch ∧
      (c.openBatch blk).sent = c.sent ∧ (c.openBatch blk).totalRowsSent = c.totalRowsSent := by
  unfold openBatch
  split
  · next hopen => exact ⟨hopen, rfl, rfl, rfl⟩
  · exact ⟨rfl, rfl, rfl, rfl⟩

end AiClient

theorem head?_append_singleton {α : Type} (xs : List α) (x : α) :
    (xs ++ [x]).head? = some (xs.head?.getD x) := by
  cases xs <;> rfl

theorem Batched.openBatch {blocks rest : List MotorBlockCopy} {c : AiClient}
    {full : List (List MotorBlockCopy)} (h : Batched blocks c full rest) (blk first : MotorBlockCopy)
    (hfirst : (rest ++ [blk]).head? = some first) :
    (c.openBatch blk).batchTimestamp = first.timestamp ∧
      (c.openBatch blk).batchProducerSeq = first.producerSeq ∧
      (c.openBatch blk).batchFlags = first.flags ∧
      (c.openBatch blk).batchBlockRows.toNat = first.nRows.toNat := by
  have hopened := h.opened
  cases rest with
  | nil =>
      obtain rfl := Option.some.inj hfirst
      have hclosed : ¬ c.haveBatch = true := by simp [hopened]
      rw [AiClient.openBatch, if_neg hclosed]
      refine ⟨rfl, rfl, rfl, ?_⟩
      have hlt := blk.nRows.toNat_lt
      exact UInt32.toNat_ofNat_of_lt' (Nat.lt_trans hlt (by decide))
  | cons b bs =>
      rw [AiClient.openBatch, if_pos (by simpa using hopened)]
      exact h.first first hfirst

theorem Batched.takeBlock {blocks rest : List MotorBlockCopy} {c : AiClient}
    {full : List (List MotorBlockCopy)} (h : Batched blocks c full rest) (env : AiEnv)
    (blk : MotorBlockCopy) :
    ∃ full' rest', Batched (blocks ++ [blk]) (c.takeBlock env blk) full' rest' := by
  obtain ⟨hopen, hbatch, hsent, hcount⟩ := AiClient.openBatch_fields blk c
  have hfirst := h.openBatch blk
  unfold AiClient.takeBlock
  dsimp only
  generalize c.openBatch blk = o at hopen hbatch hsent hcount hfirst
  have hrows : copyRows blk o.batch = rowsSent (rest ++ [blk]) := by
    rw [copyRows_eq, hbatch, h.batch, rowsSent_append]
  rw [hrows]
  have hsplit : blocks ++ [blk] = full.flatten ++ (rest ++ [blk]) := by
    rw [h.split, List.append_assoc]
  have hcounted : o.totalRowsSent = UInt64.ofNat
      ((o.sent.filter SentBatch.taken).flatMap fun s => s.batch.rows).length := by
    rw [hcount, hsent]
    exact h.counted
  by_cases hfull : windowSize ≤ (rowsSent (rest ++ [blk])).length
  · rw [if_pos hfull]
    refine ⟨full ++ [rest ++ [blk]], [], ?_⟩
    obtain ⟨hempty, hclosed, hnow⟩ :=
      AiClient.sendBatch_fields env { o with batch := rowsSent (rest ++ [blk]) }
    refine
      { split := by rw [hsplit]; simp
        fills := fun g hg => ?_
        sent := ?_
        short := by decide
        batch := hempty
        opened := hclosed
        first := fun b hb => by cases hb
        counted := AiClient.sendBatch_counted hcounted }
    · rcases List.mem_append.mp hg with hg | hg
      · exact h.fills g hg
      · obtain rfl := List.mem_singleton.mp hg
        exact ⟨hfull, by rw [List.dropLast_concat]; exact h.short⟩
    · rw [hnow, hsent]
      refine List.rel_append h.sent (.cons ⟨?_, rfl⟩ .nil)
      exact ⟨_, head?_append_singleton rest blk, hfirst _ (head?_append_singleton rest blk)⟩
  · rw [if_neg hfull]
    exact ⟨full, rest ++ [blk],
      { split := hsplit
        fills := h.fills
        sent := hsent ▸ h.sent
        short := Nat.lt_of_not_le hfull
        batch := rfl
        opened := by simp [hopen]
        first := hfirst
        counted := hcounted }⟩

/-! ## Whole runs -/

theorem Batched.blocks {done rest : List MotorBlockCopy} {c : AiClient}
    {full : List (List MotorBlockCopy)} (h : Batched done c full rest) (env : AiEnv)
    (blocks : List MotorBlockCopy) :
    ∃ full' rest', Batched (done ++ blocks) (blocks.foldl (AiClient.takeBlock env) c) full' rest' := by
  induction blocks generalizing done c full rest with
  | nil => exact ⟨full, rest, by simpa using h⟩
  | cons blk blocks ih =>
      obtain ⟨full', rest', hnext⟩ := h.takeBlock env blk
      have hrest := ih hnext
      rwa [List.append_assoc] at hrest

theorem Batched.polls {done rest : List MotorBlockCopy} {c : AiClient}
    {full : List (List MotorBlockCopy)} (h : Batched done c full rest) (env : AiEnv)
    (polls : List PollResult) :
    ∃ full' rest', Batched (done ++ polls.flatMap PollResult.blocks)
      (polls.foldl (AiClient.poll env) c) full' rest' := by
  induction polls generalizing done c full rest with
  | nil => exact ⟨full, rest, by simpa using h⟩
  | cons p polls ih =>
      have hquiet : Batched done { c with totalDropped := c.totalDropped + p.dropped } full rest :=
        ⟨h.split, h.fills, h.sent, h.short, h.batch, h.opened, h.first, h.counted⟩
      obtain ⟨full', rest', hnext⟩ := hquiet.blocks env p.blocks
      have hrest := ih hnext
      rwa [List.append_assoc, ← List.flatMap_cons] at hrest

/-- The groups of blocks behind the calls of a whole run: all but the last fill
the window, and the last is what the flush found. -/
structure SentInGroups (blocks : List MotorBlockCopy) (sent : List SentBatch) : Prop where
  groups : ∃ full rest, blocks = full.flatten ++ rest ∧ (∀ g ∈ full, FillsWindow g) ∧
    (rowsSent rest).length < windowSize ∧
    List.Forall₂ (fun s g => BatchOf s.batch g) sent
      (full ++ if rowsSent rest = [] then [] else [rest])

theorem Batched.flush {blocks rest : List MotorBlockCopy} {c : AiClient}
    {full : List (List MotorBlockCopy)} (h : Batched blocks c full rest) (env : AiEnv) :
    SentInGroups blocks (c.flush env).sent ∧
      (c.flush env).totalRowsSent = UInt64.ofNat
        (((c.flush env).sent.filter SentBatch.taken).flatMap fun s => s.batch.rows).length := by
  unfold AiClient.flush
  by_cases hrows : rowsSent rest = []
  · rw [if_neg (fun hflush => hflush.2 (h.batch.trans hrows))]
    exact ⟨⟨full, rest, h.split, h.fills, h.short, by simpa [hrows] using h.sent⟩, h.counted⟩
  · have hopen : c.haveBatch = true := by
      rw [h.opened]
      cases rest with
      | nil => exact absurd rfl hrows
      | cons b bs => rfl
    rw [if_pos ⟨hopen, h.batch ▸ hrows⟩]
    refine ⟨⟨full, rest, h.split, h.fills, h.short, ?_⟩, AiClient.sendBatch_counted h.counted⟩
    rw [if_neg hrows, (AiClient.sendBatch_fields env c).2.2]
    refine List.rel_append h.sent (.cons ⟨?_, h.batch⟩ .nil)
    cases rest with
    | nil => exact absurd rfl hrows
    | cons b bs => exact ⟨b, rfl, h.first b rfl⟩

theorem SentInGroups.rows {blocks : List MotorBlockCopy} {sent : List SentBatch}
    (h : SentInGroups blocks sent) : (sent.flatMap fun s => s.batch.rows) = rowsSent blocks := by
  obtain ⟨full, rest, hsplit, -, -, hsent⟩ := h.groups
  have hgroups : ∀ {sent : List SentBatch} {groups : List (List MotorBlockCopy)},
      List.Forall₂ (fun s g => BatchOf s.batch g) sent groups →
        (sent.flatMap fun s => s.batch.rows) = rowsSent groups.flatten := by
    intro sent groups hall
    induction hall with
    | nil => rfl
    | cons hbatch _ ih => rw [List.flatMap_cons, List.flatten_cons, rowsSent_append, hbatch.rows, ih]
  rw [hgroups hsent, hsplit, List.flatten_append, rowsSent_append, rowsSent_append]
  split
  · next hempty => rw [hempty]; rfl
  · simp

theorem sameFields_rowsSent (blocks : List MotorBlockCopy) :
    List.Forall₂ SameFields (rowsSent blocks) (blocks.flatMap blockRows) := by
  rw [rowsSent, List.forall₂_map_left_iff, List.forall₂_same]
  exact fun src _ => copyRow_fields src

/-- Over a whole run the rows sent are the rows polled, field for field and in
order; batches are whole blocks, each but the flushed one just filling its window
and each headed by its first block; and the counter counts the rows of the
calls that were taken. -/
theorem batching_lossless (env : AiEnv) (polls : List PollResult) :
    List.Forall₂ SameFields ((aiClientRun env polls).sent.flatMap fun s => s.batch.rows)
      ((polls.flatMap PollResult.blocks).flatMap blockRows) ∧
    SentInGroups (polls.flatMap PollResult.blocks) (aiClientRun env polls).sent ∧
    (aiClientRun env polls).totalRowsSent = UInt64.ofNat
      (((aiClientRun env polls).sent.filter SentBatch.taken).flatMap
        fun s => s.batch.rows).length := by
  obtain ⟨full, rest, hbatched⟩ := batched_start.polls env polls
  rw [List.nil_append] at hbatched
  obtain ⟨hgroups, hcounted⟩ := hbatched.flush env
  refine ⟨?_, hgroups, hcounted⟩
  rw [aiClientRun, hgroups.rows]
  exact sameFields_rowsSent _

end QnxHypervisor.MotorAi
