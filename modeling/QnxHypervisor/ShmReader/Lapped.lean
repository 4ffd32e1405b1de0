import QnxHypervisor.ShmReader.Consumer

/-! # Lapped while polling

The sequence word of a slot tells that the slot is being overwritten, not which
block it holds. Cursor positions and delivered blocks agree as long as no slot is
opened after the next block for it is complete.
-/

namespace QnxHypervisor.ShmReader

open Foundation MotorWire MotorShm

variable {Row : Type} {poller : Poller} {maxRows : Nat} {start l l' : Live Row}
  {c c' : Consumer Row}

/-- Every delivered block is the one published under its position, in increasing
order, and every other position the cursor passed is counted as dropped. -/
structure Faithful (l : Live Row) (c : Consumer Row) : Prop where
  placed : ∀ d ∈ c.delivered, l.published[d.pos.toNat]? = some d.block
  increasing : c.delivered.Pairwise fun d d' => d.pos < d'.pos
  passed : ∀ d ∈ c.delivered, c.start ≤ d.pos ∧ d.pos < c.poll.readPos
  handedOut : c.poll.written <:+ c.delivered.map Placed.block
  counted : ∃ n, c.poll.dropped = some n ∧
    c.delivered.length + n.toNat = c.poll.readPos.toNat - c.start.toNat

theorem Faithful.phase (h : Faithful l c) (phase : Phase Row) :
    Faithful l { c with phase } :=
  ⟨h.placed, h.increasing, h.passed, h.handedOut, h.counted⟩

/-- A slot is opened before the next block for it is complete, and fewer than 2^31
blocks are written to it while it is copied. -/
def Consumer.OnTime (l : Live Row) (c : Consumer Row) : Prop :=
  match c.phase with
  | .reading _ _ k r =>
      r.Window (l.slots k) ∧
        (r.enters (l.slots k) = true → l.published.length ≤ c.poll.readPos.toNat + 16)
  | _ => True

/-- The producer's next access does not wrap `write_pos`. -/
def NoWrap (l : Live Row) : Prop :=
  match l.producer with
  | .storePos _ => l.writePos.toNat + 1 < 2 ^ 64
  | _ => True

/-- `write_pos` does not wrap, and every slot is opened in time. -/
def Timely (s : System Row (Consumer Row)) : SystemEvent Row (ConsumerEvent Row) → Prop
  | .call _ => True
  | .produce => NoWrap s.live
  | .consume _ => s.consumers.OnTime s.live

/-! ## The producer's position -/

/-- `write_pos` is the number of published blocks, or one behind it. -/
structure Posted (l : Live Row) : Prop where
  le : l.writePos.toNat ≤ l.published.length
  ge : l.published.length ≤ l.writePos.toNat + 1

theorem posted_move (hinv : l.Inv maxRows start) (h : Posted l)
    (hwrap : NoWrap l) (hmove : l.Move maxRows l') : Posted l' := by
  have hproducer := hinv.producer
  have hle := h.le
  have hge := h.ge
  cases hmove with
  | loadPos hdr rows hp => exact ⟨hle, hge⟩
  | loadDepth hdr rows pos hp => exact ⟨hle, hge⟩
  | storeSlot hdr rows pos k w w' c hp hs => exact ⟨hle, hge⟩
  | storeSnapshot d w w' c hp hs => exact ⟨hle, hge⟩
  | commitSnapshot d w c hp hs => exact ⟨hle, hge⟩
  | commitSlot hdr rows pos k w c hp hs =>
      simp only [Live.ProducerInv, hp] at hproducer
      have hpos := congrArg UInt64.toNat hproducer.2.1
      rw [UInt64.toNat_ofNat'] at hpos
      refine ⟨?_, ?_⟩ <;> simp only [List.length_append, List.length_singleton] <;> omega
  | storePos pos hp =>
      simp only [Live.ProducerInv, hp] at hproducer
      simp only [NoWrap, hp] at hwrap
      obtain ⟨rfl, hpos, -⟩ := hproducer
      have hnext : (l.writePos + 1).toNat = l.writePos.toNat + 1 := by
        rw [UInt64.toNat_add]
        exact Nat.mod_eq_of_lt hwrap
      have hmod := congrArg UInt64.toNat hpos
      rw [hnext, UInt64.toNat_ofNat'] at hmod
      refine ⟨?_, ?_⟩ <;> simp only [hnext] <;> omega

/-- While `write_pos` does not wrap it does not go back. -/
theorem writePos_mono (h : Posted l) (h' : Posted l') (hadv : l.Advances l') :
    l.writePos.toNat ≤ l'.writePos.toNat := by
  have hle := h.le
  have hge := h'.ge
  have hlen := hadv.published.length_le
  rcases hadv.writePos with hsame | hnext
  · exact Nat.le_of_eq (congrArg UInt64.toNat hsame.symm)
  · have hmod := congrArg UInt64.toNat hnext
    rw [UInt64.toNat_add] at hmod
    have hbound := l.writePos.toNat_lt
    have hone : (1 : UInt64).toNat = 1 := rfl
    omega

/-! ## The consumer's invariant -/

/-- Where the cursor is in each phase. An attempt to read position `p` began when
the slot had seen `p / 16 + 1` publishes, the last of them number `p`. -/
def Consumer.PhaseInv (maxRows : Nat) (l : Live Row) (c : Consumer Row) : Prop :=
  match c.phase with
  | .closed => c.delivered = [] ∧ c.poll.written = []
  | .opened wp => c.delivered = [] ∧ c.poll.written = [] ∧ wp.toNat ≤ l.writePos.toNat
  | .idle | .entered _ => c.poll.readPos.toNat ≤ l.writePos.toNat
  | .sampled _ wp | .looping _ wp =>
      c.poll.readPos.toNat ≤ wp.toNat ∧ wp.toNat ≤ l.writePos.toNat
  | .reading _ wp k r =>
      c.poll.readPos.toNat < wp.toNat ∧ wp.toNat ≤ l.writePos.toNat ∧
        k = c.poll.readPos.toNat % 16 ∧ r.Inv (slotLoads maxRows) (l.slots k) ∧
        (∀ left a, r = .copying left a → a.opened = c.poll.readPos.toNat / 16 + 1) ∧
        ∀ out, r = .returned true out →
          l.published[c.poll.readPos.toNat]? = some (copyOut out)

structure Consumer.Inv (maxRows : Nat) (l : Live Row) (c : Consumer Row) : Prop where
  faithful : Faithful l c
  start_le : c.start.toNat ≤ c.poll.readPos.toNat
  phase : c.PhaseInv maxRows l

namespace Consumer

theorem inv_initial (l : Live Row) (bufs : Nat → BlockData Row) :
    (initial bufs).Inv maxRows l := by
  refine ⟨⟨fun d hd => ?_, .nil, fun d hd => ?_, List.suffix_rfl, 0, rfl, rfl⟩, Nat.le_refl _,
    rfl, rfl⟩
  · cases hd
  · cases hd

theorem Inv.advance (h : c.Inv maxRows l) (hadv : l.Advances l')
    (hmono : l.writePos.toNat ≤ l'.writePos.toNat) : c.Inv maxRows l' := by
  obtain ⟨⟨hplaced, hincreasing, hpassed, hout, hcounted⟩, hstart, hphase⟩ := h
  refine ⟨⟨fun d hd => hadv.kept (hplaced d hd), hincreasing, hpassed, hout, hcounted⟩, hstart, ?_⟩
  cases hp : c.phase with
  | closed => simpa only [PhaseInv, hp] using hphase
  | opened wp =>
      simp only [PhaseInv, hp] at hphase ⊢
      exact ⟨hphase.1, hphase.2.1, Nat.le_trans hphase.2.2 hmono⟩
  | idle | entered maxBlocks =>
      simp only [PhaseInv, hp] at hphase ⊢
      exact Nat.le_trans hphase hmono
  | sampled maxBlocks wp | looping maxBlocks wp =>
      simp only [PhaseInv, hp] at hphase ⊢
      exact ⟨hphase.1, Nat.le_trans hphase.2 hmono⟩
  | reading maxBlocks wp k r =>
      simp only [PhaseInv, hp] at hphase ⊢
      obtain ⟨hlt, hwp, hk, hr, hopened, hret⟩ := hphase
      exact ⟨hlt, Nat.le_trans hwp hmono, hk, hr.evolve (hadv.slots k (by omega)), hopened,
        fun out h => hadv.kept (hret out h)⟩

theorem firstPos_le (poller : Poller) (wp : UInt64) (depth : UInt32) :
    (poller.firstPos wp depth).toNat ≤ wp.toNat := by
  cases poller with
  | reader => exact Nat.le_refl _
  | recorder =>
      simp only [Poller.firstPos]
      by_cases hle : depth.toUInt64 ≤ wp
      · rw [if_pos hle, UInt64.toNat_sub_of_le _ _ hle]
        omega
      · rw [if_neg hle]
        exact Nat.zero_le _

theorem inv_skip (hinv : l.Inv maxRows start) (h : c.Inv maxRows l) {maxBlocks : Nat} {wp : UInt64}
    (hp : c.phase = .sampled maxBlocks wp) :
    Consumer.Inv maxRows l
      { c with phase := .looping maxBlocks wp, poll := skipLapped wp l.depth c.poll } := by
  obtain ⟨⟨hplaced, hincreasing, hpassed, hout, n, hdropped, hcounted⟩, hstart, hphase⟩ := h
  simp only [PhaseInv, hp] at hphase
  obtain ⟨hle, hwp⟩ := hphase
  obtain ⟨hpos, hdrop, hwritten⟩ := skipLapped_ready hinv.depth c.poll hle
  have hbound := wp.toNat_lt
  refine ⟨⟨hplaced, hincreasing, ?_, by rw [hwritten]; exact hout, ?_⟩, ?_, ?_, hwp⟩
  · intro d hd
    obtain ⟨hfrom, hto⟩ := hpassed d hd
    refine ⟨hfrom, UInt64.lt_iff_toNat_lt.mpr ?_⟩
    have := UInt64.lt_iff_toNat_lt.mp hto
    simp only [hpos]
    omega
  · refine ⟨_, by rw [hdrop, hdropped]; rfl, ?_⟩
    simp only [hpos]
    rw [UInt64.toNat_add, UInt64.toNat_ofNat_of_lt' (show _ < 2 ^ 64 by omega)]
    omega
  · simp only [hpos]
    omega
  · simp only [hpos]
    omega

theorem inv_read (hinv : l.Inv maxRows start) (hposted : Posted l) (h : c.Inv maxRows l)
    (hok : c.OnTime l) {maxBlocks k : Nat} {wp : UInt64}
    {r : Reader (BlockData Row) (BlockData Row)} (hp : c.phase = .reading maxBlocks wp k r)
    (hrunning : r.running = true) :
    Consumer.Inv maxRows l
      { c with phase := .reading maxBlocks wp k (r.step (slotLoads maxRows) (l.slots k)) } := by
  obtain ⟨hfaithful, hstart, hphase⟩ := h
  simp only [PhaseInv, hp] at hphase
  simp only [OnTime, hp] at hok
  obtain ⟨hlt, hwp, hk, hr, hopened, -⟩ := hphase
  obtain ⟨hwindow, htimely⟩ := hok
  have hslot := hinv.slots k (by omega)
  refine ⟨hfaithful.phase _, hstart, hlt, hwp, hk, hr.step hslot.counts, ?_, ?_⟩
  · intro left a ha
    have hmove := Reader.step_move (slotLoads maxRows) (l.slots k) r
    rw [ha] at hmove
    cases hmove with
    | enter left out heven =>
        have hlate := htimely (by simpa [Reader.enters] using heven)
        have hle := hposted.le
        have hcommits := hslot.commits
        -- block `p` is complete and block `p + 16` is not
        show (l.slots k).commits = c.poll.readPos.toNat / 16 + 1
        omega
    | load left a next hrest => exact hopened left a rfl
  · intro out hret
    obtain ⟨left, a, rfl, hcommits, hidle, rfl⟩ :=
      hr.believed hslot.counts hwindow hrunning hret
    have hlast := hslot.last _ hidle (hcommits.trans (hopened left a rfl))
    rw [run_slotLoads, copyOut_copySlot, ← hlast]
    congr 1
    show c.poll.readPos.toNat = _
    omega

theorem inv_deliver (h : c.Inv maxRows l) {maxBlocks k : Nat} {wp : UInt64} {out : BlockData Row}
    (hp : c.phase = .reading maxBlocks wp k (.returned true out)) :
    Consumer.Inv maxRows l
      { c with
        phase := .looping maxBlocks wp, poll := pollTurn poller.dest c.poll (true, out)
        delivered := c.delivered ++ [⟨c.poll.readPos, copyOut out⟩] } := by
  obtain ⟨⟨hplaced, hincreasing, hpassed, hout, n, hdropped, hcounted⟩, hstart, hphase⟩ := h
  simp only [PhaseInv, hp] at hphase
  obtain ⟨hlt, hwp, -, -, -, hret⟩ := hphase
  have hnext := toNat_next hlt
  have hnew : ∀ d ∈ c.delivered ++ [(⟨c.poll.readPos, copyOut out⟩ : Placed Row)],
      d ∈ c.delivered ∨ d = ⟨c.poll.readPos, copyOut out⟩ := fun d hd => by simpa using hd
  refine ⟨⟨?_, ?_, ?_, ?_, n, hdropped, ?_⟩, ?_, ?_, hwp⟩ <;> simp only [pollTurn, if_true, hnext]
  · intro d hd
    rcases hnew d hd with hold | rfl
    · exact hplaced d hold
    · exact hret out rfl
  · refine List.pairwise_append.mpr ⟨hincreasing, List.pairwise_singleton _ _, ?_⟩
    intro d hd d' hd'
    obtain rfl := List.mem_singleton.mp hd'
    exact (hpassed d hd).2
  · intro d hd
    have hpos : c.poll.readPos < c.poll.readPos + 1 := UInt64.lt_iff_toNat_lt.mpr (by omega)
    rcases hnew d hd with hold | rfl
    · exact ⟨(hpassed d hold).1, UInt64.lt_trans (hpassed d hold).2 hpos⟩
    · exact ⟨UInt64.le_iff_toNat_le.mpr hstart, hpos⟩
  · obtain ⟨before, hbefore⟩ := hout
    exact ⟨before, by rw [← List.append_assoc, hbefore, List.map_append]; rfl⟩
  · rw [List.length_append, List.length_singleton]
    omega
  · omega
  · omega

theorem inv_drop (h : c.Inv maxRows l) {maxBlocks k : Nat} {wp : UInt64} {out : BlockData Row}
    (hp : c.phase = .reading maxBlocks wp k (.returned false out)) :
    Consumer.Inv maxRows l
      { c with
        phase := .looping maxBlocks wp, poll := pollTurn poller.dest c.poll (false, out) } := by
  obtain ⟨⟨hplaced, hincreasing, hpassed, hout, n, hdropped, hcounted⟩, hstart, hphase⟩ := h
  simp only [PhaseInv, hp] at hphase
  obtain ⟨hlt, hwp, -⟩ := hphase
  have hnext := toNat_next hlt
  have hbound := wp.toNat_lt
  refine ⟨⟨hplaced, hincreasing, ?_, hout, n + 1, ?_, ?_⟩, ?_, ?_, hwp⟩ <;>
    simp only [pollTurn, Bool.false_eq_true, if_false, hnext]
  · intro d hd
    have hpos : c.poll.readPos < c.poll.readPos + 1 := UInt64.lt_iff_toNat_lt.mpr (by omega)
    exact ⟨(hpassed d hd).1, UInt64.lt_trans (hpassed d hd).2 hpos⟩
  · rw [hdropped]
    rfl
  · rw [toNat_next (show n.toNat < wp.toNat by omega)]
    omega
  · omega
  · omega

theorem inv_move (hinv : l.Inv maxRows start) (hposted : Posted l) (h : c.Inv maxRows l)
    (hok : c.OnTime l) (hmove : c.Move poller maxRows l c') : c'.Inv maxRows l := by
  have hphase := h.phase
  cases hmove with
  | openAt wp hp =>
      simp only [PhaseInv, hp] at hphase
      obtain ⟨hnone, hempty, hwp⟩ := hphase
      refine ⟨⟨?_, ?_, ?_, ?_, 0, rfl, ?_⟩, Nat.le_refl _, ?_⟩ <;> simp only [hnone, hempty]
      · intro d hd
        cases hd
      · exact .nil
      · intro d hd
        cases hd
      · exact List.suffix_rfl
      · simp
      · exact Nat.le_trans (firstPos_le poller wp l.depth) hwp
  | sample maxBlocks hp =>
      simp only [PhaseInv, hp] at hphase
      exact ⟨h.faithful.phase _, h.start_le, hphase, Nat.le_refl _⟩
  | skip maxBlocks wp hp => exact inv_skip hinv h hp
  | enter maxBlocks wp hp hlt hmax =>
      simp only [PhaseInv, hp] at hphase
      refine ⟨h.faithful.phase _, h.start_le, UInt64.lt_iff_toNat_lt.mp hlt, hphase.2,
        hinv.slotIndex_eq _, trivial, ?_, ?_⟩
      · intro left a ha
        cases ha
      · intro out hret
        cases hret
  | leave maxBlocks wp hp =>
      simp only [PhaseInv, hp] at hphase
      exact ⟨h.faithful.phase _, h.start_le, Nat.le_trans hphase.1 hphase.2⟩
  | read maxBlocks wp k r hp hrunning => exact inv_read hinv hposted h hok hp hrunning
  | deliver maxBlocks wp k out hp => exact inv_deliver h hp
  | drop maxBlocks wp k out hp => exact inv_drop h hp

theorem inv_act (hinv : l.Inv maxRows start) (hposted : Posted l) (h : c.Inv maxRows l)
    (hok : c.OnTime l) {e : ConsumerEvent Row} (hact : consumerAct poller maxRows l c e = some c') :
    c'.Inv maxRows l := by
  have hphase := h.phase
  cases e with
  | access => exact inv_move hinv hposted h hok (access_move hact)
  | attach =>
      cases hp : c.phase <;> simp only [consumerAct, hp] at hact <;> try cases hact
      simp only [PhaseInv, hp] at hphase
      exact ⟨h.faithful.phase _, h.start_le, hphase.1, hphase.2, Nat.le_refl _⟩
  | poll maxBlocks bufs =>
      cases hp : c.phase <;> simp only [consumerAct, hp] at hact <;> try cases hact
      simp only [PhaseInv, hp] at hphase
      refine ⟨⟨h.faithful.placed, h.faithful.increasing, h.faithful.passed, List.nil_suffix,
        h.faithful.counted⟩, h.start_le, ?_⟩
      cases poller.looks maxBlocks <;> exact hphase

end Consumer

/-! ## Runs -/

section Runs

variable {rowSize : UInt32} {r : ShmRegion Row} {bufs : Nat → BlockData Row}
  {s : System Row (Consumer Row)}

theorem posted_reachable (h : (pollMachine poller maxRows rowSize r bufs).ReachableBy Timely s) :
    Posted s.live := by
  refine h.invariant (I := fun s => Posted s.live) ?_ ?_
  · rintro s rfl
    exact ⟨Nat.le_refl _, Nat.zero_le _⟩
  · intro s e s' hr hposted hok hs
    cases e with
    | call p =>
        obtain ⟨-, hlive⟩ := Live.call_eq (system_call hs).1
        rw [hlive]
        exact ⟨hposted.le, hposted.ge⟩
    | produce =>
        exact posted_move (live_invariant (inv_start rowSize r) hr) hposted hok
          (Live.produce_move (system_produce hs).1)
    | consume a =>
        rw [(system_consume hs).1]
        exact hposted

theorem consumer_invariant
    (h : (pollMachine poller maxRows rowSize r bufs).ReachableBy Timely s) :
    s.consumers.Inv maxRows s.live := by
  refine consumers_invariant (I := fun l c => Consumer.Inv maxRows l c) (inv_start rowSize r) h
    (Consumer.inv_initial _ bufs) ?_ ?_
  · intro s s' hr hr' hI hadv
    exact hI.advance hadv (writePos_mono (posted_reachable hr) (posted_reachable hr') hadv)
  · intro s e c hr hinv hI hok hact
    exact Consumer.inv_act hinv (posted_reachable hr) hI hok hact

/-- In every interleaving in which slots are opened in time, delivered blocks are
those published under their positions and every other position is counted. -/
theorem faithful_of_timely
    (h : (pollMachine poller maxRows rowSize r bufs).ReachableBy Timely s) :
    Faithful s.live s.consumers :=
  (consumer_invariant h).faithful

end Runs

/-! ## Concrete runs -/

/-- A new region into which `n` blocks of one row were published under these headers. -/
def publishedLive (hdr : Nat → FrameHeader) : Nat → Live MotorRow
  | 0 => Live.start (motorShmRegionInit (UInt32.ofNat motorRowBytes) zeroRegion)
  | n + 1 => (publishedLive hdr n).ringPublished motorMaxRowsPerBlock (hdr n) fun _ => zeroRow

/-- A new region into which `n` blocks of one row, numbered from 0, were published. -/
def numberedLive : Nat → Live MotorRow
  | 0 => Live.start (motorShmRegionInit (UInt32.ofNat motorRowBytes) zeroRegion)
  | n + 1 =>
      (numberedLive n).ringPublished motorMaxRowsPerBlock (dataHeader (UInt32.ofNat n) 0 0 1 0)
        fun _ => zeroRow

theorem numberedLive_eq (n : Nat) :
    numberedLive n = publishedLive (fun i => dataHeader (UInt32.ofNat i) 0 0 1 0) n := by
  induction n with
  | zero => rfl
  | succ n ih => rw [numberedLive, ih, publishedLive]

/-- A `shm_reader` of a new region. -/
def numberedMachine : Machine (System MotorRow (Consumer MotorRow))
    (SystemEvent MotorRow (ConsumerEvent MotorRow)) :=
  pollMachine .reader motorMaxRowsPerBlock (UInt32.ofNat motorRowBytes) zeroRegion
    fun _ => zeroBlock.toBlockData

/-- The reader attached to the empty ring, then saw `write_pos` 1. -/
def sawOneBlock : Consumer MotorRow where
  phase := .looping 1 1
  start := 0
  poll := { readPos := 0, dropped := some 0, bufs := fun _ => zeroBlock.toBlockData, written := [] }
  delivered := []

section Published

variable {hdr : Nat → FrameHeader} {ok : System MotorRow (Consumer MotorRow) →
  SystemEvent MotorRow (ConsumerEvent MotorRow) → Prop}

theorem publishedLive_idle (n : Nat) : (publishedLive hdr n).producer = .idle := by
  cases n <;> rfl

theorem publishedLive_depth (n : Nat) : (publishedLive hdr n).depth = motorRingDepth := by
  induction n with
  | zero => rfl
  | succ n ih => exact ih

theorem publishedLive_writePos (n : Nat) : (publishedLive hdr n).writePos = UInt64.ofNat n := by
  induction n with
  | zero => rfl
  | succ n ih =>
      show (publishedLive hdr n).writePos + 1 = _
      rw [ih]
      exact (UInt64.ofNat_add n 1).symm

theorem publishedLive_published (n : Nat) :
    (publishedLive hdr n).published = (List.range n).map fun i =>
      blockOf motorMaxRowsPerBlock (hdr i) fun _ => zeroRow := by
  induction n with
  | zero => rfl
  | succ n ih =>
      rw [List.range_succ, List.map_append, ← ih]
      rfl

theorem publishedLive_length (n : Nat) : (publishedLive hdr n).published.length = n := by
  rw [publishedLive_published, List.length_map, List.length_range]

theorem reachable_published {g : Consumer MotorRow} (n m : Nat) (hcall : ∀ s p, ok s (.call p))
    (hproduce : ∀ (l : Live MotorRow) c, l.writePos.toNat < n + m → ok ⟨l, c⟩ .produce)
    (hsmall : n + m < 2 ^ 64) (h : numberedMachine.ReachableBy ok ⟨publishedLive hdr n, g⟩) :
    numberedMachine.ReachableBy ok ⟨publishedLive hdr (n + m), g⟩ := by
  induction m with
  | zero => exact h
  | succ m ih =>
      have hprev := ih (fun l c hl => hproduce l c (by omega)) (by omega)
      refine reachable_ringPublished (hdr (n + m)) (fun _ => zeroRow) ?_ (hcall _ _)
        (publishedLive_idle _) hprev
      intro l hl
      refine hproduce l g ?_
      have hpos : l.writePos = UInt64.ofNat (n + m) := hl.trans (publishedLive_writePos _)
      rw [hpos, UInt64.toNat_ofNat_of_lt' (show n + m < 2 ^ 64 by omega)]
      omega

theorem reachable_sawOneBlock (n : Nat) (hcall : ∀ s p, ok s (.call p))
    (hproduce : ∀ (l : Live MotorRow) c, l.writePos.toNat < 1 + n → ok ⟨l, c⟩ .produce)
    (hconsume : ∀ (l : Live MotorRow) (c : Consumer MotorRow) e, c.phase.isReading = false →
      ok ⟨l, c⟩ (.consume e))
    (hsmall : 1 + n < 2 ^ 64) :
    numberedMachine.ReachableBy ok ⟨publishedLive hdr (1 + n), sawOneBlock⟩ := by
  have hstart : numberedMachine.ReachableBy ok ⟨publishedLive hdr 0, .initial _⟩ := .initial rfl
  have hopened := reachable_consume (a := .attach) hstart (hconsume _ _ _ rfl) rfl
  have hattached := reachable_consume (a := .access) hopened (hconsume _ _ _ rfl) rfl
  have hone := reachable_published 0 1 hcall (fun l c hl => hproduce l c (by omega)) (by omega)
    hattached
  have hcalled := reachable_consume (a := .poll 1 fun _ => zeroBlock.toBlockData) hone
    (hconsume _ _ _ rfl) rfl
  have hsampled := reachable_consume (a := .access) hcalled (hconsume _ _ _ rfl) rfl
  have hlate := reachable_published 1 n hcall hproduce hsmall hsampled
  refine reachable_consume (a := .access) hlate (hconsume _ _ _ rfl) ?_
  simp only [consumerAct, Consumer.access, publishedLive_depth, publishedLive_writePos]
  rfl

theorem publishedLive_slot {g : Consumer MotorRow} {n : Nat}
    (h : numberedMachine.ReachableBy ok ⟨publishedLive hdr n, g⟩) :
    SlotInv motorMaxRowsPerBlock ((publishedLive hdr 0).slots 0).data
        (publishedLive hdr n).published 0 ((publishedLive hdr n).slots 0) ∧
      ((publishedLive hdr n).slots 0).busy = false := by
  have hinv := live_invariant (inv_start _ _) h
  have hrest := hinv.producer
  simp only [Live.ProducerInv, publishedLive_idle] at hrest
  exact ⟨hinv.slots 0 (by omega), hrest.2.1 0 (by omega) (by simp)⟩

/-- After block `16 * q` slot 0 holds it. -/
theorem publishedLive_block {g : Consumer MotorRow} {n q : Nat} (hn : n = 16 * q + 1)
    (h : numberedMachine.ReachableBy ok ⟨publishedLive hdr n, g⟩) :
    ((publishedLive hdr n).slots 0).word = UInt32.ofNat (2 * (q + 1)) ∧
      ((publishedLive hdr n).slots 0).data.block motorMaxRowsPerBlock =
        blockOf motorMaxRowsPerBlock (hdr (16 * q)) fun _ => zeroRow := by
  obtain ⟨hslot, hidle⟩ := publishedLive_slot h
  have hcommits : ((publishedLive hdr n).slots 0).commits = q + 1 := by
    rw [hslot.commits, publishedLive_length]
    omega
  have hlast := hslot.last q hidle hcommits
  rw [publishedLive_published, List.getElem?_map, List.getElem?_range (by omega)] at hlast
  refine ⟨?_, (Option.some.inj hlast).symm⟩
  rw [hslot.counts, hidle, hcommits]
  rfl

theorem reachable_first_delivery {n : Nat}
    (hlooping : ok ⟨publishedLive hdr n, sawOneBlock⟩ (.consume .access))
    (hread : ∀ r, r.Window ((publishedLive hdr n).slots 0) →
      ok ⟨publishedLive hdr n, { sawOneBlock with phase := .reading 1 1 0 r }⟩
        (.consume .access))
    (h : numberedMachine.ReachableBy ok ⟨publishedLive hdr n, sawOneBlock⟩) :
    ∃ c, numberedMachine.ReachableBy ok ⟨publishedLive hdr n, c⟩ ∧
      c.delivered =
        [⟨0, ((publishedLive hdr n).slots 0).data.block motorMaxRowsPerBlock⟩] := by
  obtain ⟨hslot, hidle⟩ := publishedLive_slot h
  have hindex : slotIndex (publishedLive hdr n).depth sawOneBlock.poll.readPos = 0 := by
    rw [publishedLive_depth]
    rfl
  exact ⟨_, reachable_delivered (c := sawOneBlock) rfl (by decide) (by decide) hlooping hindex
    (hslot.counts.even_iff.mpr hidle) hread h, rfl⟩

end Published

/-- The block is read before another one is published. -/
theorem faithful_first_delivery :
    ∃ c : Consumer MotorRow, c.delivered =
        [⟨0, ((numberedLive 1).slots 0).data.block motorMaxRowsPerBlock⟩] ∧
      Faithful (numberedLive 1) c := by
  rw [numberedLive_eq]
  generalize (fun i => dataHeader (UInt32.ofNat i) 0 0 1 0) = hdr
  have hsaw : numberedMachine.ReachableBy Timely ⟨publishedLive hdr 1, sawOneBlock⟩ := by
    refine reachable_sawOneBlock 0 (fun _ _ => trivial) ?_ ?_ (by omega)
    · intro l c hl
      cases hp : l.producer <;> simp only [Timely, NoWrap, hp]
      omega
    · intro l c e hc
      cases hp : c.phase <;> simp only [Timely, Consumer.OnTime, hp]
      rw [hp] at hc
      cases hc
  have hread : ∀ r, r.Window ((publishedLive hdr 1).slots 0) →
      Timely ⟨publishedLive hdr 1, { sawOneBlock with phase := .reading 1 1 0 r }⟩
        (.consume .access) := by
    intro r hr
    refine ⟨hr, fun _ => ?_⟩
    rw [publishedLive_length]
    omega
  obtain ⟨c, hreach, hdelivered⟩ := reachable_first_delivery trivial hread hsaw
  exact ⟨c, hdelivered, faithful_of_timely hreach⟩

/-- After 16 more blocks slot 0 holds block 16, and that is what is delivered for
position 0. -/
theorem late_delivery_unfaithful :
    ¬ ∀ s, numberedMachine.Reachable s → Faithful s.live s.consumers := by
  intro hall
  have hsaw : numberedMachine.Reachable
      ⟨publishedLive (fun i => dataHeader (UInt32.ofNat i) 0 0 1 0) 17, sawOneBlock⟩ :=
    reachable_sawOneBlock 16 (fun _ _ => trivial) (fun _ _ _ => trivial)
      (fun _ _ _ _ => trivial) (by omega)
  obtain ⟨c, hreach, hdelivered⟩ := reachable_first_delivery trivial (fun _ _ => trivial) hsaw
  have hfirst := (hall _ hreach).placed ⟨0, _⟩ (by rw [hdelivered]; exact List.mem_singleton_self _)
  rw [(publishedLive_block (q := 1) rfl hreach).2, publishedLive_published] at hfirst
  revert hfirst
  decide

end QnxHypervisor.ShmReader
