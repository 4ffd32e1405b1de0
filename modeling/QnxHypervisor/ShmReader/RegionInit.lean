import QnxHypervisor.MotorShm.Initialising
import QnxHypervisor.ShmReader.Lapped

/-! # A reader that waits for the region

A reader maps the object before, while or after the producer initialises it. It
waits until the region is valid, which it can be before the ring has a depth, then
takes its position and polls.
-/

namespace QnxHypervisor.ShmReader

open Foundation MotorWire MotorShm

variable {Row : Type} {poller : Poller} {maxRows : Nat} {rowSize : UInt32} {row : Row}
  {bufs : Nat → BlockData Row} {l l' : Live Row}

/-! ## Opening -/

/-- `shm_reader_open` once the object is mapped: checks with `left` more to follow,
then the one that decides. -/
inductive Opening where
  | waiting (left : Nat) (load : ValidLoad)
  | deciding (load : ValidLoad)
  | refused
  | accepted

/-- `tries < 100`. -/
def validTries : Nat := 100

def Opening.initial : Opening := .waiting (validTries - 1) .magic

/-- The next load of `motor_shm_region_valid`. -/
def Opening.step (rowSize : UInt32) (r : LiveRegion Row) : Opening → Option Opening
  | .waiting left load =>
      if load.found rowSize r then
        match load.next with
        | some load => some (.waiting left load)
        | none => some (.deciding .magic)
      else
        match left with
        | 0 => some (.deciding .magic)
        | left + 1 => some (.waiting left .magic)
  | .deciding load =>
      if load.found rowSize r then
        match load.next with
        | some load => some (.deciding load)
        | none => some .accepted
      else some .refused
  | .refused | .accepted => none

/-! ## The machine -/

/-- The region, the stores its initialisation has left, and the reader. -/
structure Startup (Row : Type) where
  stores : List (LiveRegion Row → LiveRegion Row)
  region : LiveRegion Row
  opening : Opening
  consumer : Consumer Row

inductive StartupEvent (Row : Type) where
  | init
  | call (p : PublishCall Row)
  | produce
  | look
  | consume (e : ConsumerEvent Row)

/-- The producer publishes once its stores are made, the reader polls once it has
accepted the region. -/
def startupStep (poller : Poller) (maxRows : Nat) (rowSize : UInt32) (s : Startup Row) :
    StartupEvent Row → Option (Startup Row)
  | .init =>
      match s.stores with
      | [] => none
      | store :: stores => some { s with stores, region := store s.region }
  | .call p =>
      match s.stores with
      | [] => (s.region.live.call p).map fun live => { s with region.live := live }
      | _ :: _ => none
  | .produce =>
      match s.stores with
      | [] => (s.region.live.produce maxRows).map fun live => { s with region.live := live }
      | _ :: _ => none
  | .look => (s.opening.step rowSize s.region).map fun opening => { s with opening }
  | .consume e =>
      match s.opening with
      | .accepted =>
          (consumerAct poller maxRows s.region.live s.consumer e).map fun consumer =>
            { s with consumer }
      | _ => none

def Startup.initial (rowSize : UInt32) (row : Row) (bufs : Nat → BlockData Row) : Startup Row where
  stores := regionInitStores rowSize
  region := .start (zeroFilled row)
  opening := .initial
  consumer := .initial bufs

def startupMachine (poller : Poller) (maxRows : Nat) (rowSize : UInt32) (row : Row)
    (bufs : Nat → BlockData Row) : Machine (Startup Row) (StartupEvent Row) where
  initial s := s = .initial rowSize row bufs
  step := startupStep poller maxRows rowSize

/-- The next access computes `pos % ring->depth`. -/
def Consumer.IndexesSlot (c : Consumer Row) : Prop :=
  match c.phase with
  | .looping maxBlocks wp => c.poll.readPos < wp ∧ c.poll.written.length < maxBlocks
  | _ => False

/-- No slot index is about to be computed modulo 0. -/
def Startup.IndexSafe (s : Startup Row) : Prop :=
  s.region.live.producer.IndexesSlot ∨ s.consumer.IndexesSlot → s.region.live.depth ≠ 0

/-- Every delivered block is one that a publish stored. -/
def Startup.DeliversPublished (s : Startup Row) : Prop :=
  ∀ d ∈ s.consumer.delivered, d.block ∈ s.region.live.published

/-- Fewer than 2^31 publishes to the slot since the attempt under way began. -/
def Startup.FewPublishes (s : Startup Row) : StartupEvent Row → Prop
  | .consume _ =>
      match s.consumer.phase with
      | .reading _ _ k r => r.Window (s.region.live.slots k)
      | _ => True
  | _ => True

/-! ## The region -/

/-- `write_pos` is never ahead of the blocks, and stays so when it is stored next. -/
structure Behind (l : Live Row) : Prop where
  writePos : l.writePos.toNat ≤ l.published.length
  stored : ∀ pos, l.producer = .storePos pos → pos.toNat < l.published.length

theorem behind_call {p : PublishCall Row} (h : Behind l) (hc : l.call p = some l') :
    Behind l' := by
  obtain ⟨-, rfl⟩ := Live.call_eq hc
  refine ⟨h.writePos, fun pos hp => ?_⟩
  cases p <;> cases hp

theorem behind_move {start : Live Row} (hinv : l.Inv maxRows start) (h : Behind l)
    (hmove : l.Move maxRows l') : Behind l' := by
  have hproducer := hinv.producer
  cases hmove with
  | loadPos hdr rows hp => exact ⟨h.writePos, fun pos hp => by cases hp⟩
  | loadDepth hdr rows pos hp => exact ⟨h.writePos, fun pos hp => by cases hp⟩
  | storeSlot hdr rows pos k w w' c hp hs => exact ⟨h.writePos, fun pos hp => by cases hp⟩
  | storeSnapshot d w w' c hp hs => exact ⟨h.writePos, fun pos hp => by cases hp⟩
  | commitSnapshot d w c hp hs => exact ⟨h.writePos, fun pos hp => by cases hp⟩
  | commitSlot hdr rows pos k w c hp hs =>
      simp only [Live.ProducerInv, hp] at hproducer
      have hle := h.writePos
      refine ⟨?_, fun pos' hp' => ?_⟩
      · show l.writePos.toNat ≤ _
        rw [List.length_append]
        omega
      · cases hp'
        rw [hproducer.1, List.length_append, List.length_singleton]
        omega
  | storePos pos hp =>
      have hlt := h.stored pos hp
      refine ⟨?_, fun pos hp => by cases hp⟩
      show (pos + 1).toNat ≤ _
      rw [UInt64.toNat_add]
      exact Nat.le_trans (Nat.mod_le _ _) hlt

structure Startup.Initialising (rowSize : UInt32) (row : Row) (s : Startup Row) : Prop where
  left : s.stores <:+ regionInitStores rowSize
  finishes : Cell.stored s.stores s.region =
    LiveRegion.start (motorShmRegionInit rowSize (zeroFilled row))
  writePos : s.region.live.writePos = 0
  producer : s.region.live.producer = .idle
  published : s.region.live.published = []

structure Startup.Inv (maxRows : Nat) (rowSize : UInt32) (row : Row) (s : Startup Row) : Prop where
  initialising : s.stores ≠ [] → s.Initialising rowSize row
  running : s.stores = [] →
    s.region.live.Inv maxRows (Live.start (motorShmRegionInit rowSize (zeroFilled row)))
  behind : Behind s.region.live

namespace Startup

variable {s s' : Startup Row}

theorem inv_initial : (initial rowSize row bufs).Inv maxRows rowSize row := by
  refine ⟨fun _ => ⟨List.suffix_rfl, stored_regionInitStores rowSize _, rfl, rfl, rfl⟩, ?_, ?_⟩
  · intro h
    cases h
  · exact ⟨Nat.le_refl _, fun pos hp => by cases hp⟩

theorem Inv.live (h : s.Inv maxRows rowSize row) (hpos : 0 < s.region.live.published.length) :
    s.region.live.Inv maxRows (Live.start (motorShmRegionInit rowSize (zeroFilled row))) := by
  by_cases hstores : s.stores = []
  · exact h.running hstores
  · rw [(h.initialising hstores).published] at hpos
    cases hpos

theorem Inv.reader (h : s.Inv maxRows rowSize row) (opening : Opening) (consumer : Consumer Row) :
    Inv maxRows rowSize row { s with opening, consumer } := by
  refine ⟨fun hne => ?_, h.running, h.behind⟩
  obtain ⟨hleft, hfinishes, hzero, hidle, hnone⟩ := h.initialising hne
  exact ⟨hleft, hfinishes, hzero, hidle, hnone⟩

/-- One store of the initialisation; with the last of them the region is that of
`motorShmRegionInit`. -/
theorem inv_init (h : s.Inv maxRows rowSize row) {store : LiveRegion Row → LiveRegion Row}
    {stores : List (LiveRegion Row → LiveRegion Row)} (hs : s.stores = store :: stores) :
    Inv maxRows rowSize row { s with stores, region := store s.region } ∧
      s.region.live.Advances (store s.region).live := by
  obtain ⟨hleft, hfinishes, hzero, hidle, hnone⟩ := h.initialising (by simp [hs])
  rw [hs] at hleft hfinishes
  obtain ⟨hzero', hidle', hnone', hadv⟩ :=
    store_advances (hleft.subset List.mem_cons_self) hzero
  refine ⟨⟨fun _ => ⟨(List.suffix_cons _ _).trans hleft, hfinishes, hzero', hidle'.trans hidle,
    hnone'.trans hnone⟩, ?_, ?_⟩, hadv⟩
  · rintro rfl
    have hdone : store s.region = _ := hfinishes
    simp only [hdone]
    exact inv_start rowSize _
  · refine ⟨?_, fun pos hp => ?_⟩
    · simp only [hzero']
      exact Nat.zero_le _
    · rw [hidle', hidle] at hp
      cases hp

theorem inv_step (h : s.Inv maxRows rowSize row) {e : StartupEvent Row}
    (hs : (startupMachine poller maxRows rowSize row bufs).step s e = some s') :
    s'.Inv maxRows rowSize row ∧
      (s.region.live.Advances s'.region.live ∧ s'.consumer = s.consumer ∨
        s'.region = s.region ∧ ∃ a, e = .consume a ∧
          consumerAct poller maxRows s.region.live s.consumer a = some s'.consumer) := by
  have hsame : s.region.live.Advances s.region.live := .outside _ s.region.live.producer
  cases e with
  | init =>
      cases hstores : s.stores <;> simp only [startupMachine, startupStep, hstores] at hs <;>
        cases hs
      obtain ⟨hinv, hadv⟩ := inv_init h hstores
      exact ⟨hinv, .inl ⟨hadv, rfl⟩⟩
  | call p =>
      cases hstores : s.stores <;> simp only [startupMachine, startupStep, hstores] at hs
      · obtain ⟨live, hcall, rfl⟩ := Option.map_eq_some_iff.mp hs
        obtain ⟨hinv, hadv⟩ := Live.inv_call (h.running hstores) hcall
        exact ⟨⟨fun hne => absurd rfl hne, fun _ => hinv, behind_call h.behind hcall⟩,
          .inl ⟨hadv, rfl⟩⟩
      · cases hs
  | produce =>
      cases hstores : s.stores <;> simp only [startupMachine, startupStep, hstores] at hs
      · obtain ⟨live, hproduce, rfl⟩ := Option.map_eq_some_iff.mp hs
        have hmove := Live.produce_move hproduce
        obtain ⟨hinv, hadv⟩ := Live.inv_move (h.running hstores) hmove
        exact ⟨⟨fun hne => absurd rfl hne, fun _ => hinv,
          behind_move (h.running hstores) h.behind hmove⟩, .inl ⟨hadv, rfl⟩⟩
      · cases hs
  | look =>
      obtain ⟨opening, -, rfl⟩ := Option.map_eq_some_iff.mp hs
      exact ⟨h.reader _ _, .inl ⟨hsame, rfl⟩⟩
  | consume a =>
      cases hopening : s.opening <;> simp only [startupMachine, startupStep, hopening] at hs <;>
        try cases hs
      obtain ⟨consumer, hact, rfl⟩ := Option.map_eq_some_iff.mp hs
      exact ⟨h.reader _ _, .inr ⟨rfl, a, rfl, hact⟩⟩

end Startup

section Runs

variable {s : Startup Row} {ok : Startup Row → StartupEvent Row → Prop}

theorem startup_invariant
    (h : (startupMachine poller maxRows rowSize row bufs).ReachableBy ok s) :
    s.Inv maxRows rowSize row := by
  refine h.invariant (I := Startup.Inv maxRows rowSize row) ?_ ?_
  · rintro s rfl
    exact Startup.inv_initial
  · intro s e s' _ hinv _ hs
    exact (Startup.inv_step hinv hs).1

/-- The rule for the reader: it keeps `I` as the region advances, and at every access
of its own. -/
theorem reader_invariant {I : Live Row → Consumer Row → Prop}
    (h : (startupMachine poller maxRows rowSize row bufs).ReachableBy ok s)
    (initial : I (Live.start (zeroFilled row)) (.initial bufs))
    (advance : ∀ l l' c, I l c → l.Advances l' → I l' c)
    (consume : ∀ s a c, (startupMachine poller maxRows rowSize row bufs).ReachableBy ok s →
      I s.region.live s.consumer → ok s (.consume a) →
      consumerAct poller maxRows s.region.live s.consumer a = some c → I s.region.live c) :
    I s.region.live s.consumer := by
  refine h.invariant (I := fun s => I s.region.live s.consumer) ?_ ?_
  · rintro s rfl
    exact initial
  · intro s e s' hr hI hok hs
    rcases (Startup.inv_step (startup_invariant hr) hs).2 with ⟨hadv, hsame⟩ | ⟨hsame, a, rfl, hact⟩
    · rw [hsame]
      exact advance _ _ _ hI hadv
    · rw [hsame]
      exact consume s a _ hr hI hok hact

/-! ## What the reader has seen -/

/-- It has seen no more blocks than there are, and reads a slot that has one. -/
def Consumer.Sighted (l : Live Row) (c : Consumer Row) : Prop :=
  match c.phase with
  | .sampled _ wp | .looping _ wp => wp.toNat ≤ l.published.length
  | .reading _ wp k _ =>
      wp.toNat ≤ l.published.length ∧ c.poll.readPos < wp ∧ k = c.poll.readPos.toNat % 16
  | _ => True

theorem sighted_advance {c : Consumer Row} (h : c.Sighted l) (hadv : l.Advances l') :
    c.Sighted l' := by
  have hlen := hadv.published.length_le
  cases hp : c.phase <;> simp only [Consumer.Sighted, hp] at h ⊢
  · exact Nat.le_trans h hlen
  · exact Nat.le_trans h hlen
  · exact ⟨Nat.le_trans h.1 hlen, h.2⟩

/-- A position behind the seen `write_pos` means that there is a block. -/
theorem published_pos {pos wp : UInt64} (hlt : pos < wp) (hle : wp.toNat ≤ l.published.length) :
    0 < l.published.length := by
  have := UInt64.lt_iff_toNat_lt.mp hlt
  omega

theorem sighted_move {c c' : Consumer Row} (hinv : s.Inv maxRows rowSize row)
    (h : c.Sighted s.region.live) (hmove : c.Move poller maxRows s.region.live c') :
    c'.Sighted s.region.live := by
  cases hmove with
  | openAt wp hp => trivial
  | sample maxBlocks hp => exact hinv.behind.writePos
  | skip maxBlocks wp hp =>
      simp only [Consumer.Sighted, hp] at h
      exact h
  | enter maxBlocks wp hp hlt hmax =>
      simp only [Consumer.Sighted, hp] at h
      exact ⟨h, hlt, (hinv.live (published_pos hlt h)).slotIndex_eq _⟩
  | leave maxBlocks wp hp => trivial
  | read maxBlocks wp k r hp hrunning =>
      simp only [Consumer.Sighted, hp] at h
      exact h
  | deliver maxBlocks wp k out hp =>
      simp only [Consumer.Sighted, hp] at h
      exact h.1
  | drop maxBlocks wp k out hp =>
      simp only [Consumer.Sighted, hp] at h
      exact h.1

theorem act_cases {c c' : Consumer Row} {e : ConsumerEvent Row}
    (hact : consumerAct poller maxRows l c e = some c') :
    c.Move poller maxRows l c' ∨ c'.delivered = c.delivered ∧
      (c'.phase = .opened l.writePos ∨ c'.phase = .idle ∨
        ∃ maxBlocks, c'.phase = .entered maxBlocks) := by
  cases e with
  | access => exact .inl (Consumer.access_move hact)
  | attach =>
      cases hp : c.phase <;> simp only [consumerAct, hp] at hact <;> cases hact
      exact .inr ⟨rfl, .inl rfl⟩
  | poll maxBlocks bufs =>
      cases hp : c.phase <;> simp only [consumerAct, hp] at hact <;> cases hact
      refine .inr ⟨rfl, .inr ?_⟩
      cases poller.looks maxBlocks with
      | true => exact .inr ⟨maxBlocks, rfl⟩
      | false => exact .inl rfl

theorem sighted (h : (startupMachine poller maxRows rowSize row bufs).ReachableBy ok s) :
    s.consumer.Sighted s.region.live := by
  refine reader_invariant (I := fun l c => Consumer.Sighted l c) h trivial
    (fun l l' c hI hadv => sighted_advance hI hadv) ?_
  intro s a c hr hI _ hact
  rcases act_cases hact with hmove | ⟨-, hp | hp | ⟨maxBlocks, hp⟩⟩
  · exact sighted_move (startup_invariant hr) hI hmove
  all_goals simp only [Consumer.Sighted, hp]

theorem indexSafe (h : (startupMachine poller maxRows rowSize row bufs).ReachableBy ok s) :
    s.IndexSafe := by
  have hinv := startup_invariant h
  have hsighted := sighted h
  rintro (hproducer | hconsumer)
  · by_cases hstores : s.stores = []
    · rw [(hinv.running hstores).depth]
      decide
    · rw [(hinv.initialising hstores).producer] at hproducer
      cases hproducer
  · cases hp : s.consumer.phase <;> simp only [Consumer.IndexesSlot, hp] at hconsumer
    simp only [Consumer.Sighted, hp] at hsighted
    rw [(hinv.live (published_pos hconsumer.1 hsighted)).depth]
    decide

/-! ## What the reader delivers -/

structure Consumer.Honest (maxRows : Nat) (l : Live Row) (c : Consumer Row) : Prop where
  delivered : ∀ d ∈ c.delivered, d.block ∈ l.published
  reading : ∀ maxBlocks wp k r, c.phase = .reading maxBlocks wp k r → k < 16 →
    r.Inv (slotLoads maxRows) (l.slots k) ∧
      ∀ out, r = .returned true out → copyOut out ∈ l.published

theorem honest_advance {c : Consumer Row} (h : c.Honest maxRows l) (hadv : l.Advances l') :
    c.Honest maxRows l' := by
  refine ⟨fun d hd => hadv.published.subset (h.delivered d hd), ?_⟩
  intro maxBlocks wp k r hp hk
  obtain ⟨hr, hret⟩ := h.reading maxBlocks wp k r hp hk
  exact ⟨hr.evolve (hadv.slots k hk), fun out hout => hadv.published.subset (hret out hout)⟩

theorem honest_between {c c' : Consumer Row} (h : c.Honest maxRows l)
    (hsame : c'.delivered = c.delivered) (hphase : c'.phase.isReading = false) :
    c'.Honest maxRows l := by
  refine ⟨by rw [hsame]; exact h.delivered, ?_⟩
  intro maxBlocks wp k r hp
  rw [hp] at hphase
  cases hphase

theorem block_published {first : BlockData Row} {published : List (BlockCopy Row)} {k pos : Nat}
    {c : Cell (BlockData Row)} (h : SlotInv maxRows first published k c) (hk : k = pos % 16)
    (hpos : pos < published.length) (hidle : c.busy = false) :
    c.data.block maxRows ∈ published := by
  have hcommits := h.commits
  cases hn : c.commits with
  | zero => omega
  | succ n => exact List.mem_of_getElem? (h.last n hidle hn)

theorem honest_move {c c' : Consumer Row} (hinv : s.Inv maxRows rowSize row)
    (hsighted : c.Sighted s.region.live) (h : c.Honest maxRows s.region.live)
    (hfew : ∀ maxBlocks wp k r, c.phase = .reading maxBlocks wp k r →
      r.Window (s.region.live.slots k))
    (hmove : c.Move poller maxRows s.region.live c') : c'.Honest maxRows s.region.live := by
  cases hmove with
  | openAt wp hp => exact honest_between h rfl rfl
  | sample maxBlocks hp => exact honest_between h rfl rfl
  | skip maxBlocks wp hp => exact honest_between h rfl rfl
  | leave maxBlocks wp hp => exact honest_between h rfl rfl
  | drop maxBlocks wp k out hp => exact honest_between h rfl rfl
  | enter maxBlocks wp hp hlt hmax =>
      refine ⟨h.delivered, ?_⟩
      rintro _ _ _ _ ⟨⟩ -
      exact ⟨trivial, fun out hout => by cases hout⟩
  | read maxBlocks wp k r hp hrunning =>
      simp only [Consumer.Sighted, hp] at hsighted
      obtain ⟨hle, hlt, hk⟩ := hsighted
      have hslot := (hinv.live (published_pos hlt hle)).slots k (by omega)
      refine ⟨h.delivered, ?_⟩
      rintro _ _ _ _ ⟨⟩ hk16
      obtain ⟨hr, -⟩ := h.reading maxBlocks wp k r hp hk16
      refine ⟨hr.step hslot.counts, fun out hout => ?_⟩
      -- what is believed is what the slot holds, and its position was published
      obtain ⟨left, a, -, -, hidle, rfl⟩ :=
        hr.believed hslot.counts (hfew maxBlocks wp k r hp) hrunning hout
      rw [run_slotLoads, copyOut_copySlot]
      have hpos := UInt64.lt_iff_toNat_lt.mp hlt
      exact block_published hslot hk (by omega) hidle
  | deliver maxBlocks wp k out hp =>
      simp only [Consumer.Sighted, hp] at hsighted
      obtain ⟨-, hret⟩ := h.reading maxBlocks wp k _ hp (by omega)
      refine ⟨fun d hd => ?_, fun _ _ _ _ hphase => by cases hphase⟩
      rcases List.mem_append.mp hd with hold | hnew
      · exact h.delivered d hold
      · rw [List.mem_singleton.mp hnew]
        exact hret out rfl

theorem honest
    (h : (startupMachine poller maxRows rowSize row bufs).ReachableBy Startup.FewPublishes s) :
    s.consumer.Honest maxRows s.region.live := by
  refine reader_invariant (I := fun l c => Consumer.Honest maxRows l c) h ?_
    (fun l l' c hI hadv => honest_advance hI hadv) ?_
  · refine ⟨fun d hd => ?_, fun _ _ _ _ hp => ?_⟩
    · cases hd
    · cases hp
  · intro s a c hr hI hok hact
    rcases act_cases hact with hmove | ⟨hsame, hp | hp | ⟨maxBlocks, hp⟩⟩
    · refine honest_move (startup_invariant hr) (sighted hr) hI ?_ hmove
      intro maxBlocks wp k r hp
      simpa only [Startup.FewPublishes, hp] using hok
    all_goals exact honest_between hI hsame (by rw [hp]; rfl)

/-- However a reader that waits for the region is interleaved with its initialisation
and the publishes after it, no slot index is computed modulo 0; and while no copying
attempt sees 2^31 publishes to its slot, only published blocks are delivered. -/
theorem waiting_reader_safe (s : Startup Row) :
    ((startupMachine poller maxRows rowSize row bufs).Reachable s → s.IndexSafe) ∧
      ((startupMachine poller maxRows rowSize row bufs).ReachableBy Startup.FewPublishes s →
        s.DeliversPublished) :=
  ⟨indexSafe, fun h => (honest h).delivered⟩

end Runs

/-! ## Once the region is accepted -/

section Accepted

variable {ok : Startup Row → StartupEvent Row → Prop}

/-- The region is initialised, and the reader has accepted it. -/
def Startup.accepted (rowSize : UInt32) (s : System Row (Consumer Row)) : Startup Row where
  stores := []
  region := { magic := motorShmMagic, version := motorContractVersion, rowSize, live := s.live }
  opening := .accepted
  consumer := s.consumers

def StartupEvent.ofSystem : SystemEvent Row (ConsumerEvent Row) → StartupEvent Row
  | .call p => .call p
  | .produce => .produce
  | .consume a => .consume a

theorem reachable_stores (hok : ∀ s, ok s .init) {opening : Opening} {consumer : Consumer Row}
    {stores : List (LiveRegion Row → LiveRegion Row)} {region : LiveRegion Row}
    (h : (startupMachine poller maxRows rowSize row bufs).ReachableBy ok
      ⟨stores, region, opening, consumer⟩) :
    (startupMachine poller maxRows rowSize row bufs).ReachableBy ok
      ⟨[], Cell.stored stores region, opening, consumer⟩ := by
  induction stores generalizing region with
  | nil => exact h
  | cons store stores ih => exact ih (h.step (hok _) rfl)

theorem reachable_accepted (hok : ∀ s, ok s .look) {left : Nat} {consumer : Consumer Row}
    {stores : List (LiveRegion Row → LiveRegion Row)} {region : LiveRegion Row}
    (hvalid : ∀ load : ValidLoad, load.found rowSize region = true)
    (h : (startupMachine poller maxRows rowSize row bufs).ReachableBy ok
      ⟨stores, region, .waiting left .magic, consumer⟩) :
    (startupMachine poller maxRows rowSize row bufs).ReachableBy ok
      ⟨stores, region, .accepted, consumer⟩ := by
  have hlook : ∀ opening opening', opening.step rowSize region = some opening' →
      (startupMachine poller maxRows rowSize row bufs).ReachableBy ok
        ⟨stores, region, opening, consumer⟩ →
      (startupMachine poller maxRows rowSize row bufs).ReachableBy ok
        ⟨stores, region, opening', consumer⟩ := by
    intro opening opening' hstep hr
    exact hr.step (hok _) (Option.map_eq_some_iff.mpr ⟨opening', hstep, rfl⟩)
  have hwaited := hlook (.waiting left .magic) (.waiting left .version) ?_ h
  have hseen := hlook _ (.deciding .magic) ?_ (hlook _ (.waiting left .rowSize) ?_ hwaited)
  have hdeciding := hlook _ (.deciding .rowSize) ?_ (hlook _ (.deciding .version) ?_ hseen)
  exact hlook _ .accepted (by simp [Opening.step, hvalid, ValidLoad.next]) hdeciding
  all_goals simp [Opening.step, hvalid, ValidLoad.next]

theorem reachable_startup {s : System Row (Consumer Row)}
    {okPoll : System Row (Consumer Row) → SystemEvent Row (ConsumerEvent Row) → Prop}
    (hinit : ∀ s, ok s .init) (hlook : ∀ s, ok s .look)
    (hok : ∀ s e, okPoll s e → ok (.accepted rowSize s) (.ofSystem e))
    (h : (pollMachine poller maxRows rowSize (zeroFilled row) bufs).ReachableBy okPoll s) :
    (startupMachine poller maxRows rowSize row bufs).ReachableBy ok (.accepted rowSize s) := by
  induction h with
  | initial hi =>
      cases hi
      have hstored := reachable_stores hinit
        (.initial rfl : (startupMachine poller maxRows rowSize row bufs).ReachableBy ok
          (.initial rowSize row bufs))
      rw [stored_regionInitStores] at hstored
      exact reachable_accepted hlook ((valid_iff_found rowSize _).mp (valid_init rowSize _)) hstored
  | @step s s' e _ hguard hs ih =>
      refine ih.step (e := .ofSystem e) (hok s e hguard) ?_
      cases e with
      | call p =>
          obtain ⟨live, hlive, rfl⟩ := Option.map_eq_some_iff.mp hs
          exact Option.map_eq_some_iff.mpr ⟨live, hlive, rfl⟩
      | produce =>
          obtain ⟨live, hlive, rfl⟩ := Option.map_eq_some_iff.mp hs
          exact Option.map_eq_some_iff.mpr ⟨live, hlive, rfl⟩
      | consume a =>
          obtain ⟨consumer, hact, rfl⟩ := Option.map_eq_some_iff.mp hs
          exact Option.map_eq_some_iff.mpr ⟨consumer, hact, rfl⟩

end Accepted

/-! ## Concrete runs -/

/-- A `shm_reader` of a new object. -/
def readerStartup : Machine (Startup MotorRow) (StartupEvent MotorRow) :=
  startupMachine .reader motorMaxRowsPerBlock (UInt32.ofNat motorRowBytes) zeroRow
    fun _ => zeroBlock.toBlockData

/-- The region is initialised, the reader opens it, and the first block is delivered. -/
theorem first_block_safe :
    ∃ c : Consumer MotorRow, c.delivered.length = 1 ∧
      (Startup.accepted (UInt32.ofNat motorRowBytes) ⟨numberedLive 1, c⟩).IndexSafe ∧
      (Startup.accepted (UInt32.ofNat motorRowBytes) ⟨numberedLive 1, c⟩).DeliversPublished := by
  rw [numberedLive_eq]
  generalize (fun i => dataHeader (UInt32.ofNat i) 0 0 1 0) = hdr
  have hsaw : numberedMachine.ReachableBy
      (fun s e => (Startup.accepted (UInt32.ofNat motorRowBytes) s).FewPublishes (.ofSystem e))
      ⟨publishedLive hdr 1, sawOneBlock⟩ := by
    refine reachable_sawOneBlock 0 (fun _ _ => trivial) (fun _ _ _ => trivial) ?_ (by omega)
    intro l c e hc
    cases hp : c.phase <;>
      simp only [StartupEvent.ofSystem, Startup.FewPublishes, Startup.accepted, hp]
    rw [hp] at hc
    cases hc
  obtain ⟨c, hreach, hdelivered⟩ := reachable_first_delivery trivial (fun r hr => hr) hsaw
  have hstartup : readerStartup.ReachableBy Startup.FewPublishes
      (.accepted (UInt32.ofNat motorRowBytes) ⟨publishedLive hdr 1, c⟩) :=
    reachable_startup (fun _ => trivial) (fun _ => trivial) (fun _ _ hok => hok) hreach
  exact ⟨c, by rw [hdelivered]; rfl, (waiting_reader_safe _).1 hstartup.unguarded,
    (waiting_reader_safe _).2 hstartup⟩

section Torn

variable {c : Consumer MotorRow} {l : Live MotorRow} {maxBlocks k : Nat} {wp : UInt64}
  {r : Reader (BlockData MotorRow) (BlockData MotorRow)}

/-- The first block has sequence 1, all others have timestamp 1. -/
def stampedHeader (i : Nat) : FrameHeader :=
  if i = 0 then dataHeader 1 0 0 1 0 else dataHeader 0 1 0 1 0

theorem stampedHeader_later {i : Nat} (h : i ≠ 0) : stampedHeader i = dataHeader 0 1 0 1 0 :=
  if_neg h

theorem stampedHeader_one (i : Nat) (hseq : (stampedHeader i).seq = 1) :
    (stampedHeader i).timestamp = 0 := by
  by_cases hi : i = 0
  · subst hi
    rfl
  · rw [stampedHeader_later hi] at hseq
    exact absurd hseq (by decide)

theorem reachable_reading (hrunning : r.running = true)
    (h : numberedMachine.Reachable ⟨l, { c with phase := .reading maxBlocks wp k r }⟩) :
    numberedMachine.Reachable
      ⟨l, { c with
        phase := .reading maxBlocks wp k
          (r.step (slotLoads motorMaxRowsPerBlock) (l.slots k)) }⟩ := by
  refine reachable_consume (a := .access) h trivial ?_
  cases r with
  | opening left out => rfl
  | copying left a => rfl
  | returned res out => cases hrunning

/-- The reader of `c` has loaded `n_rows` and copied `producer_seq`. -/
def halfCopied (c : Cell (BlockData MotorRow)) (out : BlockData MotorRow) :
    Reader (BlockData MotorRow) (BlockData MotorRow) :=
  let n := clampRows motorMaxRowsPerBlock c.data.nRows
  .copying 63
    { s1 := c.word
      rest := .load fun slot =>
        let out :=
          { out with
            producerSeq := c.data.producerSeq, timestamp := slot.timestamp, nRows := n }
        .load fun slot => rowLoads { out with flags := slot.flags } 0 n.toNat
      before := out
      opened := c.commits }

theorem reachable_halfCopied {out : BlockData MotorRow} (heven : (l.slots k).word &&& 1 = 0)
    (h : numberedMachine.Reachable
      ⟨l, { c with phase := .reading maxBlocks wp k (.opening readTries out) }⟩) :
    numberedMachine.Reachable
      ⟨l, { c with phase := .reading maxBlocks wp k (halfCopied (l.slots k) out) }⟩ := by
  have hopened := reachable_reading rfl h
  have hstep : (Reader.opening readTries out).step (slotLoads motorMaxRowsPerBlock) (l.slots k) =
      .copying 63
        { s1 := (l.slots k).word, rest := slotLoads motorMaxRowsPerBlock out, before := out
          opened := (l.slots k).commits } := by
    simp [Reader.step, readTries, heven]
  rw [hstep] at hopened
  exact reachable_reading rfl (reachable_reading rfl hopened)

theorem reachable_torn {first : Cell (BlockData MotorRow)} {out : BlockData MotorRow}
    (hrows : clampRows motorMaxRowsPerBlock first.data.nRows = 1)
    (hsame : first.word = (l.slots k).word)
    (h : numberedMachine.Reachable
      ⟨l, { c with phase := .reading maxBlocks wp k (halfCopied first out) }⟩) :
    ∃ c' : Consumer MotorRow, numberedMachine.Reachable ⟨l, c'⟩ ∧
      ∃ d ∈ c'.delivered, d.block.producerSeq = first.data.producerSeq ∧
        d.block.timestamp = (l.slots k).data.timestamp := by
  rw [halfCopied, hrows] at h
  have hcopied := reachable_reading rfl (reachable_reading rfl (reachable_reading rfl h))
  have hread := reachable_reading rfl hcopied
  simp only [Reader.step, UInt16.reduceToNat, rowLoads, hsame, if_true] at hread
  exact ⟨_, reachable_consume (a := .access) hread trivial rfl, _,
    List.mem_append_right _ (List.mem_singleton_self _), rfl, rfl⟩

/-- Half of the first block, then 2^31 further blocks into its slot, then the rest:
the mixture is delivered. -/
theorem torn_block_delivered :
    ¬ ∀ s, readerStartup.Reachable s → s.IndexSafe ∧ s.DeliversPublished := by
  intro hall
  obtain ⟨n, hn⟩ : ∃ n, n = 16 * 2 ^ 31 := ⟨_, rfl⟩
  have hsaw : numberedMachine.Reachable ⟨publishedLive stampedHeader 1, sawOneBlock⟩ :=
    reachable_sawOneBlock 0 (fun _ _ => trivial) (fun _ _ _ => trivial)
      (fun _ _ _ _ => trivial) (by omega)
  obtain ⟨hword, hblock⟩ := publishedLive_block (q := 0) rfl hsaw
  have heven : ((publishedLive stampedHeader 1).slots 0).word &&& 1 = 0 := by
    rw [hword]
    decide
  have hrows : clampRows motorMaxRowsPerBlock
      ((publishedLive stampedHeader 1).slots 0).data.nRows = 1 :=
    (congrArg BlockCopy.nRows hblock).trans (by decide)
  have hentered : numberedMachine.Reachable ⟨publishedLive stampedHeader 1, { sawOneBlock with
      phase := .reading 1 1 0 (.opening readTries zeroBlock.toBlockData) }⟩ :=
    reachable_consume (a := .access) hsaw trivial rfl
  have hlater := reachable_published 1 n (fun _ _ => trivial) (fun _ _ _ => trivial) (by omega)
    (reachable_halfCopied heven hentered)
  obtain ⟨hword', hblock'⟩ := publishedLive_block (q := 2 ^ 31) (by omega) hlater
  -- 2^31 publishes take the word round to where it was
  have hsame : ((publishedLive stampedHeader 1).slots 0).word =
      ((publishedLive stampedHeader (1 + n)).slots 0).word := by
    rw [hword, hword']
    decide
  obtain ⟨c, hreach, d, hd, hseq, htime⟩ := reachable_torn hrows hsame hlater
  have hstartup : readerStartup.Reachable
      (.accepted (UInt32.ofNat motorRowBytes) ⟨publishedLive stampedHeader (1 + n), c⟩) :=
    reachable_startup (fun _ => trivial) (fun _ => trivial) (fun _ _ hok => hok) hreach
  have hmem : d.block ∈ (publishedLive stampedHeader (1 + n)).published :=
    (hall _ hstartup).2 d hd
  rw [publishedLive_published] at hmem
  obtain ⟨i, -, hi⟩ := List.mem_map.mp hmem
  have hone : (stampedHeader i).seq = 1 :=
    (congrArg BlockCopy.producerSeq hi).trans (hseq.trans (congrArg BlockCopy.producerSeq hblock))
  have hlast : (stampedHeader i).timestamp = 1 := by
    have htime' := htime.trans (congrArg BlockCopy.timestamp hblock')
    rw [stampedHeader_later (by decide)] at htime'
    exact (congrArg BlockCopy.timestamp hi).trans htime'
  rw [stampedHeader_one i hone] at hlast
  exact absurd hlast (by decide)

end Torn

end QnxHypervisor.ShmReader
