import QnxHypervisor.MotorShm.Interleaved

/-! # Systems of one producer and its consumers

What every interleaving keeps true of the region: which publishes a slot has
seen, and whose block it holds while nobody writes it. Consumers rely on no more
of the producer than `Advances`.
-/

namespace QnxHypervisor.MotorShm

open Foundation MotorWire

variable {Row γ α : Type} {maxRows : Nat} {start l l' : Live Row}

/-! ## The region under publishes -/

/-- Slot `k` has seen every publish whose number is `k` modulo 16; at rest it holds
the block of the last of them, or what it held to begin with. -/
structure SlotInv (maxRows : Nat) (first : BlockData Row) (published : List (BlockCopy Row))
    (k : Nat) (c : Cell (BlockData Row)) : Prop where
  counts : c.Counts
  commits : c.commits = (published.length + 15 - k) / 16
  fresh : c.busy = false → c.commits = 0 → c.data = first
  last : ∀ n, c.busy = false → c.commits = n + 1 →
    published[16 * n + k]? = some (c.data.block maxRows)

/-- At rest the snapshot is one that was published, or the one it began with. -/
structure SnapshotInv (first : SnapshotData Row) (snapshots : List (SnapshotData Row))
    (c : Cell (SnapshotData Row)) : Prop where
  counts : c.Counts
  value : c.busy = false → c.data = first ∨ c.data ∈ snapshots

namespace Live

/-- No slot but `k` is being written. -/
def SlotsAtRest (l : Live Row) (k : Option Nat) : Prop :=
  ∀ j < 16, some j ≠ k → (l.slots j).busy = false

/-- How far the producer is through its call. -/
def ProducerInv (maxRows : Nat) (l : Live Row) : Prop :=
  match l.producer with
  | .idle | .loadPos _ _ =>
      l.writePos = UInt64.ofNat l.published.length ∧ l.SlotsAtRest none ∧ l.snapshot.busy = false
  | .loadDepth _ _ pos =>
      pos = l.writePos ∧ l.writePos = UInt64.ofNat l.published.length ∧ l.SlotsAtRest none ∧
        l.snapshot.busy = false
  | .writeSlot hdr rows pos k w =>
      pos = l.writePos ∧ l.writePos = UInt64.ofNat l.published.length ∧
        k = l.published.length % 16 ∧ l.SlotsAtRest (some k) ∧ l.snapshot.busy = false ∧
        w.Inv (fun b => b.block maxRows = blockOf maxRows hdr rows) (l.slots k)
  | .storePos pos =>
      pos = l.writePos ∧ l.writePos + 1 = UInt64.ofNat l.published.length ∧ l.SlotsAtRest none ∧
        l.snapshot.busy = false
  | .writeSnapshot d w =>
      l.writePos = UInt64.ofNat l.published.length ∧ l.SlotsAtRest none ∧
        w.Inv (fun s => s = d) l.snapshot

structure Inv (maxRows : Nat) (l start : Live Row) : Prop where
  depth : l.depth = motorRingDepth
  slots : ∀ k < 16, SlotInv maxRows (start.slots k).data l.published k (l.slots k)
  snapshot : SnapshotInv start.snapshot.data l.snapshots l.snapshot
  producer : l.ProducerInv maxRows

/-- What a consumer sees of an access of the producer. -/
structure Advances (l l' : Live Row) : Prop where
  slots : ∀ k < 16, (l.slots k).Evolves (l'.slots k)
  snapshot : l.snapshot.Evolves l'.snapshot
  published : l.published <+: l'.published
  snapshots : l.snapshots <+: l'.snapshots
  writePos : l'.writePos = l.writePos ∨ l'.writePos = l.writePos + 1

theorem Advances.outside (l : Live Row) (producer : Producer Row) :
    l.Advances { l with producer } :=
  ⟨fun _ _ => .refl _, .refl _, List.prefix_rfl, List.prefix_rfl, .inl rfl⟩

theorem Advances.kept (h : l.Advances l') {q : Nat} {b : BlockCopy Row}
    (hq : l.published[q]? = some b) : l'.published[q]? = some b := by
  obtain ⟨hlt, -⟩ := List.getElem?_eq_some_iff.mp hq
  obtain ⟨later, hlater⟩ := h.published
  rw [← hlater, List.getElem?_append_left hlt]
  exact hq

end Live

/-! ## Initial regions -/

theorem inv_start (rowSize : UInt32) (r : ShmRegion Row) :
    (Live.start (motorShmRegionInit rowSize r)).Inv maxRows
      (Live.start (motorShmRegionInit rowSize r)) := by
  refine ⟨rfl, ?_, ⟨rfl, fun _ => .inl rfl⟩, rfl, fun _ _ _ => rfl, rfl⟩
  intro k hk
  have hseq : ((motorShmRegionInit rowSize r).ring.slots k).seq = 0 := by
    simp only [motorShmRegionInit]
    rw [if_pos (show k < motorRingDepth.toNat from hk)]
  refine ⟨hseq, ?_, fun _ _ => rfl, fun n _ hn => ?_⟩
  · show 0 = (0 + 15 - k) / 16
    omega
  · cases hn

/-! ## Single accesses -/

/-- A store inside slot `k` that is not its last keeps its record. -/
theorem SlotInv.store {first : BlockData Row} {published : List (BlockCopy Row)} {k : Nat}
    {c c' : Cell (BlockData Row)} (h : SlotInv maxRows first published k c) (hcounts : c'.Counts)
    (hcommits : c'.commits = c.commits)
    (hsettled : c'.busy = false → c.busy = false ∧ c'.data = c.data) :
    SlotInv maxRows first published k c' := by
  refine ⟨hcounts, hcommits.trans h.commits, ?_, ?_⟩
  · intro hidle hzero
    obtain ⟨hidle, hdata⟩ := hsettled hidle
    rw [hdata]
    exact h.fresh hidle (hcommits ▸ hzero)
  · intro n hidle hn
    obtain ⟨hidle, hdata⟩ := hsettled hidle
    rw [hdata]
    exact h.last n hidle (hcommits ▸ hn)

theorem SlotInv.other {first : BlockData Row} {published : List (BlockCopy Row)} {k : Nat}
    {c : Cell (BlockData Row)} (h : SlotInv maxRows first published k c) (hk : k < 16)
    (hother : k ≠ published.length % 16) (b : BlockCopy Row) :
    SlotInv maxRows first (published ++ [b]) k c := by
  refine ⟨h.counts, ?_, h.fresh, ?_⟩
  · rw [h.commits, List.length_append, List.length_singleton]
    omega
  · intro n hidle hn
    have hlast := h.last n hidle hn
    obtain ⟨hlt, -⟩ := List.getElem?_eq_some_iff.mp hlast
    rw [List.getElem?_append_left hlt]
    exact hlast

theorem SlotInv.commit {first : BlockData Row} {published : List (BlockCopy Row)} {k : Nat}
    {c c' : Cell (BlockData Row)} (h : SlotInv maxRows first published k c)
    (hk : k = published.length % 16) (hcounts : c'.Counts) (hcommits : c'.commits = c.commits + 1)
    {b : BlockCopy Row} (hblock : c'.data.block maxRows = b) :
    SlotInv maxRows first (published ++ [b]) k c' := by
  have hold := h.commits
  refine ⟨hcounts, ?_, fun _ hzero => by omega, ?_⟩
  · rw [hcommits, hold, List.length_append, List.length_singleton]
    omega
  · intro n _ hn
    have hlast : 16 * n + k = published.length := by omega
    rw [hlast, List.getElem?_concat_length, hblock]

namespace Live

theorem inv_call {p : PublishCall Row} (h : l.Inv maxRows start) (hc : l.call p = some l') :
    l'.Inv maxRows start ∧ l.Advances l' := by
  obtain ⟨hidle, rfl⟩ := call_eq hc
  have hproducer := h.producer
  simp only [ProducerInv, hidle] at hproducer
  refine ⟨⟨h.depth, h.slots, h.snapshot, ?_⟩, .outside l _⟩
  cases p with
  | ring hdr rows => exact hproducer
  | snapshot d =>
      obtain ⟨hpos, hrest, hsnapshot⟩ := hproducer
      exact ⟨hpos, hrest, hsnapshot, fun old => stored_snapshotStores d old⟩

theorem Inv.slotIndex_eq (h : l.Inv maxRows start) (pos : UInt64) :
    slotIndex l.depth pos = pos.toNat % 16 := by
  rw [slotIndex, h.depth]
  rfl

theorem forall_slots_update {slots : Nat → Cell (BlockData Row)} {k : Nat}
    {c : Cell (BlockData Row)} {P : Nat → Cell (BlockData Row) → Prop} (hself : P k c)
    (hother : ∀ j < 16, j ≠ k → P j (slots j)) :
    ∀ j < 16, P j (Function.update slots k c j) := by
  intro j hj
  by_cases hjk : j = k
  · subst hjk
    rw [Function.update_self]
    exact hself
  · rw [Function.update_of_ne hjk]
    exact hother j hj hjk

theorem evolves_update {k : Nat} {c : Cell (BlockData Row)} (hev : (l.slots k).Evolves c) :
    ∀ j < 16, (l.slots j).Evolves (Function.update l.slots k c j) :=
  forall_slots_update (P := fun j c => (l.slots j).Evolves c) hev fun _ _ _ => .refl _

theorem inv_move (h : l.Inv maxRows start) (hmove : l.Move maxRows l') :
    l'.Inv maxRows start ∧ l.Advances l' := by
  have hproducer := h.producer
  cases hmove with
  | loadPos hdr rows hp =>
      simp only [ProducerInv, hp] at hproducer
      exact ⟨⟨h.depth, h.slots, h.snapshot, rfl, hproducer⟩, .outside l _⟩
  | loadDepth hdr rows pos hp =>
      simp only [ProducerInv, hp] at hproducer
      obtain ⟨rfl, hpos, hrest, hidle⟩ := hproducer
      have hk : slotIndex l.depth l.writePos = l.published.length % 16 := by
        rw [h.slotIndex_eq, hpos, UInt64.toNat_ofNat']
        omega
      refine ⟨⟨h.depth, h.slots, h.snapshot, rfl, hpos, hk, ?_, hidle, ?_, ?_⟩, .outside l _⟩
      · intro j hj _
        exact hrest j hj (by simp)
      · exact hrest _ (by rw [hk]; omega) (by simp)
      · intro old
        rw [stored_ringStores]
        exact block_storeBlock maxRows hdr rows old
  | storeSlot hdr rows pos k w w' c hp hs =>
      simp only [ProducerInv, hp] at hproducer
      obtain ⟨rfl, hpos, hk, hrest, hidle, hw⟩ := hproducer
      have hslot := h.slots k (by omega)
      obtain ⟨hcounts, hw', hcommits, hsettled⟩ := Writer.step_some hslot.counts hw hs
      refine ⟨⟨h.depth, ?_, h.snapshot, rfl, hpos, hk, ?_, hidle, ?_⟩, ?_, .refl _,
        List.prefix_rfl, List.prefix_rfl, .inl rfl⟩
      · exact forall_slots_update (P := fun j => SlotInv maxRows (start.slots j).data l.published j)
          (hslot.store hcounts hcommits hsettled) fun j hj _ => h.slots j hj
      · intro j hj hne
        have hjk : j ≠ k := fun heq => hne (congrArg some heq)
        simp only [Function.update_of_ne hjk]
        exact hrest j hj hne
      · simp only [Function.update_self]
        exact hw'
      · exact evolves_update (Writer.evolves hslot.counts hw hs)
  | commitSlot hdr rows pos k w c hp hs =>
      simp only [ProducerInv, hp] at hproducer
      obtain ⟨rfl, hpos, hk, hrest, hidle, hw⟩ := hproducer
      have hslot := h.slots k (by omega)
      obtain ⟨hcounts, hdone, hcommits, hblock⟩ := Writer.step_none hslot.counts hw hs
      refine ⟨⟨h.depth, ?_, h.snapshot, rfl, ?_, ?_, hidle⟩, ?_, .refl _,
        List.prefix_append _ _, List.prefix_rfl, .inl rfl⟩
      · exact forall_slots_update (P := fun j => SlotInv maxRows (start.slots j).data _ j)
          (hslot.commit hk hcounts hcommits hblock)
          fun j hj hjk => (h.slots j hj).other hj (by omega) _
      · simp only [hpos, List.length_append, List.length_singleton]
        exact (UInt64.ofNat_add _ 1).symm
      · intro j hj _
        exact forall_slots_update (P := fun _ c => c.busy = false) hdone
          (fun j hj hjk => hrest j hj (by simpa using hjk)) j hj
      · exact evolves_update (Writer.evolves hslot.counts hw hs)
  | storePos pos hp =>
      simp only [ProducerInv, hp] at hproducer
      obtain ⟨rfl, hpos, hrest, hidle⟩ := hproducer
      exact ⟨⟨h.depth, h.slots, h.snapshot, hpos, hrest, hidle⟩,
        ⟨fun _ _ => .refl _, .refl _, List.prefix_rfl, List.prefix_rfl, .inr rfl⟩⟩
  | storeSnapshot d w w' c hp hs =>
      simp only [ProducerInv, hp] at hproducer
      obtain ⟨hpos, hrest, hw⟩ := hproducer
      obtain ⟨hcounts, hw', hcommits, hsettled⟩ := Writer.step_some h.snapshot.counts hw hs
      refine ⟨⟨h.depth, h.slots, ⟨hcounts, ?_⟩, hpos, hrest, hw'⟩, fun _ _ => .refl _,
        Writer.evolves h.snapshot.counts hw hs, List.prefix_rfl, List.prefix_rfl, .inl rfl⟩
      intro hidle
      obtain ⟨hidle, hdata⟩ := hsettled hidle
      rw [hdata]
      exact h.snapshot.value hidle
  | commitSnapshot d w c hp hs =>
      simp only [ProducerInv, hp] at hproducer
      obtain ⟨hpos, hrest, hw⟩ := hproducer
      obtain ⟨hcounts, hdone, hcommits, hdata⟩ := Writer.step_none h.snapshot.counts hw hs
      refine ⟨⟨h.depth, h.slots, ⟨hcounts, fun _ => .inr ?_⟩, hpos, hrest, hdone⟩,
        fun _ _ => .refl _, Writer.evolves h.snapshot.counts hw hs, List.prefix_rfl,
        List.prefix_append _ _, .inl rfl⟩
      rw [hdata]
      exact List.mem_append_right _ (List.mem_singleton_self d)

end Live

/-! ## Systems -/

/-- The region with its producer, and all that the consumers keep. -/
structure System (Row γ : Type) where
  live : Live Row
  consumers : γ

inductive SystemEvent (Row α : Type) where
  | call (p : PublishCall Row)
  | produce
  | consume (a : α)

/-- `act` is what one access of a consumer makes of what the consumers keep. -/
def systemMachine (maxRows : Nat) (start : Live Row) (init : γ)
    (act : Live Row → γ → α → Option γ) : Machine (System Row γ) (SystemEvent Row α) where
  initial s := s = ⟨start, init⟩
  step s
    | .call p => (s.live.call p).map fun live => { s with live }
    | .produce => (s.live.produce maxRows).map fun live => { s with live }
    | .consume a => (act s.live s.consumers a).map fun consumers => { s with consumers }

variable {init : γ} {act : Live Row → γ → α → Option γ} {s s' : System Row γ}
  {ok : System Row γ → SystemEvent Row α → Prop} {g : γ}

theorem system_call {p : PublishCall Row}
    (hs : (systemMachine maxRows start init act).step s (.call p) = some s') :
    s.live.call p = some s'.live ∧ s'.consumers = s.consumers := by
  obtain ⟨l, hl, rfl⟩ := Option.map_eq_some_iff.mp hs
  exact ⟨hl, rfl⟩

theorem system_produce (hs : (systemMachine maxRows start init act).step s .produce = some s') :
    s.live.produce maxRows = some s'.live ∧ s'.consumers = s.consumers := by
  obtain ⟨l, hl, rfl⟩ := Option.map_eq_some_iff.mp hs
  exact ⟨hl, rfl⟩

theorem system_consume {a : α}
    (hs : (systemMachine maxRows start init act).step s (.consume a) = some s') :
    s'.live = s.live ∧ act s.live s.consumers a = some s'.consumers := by
  obtain ⟨g, hg, rfl⟩ := Option.map_eq_some_iff.mp hs
  exact ⟨rfl, hg⟩

theorem live_invariant (hstart : start.Inv maxRows start)
    (h : (systemMachine maxRows start init act).ReachableBy ok s) : s.live.Inv maxRows start := by
  refine h.invariant (I := fun s => s.live.Inv maxRows start) ?_ ?_
  · rintro s rfl
    exact hstart
  · intro s e s' _ hinv _ hs
    cases e with
    | call p => exact (Live.inv_call hinv (system_call hs).1).1
    | produce => exact (Live.inv_move hinv (Live.produce_move (system_produce hs).1)).1
    | consume a =>
        rw [(system_consume hs).1]
        exact hinv

/-- The rule for consumers: they keep `I` as the producer advances, and at every
access of their own. -/
theorem consumers_invariant {I : Live Row → γ → Prop} (hstart : start.Inv maxRows start)
    (h : (systemMachine maxRows start init act).ReachableBy ok s) (initial : I start init)
    (advance : ∀ s s', (systemMachine maxRows start init act).ReachableBy ok s →
      (systemMachine maxRows start init act).ReachableBy ok s' → I s.live s.consumers →
      s.live.Advances s'.live → I s'.live s.consumers)
    (consume : ∀ s a g, (systemMachine maxRows start init act).ReachableBy ok s →
      s.live.Inv maxRows start → I s.live s.consumers → ok s (.consume a) →
      act s.live s.consumers a = some g → I s.live g) : I s.live s.consumers := by
  refine h.invariant (I := fun s => I s.live s.consumers) ?_ ?_
  · rintro s rfl
    exact initial
  · intro s e s' hr hI hok hs
    have hinv := live_invariant hstart hr
    cases e with
    | call p =>
        obtain ⟨hcall, hsame⟩ := system_call hs
        rw [hsame]
        exact advance s s' hr (hr.step hok hs) hI (Live.inv_call hinv hcall).2
    | produce =>
        obtain ⟨hproduce, hsame⟩ := system_produce hs
        rw [hsame]
        exact advance s s' hr (hr.step hok hs) hI
          (Live.inv_move hinv (Live.produce_move hproduce)).2
    | consume a =>
        obtain ⟨hlive, hact⟩ := system_consume hs
        rw [hlive]
        exact consume s a _ hr hinv hI hok hact

/-! ## Uninterrupted calls -/

/-- The region after a whole `motor_ring_publish`. -/
def Live.ringPublished (maxRows : Nat) (l : Live Row) (hdr : FrameHeader) (rows : Nat → Row) :
    Live Row :=
  let k := slotIndex l.depth l.writePos
  { l with
    writePos := l.writePos + 1
    slots := Function.update l.slots k ((l.slots k).write (ringStores maxRows hdr rows))
    producer := .idle
    published := l.published ++ [blockOf maxRows hdr rows] }

/-- The ring without its history. -/
def Live.ring (l : Live Row) : ShmBlockRing Row where
  writePos := l.writePos
  depth := l.depth
  slots := fun i => { toBlockData := (l.slots i).data, seq := (l.slots i).word }

/-- Its accesses together are `motorRingPublish`. -/
theorem ring_ringPublished (l : Live Row) (hdr : FrameHeader) (rows : Nat → Row) :
    (l.ringPublished maxRows hdr rows).ring = motorRingPublish maxRows l.ring hdr rows := by
  simp only [Live.ring, Live.ringPublished, motorRingPublish, ShmBlockRing.mk.injEq, true_and]
  funext i
  by_cases hi : i = slotIndex l.depth l.writePos
  · subst hi
    simp only [Function.update_self, setSlot_self, Cell.write, stored_ringStores]
  · rw [Function.update_of_ne hi, setSlot_ne _ _ hi]

theorem reachable_produce (h : (systemMachine maxRows start init act).ReachableBy ok ⟨l, g⟩)
    (hok : ok ⟨l, g⟩ .produce) (hl : l.produce maxRows = some l') :
    (systemMachine maxRows start init act).ReachableBy ok ⟨l', g⟩ :=
  h.step hok (Option.map_eq_some_iff.mpr ⟨l', hl, rfl⟩)

theorem reachable_consume {a : α} {b : γ}
    (h : (systemMachine maxRows start init act).ReachableBy ok ⟨l, g⟩)
    (hok : ok ⟨l, g⟩ (.consume a)) (hb : act l g a = some b) :
    (systemMachine maxRows start init act).ReachableBy ok ⟨l, b⟩ :=
  h.step hok (Option.map_eq_some_iff.mpr ⟨b, hb, rfl⟩)

theorem reachable_writeSlot {hdr : FrameHeader} {rows : Nat → Row} {pos : UInt64} {k : Nat}
    {w : Writer (BlockData Row)} {c c' : Cell (BlockData Row)} (hf : Writer.Finishes c w c')
    (hok : ∀ l', l'.writePos = l.writePos → ok ⟨l', g⟩ .produce)
    (h : (systemMachine maxRows start init act).ReachableBy ok
      ⟨{ l with
          slots := Function.update l.slots k c, producer := .writeSlot hdr rows pos k w }, g⟩) :
    (systemMachine maxRows start init act).ReachableBy ok
      ⟨{ l with
          slots := Function.update l.slots k c', producer := .storePos pos
          published := l.published ++ [blockOf maxRows hdr rows] }, g⟩ := by
  induction hf with
  | last hs =>
      refine reachable_produce h (hok _ rfl) ?_
      simp [Live.produce, hs]
  | next hs _ ih =>
      refine ih (reachable_produce h (hok _ rfl) ?_)
      simp [Live.produce, hs]

theorem reachable_ringPublished (hdr : FrameHeader) (rows : Nat → Row)
    (hok : ∀ l', l'.writePos = l.writePos → ok ⟨l', g⟩ .produce)
    (hcall : ok ⟨l, g⟩ (.call (.ring hdr rows))) (hidle : l.producer = .idle)
    (h : (systemMachine maxRows start init act).ReachableBy ok ⟨l, g⟩) :
    (systemMachine maxRows start init act).ReachableBy ok
      ⟨l.ringPublished maxRows hdr rows, g⟩ := by
  have hentered : (systemMachine maxRows start init act).ReachableBy ok
      ⟨{ l with producer := .loadPos hdr rows }, g⟩ :=
    h.step hcall (by simp [systemMachine, Live.call, hidle, PublishCall.entered])
  have hpos := reachable_produce hentered (hok _ rfl) rfl
  have hdepth := reachable_produce hpos (hok _ rfl) rfl
  have hwritten := reachable_writeSlot (l := l) (k := slotIndex l.depth l.writePos)
    (Writer.load_finishes (ringStores maxRows hdr rows) _) hok
    (by rw [Function.update_eq_self]; exact hdepth)
  exact reachable_produce hwritten (hok _ rfl) rfl

/-- A reader nobody interrupts gets on with its call; `f` puts it back among what
the consumers keep. -/
theorem reachable_runs {D O : Type} {copy : O → Loads D O} {c : Cell D} {r r' : Reader D O}
    {f : Reader D O → γ} {a : α} (hruns : Reader.Runs copy c r r')
    (hact : ∀ r, r.running = true → act l (f r) a = some (f (r.step copy c)))
    (hok : ∀ r, r.Window c → ok ⟨l, f r⟩ (.consume a))
    (h : (systemMachine maxRows start init act).ReachableBy ok ⟨l, f r⟩) :
    (systemMachine maxRows start init act).ReachableBy ok ⟨l, f r'⟩ := by
  induction hruns with
  | done res out => exact h
  | opening _ ih =>
      exact ih (reachable_consume h (hok _ trivial) (hact _ rfl))
  | copying hwindow _ ih =>
      exact ih (reachable_consume h (hok _ hwindow) (hact _ rfl))

/-- The accesses of an uninterrupted read are `motorRingReadSlot`. -/
theorem readSlot_runs (maxRows : Nat) (l : Live Row) (pos : UInt64) (out : BlockData Row) :
    Reader.Runs (slotLoads maxRows) (l.slots (slotIndex l.depth pos)) (.opening readTries out)
      (.returned (motorRingReadSlot maxRows l.ring pos out).1
        (motorRingReadSlot maxRows l.ring pos out).2) := by
  by_cases heven : (l.slots (slotIndex l.depth pos)).word &&& 1 = 0
  · rw [readSlot_even maxRows l.ring pos out heven]
    show Reader.Runs _ _ _ (.returned true (copySlot maxRows (l.slots _).data out))
    rw [← run_slotLoads]
    exact Reader.opening_runs _ _ 63 out heven
  · rw [readSlot_odd maxRows l.ring pos out heven]
    exact Reader.odd_runs _ _ _ out heven

end QnxHypervisor.MotorShm
