import QnxHypervisor.MotorShm.System

/-! # No torn reads

Any number of readers beside the producer, each in `motor_snapshot_read` or
`motor_ring_read_slot`: what they return true with was stored by one publish.
-/

namespace QnxHypervisor.MotorShm

open Foundation MotorWire

variable {Row ι : Type} [DecidableEq ι] {maxRows : Nat} {start l l' : Live Row}

/-! ## Readers -/

/-- A reader inside one of the two read functions, or before its first call. -/
inductive ReadCall (Row : Type) where
  | idle
  | slot (pos : UInt64) (k : Nat) (r : Reader (BlockData Row) (BlockData Row))
  | snapshot (r : Reader (SnapshotData Row) (SnapshotOut Row))

inductive ReadEvent (Row : Type) where
  | readSlot (pos : UInt64) (out : BlockData Row)
  | readSnapshot (out : SnapshotOut Row)
  | access

namespace ReadCall

def running : ReadCall Row → Bool
  | .idle => false
  | .slot _ _ r => r.running
  | .snapshot r => r.running

/-- Enter a read function, or make the next access inside it. Entering
`motor_ring_read_slot` loads `depth`. -/
def act (maxRows : Nat) (l : Live Row) (call : ReadCall Row) : ReadEvent Row → Option (ReadCall Row)
  | .readSlot pos out =>
      if call.running then none
      else some (.slot pos (slotIndex l.depth pos) (.opening readTries out))
  | .readSnapshot out => if call.running then none else some (.snapshot (.opening readTries out))
  | .access =>
      if call.running then
        match call with
        | .idle => none
        | .slot pos k r => some (.slot pos k (r.step (slotLoads maxRows) (l.slots k)))
        | .snapshot r => some (.snapshot (r.step snapshotLoads l.snapshot))
      else none

/-- Fewer than 2^31 publishes to the cell since the attempt under way began. -/
def Window (l : Live Row) : ReadCall Row → Prop
  | .idle => True
  | .slot _ k r => r.Window (l.slots k)
  | .snapshot r => r.Window l.snapshot

theorem window_of_not_running {call : ReadCall Row} (h : call.running = false) :
    call.Window l := by
  cases call with
  | idle => trivial
  | slot pos k r => exact Reader.window_of_not_running h
  | snapshot r => exact Reader.window_of_not_running h

end ReadCall

def readersAct (maxRows : Nat) (l : Live Row) (calls : ι → ReadCall Row) (e : ι × ReadEvent Row) :
    Option (ι → ReadCall Row) :=
  ((calls e.1).act maxRows l e.2).map (Function.update calls e.1)

/-- Readers of a region that was just initialised. -/
def readersMachine (maxRows : Nat) (rowSize : UInt32) (r : ShmRegion Row) :
    Machine (System Row (ι → ReadCall Row)) (SystemEvent Row (ι × ReadEvent Row)) :=
  systemMachine maxRows (Live.start (motorShmRegionInit rowSize r)) (fun _ => .idle)
    (readersAct maxRows)

/-- No read attempt sees 2^31 publishes to its cell. -/
def FewPublishes (s : System Row (ι → ReadCall Row)) : SystemEvent Row (ι × ReadEvent Row) → Prop
  | .consume (i, _) => (s.consumers i).Window s.live
  | _ => True

/-! ## What a read returns -/

/-- Header fields and rows of one publish whose position falls into the slot of
`pos`, or those the slot had to begin with. -/
def OneBlock (maxRows : Nat) (start l : Live Row) (pos : UInt64) (out : BlockData Row) : Prop :=
  copyOut out = (start.slots (pos.toNat % 16)).data.block maxRows ∨
    ∃ q, q % 16 = pos.toNat % 16 ∧ l.published[q]? = some (copyOut out)

/-- What was asked for is that of `d`. -/
def SnapshotOut.Shows (out : SnapshotOut Row) (d : SnapshotData Row) : Prop :=
  out.row = d.row ∧ (∀ v ∈ out.seq, v = d.producerSeq) ∧ (∀ v ∈ out.ts, v = d.timestamp) ∧
    ∀ v ∈ out.flags, v = d.flags

/-- Values of one publish, or those the snapshot had to begin with. -/
def OneSnapshot (start l : Live Row) (out : SnapshotOut Row) : Prop :=
  ∃ d, (d = start.snapshot.data ∨ d ∈ l.snapshots) ∧ out.Shows d

/-- A reader at its next access, with what it has returned. -/
def ReadCall.Inv (maxRows : Nat) (start l : Live Row) : ReadCall Row → Prop
  | .idle => True
  | .slot pos k r =>
      k = pos.toNat % 16 ∧ r.Inv (slotLoads maxRows) (l.slots k) ∧
        ∀ out, r = .returned true out → OneBlock maxRows start l pos out
  | .snapshot r =>
      r.Inv snapshotLoads l.snapshot ∧ ∀ out, r = .returned true out → OneSnapshot start l out

theorem SlotInv.atRest {first : BlockData Row} {published : List (BlockCopy Row)} {k : Nat}
    {c : Cell (BlockData Row)} (h : SlotInv maxRows first published k c) (hk : k < 16)
    (hidle : c.busy = false) :
    c.data = first ∨ ∃ q, q % 16 = k ∧ published[q]? = some (c.data.block maxRows) := by
  cases hn : c.commits with
  | zero => exact .inl (h.fresh hidle hn)
  | succ n => exact .inr ⟨16 * n + k, by omega, h.last n hidle hn⟩

theorem run_snapshotLoads_shows (out : SnapshotOut Row) (d : SnapshotData Row) :
    ((snapshotLoads out).run d).Shows d := by
  rw [run_snapshotLoads]
  refine ⟨rfl, ?_, ?_, ?_⟩ <;>
  · intro v hv
    obtain ⟨_, -, rfl⟩ := Option.map_eq_some_iff.mp hv
    rfl

namespace ReadCall

variable {call call' : ReadCall Row}

theorem Inv.advance (h : call.Inv maxRows start l) (hadv : l.Advances l') :
    call.Inv maxRows start l' := by
  cases call with
  | idle => trivial
  | slot pos k r =>
      obtain ⟨hk, hr, hret⟩ := h
      refine ⟨hk, hr.evolve (hadv.slots k (by omega)), fun out hout => ?_⟩
      exact (hret out hout).imp id fun ⟨q, hq, hget⟩ => ⟨q, hq, hadv.kept hget⟩
  | snapshot r =>
      obtain ⟨hr, hret⟩ := h
      refine ⟨hr.evolve hadv.snapshot, fun out hout => ?_⟩
      obtain ⟨d, hd, hshows⟩ := hret out hout
      exact ⟨d, hd.imp id fun hmem => hadv.snapshots.subset hmem, hshows⟩

theorem inv_act (hinv : l.Inv maxRows start) (h : call.Inv maxRows start l)
    (hwindow : call.Window l) {e : ReadEvent Row} (ha : call.act maxRows l e = some call') :
    call'.Inv maxRows start l := by
  by_cases hrunning : call.running = true
  · cases e with
    | readSlot pos out => simp [act, hrunning] at ha
    | readSnapshot out => simp [act, hrunning] at ha
    | access =>
        cases call with
        | idle => cases hrunning
        | slot pos k r =>
            obtain ⟨hk, hr, -⟩ := h
            have hslot := hinv.slots k (by omega)
            simp only [act, hrunning, if_true, Option.some.injEq] at ha
            subst ha
            refine ⟨hk, hr.step hslot.counts, fun out hout => ?_⟩
            obtain ⟨left, a, -, -, hidle, rfl⟩ := hr.believed hslot.counts hwindow hrunning hout
            rw [OneBlock, run_slotLoads, copyOut_copySlot, ← hk]
            exact (hslot.atRest (by omega) hidle).imp (congrArg _) id
        | snapshot r =>
            obtain ⟨hr, -⟩ := h
            simp only [act, hrunning, if_true, Option.some.injEq] at ha
            subst ha
            refine ⟨hr.step hinv.snapshot.counts, fun out hout => ?_⟩
            obtain ⟨left, a, -, -, hidle, rfl⟩ :=
              hr.believed hinv.snapshot.counts hwindow hrunning hout
            exact ⟨_, hinv.snapshot.value hidle, run_snapshotLoads_shows _ _⟩
  · cases e with
    | readSlot pos out =>
        simp only [act, hrunning, Bool.false_eq_true, if_false, Option.some.injEq] at ha
        subst ha
        exact ⟨hinv.slotIndex_eq pos, trivial, fun out hout => by cases hout⟩
    | readSnapshot out =>
        simp only [act, hrunning, Bool.false_eq_true, if_false, Option.some.injEq] at ha
        subst ha
        exact ⟨trivial, fun out hout => by cases hout⟩
    | access => simp [act, hrunning] at ha

end ReadCall

section Runs

variable {rowSize : UInt32} {r : ShmRegion Row} {s : System Row (ι → ReadCall Row)}

theorem readers_invariant
    (h : (readersMachine maxRows rowSize r).ReachableBy FewPublishes s) (i : ι) :
    (s.consumers i).Inv maxRows (Live.start (motorShmRegionInit rowSize r)) s.live := by
  refine consumers_invariant (I := fun l calls => ∀ i : ι,
    (calls i).Inv maxRows (Live.start (motorShmRegionInit rowSize r)) l)
    (inv_start rowSize r) h (fun _ => trivial) ?_ ?_ i
  · intro s s' _ _ hcalls hadv i
    exact (hcalls i).advance hadv
  · rintro s ⟨i, e⟩ calls - hinv hcalls hok hact j
    obtain ⟨call, hcall, rfl⟩ := Option.map_eq_some_iff.mp hact
    by_cases hj : j = i
    · subst hj
      rw [Function.update_self]
      exact ReadCall.inv_act hinv (hcalls j) hok hcall
    · rw [Function.update_of_ne hj]
      exact hcalls j

/-- In every interleaving, whatever a reader returned true with was stored by one
publish of the right slot, or is what was there to begin with. -/
theorem reads_are_whole (h : (readersMachine maxRows rowSize r).ReachableBy FewPublishes s)
    (i : ι) :
    (∀ pos k out, s.consumers i = .slot pos k (.returned true out) →
      OneBlock maxRows (Live.start (motorShmRegionInit rowSize r)) s.live pos out) ∧
    ∀ out, s.consumers i = .snapshot (.returned true out) →
      OneSnapshot (Live.start (motorShmRegionInit rowSize r)) s.live out := by
  have hinv := readers_invariant h i
  refine ⟨fun pos k out hcall => ?_, fun out hcall => ?_⟩
  · rw [hcall] at hinv
    exact hinv.2.2 out rfl
  · rw [hcall] at hinv
    exact hinv.2 out rfl

end Runs

/-! ## An uninterrupted read -/

section Reads

variable {rowSize : UInt32} {r : ShmRegion Row}

theorem reachable_readSlot {calls : ι → ReadCall Row} {i : ι} (hi : (calls i).running = false)
    (pos : UInt64) (out : BlockData Row)
    (h : (readersMachine maxRows rowSize r).ReachableBy FewPublishes ⟨l, calls⟩) :
    (readersMachine maxRows rowSize r).ReachableBy FewPublishes
      ⟨l, Function.update calls i (.slot pos (slotIndex l.depth pos)
        (.returned (motorRingReadSlot maxRows l.ring pos out).1
          (motorRingReadSlot maxRows l.ring pos out).2))⟩ := by
  have hentered : (readersMachine maxRows rowSize r).ReachableBy FewPublishes
      ⟨l, Function.update calls i (.slot pos (slotIndex l.depth pos) (.opening readTries out))⟩ :=
    reachable_consume (a := (i, .readSlot pos out)) h (ReadCall.window_of_not_running hi)
      (by simp [readersAct, ReadCall.act, hi])
  refine reachable_runs (a := (i, .access)) (readSlot_runs maxRows l pos out)
    (f := fun r => Function.update calls i (.slot pos (slotIndex l.depth pos) r)) ?_ ?_ hentered
  · intro r hr
    simp [readersAct, ReadCall.act, ReadCall.running, hr]
  · intro r hr
    simpa [FewPublishes, ReadCall.Window] using hr

end Reads

def oneBlockLive : Live MotorRow :=
  (Live.start (motorShmRegionInit (UInt32.ofNat motorRowBytes) zeroRegion)).ringPublished
    motorMaxRowsPerBlock (dataHeader 1 0 0 2 0) fun _ => zeroRow

/-- One publish, then one read of its slot. -/
theorem one_block_read_whole :
    OneBlock motorMaxRowsPerBlock
      (Live.start (motorShmRegionInit (UInt32.ofNat motorRowBytes) zeroRegion)) oneBlockLive 0
      (copySlot motorMaxRowsPerBlock (oneBlockLive.slots 0).data zeroBlock.toBlockData) := by
  have hstart : (readersMachine motorMaxRowsPerBlock (UInt32.ofNat motorRowBytes)
      zeroRegion).ReachableBy FewPublishes
      ⟨Live.start (motorShmRegionInit (UInt32.ofNat motorRowBytes) zeroRegion),
        fun _ : Unit => .idle⟩ := .initial rfl
  have hpublished : (readersMachine motorMaxRowsPerBlock (UInt32.ofNat motorRowBytes)
      zeroRegion).ReachableBy FewPublishes ⟨oneBlockLive, fun _ : Unit => .idle⟩ :=
    reachable_ringPublished (dataHeader 1 0 0 2 0) (fun _ => zeroRow) (fun _ _ => trivial) trivial
      rfl hstart
  have hread := reachable_readSlot (i := ()) rfl 0 zeroBlock.toBlockData hpublished
  have heven : (oneBlockLive.slots 0).word &&& 1 = 0 := by decide
  refine (reads_are_whole hread ()).1 0 0 _ ?_
  simp only [Function.update_self, readSlot_even _ oneBlockLive.ring 0 _ heven]
  rfl

end QnxHypervisor.MotorShm
