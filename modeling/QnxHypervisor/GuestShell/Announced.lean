import QnxHypervisor.GuestShell.Slots
import QnxHypervisor.GuestShell.Steps

/-! # What the state messages say

`shell_opened` and `shell_closed` of a guest, compared with its sessions once
nothing is in progress. An alive session is announced or about to be, and behind
a last message `shell_opened` stands a reader that has not announced the end yet.
-/

namespace QnxHypervisor.GuestShell

open Foundation GuestManager HmsStatus

/-! ## Messages of a guest -/

def stateFor (guestId : Bytes) : StatusMessage → Option Bytes
  | .shellState guest state _ => if guest = guestId then some state else none
  | _ => none

def lastState (published : List StatusMessage) (guestId : Bytes) : Option Bytes :=
  (published.filterMap (stateFor guestId)).getLast?

theorem lastState_append (published : List StatusMessage) (m : StatusMessage) (guestId : Bytes) :
    lastState (published ++ [m]) guestId = (stateFor guestId m).or (lastState published guestId) := by
  unfold lastState
  rw [List.filterMap_append, List.getLast?_append]
  cases h : stateFor guestId m <;> simp [h]

def SaysOpened (s : ShellState) (guestId : Bytes) : Prop :=
  lastState s.published guestId = some (utf8 "shell_opened")

def Served (s : ShellState) (guestId : Bytes) : Prop := ∃ i, (s.slots i).Serves guestId

instance (s : ShellState) (guestId : Bytes) : Decidable (SaysOpened s guestId) :=
  inferInstanceAs (Decidable (_ = _))

instance (s : ShellState) (guestId : Bytes) : Decidable (Served s guestId) :=
  inferInstanceAs (Decidable (∃ i, (s.slots i).Serves guestId))

/-- The reader has yet to publish `shell_closed`. -/
def ReaderPhase.Unannounced : ReaderPhase → Prop
  | .testing | .reading _ | .leaving | .announcing => True
  | .releasing | .done => False

/-- The reader waits in its loop. -/
def ReaderPhase.Waiting : ReaderPhase → Prop
  | .testing | .reading _ => True
  | _ => False

instance : (p : ReaderPhase) → Decidable p.Unannounced
  | .testing | .reading _ | .leaving | .announcing => isTrue trivial
  | .releasing | .done => isFalse id

instance : (p : ReaderPhase) → Decidable p.Waiting
  | .testing | .reading _ => isTrue trivial
  | .leaving | .announcing | .releasing | .done => isFalse id

/-- Nothing is in progress but the reading from alive sessions. -/
structure Settled (s : ShellState) : Prop where
  opener : s.opener = .idle
  closers : ∀ j, s.closers j = none
  monitor : s.monitor = none ∨ s.monitor = some []
  readers : ∀ k i p, s.readers k = some ⟨i, p⟩ →
    p = .done ∨ p.Waiting ∧ (s.slots i).alive = true

/-- `shell_open` has taken a slot for the guest and has not announced it yet. -/
def Opening (s : ShellState) (guestId : Bytes) : Prop :=
  ∃ g : Guest, s.opener = .opened g ∧ g.id.bytes = guestId

/-- No message comes too late: `shell_closed` while another session of the guest
is alive and announced, or `shell_opened` behind the session's own `shell_closed`. -/
def InOrder (s : ShellState) : ShellEvent → Prop
  | .openAnnounce _ => ∀ i p, s.readers (s.sessions - 1) = some ⟨i, p⟩ → p.Unannounced
  | .readerAnnounce k => ∀ i, s.readers k = some ⟨i, .announcing⟩ →
      Opening s (s.slots i).guestId ∨ ¬ Served s (s.slots i).guestId
  | _ => True

instance (s : ShellState) (guestId : Bytes) : Decidable (Opening s guestId) :=
  match h : s.opener with
  | .opened g => decidable_of_iff (g.id.bytes = guestId) (by simp [Opening, h])
  | .idle | .checked _ | .piped .. | .forked .. | .failing _ => isFalse (by simp [Opening, h])

instance (s : ShellState) : (e : ShellEvent) → Decidable (InOrder s e)
  | .openAnnounce _ =>
      match h : s.readers (s.sessions - 1) with
      | none => isTrue (by simp [InOrder, h])
      | some r => decidable_of_iff r.phase.Unannounced (by
          obtain ⟨i, p⟩ := r
          simp [InOrder, h])
  | .readerAnnounce k => inferInstanceAs (Decidable (∀ i, s.readers k = some ⟨i, .announcing⟩ →
      Opening s (s.slots i).guestId ∨ ¬ Served s (s.slots i).guestId))
  | .openCheck _ | .openPipes .. | .openNoPipes _ | .openFork _ | .openNoFork | .openClose
  | .openSlot .. | .openFailed | .write .. | .close _ | .closerClose _ | .closerKill _
  | .readerTest _ | .readerRead .. | .readerLeave _ | .readerRelease _ | .monitorSample _
  | .monitorClose | .otherOpen _ | .otherClose _ => isTrue trivial

/-! ## The invariant -/

structure Told (s : ShellState) : Prop where
  alive : ∀ g, Served s g → Opening s g ∨ SaysOpened s g
  opened : ∀ g, SaysOpened s g →
    ∃ k i p, s.readers k = some ⟨i, p⟩ ∧ p.Unannounced ∧ (s.slots i).guestId = g
  latest : ∀ g, s.opener = .opened g →
    ∃ i p, s.readers (s.sessions - 1) = some ⟨i, p⟩ ∧
      (p.Unannounced → (s.slots i).guestId = g.id.bytes)

theorem ShellStart.told {s : ShellState} (h : ShellStart s) : Told s where
  alive := by
    rintro g ⟨i, halive, -⟩
    rw [(h.slots i).1] at halive
    cases halive
  opened := by
    intro g hg
    simp [SaysOpened, lastState, h.published] at hg
  latest := by
    intro g hg
    rw [h.opener] at hg
    cases hg

/-- Steps that announce nothing, take no slot and end no session for good. -/
structure Silent (s s' : ShellState) : Prop where
  guestId : ∀ i, (s'.slots i).guestId = (s.slots i).guestId
  alive : ∀ i, (s'.slots i).alive = true → (s.slots i).alive = true
  readers : ∀ k i p, s.readers k = some ⟨i, p⟩ →
    ∃ p', s'.readers k = some ⟨i, p'⟩ ∧ (p'.Unannounced ↔ p.Unannounced)
  opener : ∀ g, s'.opener = .opened g ↔ s.opener = .opened g
  sessions : s'.sessions = s.sessions
  last : ∀ g, lastState s'.published g = lastState s.published g

theorem Told.silent {s s' : ShellState} (h : Told s) (hs : Silent s s') : Told s' where
  alive := by
    rintro g ⟨i, halive, hid⟩
    rw [hs.guestId] at hid
    obtain ⟨g', ho, hg'⟩ | hsays := h.alive g ⟨i, hs.alive i halive, hid⟩
    · exact .inl ⟨g', (hs.opener g').mpr ho, hg'⟩
    · exact .inr ((hs.last g).trans hsays)
  opened := by
    intro g hg
    obtain ⟨k, i, p, hr, hp, hid⟩ := h.opened g ((hs.last g).symm.trans hg)
    obtain ⟨p', hr', hp'⟩ := hs.readers k i p hr
    exact ⟨k, i, p', hr', hp'.mpr hp, (hs.guestId i).trans hid⟩
  latest := by
    intro g hg
    obtain ⟨i, p, hr, hid⟩ := h.latest g ((hs.opener g).mp hg)
    obtain ⟨p', hr', hp'⟩ := hs.readers _ i p hr
    rw [hs.sessions]
    exact ⟨i, p', hr', fun hp => (hs.guestId i).trans (hid (hp'.mp hp))⟩

section Steps

variable {s s' : ShellState} {k : Nat} {i : SlotIx} {p : ReaderPhase}

theorem Silent.refl (s : ShellState) : Silent s s :=
  ⟨fun _ => rfl, fun _ h => h, fun _ _ p h => ⟨p, h, Iff.rfl⟩, fun _ => Iff.rfl, rfl, fun _ => rfl⟩

theorem Silent.slot (h : Silent s s') {slot : ShellSlot}
    (hid : slot.guestId = (s'.slots i).guestId)
    (halive : slot.alive = true → (s'.slots i).alive = true) : Silent s (s'.setSlot i slot) where
  guestId := by
    intro j
    by_cases hj : j = i
    · subst hj
      simpa [ShellState.setSlot, hid] using h.guestId j
    · simpa [ShellState.setSlot, Function.update_of_ne hj] using h.guestId j
  alive := by
    intro j hj'
    by_cases hj : j = i
    · subst hj
      exact h.alive j (halive (by simpa [ShellState.setSlot] using hj'))
    · exact h.alive j (by simpa [ShellState.setSlot, Function.update_of_ne hj] using hj')
  readers := h.readers
  opener := h.opener
  sessions := h.sessions
  last := h.last

theorem Silent.reader {p' : ReaderPhase} (h : Silent s s') (hr : s.readers k = some ⟨i, p⟩)
    (hp : p'.Unannounced ↔ p.Unannounced) : Silent s (s'.setReader k ⟨i, p'⟩) where
  guestId := h.guestId
  alive := h.alive
  readers := by
    intro k' i' q hq
    by_cases hk : k' = k
    · subst hk
      rw [hr] at hq
      obtain ⟨rfl, rfl⟩ : i = i' ∧ p = q := by simpa using hq
      exact ⟨p', by simp [ShellState.setReader], hp⟩
    · obtain ⟨q', hq', hiff⟩ := h.readers k' i' q hq
      exact ⟨q', by simpa [ShellState.setReader, Function.update_of_ne hk] using hq', hiff⟩
  opener := h.opener
  sessions := h.sessions
  last := h.last

theorem Silent.closeFd (h : Silent s s') (fd : Option Fd) : Silent s (s'.closeFd? fd) := by
  cases fd <;> exact ⟨h.guestId, h.alive, h.readers, h.opener, h.sessions, h.last⟩

theorem shellClose_silent (guestId : Bytes) : Silent s (shellClose guestId s) := by
  unfold shellClose
  split
  · exact .refl s
  · next i hi =>
    have hslot : Silent s (s.setSlot i { s.slots i with alive := false, pid := 0, inFd := none }) :=
      (Silent.refl s).slot rfl (by simp)
    exact ⟨hslot.guestId, hslot.alive, hslot.readers, hslot.opener, hslot.sessions, hslot.last⟩

theorem openSlot_told {g : Guest} {pid : Nat} {inW outR : Fd} {now : Int} {threadOk : Bool}
    (h : Told s) (hinv : SlotInv s) (ho : s.opener = .forked g pid inW outR []) :
    Told (openSlot g pid inW outR now threadOk s) := by
  unfold openSlot
  split
  · exact h.silent { Silent.refl s with opener := fun g' => by simp [ho] }
  · next i hi =>
    have hfree := findFree_free hi
    dsimp only
    split
    · constructor
      case alive =>
        rintro g' ⟨j, halive, hid⟩
        by_cases hj : j = i
        · subst hj
          simp only [ShellState.setSlot, ShellState.setReader, ShellState.own,
            Function.update_self] at hid
          exact .inl ⟨g, rfl, hid⟩
        · simp only [ShellState.setSlot, ShellState.setReader, ShellState.own,
            Function.update_of_ne hj] at halive hid
          obtain ⟨g'', ho', -⟩ | hsays := h.alive g' ⟨j, halive, hid⟩
          · rw [ho] at ho'
            cases ho'
          · exact .inr hsays
      case opened =>
        intro g' hsays
        obtain ⟨k, j, p, hr, hp, hid⟩ := h.opened g' hsays
        have hp' : p ≠ .done := by
          rintro rfl
          exact hp
        have hj : j ≠ i := by
          rintro rfl
          exact (hinv.table.reader k j p hr hp').2 hfree.2
        have hk : k ≠ s.sessions := by
          rintro rfl
          rw [(hinv.fresh _ le_rfl).1] at hr
          cases hr
        refine ⟨k, j, p, ?_, hp, ?_⟩
        · simpa [ShellState.setSlot, ShellState.setReader, ShellState.own,
            Function.update_of_ne hk] using hr
        · simpa [ShellState.setSlot, ShellState.setReader, ShellState.own,
            Function.update_of_ne hj] using hid
      case latest =>
        rintro g' ⟨⟩
        exact ⟨i, .testing, by simp [ShellState.setSlot, ShellState.setReader, ShellState.own],
          fun _ => by simp [ShellState.setSlot, ShellState.setReader, ShellState.own]⟩
    · have hslot : Silent s (s.setSlot i
          ⟨[], pid, some inW, some outR, false, now, (s.slots i).session⟩) :=
        (Silent.refl s).slot hfree.2.symm (by simp)
      exact h.silent { hslot with opener := fun g' => by simp [ho] }

theorem openAnnounce_told {g : Guest} {monitorOk : Bool} (h : Told s) (ho : s.opener = .opened g)
    (hok : InOrder s (.openAnnounce monitorOk)) : Told (openAnnounce g monitorOk s) := by
  obtain ⟨i, p, hr, hid⟩ := h.latest g ho
  have hlast : ∀ g', lastState (openAnnounce g monitorOk s).published g' =
      if g.id.bytes = g' then some (utf8 "shell_opened") else lastState s.published g' := by
    intro g'
    change lastState (s.published ++ [_]) g' = _
    rw [lastState_append, stateFor]
    split <;> rfl
  constructor
  case alive =>
    intro g' hserved
    right
    unfold SaysOpened
    rw [hlast]
    split
    · rfl
    · next hne =>
      obtain ⟨g'', ho', hg''⟩ | hsays := h.alive g' hserved
      · rw [ho] at ho'
        cases ho'
        exact absurd hg'' hne
      · exact hsays
  case opened =>
    intro g' hsays
    unfold SaysOpened at hsays
    rw [hlast] at hsays
    split at hsays
    · next heq =>
      have hp := hok i p hr
      exact ⟨_, i, p, hr, hp, (hid hp).trans heq⟩
    · exact h.opened g' hsays
  case latest =>
    intro g' hg'
    cases hg'

theorem readerAnnounce_told (h : Told s) (hr : s.readers k = some ⟨i, .announcing⟩)
    (hok : Opening s (s.slots i).guestId ∨ ¬ Served s (s.slots i).guestId) :
    Told (readerAnnounce k i s) := by
  have hlast : ∀ g, lastState (readerAnnounce k i s).published g =
      if (s.slots i).guestId = g then some (utf8 "shell_closed") else lastState s.published g := by
    intro g
    change lastState (s.published ++ [_]) g = _
    rw [lastState_append, stateFor]
    split <;> rfl
  constructor
  case alive =>
    intro g hserved
    obtain hopening | hsays := h.alive g hserved
    · exact .inl hopening
    · by_cases heq : (s.slots i).guestId = g
      · obtain hopening | hnot := hok
        · exact .inl (heq ▸ hopening)
        · exact absurd (heq ▸ hserved) hnot
      · right
        unfold SaysOpened
        rw [hlast, if_neg heq]
        exact hsays
  case opened =>
    intro g hsays
    unfold SaysOpened at hsays
    rw [hlast] at hsays
    split at hsays
    · exact absurd hsays (by decide)
    · next hne =>
      obtain ⟨k', i', p, hr', hp, hid⟩ := h.opened g hsays
      have hk : k' ≠ k := by
        rintro rfl
        rw [hr] at hr'
        cases hr'
        exact hne hid
      refine ⟨k', i', p, ?_, hp, hid⟩
      simpa [readerAnnounce, ShellState.setReader, ShellState.publish,
        Function.update_of_ne hk] using hr'
  case latest =>
    intro g hg
    obtain ⟨i', p, hr', hid⟩ := h.latest g hg
    by_cases hk : s.sessions - 1 = k
    · refine ⟨i, .releasing, ?_, False.elim⟩
      simp [readerAnnounce, ShellState.setReader, ShellState.publish, hk]
    · refine ⟨i', p, ?_, hid⟩
      simpa [readerAnnounce, ShellState.setReader, ShellState.publish,
        Function.update_of_ne hk] using hr'

theorem readerRelease_told (h : Told s) (hinv : SlotInv s)
    (hr : s.readers k = some ⟨i, .releasing⟩) : Told (readerRelease k i s) := by
  have hdead : (s.slots i).alive = false :=
    hinv.table.ended k i _ hr (by simp [ReaderPhase.Serving]) (by simp)
  -- the slot has no other reader
  have hother : ∀ {k' j p}, s.readers k' = some ⟨j, p⟩ → p.Unannounced → j ≠ i ∧ k' ≠ k := by
    intro k' j p hr' hp
    have hk : k' ≠ k := by
      rintro rfl
      rw [hr] at hr'
      cases hr'
      exact hp
    have hp' : p ≠ .done := by
      rintro rfl
      exact hp
    refine ⟨?_, hk⟩
    rintro rfl
    exact hk (hinv.table.only_reader hr (by simp) hr' hp')
  constructor
  case alive =>
    rintro g ⟨j, halive, hid⟩
    have hj : j ≠ i := by
      rintro rfl
      simp [readerRelease, ShellState.setSlot, ShellState.setReader, hdead] at halive
    simp only [readerRelease, ShellState.setSlot, ShellState.setReader,
      Function.update_of_ne hj] at halive hid
    exact h.alive g ⟨j, halive, hid⟩
  case opened =>
    intro g hsays
    obtain ⟨k', j, p, hr', hp, hid⟩ := h.opened g hsays
    obtain ⟨hj, hk⟩ := hother hr' hp
    refine ⟨k', j, p, ?_, hp, ?_⟩
    · simpa [readerRelease, ShellState.setReader, ShellState.setSlot,
        Function.update_of_ne hk] using hr'
    · simpa [readerRelease, ShellState.setReader, ShellState.setSlot,
        Function.update_of_ne hj] using hid
  case latest =>
    intro g hg
    obtain ⟨j, p, hr', hid⟩ := h.latest g hg
    by_cases hk : s.sessions - 1 = k
    · refine ⟨i, .done, ?_, False.elim⟩
      simp [readerRelease, ShellState.setReader, ShellState.setSlot, hk]
    · refine ⟨j, p, ?_, fun hp => ?_⟩
      · simpa [readerRelease, ShellState.setReader, ShellState.setSlot,
          Function.update_of_ne hk] using hr'
      · simpa [readerRelease, ShellState.setReader, ShellState.setSlot,
          Function.update_of_ne (hother hr' hp).1] using hid hp

theorem openerStep_told {e : ShellEvent} (h : Told s) (hinv : SlotInv s) (hok : InOrder s e)
    (hs : OpenerStep s e s') : Told s' := by
  -- all but two steps take the opener from one place to another, none of them `opened`
  have hmove : ∀ {o : Opener}, (∀ g, s.opener ≠ .opened g) → (∀ g, o ≠ .opened g) →
      ∀ g, o = .opened g ↔ s.opener = .opened g := fun hold hnew g =>
    iff_of_false (hnew g) (hold g)
  cases hs with
  | check ho hid =>
      apply h.silent
      unfold openCheck
      split
      · exact .refl s
      · split
        · exact .refl s
        · exact { Silent.refl s with opener := hmove (by simp [ho]) (by simp) }
  | pipes ho hfresh =>
      exact h.silent { Silent.refl s with opener := hmove (by simp [ho]) (by simp [openPipes]) }
  | noPipes ho =>
      exact h.silent { Silent.refl s with opener := hmove (by simp [ho]) (by simp) }
  | leakedPipe ho hfresh =>
      exact h.silent { Silent.refl s with opener := hmove (by simp [ho]) (by simp) }
  | fork ho => exact h.silent { Silent.refl s with opener := hmove (by simp [ho]) (by simp) }
  | noFork ho => exact h.silent { Silent.refl s with opener := hmove (by simp [ho]) (by simp) }
  | closeParent ho =>
      exact h.silent { Silent.refl s with opener := hmove (by simp [ho]) (by simp) }
  | closeFailed ho =>
      exact h.silent { Silent.refl s with opener := hmove (by simp [ho]) (by simp) }
  | slot ho => exact openSlot_told h hinv ho
  | failed ho => exact h.silent { Silent.refl s with opener := hmove (by simp [ho]) (by simp) }
  | announce ho => exact openAnnounce_told h ho hok

theorem readerStep_told {e : ShellEvent} (h : Told s) (hinv : SlotInv s) (hok : InOrder s e)
    (hs : ReaderStep s e s') : Told s' := by
  cases hs with
  | test hr hp =>
      apply h.silent
      obtain rfl | ⟨fd, rfl, -⟩ := hp
      · exact (Silent.refl s).reader hr Iff.rfl
      · exact (Silent.refl s).reader hr Iff.rfl
  | @data k i fd chunk now hr =>
      apply h.silent
      have hpublished : Silent s { s with
          published := s.published ++ [.shellOut (s.slots i).guestId chunk] } :=
        { Silent.refl s with last := fun g => by simp [lastState_append, stateFor] }
      have hslot := @Silent.slot _ _ i hpublished { s.slots i with lastActivity := now } rfl id
      exact hslot.reader hr Iff.rfl
  | interrupted hr => exact h.silent ((Silent.refl s).reader hr Iff.rfl)
  | ended hr => exact h.silent ((Silent.refl s).reader hr Iff.rfl)
  | @leave k i hr =>
      apply h.silent
      unfold readerLeave
      have hpast : ReaderPhase.announcing.Unannounced ↔ ReaderPhase.leaving.Unannounced := Iff.rfl
      apply Silent.reader _ hr hpast
      apply Silent.slot
      · exact ((Silent.refl s).closeFd _).closeFd _
      · cases (s.slots i).outFd <;> cases (s.slots i).inFd <;> rfl
      · simp
  | announce hr => exact readerAnnounce_told h hr (hok _ hr)
  | release hr => exact readerRelease_told h hinv hr

theorem told_step {e : ShellEvent} (h : Told s) (hinv : SlotInv s) (hok : InOrder s e)
    (hs : shellStep s e = some s') : Told s' := by
  cases shellStep_spec hs with
  | @write guestId ok now =>
      apply h.silent
      unfold shellWrite
      split
      · exact .refl s
      · split
        · exact (Silent.refl s).slot rfl id
        · exact .refl s
  | @close guestId => exact h.silent (shellClose_silent guestId)
  | closerClose hc => exact h.silent { Silent.refl s with }
  | closerKill hc => exact h.silent { Silent.refl s with }
  | monitorSample hm => exact h.silent { Silent.refl s with }
  | @monitorClose guestId rest hm => exact h.silent { shellClose_silent (s := s) guestId with }
  | otherOpen hfd => exact h.silent { Silent.refl s with }
  | otherClose hfd => exact h.silent { Silent.refl s with }
  | opener ho => exact openerStep_told h hinv hok ho
  | reader hr => exact readerStep_told h hinv hok hr

end Steps

/-! ## Settled states -/

theorem told_of_reachable {s : ShellState} (h : shellMachine.ReachableBy InOrder s) :
    SlotInv s ∧ Told s := by
  induction h with
  | initial hs => exact ⟨shellStart_inv hs, ShellStart.told hs⟩
  | step _ hok hs ih => exact ⟨slotInv_step ih.1 hs, told_step ih.2 ih.1 hok hs⟩

/-- While no message comes too late, the last message of a guest says whether it has
an alive session. -/
theorem shell_states_true {s : ShellState} (h : shellMachine.ReachableBy InOrder s)
    (hs : Settled s) (g : Bytes) : SaysOpened s g ↔ Served s g := by
  obtain ⟨-, htold⟩ := told_of_reachable h
  constructor
  · intro hsays
    obtain ⟨k, i, p, hr, hp, hid⟩ := htold.opened g hsays
    obtain rfl | ⟨-, halive⟩ := hs.readers k i p hr
    · exact hp.elim
    · exact ⟨i, halive, hid⟩
  · intro hserved
    obtain ⟨g', ho, -⟩ | hsays := htold.alive g hserved
    · rw [hs.opener] at ho
      cases ho
    · exact hsays

def Opener.isIdle : Opener → Bool
  | .idle => true
  | _ => false

/-- `Settled` over the sessions and calls there have been. -/
def settledNow (s : ShellState) : Bool :=
  s.opener.isIdle && (List.range s.closeCalls).all (fun j => (s.closers j).isNone) &&
    (s.monitor == none || s.monitor == some []) &&
    (List.range s.sessions).all fun k =>
      match s.readers k with
      | none => true
      | some r => decide (r.phase = .done ∨ r.phase.Waiting ∧ (s.slots r.slot).alive = true)

theorem settled_of_now {s : ShellState} (h : SlotInv s) (hs : settledNow s = true) : Settled s := by
  simp only [settledNow, Bool.and_eq_true, Bool.or_eq_true, List.all_eq_true, List.mem_range,
    Option.isNone_iff_eq_none, beq_iff_eq] at hs
  obtain ⟨⟨⟨hopener, hclosers⟩, hmonitor⟩, hreaders⟩ := hs
  constructor
  case opener =>
    cases ho : s.opener with
    | idle => rfl
    | _ => simp [ho, Opener.isIdle] at hopener
  case closers =>
    intro j
    by_cases hj : j < s.closeCalls
    · exact hclosers j hj
    · exact h.freshCall j (Nat.le_of_not_lt hj)
  case monitor => exact hmonitor
  case readers =>
    intro k i p hr
    by_cases hk : k < s.sessions
    · have hnow := hreaders k hk
      rw [hr] at hnow
      exact of_decide_eq_true hnow
    · rw [(h.fresh k (Nat.le_of_not_lt hk)).1] at hr
      cases hr

/-- `shell_open` in all its steps. -/
def openSteps (pid : Nat) (inR inW outR outW : Fd) : List ShellEvent :=
  [.openCheck shellGuest, .openPipes inR inW outR outW, .openFork pid, .openClose, .openClose,
    .openSlot 0 true, .openAnnounce false]

/-- One session, opened and announced. -/
theorem opened_shell_true : ∃ s, Settled s ∧ SaysOpened s (utf8 "vm1") ∧ Served s (utf8 "vm1") := by
  have hbegin : shellMachine.ReachableBy InOrder bareShell := .initial bareShell_start
  obtain ⟨s, hreach, hs⟩ := hbegin.after_any (openSteps 100 3 4 5 6)
    (fun s => settledNow s && decide (SaysOpened s (utf8 "vm1"))) (by decide)
  simp only [Bool.and_eq_true, decide_eq_true_eq] at hs
  have hsettled := settled_of_now (told_of_reachable hreach).1 hs.1
  exact ⟨s, hsettled, hs.2, (shell_states_true hreach hsettled _).mp hs.2⟩

/-- The reader of an ended session announces its end behind the next `shell_opened`. -/
theorem late_shell_closed : ¬ ∀ s, shellMachine.Reachable s → Settled s →
    ∀ g, SaysOpened s g ↔ Served s g := by
  intro hall
  have hbegin : shellMachine.Reachable bareShell := .initial bareShell_start
  obtain ⟨s, hreach, hs⟩ := hbegin.after_any
    (openSteps 100 3 4 5 6 ++ [.readerTest 0, .readerRead 0 .ended, .readerLeave 0] ++
      openSteps 101 3 4 7 8 ++ [.readerAnnounce 0, .readerRelease 0])
    (fun s => settledNow s && decide (Served s (utf8 "vm1")) &&
      decide (¬ SaysOpened s (utf8 "vm1"))) (by decide)
  simp only [Bool.and_eq_true, decide_eq_true_eq] at hs
  obtain ⟨⟨hnow, hserved⟩, hsays⟩ := hs
  exact hsays ((hall s hreach (settled_of_now (slotInv_reachable hreach) hnow) _).mpr hserved)

end QnxHypervisor.GuestShell
