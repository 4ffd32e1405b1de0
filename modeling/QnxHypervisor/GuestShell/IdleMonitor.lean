import QnxHypervisor.GuestShell.Slots
import QnxHypervisor.GuestShell.Steps

/-! # The idle monitor

`shell_monitor` collects guest ids in one critical section and closes them one
after another later. The shell sessions are watched from outside: when a session
last saw a write or output, which sessions were idle at the last sampling, and
which ones the monitor has closed since. A `read` returns before its reader notes
the time, so the output of a session is seen in a step of its own.
-/

namespace QnxHypervisor.GuestShell

open Foundation GuestManager HmsStatus

/-! ## Watched sessions -/

structure IdleWatch where
  shell : ShellState
  /-- when a session last saw a write or output, or was opened -/
  seen : Nat → Int
  /-- `read` has returned output that the reader has not noted yet -/
  arrived : Nat → Bool
  /-- the sessions idle at the last sampling -/
  idle : List Nat
  /-- the sessions closed by the monitor, and whether they were idle at the sampling -/
  monitorClosed : List (Nat × Bool)

inductive IdleEvent where
  | shell (e : ShellEvent)
  /-- `read` returns output of session `k` -/
  | outputRead (k : Nat) (now : Int)

namespace IdleWatch

def see (s : IdleWatch) (k : Nat) (now : Int) : IdleWatch :=
  { s with seen := Function.update s.seen k now }

/-- The answer of `read` that the reader acts on is the one it has got. -/
def answers (s : IdleWatch) : ShellEvent → Bool
  | .readerRead k (.data _ _) => s.arrived k
  | .readerRead k _ => !s.arrived k
  | _ => true

def idleSessions (s : IdleWatch) (now : Int) : List Nat :=
  ((List.finRange shellMaxSessions).filter fun i => (s.shell.slots i).alive &&
    decide (shellIdleTimeout < now - s.seen (s.shell.slots i).session)).map
      fun i => (s.shell.slots i).session

def monitorHits (s : IdleWatch) (guestId : Bytes) : IdleWatch :=
  match findAlive s.shell.slots guestId with
  | none => s
  | some i =>
      let k := (s.shell.slots i).session
      { s with monitorClosed := s.monitorClosed ++ [(k, decide (k ∈ s.idle))] }

/-- What is watched in a step of the shell. -/
def watch (s : IdleWatch) : ShellEvent → IdleWatch
  | .write guestId true now =>
      match findAlive s.shell.slots guestId with
      | none => s
      | some i => s.see (s.shell.slots i).session now
  | .openSlot now true => s.see s.shell.sessions now
  | .readerRead k (.data _ now) =>
      { s.see k now with arrived := Function.update s.arrived k false }
  | .monitorSample now => { s with idle := s.idleSessions now }
  | .monitorClose =>
      match s.shell.monitor with
      | some (guestId :: _) => s.monitorHits guestId
      | _ => s
  | _ => s

def step (s : IdleWatch) : IdleEvent → Option IdleWatch
  | .shell e =>
      if s.answers e then (shellStep s.shell e).map fun shell => { s.watch e with shell } else none
  | .outputRead k now =>
      match s.shell.readers k with
      | some ⟨_, .reading _⟩ =>
          if s.arrived k then none
          else some { s.see k now with arrived := Function.update s.arrived k true }
      | _ => none

end IdleWatch

structure IdleStart (s : IdleWatch) : Prop where
  shell : ShellStart s.shell
  arrived : ∀ k, s.arrived k = false
  monitorClosed : s.monitorClosed = []

def idleMachine : Machine IdleWatch IdleEvent := ⟨IdleStart, IdleWatch.step⟩

/-- The guest ids that the monitor has sampled and not yet closed. -/
def pendingIds (s : ShellState) : List Bytes := s.monitor.getD []

def ShellSlot.LooksIdle (slot : ShellSlot) (now : Int) : Prop :=
  slot.alive = true ∧ shellIdleTimeout < now - slot.lastActivity

instance (slot : ShellSlot) (now : Int) : Decidable (slot.LooksIdle now) :=
  inferInstanceAs (Decidable (_ ∧ _))

def Opener.isFor (guestId : Bytes) : Opener → Prop
  | .forked g _ _ _ _ => g.id.bytes = guestId
  | _ => False

/-- No session is opened for an id that the monitor still closes, and none is sampled
as idle whose output has been read and not noted. -/
def SamplesHold (s : IdleWatch) : IdleEvent → Prop
  | .shell (.openSlot _ _) => ∀ guestId ∈ pendingIds s.shell, ¬ s.shell.opener.isFor guestId
  | .shell (.monitorSample now) => ∀ i, (s.shell.slots i).LooksIdle now →
      s.arrived (s.shell.slots i).session = false
  | _ => True

instance (guestId : Bytes) : (o : Opener) → Decidable (o.isFor guestId)
  | .forked .. => inferInstanceAs (Decidable (_ = _))
  | .idle | .checked _ | .piped .. | .failing _ | .opened _ => isFalse id

instance (s : IdleWatch) : (e : IdleEvent) → Decidable (SamplesHold s e)
  | .shell (.openSlot _ _) => inferInstanceAs (Decidable (∀ guestId ∈ pendingIds s.shell,
      ¬ s.shell.opener.isFor guestId))
  | .shell (.monitorSample now) => inferInstanceAs (Decidable (∀ i,
      (s.shell.slots i).LooksIdle now → s.arrived (s.shell.slots i).session = false))
  | .shell (.openCheck _) | .shell (.openPipes ..) | .shell (.openNoPipes _) | .shell (.openFork _)
  | .shell .openNoFork | .shell .openClose | .shell .openFailed | .shell (.openAnnounce _)
  | .shell (.write ..) | .shell (.close _) | .shell (.closerClose _) | .shell (.closerKill _)
  | .shell (.readerTest _) | .shell (.readerRead ..) | .shell (.readerLeave _)
  | .shell (.readerAnnounce _) | .shell (.readerRelease _) | .shell .monitorClose
  | .shell (.otherOpen _) | .shell (.otherClose _) | .outputRead .. => isTrue trivial

/-! ## What a step does to an alive slot -/

/-- The time that a step puts down in a slot. -/
def noted (s : ShellState) (i : SlotIx) : ShellEvent → Option Int
  | .write guestId true now => if findAlive s.slots guestId = some i then some now else none
  | .readerRead k (.data _ now) => if (s.slots i).session = k then some now else none
  | _ => none

structure SameSession (s : ShellState) (e : ShellEvent) (i : SlotIx) (slot : ShellSlot) : Prop where
  alive : (s.slots i).alive = true
  guestId : slot.guestId = (s.slots i).guestId
  session : slot.session = (s.slots i).session
  time : slot.lastActivity = (noted s i e).getD (s.slots i).lastActivity

inductive Taken (s : ShellState) (slot : ShellSlot) : ShellEvent → Prop
  | intro {g : Guest} {pid : Nat} {inW outR : Fd} {rest : List Fd}
      (opener : s.opener = .forked g pid inW outR rest) (guestId : slot.guestId = g.id.bytes)
      (session : slot.session = s.sessions) : Taken s slot (.openSlot slot.lastActivity true)

section Steps

variable {s s' : ShellState} {e : ShellEvent} {i j : SlotIx} {k : Nat} {now : Int}

theorem SameSession.refl (halive : (s.slots i).alive = true) (hnone : noted s i e = none) :
    SameSession s e i (s.slots i) :=
  ⟨halive, rfl, rfl, by rw [hnone]; rfl⟩

theorem sameSession_update {slot : ShellSlot} (h : slot.alive = true → SameSession s e i slot)
    (hnone : j ≠ i → (s.slots j).alive = true → noted s j e = none)
    (halive : (Function.update s.slots i slot j).alive = true) :
    SameSession s e j (Function.update s.slots i slot j) := by
  by_cases hj : j = i
  · subst hj
    rw [Function.update_self] at halive ⊢
    exact h halive
  · rw [Function.update_of_ne hj] at halive ⊢
    exact .refl halive (hnone hj halive)

theorem TableInv.session_unique {slots : SlotIx → ShellSlot} {readers : Nat → Option Reader}
    (h : TableInv slots readers) (hi : (slots i).alive = true) (hj : (slots j).alive = true)
    (hs : (slots i).session = (slots j).session) : i = j := by
  obtain ⟨p, hp, -⟩ := h.taken i (by simp [ShellSlot.Free, hi])
  obtain ⟨q, hq, -⟩ := h.taken j (by simp [ShellSlot.Free, hj])
  rw [hs, hq] at hp
  cases hp
  rfl

theorem openerStep_slots (hs : OpenerStep s e s') (halive : (s'.slots j).alive = true) :
    SameSession s e j (s'.slots j) ∨ Taken s (s'.slots j) e := by
  cases hs with
  | @check g ho hid =>
      have hslots : (openCheck g s).slots = s.slots := by
        unfold openCheck
        split
        · rfl
        · split <;> rfl
      rw [hslots] at halive ⊢
      exact .inl (.refl halive rfl)
  | @slot g pid inW outR now threadOk ho =>
      unfold openSlot at halive ⊢
      split at halive
      · exact .inl (.refl halive rfl)
      · next i hi =>
        cases threadOk with
        | true =>
            by_cases hj : j = i
            · subst hj
              right
              simp only [if_true, ShellState.setSlot, ShellState.setReader, ShellState.own,
                Function.update_self]
              exact .intro ho rfl rfl
            · left
              simp only [if_true, ShellState.setSlot, ShellState.setReader, ShellState.own,
                Function.update_of_ne hj] at halive ⊢
              exact .refl halive rfl
        | false =>
            exact .inl (sameSession_update (fun hfalse => by cases hfalse) (fun _ _ => rfl) halive)
  | _ => exact .inl (.refl halive rfl)

theorem readerStep_slots (h : SlotInv s) (hs : ReaderStep s e s')
    (halive : (s'.slots j).alive = true) : SameSession s e j (s'.slots j) := by
  cases hs with
  | @data k i fd chunk now hr =>
      have hk : (s.slots i).session = k := (h.table.reader k i _ hr (by simp)).1
      refine sameSession_update (fun hold => ⟨hold, rfl, rfl, ?_⟩) (fun hj hold => ?_) halive
      · simp [noted, hk]
      · have hne : (s.slots j).session ≠ k := by
          intro heq
          obtain ⟨q, hq, hqd⟩ := h.table.taken j (by simp [ShellSlot.Free, hold])
          rw [heq, hr] at hq
          cases hq
          exact hj rfl
        simp [noted, hne]
  | @leave k i hr =>
      simp only [readerLeave, ShellState.setReader, ShellState.setSlot, closeFd?_slots] at halive ⊢
      exact sameSession_update (fun hfalse => by cases hfalse) (fun _ _ => rfl) halive
  | @release k i hr =>
      refine sameSession_update (fun hold => ?_) (fun _ _ => rfl) halive
      have hdead := h.table.ended k i _ hr (by simp [ReaderPhase.Serving]) (by simp)
      rw [hdead] at hold
      cases hold
  | _ => exact .refl halive rfl

theorem shellClose_slots {guestId : Bytes} (halive : ((shellClose guestId s).slots j).alive = true)
    (hnone : ∀ j, noted s j e = none) : SameSession s e j ((shellClose guestId s).slots j) := by
  unfold shellClose at halive ⊢
  split at halive
  · exact .refl halive (hnone j)
  · exact sameSession_update (fun hfalse => by cases hfalse) (fun _ _ => hnone _) halive

theorem shellStep_slots (h : SlotInv s) (hs : ShellStep s e s')
    (halive : (s'.slots j).alive = true) :
    SameSession s e j (s'.slots j) ∨ Taken s (s'.slots j) e := by
  cases hs with
  | @write guestId ok now =>
      left
      unfold shellWrite at halive ⊢
      cases hfind : findAlive s.slots guestId with
      | none =>
          rw [hfind] at halive
          exact .refl halive (by cases ok <;> simp [noted, hfind])
      | some i =>
          rw [hfind] at halive
          cases ok with
          | false => exact .refl halive rfl
          | true =>
              refine sameSession_update (fun hold => ⟨hold, rfl, rfl, ?_⟩) (fun hj _ => ?_) halive
              · simp [noted, hfind]
              · simp [noted, hfind, Ne.symm hj]
  | close => exact .inl (shellClose_slots halive fun _ => rfl)
  | monitorClose hm => exact .inl (shellClose_slots halive fun _ => rfl)
  | opener ho => exact openerStep_slots ho halive
  | reader hr => exact .inl (readerStep_slots h hr halive)
  | _ => exact .inl (.refl halive rfl)

theorem shellStep_pending (hs : ShellStep s e s') :
    (∃ now, e = .monitorSample now ∧ pendingIds s' = idleGuests s.slots now) ∨
      pendingIds s' ⊆ pendingIds s ∧ ∀ now, e ≠ .monitorSample now := by
  cases hs with
  | @monitorSample now hm => exact .inl ⟨now, rfl, rfl⟩
  | @monitorClose guestId rest hm =>
      right
      constructor
      · intro g hg
        simp only [pendingIds, hm, Option.getD_some]
        exact List.mem_cons_of_mem _ hg
      · simp
  | @write guestId ok now =>
      refine .inr ⟨?_, by simp⟩
      unfold shellWrite
      split
      · exact List.Subset.refl _
      · split <;> exact List.Subset.refl _
  | @close guestId =>
      refine .inr ⟨?_, by simp⟩
      unfold shellClose
      split <;> exact List.Subset.refl _
  | opener ho =>
      right
      cases ho with
      | @check g ho hid =>
          refine ⟨?_, by simp⟩
          unfold openCheck
          split
          · exact List.Subset.refl _
          · split <;> exact List.Subset.refl _
      | @slot g pid inW outR now threadOk ho =>
          refine ⟨?_, by simp⟩
          unfold openSlot
          split
          · exact List.Subset.refl _
          · dsimp only
            split <;> exact List.Subset.refl _
      | @announce g monitorOk ho =>
          refine ⟨?_, by simp⟩
          intro g' hg'
          simp only [pendingIds, openAnnounce] at hg' ⊢
          split at hg'
          · cases hg'
          · exact hg'
      | _ => exact ⟨List.Subset.refl _, by simp⟩
  | reader hr =>
      right
      cases hr with
      | @leave k i hr =>
          refine ⟨?_, by simp⟩
          have hmonitor : pendingIds (readerLeave k i s) = pendingIds s := by
            simp [readerLeave, pendingIds, ShellState.setReader, ShellState.setSlot]
          rw [hmonitor]
          exact List.Subset.refl _
      | _ => exact ⟨List.Subset.refl _, by simp⟩
  | _ => exact .inr ⟨List.Subset.refl _, by simp⟩

end Steps

/-! ## The invariant -/

/-- What the watch and the slots know agree, and what is still to be closed was idle. -/
structure Watched (s : IdleWatch) : Prop where
  ids : ∀ i, (s.shell.slots i).alive = true → (s.shell.slots i).guestId.length ≤ 31
  seen : ∀ i, (s.shell.slots i).alive = true → s.arrived (s.shell.slots i).session = false →
    s.seen (s.shell.slots i).session = (s.shell.slots i).lastActivity
  pending : ∀ guestId ∈ pendingIds s.shell, ∀ i, (s.shell.slots i).Serves guestId →
    (s.shell.slots i).session ∈ s.idle
  closes : ∀ c ∈ s.monitorClosed, c.2 = true

section Watch

variable {s : IdleWatch} {shell : ShellState} {e : ShellEvent} {i : SlotIx} {now : Int}

theorem watch_seen (h : SlotInv s.shell) (halive : (s.shell.slots i).alive = true) :
    (s.watch e).seen (s.shell.slots i).session =
      (noted s.shell i e).getD (s.seen (s.shell.slots i).session) := by
  unfold IdleWatch.watch noted
  split
  case h_1 guestId now =>
    cases hfind : findAlive s.shell.slots guestId with
    | none => simp [hfind]
    | some j =>
        by_cases hj : j = i
        · simp [hfind, hj, IdleWatch.see]
        · have hne : (s.shell.slots i).session ≠ (s.shell.slots j).session := fun heq =>
            hj (h.table.session_unique halive (findAlive_serves hfind).1 heq).symm
          simp [hfind, hj, IdleWatch.see, Function.update_of_ne hne]
  case h_2 now =>
    have hne : (s.shell.slots i).session ≠ s.shell.sessions := by
      intro heq
      obtain ⟨p, hp, -⟩ := h.table.taken i (by simp [ShellSlot.Free, halive])
      rw [heq, (h.fresh _ le_rfl).1] at hp
      cases hp
    simp [IdleWatch.see, Function.update_of_ne hne]
  case h_3 k chunk now =>
    by_cases hk : (s.shell.slots i).session = k
    · simp [hk, IdleWatch.see]
    · simp [hk, IdleWatch.see]
  case h_4 => rfl
  case h_5 =>
    split
    · unfold IdleWatch.monitorHits
      split <;> rfl
    · rfl
  case h_6 hwrite _ hread _ _ =>
    split
    · exact absurd rfl (hwrite _ _)
    · exact absurd rfl (hread _ _ _)
    · rfl

theorem watch_arrived (hnone : noted s.shell i e = none)
    (h : (s.watch e).arrived (s.shell.slots i).session = false) :
    s.arrived (s.shell.slots i).session = false := by
  unfold IdleWatch.watch at h
  split at h
  case h_1 =>
    split at h <;> exact h
  case h_3 k chunk now =>
    have hk : (s.shell.slots i).session ≠ k := by
      intro heq
      simp [noted, heq] at hnone
    simpa [Function.update_of_ne hk, IdleWatch.see] using h
  case h_5 =>
    split at h
    · unfold IdleWatch.monitorHits at h
      split at h <;> exact h
    · exact h
  all_goals exact h

theorem watch_idle (he : ∀ now, e ≠ .monitorSample now) : (s.watch e).idle = s.idle := by
  unfold IdleWatch.watch
  split
  case h_1 => split <;> rfl
  case h_4 => exact absurd rfl (he _)
  case h_5 =>
    split
    · unfold IdleWatch.monitorHits
      split <;> rfl
    · rfl
  all_goals rfl

theorem mem_idleGuests {slots : SlotIx → ShellSlot} {guestId : Bytes}
    (hids : ∀ i, (slots i).alive = true → (slots i).guestId.length ≤ 31)
    (h : guestId ∈ idleGuests slots now) : ∃ i, (slots i).LooksIdle now ∧ (slots i).guestId = guestId := by
  simp only [idleGuests, List.mem_map, List.mem_filter, Bool.and_eq_true, decide_eq_true_eq] at h
  obtain ⟨i, ⟨-, halive, htime⟩, hid⟩ := h
  rw [List.take_of_length_le (hids i halive)] at hid
  exact ⟨i, ⟨halive, htime⟩, hid⟩

theorem Watched.ids_step (h : Watched s) (hinv : SlotInv s.shell) (hs : ShellStep s.shell e shell)
    (halive : (shell.slots i).alive = true) : (shell.slots i).guestId.length ≤ 31 := by
  obtain hsame | htaken := shellStep_slots hinv hs halive
  · rw [hsame.guestId]
    exact h.ids i hsame.alive
  · obtain ⟨-, hid, -⟩ := htaken
    rw [hid]
    exact CStr.short _

theorem Watched.seen_step (h : Watched s) (hinv : SlotInv s.shell) (hs : ShellStep s.shell e shell)
    (halive : (shell.slots i).alive = true)
    (harrived : (s.watch e).arrived (shell.slots i).session = false) :
    (s.watch e).seen (shell.slots i).session = (shell.slots i).lastActivity := by
  obtain hsame | htaken := shellStep_slots hinv hs halive
  · rw [hsame.session] at harrived ⊢
    rw [watch_seen hinv hsame.alive, hsame.time]
    cases hnone : noted s.shell i e with
    | some now => rfl
    | none => exact h.seen i hsame.alive (watch_arrived hnone harrived)
  · generalize hslot : shell.slots i = slot at *
    obtain ⟨-, -, hsession⟩ := htaken
    rw [hsession]
    simp [IdleWatch.watch, IdleWatch.see]

theorem Watched.pending_step (h : Watched s) (hinv : SlotInv s.shell)
    (hok : SamplesHold s (.shell e)) (hs : ShellStep s.shell e shell) {guestId : Bytes}
    (hpending : guestId ∈ pendingIds shell) (hserves : (shell.slots i).Serves guestId) :
    (shell.slots i).session ∈ (s.watch e).idle := by
  obtain hsame | htaken := shellStep_slots hinv hs hserves.1
  · have hold : (s.shell.slots i).Serves guestId := ⟨hsame.alive, hsame.guestId ▸ hserves.2⟩
    rw [hsame.session]
    obtain ⟨now, rfl, hsample⟩ | ⟨hsub, he⟩ := shellStep_pending hs
    · rw [hsample] at hpending
      obtain ⟨j, hlooks, hid⟩ := mem_idleGuests h.ids hpending
      obtain rfl : i = j := hinv.table.distinct i j guestId hold ⟨hlooks.1, hid⟩
      have hseen := h.seen i hlooks.1 (hok i hlooks)
      simp only [IdleWatch.watch, IdleWatch.idleSessions, List.mem_map, List.mem_filter,
        Bool.and_eq_true, decide_eq_true_eq]
      refine ⟨i, ⟨List.mem_finRange i, hlooks.1, ?_⟩, rfl⟩
      rw [hseen]
      exact hlooks.2
    · rw [watch_idle he]
      exact h.pending guestId (hsub hpending) i hold
  · generalize hslot : shell.slots i = slot at *
    obtain ⟨hopener, hid, -⟩ := htaken
    obtain ⟨now, hnow, -⟩ | ⟨hsub, -⟩ := shellStep_pending hs
    · cases hnow
    · have hfor := hok guestId (hsub hpending)
      rw [hopener] at hfor
      exact absurd (hid.symm.trans hserves.2) hfor

theorem Watched.closes_step (h : Watched s) : ∀ c ∈ (s.watch e).monitorClosed, c.2 = true := by
  unfold IdleWatch.watch
  split
  case h_1 => split <;> exact h.closes
  case h_5 =>
    split
    · next guestId rest hm =>
      unfold IdleWatch.monitorHits
      split
      · exact h.closes
      · next i hi =>
        have hidle := h.pending guestId (by simp [pendingIds, hm]) i (findAlive_serves hi)
        intro c hc
        obtain hc | hc := List.mem_append.mp hc
        · exact h.closes c hc
        · rw [List.mem_singleton] at hc
          simp [hc, hidle]
    · exact h.closes
  all_goals exact h.closes

theorem Watched.outputRead (h : Watched s) {k : Nat} :
    Watched { s.see k now with arrived := Function.update s.arrived k true } where
  ids := h.ids
  seen := by
    intro i halive harrived
    have hk : (s.shell.slots i).session ≠ k := by
      intro heq
      simp [IdleWatch.see, heq] at harrived
    simp only [IdleWatch.see, Function.update_of_ne hk] at harrived ⊢
    exact h.seen i halive harrived
  pending := h.pending
  closes := h.closes

end Watch

/-! ## Runs -/

theorem watched_step {s s' : IdleWatch} {e : IdleEvent} (h : SlotInv s.shell ∧ Watched s)
    (hok : SamplesHold s e) (hs : idleMachine.step s e = some s') :
    SlotInv s'.shell ∧ Watched s' := by
  obtain ⟨hinv, hw⟩ := h
  simp only [idleMachine, IdleWatch.step] at hs
  cases e with
  | shell e =>
      dsimp only at hs
      split at hs
      · obtain ⟨shell, hshell, rfl⟩ := Option.map_eq_some_iff.mp hs
        have hspec := shellStep_spec hshell
        refine ⟨slotInv_step hinv hshell, ?_⟩
        constructor
        case ids => exact fun i => hw.ids_step hinv hspec
        case seen => exact fun i => hw.seen_step hinv hspec
        case pending => exact fun g hg i => hw.pending_step hinv hok hspec hg
        case closes => exact hw.closes_step
      · cases hs
  | outputRead k now =>
      dsimp only at hs
      split at hs
      · split at hs
        · cases hs
        · cases hs
          exact ⟨hinv, hw.outputRead⟩
      · cases hs

theorem watched_of_start {s : IdleWatch} (h : IdleStart s) : Watched s := by
  have hdead : ∀ i, (s.shell.slots i).alive ≠ true := fun i => by simp [(h.shell.slots i).1]
  constructor
  case ids => exact fun i halive => absurd halive (hdead i)
  case seen => exact fun i halive => absurd halive (hdead i)
  case pending => exact fun _ _ i hserves => absurd hserves.1 (hdead i)
  case closes => simp [h.monitorClosed]

/-- Every session that the monitor closes was idle when it was sampled. -/
theorem monitor_closes_idle {s : IdleWatch} (h : idleMachine.ReachableBy SamplesHold s) :
    ∀ c ∈ s.monitorClosed, c.2 = true := by
  have hw : SlotInv s.shell ∧ Watched s := by
    induction h with
    | initial hs => exact ⟨shellStart_inv hs.shell, watched_of_start hs⟩
    | step _ hok hs ih => exact watched_step ih hok hs
  exact hw.2.closes

def bareWatch : IdleWatch := ⟨bareShell, fun _ => 0, fun _ => false, [], []⟩

theorem bareWatch_start : idleMachine.initial bareWatch := ⟨bareShell_start, fun _ => rfl, rfl⟩

/-- A session is opened at time 0, with the monitor, and sampled 61 seconds later. -/
def openAndSample : List IdleEvent :=
  ([.openCheck shellGuest, .openPipes 3 4 5 6, .openFork 100, .openClose, .openClose,
    .openSlot 0 true, .openAnnounce true, .readerTest 0, .monitorSample 61] : List ShellEvent).map
      .shell

/-- The idle session is closed. -/
theorem monitor_closes_idle_session : ∃ s : IdleWatch, s.monitorClosed.length = 1 ∧
    ∀ c ∈ s.monitorClosed, c.2 = true := by
  have hbegin : idleMachine.ReachableBy SamplesHold bareWatch := .initial bareWatch_start
  obtain ⟨s, hreach, hclosed⟩ := hbegin.after_any (openAndSample ++ [.shell .monitorClose])
    (fun s => decide (s.monitorClosed.length = 1)) (by decide)
  exact ⟨s, of_decide_eq_true hclosed, monitor_closes_idle hreach⟩

/-- The sampled session ends and the guest's next one is closed. -/
theorem monitor_closes_new_session :
    ¬ ∀ s, idleMachine.Reachable s → ∀ c ∈ s.monitorClosed, c.2 = true := by
  intro hall
  have hbegin : idleMachine.Reachable bareWatch := .initial bareWatch_start
  obtain ⟨s, hreach, hclosed⟩ := hbegin.after_any
    (openAndSample ++ ([.readerRead 0 .ended, .readerLeave 0, .readerAnnounce 0, .readerRelease 0,
      .openCheck shellGuest, .openPipes 3 4 5 6, .openFork 101, .openClose, .openClose,
      .openSlot 62 true, .openAnnounce true, .monitorClose] : List ShellEvent).map .shell)
    (fun s => decide ((1, false) ∈ s.monitorClosed)) (by decide)
  cases hall s hreach _ (of_decide_eq_true hclosed)

end QnxHypervisor.GuestShell
