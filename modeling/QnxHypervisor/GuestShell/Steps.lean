import QnxHypervisor.GuestShell.Session

/-! # What a step of the shell can be

The step functions read as relations, one constructor for each way a step can go.
Every invariant is proved by cases on these.
-/

namespace QnxHypervisor.GuestShell

open Foundation GuestManager HmsStatus

/-! ## Closing changes descriptors only -/

section

variable (s : ShellState) (fd : Option Fd)

@[simp] theorem closeFd?_slots : (s.closeFd? fd).slots = s.slots := by cases fd <;> rfl
@[simp] theorem closeFd?_opener : (s.closeFd? fd).opener = s.opener := by cases fd <;> rfl
@[simp] theorem closeFd?_readers : (s.closeFd? fd).readers = s.readers := by cases fd <;> rfl
@[simp] theorem closeFd?_sessions : (s.closeFd? fd).sessions = s.sessions := by cases fd <;> rfl
@[simp] theorem closeFd?_monitor : (s.closeFd? fd).monitor = s.monitor := by cases fd <;> rfl

end

/-! ## Steps that leave the descriptors alone -/

section

variable (s : ShellState) (guestId : Bytes) (ok : Bool) (now : Int) (g : Guest)

@[simp] theorem shellWrite_owner : (shellWrite guestId ok now s).owner = s.owner := by
  unfold shellWrite
  split
  · rfl
  · split <;> rfl

@[simp] theorem shellWrite_closed : (shellWrite guestId ok now s).closed = s.closed := by
  unfold shellWrite
  split
  · rfl
  · split <;> rfl

@[simp] theorem shellWrite_sessions : (shellWrite guestId ok now s).sessions = s.sessions := by
  unfold shellWrite
  split
  · rfl
  · split <;> rfl

@[simp] theorem shellWrite_opener : (shellWrite guestId ok now s).opener = s.opener := by
  unfold shellWrite
  split
  · rfl
  · split <;> rfl

@[simp] theorem shellClose_owner : (shellClose guestId s).owner = s.owner := by
  unfold shellClose
  split <;> rfl

@[simp] theorem shellClose_closed : (shellClose guestId s).closed = s.closed := by
  unfold shellClose
  split <;> rfl

@[simp] theorem shellClose_sessions : (shellClose guestId s).sessions = s.sessions := by
  unfold shellClose
  split <;> rfl

@[simp] theorem shellClose_opener : (shellClose guestId s).opener = s.opener := by
  unfold shellClose
  split <;> rfl

theorem openCheck_eq : openCheck g s = s ∨ openCheck g s = { s with opener := .checked g } := by
  unfold openCheck
  split
  · exact .inl rfl
  · split
    · exact .inl rfl
    · exact .inr rfl

end

/-! ## The relations -/

/-- The steps of `shell_open`. -/
inductive OpenerStep (s : ShellState) : ShellEvent → ShellState → Prop
  | check {g : Guest} (ho : s.opener = .idle) (hid : g.id.bytes ≠ []) :
      OpenerStep s (.openCheck g) (openCheck g s)
  | pipes {g : Guest} {inR inW outR outW : Fd} (ho : s.opener = .checked g)
      (hfresh : FreshFds s [inR, inW, outR, outW]) :
      OpenerStep s (.openPipes inR inW outR outW) (openPipes g inR inW outR outW s)
  | noPipes {g : Guest} (ho : s.opener = .checked g) :
      OpenerStep s (.openNoPipes none) { s with opener := .idle }
  | leakedPipe {g : Guest} {inR inW : Fd} (ho : s.opener = .checked g)
      (hfresh : FreshFds s [inR, inW]) :
      OpenerStep s (.openNoPipes (some (inR, inW)))
        { (s.own inR .other).own inW .other with opener := .idle }
  | fork {g : Guest} {pid : Nat} {inR inW outR outW : Fd} (ho : s.opener = .piped g inR inW outR outW) :
      OpenerStep s (.openFork pid) { s with opener := .forked g pid inW outR [inR, outW] }
  | noFork {g : Guest} {inR inW outR outW : Fd} (ho : s.opener = .piped g inR inW outR outW) :
      OpenerStep s .openNoFork { s with opener := .failing [inR, inW, outR, outW] }
  | closeParent {g : Guest} {pid : Nat} {inW outR fd : Fd} {rest : List Fd}
      (ho : s.opener = .forked g pid inW outR (fd :: rest)) :
      OpenerStep s .openClose { s.closeFd fd with opener := .forked g pid inW outR rest }
  | closeFailed {fd : Fd} {rest : List Fd} (ho : s.opener = .failing (fd :: rest)) :
      OpenerStep s .openClose { s.closeFd fd with opener := .failing rest }
  | slot {g : Guest} {pid : Nat} {inW outR : Fd} {now : Int} {threadOk : Bool}
      (ho : s.opener = .forked g pid inW outR []) :
      OpenerStep s (.openSlot now threadOk) (openSlot g pid inW outR now threadOk s)
  | failed (ho : s.opener = .failing []) : OpenerStep s .openFailed { s with opener := .idle }
  | announce {g : Guest} {monitorOk : Bool} (ho : s.opener = .opened g) :
      OpenerStep s (.openAnnounce monitorOk) (openAnnounce g monitorOk s)

/-- The steps of a reader thread. -/
inductive ReaderStep (s : ShellState) : ShellEvent → ShellState → Prop
  | test {k : Nat} {i : SlotIx} {p : ReaderPhase} (hr : s.readers k = some ⟨i, .testing⟩)
      (hp : p = .leaving ∨ ∃ fd, p = .reading fd ∧ (s.slots i).outFd = some fd) :
      ReaderStep s (.readerTest k) (s.setReader k ⟨i, p⟩)
  | data {k : Nat} {i : SlotIx} {fd : Fd} {chunk : Bytes} {now : Int}
      (hr : s.readers k = some ⟨i, .reading fd⟩) :
      ReaderStep s (.readerRead k (.data chunk now)) (readerForward k i chunk now s)
  | interrupted {k : Nat} {i : SlotIx} {fd : Fd} (hr : s.readers k = some ⟨i, .reading fd⟩) :
      ReaderStep s (.readerRead k .interrupted) (s.setReader k ⟨i, .testing⟩)
  | ended {k : Nat} {i : SlotIx} {fd : Fd} (hr : s.readers k = some ⟨i, .reading fd⟩) :
      ReaderStep s (.readerRead k .ended) (s.setReader k ⟨i, .leaving⟩)
  | leave {k : Nat} {i : SlotIx} (hr : s.readers k = some ⟨i, .leaving⟩) :
      ReaderStep s (.readerLeave k) (readerLeave k i s)
  | announce {k : Nat} {i : SlotIx} (hr : s.readers k = some ⟨i, .announcing⟩) :
      ReaderStep s (.readerAnnounce k) (readerAnnounce k i s)
  | release {k : Nat} {i : SlotIx} (hr : s.readers k = some ⟨i, .releasing⟩) :
      ReaderStep s (.readerRelease k) (readerRelease k i s)

/-- All steps; the last three constructors are those of other parts of the process
and of the two relations above. -/
inductive ShellStep (s : ShellState) : ShellEvent → ShellState → Prop
  | write {guestId : Bytes} {ok : Bool} {now : Int} :
      ShellStep s (.write guestId ok now) (shellWrite guestId ok now s)
  | close {guestId : Bytes} : ShellStep s (.close guestId) (shellClose guestId s)
  | closerClose {j k fd pid : Nat} (hc : s.closers j = some ⟨k, some fd, pid⟩) :
      ShellStep s (.closerClose j)
        { s.closeFd fd with closers := Function.update s.closers j (some ⟨k, none, pid⟩) }
  | closerKill {j k pid : Nat} (hc : s.closers j = some ⟨k, none, pid⟩) :
      ShellStep s (.closerKill j) { s with closers := Function.update s.closers j none }
  | monitorSample {now : Int} (hm : s.monitor = some []) :
      ShellStep s (.monitorSample now) { s with monitor := some (idleGuests s.slots now) }
  | monitorClose {guestId : Bytes} {rest : List Bytes} (hm : s.monitor = some (guestId :: rest)) :
      ShellStep s .monitorClose { shellClose guestId s with monitor := some rest }
  | otherOpen {fd : Fd} (hfd : s.owner fd = none) : ShellStep s (.otherOpen fd) (s.own fd .other)
  | otherClose {fd : Fd} (hfd : s.owner fd = some .other) :
      ShellStep s (.otherClose fd) { s with owner := Function.update s.owner fd none }
  | opener {e : ShellEvent} {s' : ShellState} (h : OpenerStep s e s') : ShellStep s e s'
  | reader {e : ShellEvent} {s' : ShellState} (h : ReaderStep s e s') : ShellStep s e s'

variable {s s' : ShellState} {e : ShellEvent}

theorem openerStep_spec (hs : openerStep s e = some s') : OpenerStep s e s' := by
  unfold openerStep at hs
  split at hs
  case h_1 g =>
    split at hs
    · next ho =>
      split at hs
      · cases hs
      · next hid =>
        cases hs
        exact .check ho hid
    · cases hs
  case h_2 =>
    split at hs
    · next ho =>
      split at hs
      · next hfresh =>
        cases hs
        exact .pipes ho hfresh
      · cases hs
    · cases hs
  case h_3 =>
    split at hs
    · next ho =>
      cases hs
      exact .noPipes ho
    · next ho =>
      split at hs
      · next hfresh =>
        cases hs
        exact .leakedPipe ho hfresh
      · cases hs
    · cases hs
  case h_4 =>
    split at hs
    · next ho =>
      cases hs
      exact .fork ho
    · cases hs
  case h_5 =>
    split at hs
    · next ho =>
      cases hs
      exact .noFork ho
    · cases hs
  case h_6 =>
    split at hs
    · next ho =>
      cases hs
      exact .closeParent ho
    · next ho =>
      cases hs
      exact .closeFailed ho
    · cases hs
  case h_7 =>
    split at hs
    · next ho =>
      cases hs
      exact .slot ho
    · cases hs
  case h_8 =>
    split at hs
    · next ho =>
      cases hs
      exact .failed ho
    · cases hs
  case h_9 =>
    split at hs
    · next ho =>
      cases hs
      exact .announce ho
    · cases hs
  case h_10 => cases hs

theorem readerStep_spec (hs : readerStep s e = some s') : ReaderStep s e s' := by
  unfold readerStep at hs
  split at hs
  case h_1 k =>
    split at hs
    · next i hr =>
      split at hs
      · split at hs
        · next fd hfd =>
          cases hs
          exact .test hr (.inr ⟨fd, rfl, hfd⟩)
        · cases hs
          exact .test hr (.inl rfl)
      · cases hs
        exact .test hr (.inl rfl)
    · cases hs
  case h_2 k answer =>
    split at hs
    · next i fd hr =>
      cases answer with
      | data chunk now =>
          cases hs
          exact .data hr
      | interrupted =>
          cases hs
          exact .interrupted hr
      | ended =>
          cases hs
          exact .ended hr
    · cases hs
  case h_3 k =>
    split at hs
    · next hr =>
      cases hs
      exact .leave hr
    · cases hs
  case h_4 k =>
    split at hs
    · next hr =>
      cases hs
      exact .announce hr
    · cases hs
  case h_5 k =>
    split at hs
    · next hr =>
      cases hs
      exact .release hr
    · cases hs
  case h_6 => cases hs

theorem shellStep_spec (hs : shellStep s e = some s') : ShellStep s e s' := by
  unfold shellStep at hs
  split at hs
  case h_1 =>
    cases hs
    exact .write
  case h_2 =>
    cases hs
    exact .close
  case h_3 =>
    split at hs
    · next hc =>
      cases hs
      exact .closerClose hc
    · cases hs
  case h_4 =>
    split at hs
    · next hc =>
      cases hs
      exact .closerKill hc
    · cases hs
  case h_5 =>
    split at hs
    · next hm =>
      cases hs
      exact .monitorSample hm
    · cases hs
  case h_6 =>
    split at hs
    · next hm =>
      cases hs
      exact .monitorClose hm
    · cases hs
  case h_7 =>
    split at hs
    · next hfd =>
      cases hs
      exact .otherOpen hfd
    · cases hs
  case h_8 =>
    split at hs
    · next hfd =>
      cases hs
      exact .otherClose hfd
    · cases hs
  case h_9 =>
    obtain ho | ⟨-, hr⟩ := Option.or_eq_some_iff.mp hs
    · exact .opener (openerStep_spec ho)
    · exact .reader (readerStep_spec hr)

end QnxHypervisor.GuestShell
