import Mathlib.Logic.Function.Basic
import QnxHypervisor.Foundation.Machine
import QnxHypervisor.HmsStatus.Message

/-! # Interactive shell sessions

`shell.c`: a table of session slots shared by the opener (the MQTT thread), any
number of `shell_write` and `shell_close` calls, the idle monitor and one reader
thread for each session. A step is one critical section under `s_lock` or one
system call. Descriptor numbers are handed out again once closed, so the kernel
side records which pipe end a number stands for. Signals to the ssh child touch
neither slots nor descriptors and are left out.
-/

namespace QnxHypervisor.GuestShell

open Foundation GuestManager HmsStatus

def shellMaxSessions : Nat := 4

/-- `SHELL_IDLE_TIMEOUT`, in seconds. -/
def shellIdleTimeout : Int := 60

abbrev Fd := Nat

abbrev SlotIx := Fin shellMaxSessions

/-- `ShellSession`; `none` stands for descriptor -1. -/
structure ShellSlot where
  guestId : Bytes
  pid : Nat
  inFd : Option Fd
  outFd : Option Fd
  alive : Bool
  lastActivity : Int
  /-- the session that took the slot last -/
  session : Nat

/-- The two ends of its pipes that a session keeps. -/
inductive PipeEnd where
  | stdin
  | stdout
  deriving DecidableEq

/-- What an open descriptor number stands for. -/
inductive FdOwner where
  | session (k : Nat) (e : PipeEnd)
  | opener
  | other
  deriving DecidableEq

/-- Where `shell_open` stands. `close` lists the descriptors it still closes. -/
inductive Opener where
  | idle
  | checked (g : Guest)
  | piped (g : Guest) (inR inW outR outW : Fd)
  | forked (g : Guest) (pid : Nat) (inW outR : Fd) (close : List Fd)
  | failing (close : List Fd)
  | opened (g : Guest)

/-- Where a reader thread stands; `reading` holds the number given to `read`. -/
inductive ReaderPhase where
  | testing
  | reading (fd : Fd)
  | leaving
  | announcing
  | releasing
  | done
  deriving DecidableEq

structure Reader where
  slot : SlotIx
  phase : ReaderPhase
  deriving DecidableEq

/-- A `shell_close` call behind its critical section: descriptor and process
still to be closed and killed. -/
structure Closer where
  session : Nat
  inFd : Option Fd
  pid : Nat

structure ShellState where
  slots : SlotIx → ShellSlot
  opener : Opener
  /-- the reader thread of each session -/
  readers : Nat → Option Reader
  sessions : Nat
  /-- the `shell_close` calls in progress -/
  closers : Nat → Option Closer
  closeCalls : Nat
  /-- guest ids the idle monitor still closes; `none` before it is started -/
  monitor : Option (List Bytes)
  owner : Fd → Option FdOwner
  /-- what each `close` hit -/
  closed : List (Option FdOwner)
  published : List StatusMessage

/-! ## Source functions -/

/-- The search of `shell_write`, `shell_close` and the check of `shell_open`. -/
def ShellSlot.Serves (guestId : Bytes) (slot : ShellSlot) : Prop :=
  slot.alive = true ∧ slot.guestId = guestId

/-- The test of the slot search in `shell_open`. -/
def ShellSlot.Free (slot : ShellSlot) : Prop := slot.alive = false ∧ slot.guestId = []

instance (guestId : Bytes) (slot : ShellSlot) : Decidable (slot.Serves guestId) :=
  inferInstanceAs (Decidable (_ ∧ _))

instance (slot : ShellSlot) : Decidable slot.Free :=
  inferInstanceAs (Decidable (_ ∧ _))

def findAlive (slots : SlotIx → ShellSlot) (guestId : Bytes) : Option SlotIx :=
  (List.finRange shellMaxSessions).find? fun i => (slots i).Serves guestId

def findFree (slots : SlotIx → ShellSlot) : Option SlotIx :=
  (List.finRange shellMaxSessions).find? fun i => (slots i).Free

namespace ShellState

def setSlot (s : ShellState) (i : SlotIx) (slot : ShellSlot) : ShellState :=
  { s with slots := Function.update s.slots i slot }

def setReader (s : ShellState) (k : Nat) (r : Reader) : ShellState :=
  { s with readers := Function.update s.readers k (some r) }

/-- `close(fd)`: the number becomes free, whatever it stands for. -/
def closeFd (s : ShellState) (fd : Fd) : ShellState :=
  { s with owner := Function.update s.owner fd none, closed := s.closed ++ [s.owner fd] }

def closeFd? (s : ShellState) : Option Fd → ShellState
  | some fd => s.closeFd fd
  | none => s

def own (s : ShellState) (fd : Fd) (o : FdOwner) : ShellState :=
  { s with owner := Function.update s.owner fd (some o) }

def publish (s : ShellState) (guest state msg : Bytes) : ShellState :=
  { s with published := s.published ++ [.shellState guest state msg] }

end ShellState

/-- First checks and first critical section of `shell_open`. Guests come from
the guest table, where ids are not empty. -/
def openCheck (g : Guest) (s : ShellState) : ShellState :=
  if g.ip.bytes = [] ∨ g.state ≠ .running then s
  else if (findAlive s.slots g.id.bytes).isSome then s
  else { s with opener := .checked g }

/-- Both `pipe` calls: four numbers not in use. -/
def openPipes (g : Guest) (inR inW outR outW : Fd) (s : ShellState) : ShellState :=
  { ((((s.own inR .opener).own inW .opener).own outR .opener).own outW .opener) with
    opener := .piped g inR inW outR outW }

/-- Slot search, set-up and `pthread_create` in the second critical section. -/
def openSlot (g : Guest) (pid : Nat) (inW outR : Fd) (now : Int) (threadOk : Bool)
    (s : ShellState) : ShellState :=
  match findFree s.slots with
  | none => { s with opener := .failing [inW, outR] }
  | some i =>
      let slot : ShellSlot :=
        { guestId := g.id.bytes, pid, inFd := some inW, outFd := some outR, alive := true
          lastActivity := now, session := s.sessions }
      if threadOk then
        { ((((s.setSlot i slot).setReader s.sessions ⟨i, .testing⟩).own inW
            (.session s.sessions .stdin)).own outR (.session s.sessions .stdout)) with
          sessions := s.sessions + 1, opener := .opened g }
      else
        -- the stale pid and descriptors stay in the slot
        { s.setSlot i { slot with alive := false, guestId := [], session := (s.slots i).session } with
          opener := .failing [inW, outR] }

/-- `publish_shell_state` and the start of the monitor at the end of `shell_open`. -/
def openAnnounce (g : Guest) (monitorOk : Bool) (s : ShellState) : ShellState :=
  { s.publish g.id.bytes (utf8 "shell_opened") (utf8 "shell connected") with
    opener := .idle
    monitor := if s.monitor.isNone ∧ monitorOk then some [] else s.monitor }

/-- `shell_write`: the writes stay within the critical section. -/
def shellWrite (guestId : Bytes) (ok : Bool) (now : Int) (s : ShellState) : ShellState :=
  match findAlive s.slots guestId with
  | none => s
  | some i => if ok then s.setSlot i { s.slots i with lastActivity := now } else s

/-- The critical section of `shell_close`. -/
def shellClose (guestId : Bytes) (s : ShellState) : ShellState :=
  match findAlive s.slots guestId with
  | none => s
  | some i =>
      let slot := s.slots i
      { s.setSlot i { slot with alive := false, pid := 0, inFd := none } with
        closers := Function.update s.closers s.closeCalls (some ⟨slot.session, slot.inFd, slot.pid⟩)
        closeCalls := s.closeCalls + 1 }

/-- The first critical section behind the read loop. -/
def readerLeave (k : Nat) (i : SlotIx) (s : ShellState) : ShellState :=
  let slot := s.slots i
  (((s.closeFd? slot.outFd).closeFd? slot.inFd).setSlot i
    { slot with alive := false, outFd := none, inFd := none, pid := 0 }).setReader k ⟨i, .announcing⟩

/-- A successful `read`: the time is noted and the chunk published. -/
def readerForward (k : Nat) (i : SlotIx) (chunk : Bytes) (now : Int) (s : ShellState) : ShellState :=
  let chunkMessage : StatusMessage := .shellOut (s.slots i).guestId chunk
  ({ s with published := s.published ++ [chunkMessage] }.setSlot i
    { s.slots i with lastActivity := now }).setReader k ⟨i, .testing⟩

def readerAnnounce (k : Nat) (i : SlotIx) (s : ShellState) : ShellState :=
  (s.publish (s.slots i).guestId (utf8 "shell_closed") (utf8 "session ended")).setReader k
    ⟨i, .releasing⟩

def readerRelease (k : Nat) (i : SlotIx) (s : ShellState) : ShellState :=
  (s.setSlot i { s.slots i with guestId := [] }).setReader k ⟨i, .done⟩

/-- The sampling section of `shell_monitor`. -/
def idleGuests (slots : SlotIx → ShellSlot) (now : Int) : List Bytes :=
  ((List.finRange shellMaxSessions).filter fun i =>
    (slots i).alive && decide (shellIdleTimeout < now - (slots i).lastActivity)).map
      fun i => (slots i).guestId.take 31

/-! ## Steps -/

/-- What a `read` on the session's output answers. -/
inductive ReadAnswer where
  | data (chunk : Bytes) (now : Int)
  | interrupted
  | ended

inductive ShellEvent where
  | openCheck (g : Guest)
  | openPipes (inR inW outR outW : Fd)
  | openNoPipes (left : Option (Fd × Fd))
  | openFork (pid : Nat)
  | openNoFork
  | openClose
  | openSlot (now : Int) (threadOk : Bool)
  | openFailed
  | openAnnounce (monitorOk : Bool)
  | write (guestId : Bytes) (ok : Bool) (now : Int)
  | close (guestId : Bytes)
  | closerClose (j : Nat)
  | closerKill (j : Nat)
  | readerTest (k : Nat)
  | readerRead (k : Nat) (answer : ReadAnswer)
  | readerLeave (k : Nat)
  | readerAnnounce (k : Nat)
  | readerRelease (k : Nat)
  | monitorSample (now : Int)
  | monitorClose
  | otherOpen (fd : Fd)
  | otherClose (fd : Fd)

/-- Numbers that `pipe` may return: not in use, pairwise different. -/
def FreshFds (s : ShellState) (fds : List Fd) : Prop :=
  fds.Nodup ∧ ∀ fd ∈ fds, s.owner fd = none

instance (s : ShellState) (fds : List Fd) : Decidable (FreshFds s fds) :=
  inferInstanceAs (Decidable (_ ∧ _))

/-- `shell_open` from its first step to its return. -/
def openerStep (s : ShellState) : ShellEvent → Option ShellState
  | .openCheck g =>
      match s.opener with
      | .idle => if g.id.bytes = [] then none else some (openCheck g s)
      | _ => none
  | .openPipes inR inW outR outW =>
      match s.opener with
      | .checked g =>
          if FreshFds s [inR, inW, outR, outW] then some (openPipes g inR inW outR outW s) else none
      | _ => none
  | .openNoPipes left =>
      match s.opener, left with
      | .checked _, none => some { s with opener := .idle }
      | .checked _, some (inR, inW) =>
          -- the pair of the first `pipe` is never closed
          if FreshFds s [inR, inW] then
            some { (s.own inR .other).own inW .other with opener := .idle }
          else none
      | _, _ => none
  | .openFork pid =>
      match s.opener with
      | .piped g inR inW outR outW => some { s with opener := .forked g pid inW outR [inR, outW] }
      | _ => none
  | .openNoFork =>
      match s.opener with
      | .piped _ inR inW outR outW => some { s with opener := .failing [inR, inW, outR, outW] }
      | _ => none
  | .openClose =>
      match s.opener with
      | .forked g pid inW outR (fd :: rest) =>
          some { s.closeFd fd with opener := .forked g pid inW outR rest }
      | .failing (fd :: rest) => some { s.closeFd fd with opener := .failing rest }
      | _ => none
  | .openSlot now threadOk =>
      match s.opener with
      | .forked g pid inW outR [] => some (openSlot g pid inW outR now threadOk s)
      | _ => none
  | .openFailed =>
      match s.opener with
      | .failing [] => some { s with opener := .idle }
      | _ => none
  | .openAnnounce monitorOk =>
      match s.opener with
      | .opened g => some (openAnnounce g monitorOk s)
      | _ => none
  | _ => none

/-- The reader thread of session `k`. -/
def readerStep (s : ShellState) : ShellEvent → Option ShellState
  | .readerTest k =>
      match s.readers k with
      | some ⟨i, .testing⟩ =>
          if (s.slots i).alive then
            match (s.slots i).outFd with
            | some fd => some (s.setReader k ⟨i, .reading fd⟩)
            | none => some (s.setReader k ⟨i, .leaving⟩)
          else some (s.setReader k ⟨i, .leaving⟩)
      | _ => none
  | .readerRead k answer =>
      match s.readers k with
      | some ⟨i, .reading _⟩ =>
          match answer with
          | .data chunk now => some (readerForward k i chunk now s)
          | .interrupted => some (s.setReader k ⟨i, .testing⟩)
          | .ended => some (s.setReader k ⟨i, .leaving⟩)
      | _ => none
  | .readerLeave k =>
      match s.readers k with
      | some ⟨i, .leaving⟩ => some (readerLeave k i s)
      | _ => none
  | .readerAnnounce k =>
      match s.readers k with
      | some ⟨i, .announcing⟩ => some (readerAnnounce k i s)
      | _ => none
  | .readerRelease k =>
      match s.readers k with
      | some ⟨i, .releasing⟩ => some (readerRelease k i s)
      | _ => none
  | _ => none

def shellStep (s : ShellState) : ShellEvent → Option ShellState
  | .write guestId ok now => some (shellWrite guestId ok now s)
  | .close guestId => some (shellClose guestId s)
  | .closerClose j =>
      match s.closers j with
      | some ⟨k, some fd, pid⟩ =>
          some { s.closeFd fd with closers := Function.update s.closers j (some ⟨k, none, pid⟩) }
      | _ => none
  | .closerKill j =>
      match s.closers j with
      | some ⟨_, none, _⟩ => some { s with closers := Function.update s.closers j none }
      | _ => none
  | .monitorSample now =>
      if s.monitor = some [] then some { s with monitor := some (idleGuests s.slots now) } else none
  | .monitorClose =>
      match s.monitor with
      | some (guestId :: rest) => some { shellClose guestId s with monitor := some rest }
      | _ => none
  | .otherOpen fd => if s.owner fd = none then some (s.own fd .other) else none
  | .otherClose fd =>
      if s.owner fd = some .other then some { s with owner := Function.update s.owner fd none }
      else none
  | e => (openerStep s e).or (readerStep s e)

/-- No session yet; other descriptors may be open. -/
structure ShellStart (s : ShellState) : Prop where
  slots : ∀ i, (s.slots i).Free
  opener : s.opener = .idle
  readers : ∀ k, s.readers k = none
  sessions : s.sessions = 0
  closers : ∀ j, s.closers j = none
  monitor : s.monitor = none
  owner : ∀ fd, s.owner fd = none ∨ s.owner fd = some .other
  closed : s.closed = []
  published : s.published = []

def shellMachine : Machine ShellState ShellEvent where
  initial := ShellStart
  step := shellStep

end QnxHypervisor.GuestShell
