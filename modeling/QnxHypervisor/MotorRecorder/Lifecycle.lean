import QnxHypervisor.Foundation.Machine
import Mathlib.Logic.Function.Basic

/-! # Starting and stopping from two threads

The MQTT thread starts and stops recordings, the main thread stops them by the
timer and at shutdown. A step is one access to `g_recording` or one call. The
globals hold resources of recordings; recordings are numbered as their files are
opened.
-/

namespace QnxHypervisor.MotorRecorder

open Foundation

/-! ## Threads and resources -/

inductive Party where
  | mqtt | main
  deriving DecidableEq

def Party.other : Party → Party
  | .mqtt => .main
  | .main => .mqtt

/-- `reader_thread` and `writer_thread`. -/
inductive Worker where
  | reader | writer
  deriving DecidableEq

/-- `g_csv_file`, `g_queue`, `g_shm`, `g_rd` and `g_wr`. -/
inductive Resource where
  | file | queue | shm | reader | writer
  deriving DecidableEq

/-- The order of `recorder_cleanup`. -/
def cleanupOrder : List Resource := [.file, .queue, .shm, .reader, .writer]

/-- Why resources are released. -/
inductive Why where
  | stop | shutdown | failed
  deriving DecidableEq

/-- Where a thread is. -/
inductive Phase where
  | idle
  /-- in `stop_recording`, before its test of `g_recording` -/
  | testing
  | opening | queueing | connecting | allocReader | allocWriter | flagging
  | creatingReader | creatingWriter
  /-- the status and the timer -/
  | arming
  /-- before `g_recording = false` -/
  | lowering (why : Why)
  | joiningReader (why : Why)
  | joiningWriter (why : Why)
  /-- before the test of the next global -/
  | releasing (why : Why) (todo : List Resource)
  /-- released, the global not yet NULL -/
  | clearing (why : Why) (r : Resource) (todo : List Resource)
  | publishing
  /-- `main` has shut down -/
  | gone
  deriving DecidableEq

/-- Between the test of `g_recording` and the last access to the shared globals. -/
def Phase.busy : Phase → Bool
  | .idle | .testing | .arming | .publishing | .gone => false
  | _ => true

/-- What happens to a recording. `by` is the recording being stopped, or whose
start has failed. -/
inductive Act where
  | joined (w : Worker) (n : Nat)
  | released (r : Resource) (n : Nat) (stopping : Nat)
  | published (n : Nat)
  deriving DecidableEq

structure Life where
  /-- `g_running` -/
  running : Bool
  /-- `g_recording` -/
  recording : Bool
  held : Resource → Option Nat
  /-- `g_rd_thr` and `g_wr_thr` -/
  thread : Worker → Option Nat
  live : Worker → Nat → Bool
  next : Nat
  /-- `g_recording` was set for the recording -/
  began : Nat → Bool
  phase : Party → Phase
  /-- the recording that the thread is stopping -/
  target : Party → Nat
  acts : List Act

namespace Life

/-- The recording started last. -/
def latest (s : Life) : Nat := s.next - 1

def goto (s : Life) (p : Party) (φ : Phase) : Life :=
  { s with phase := Function.update s.phase p φ }

def hold (s : Life) (r : Resource) (n : Option Nat) : Life :=
  { s with held := Function.update s.held r n }

def aim (s : Life) (p : Party) : Life :=
  { s with target := Function.update s.target p s.latest }

def act (s : Life) (a : Act) : Life := { s with acts := s.acts ++ [a] }

/-- `pthread_create`. -/
def create (s : Life) (w : Worker) : Life :=
  { s with
    thread := Function.update s.thread w (some s.latest)
    live := Function.update s.live w (Function.update (s.live w) s.latest true) }

def giveUp (s : Life) (p : Party) (todo : List Resource) : Life :=
  (s.aim p).goto p (.releasing .failed todo)

/-- `pthread_join`: nothing to join before the first recording. -/
def join (s : Life) (w : Worker) : Option Life :=
  match s.thread w with
  | none => some s
  | some n => if s.live w n then none else some (s.act (.joined w n))

def afterRelease : Why → Phase
  | .stop => .publishing
  | .shutdown => .gone
  | .failed => .idle

/-- The next step of a thread inside a command; `ok` is what the call answers. -/
def partyStep (s : Life) (p : Party) (ok : Bool) : Option Life :=
  match s.phase p with
  | .idle => none
  | .gone => none
  | .testing =>
      if s.recording then some ((s.aim p).goto p (.lowering .stop)) else some (s.goto p .idle)
  | .opening =>
      if ok then
        some ({ s with next := s.next + 1 }.hold .file (some s.next) |>.goto p .queueing)
      else some (s.goto p .idle)
  | .queueing =>
      if ok then some ((s.hold .queue (some s.latest)).goto p .connecting)
      else some (s.giveUp p [.file])
  | .connecting =>
      if ok then some ((s.hold .shm (some s.latest)).goto p .allocReader)
      else some (s.giveUp p [.queue, .file])
  | .allocReader => some ((s.hold .reader (if ok then some s.latest else none)).goto p .allocWriter)
  | .allocWriter =>
      let s := s.hold .writer (if ok then some s.latest else none)
      if s.held .reader = none ∨ s.held .writer = none then some (s.giveUp p cleanupOrder)
      else some (s.goto p .flagging)
  | .flagging =>
      some ({ s with recording := true, began := Function.update s.began s.latest true }.goto p
        .creatingReader)
  | .creatingReader => some ((s.create .reader).goto p .creatingWriter)
  | .creatingWriter => some ((s.create .writer).goto p .arming)
  | .arming => some (s.goto p .idle)
  | .lowering why => some ({ s with recording := false }.goto p (.joiningReader why))
  | .joiningReader why => (s.join .reader).map fun s => s.goto p (.joiningWriter why)
  | .joiningWriter why => (s.join .writer).map fun s => s.goto p (.releasing why cleanupOrder)
  | .releasing why [] => some (s.goto p (afterRelease why))
  | .releasing why (r :: todo) =>
      match s.held r with
      | none => some (s.goto p (.releasing why todo))
      | some n => some ((s.act (.released r n (s.target p))).goto p (.clearing why r todo))
  | .clearing why r todo => some ((s.hold r none).goto p (.releasing why todo))
  | .publishing => some ((s.act (.published (s.target p))).goto p .idle)

end Life

inductive LifeEvent where
  /-- the start command with its test of `g_recording` -/
  | start
  /-- the stop command -/
  | stop
  /-- the auto-stop check of the main loop is due -/
  | check
  /-- SIGINT or SIGTERM -/
  | signal
  /-- the main loop has ended; the test of `g_recording` behind it -/
  | shutdown
  | step (p : Party) (ok : Bool)
  /-- a worker leaves its loop -/
  | exit (w : Worker) (n : Nat)
  deriving DecidableEq

def lifeStep (s : Life) : LifeEvent → Option Life
  | .start =>
      if s.phase .mqtt ≠ .idle then none
      else if s.recording then some s else some (s.goto .mqtt .opening)
  | .stop => if s.phase .mqtt ≠ .idle then none else some (s.goto .mqtt .testing)
  | .check =>
      if s.phase .main ≠ .idle ∨ s.running = false ∨ s.recording = false then none
      else some (s.goto .main .testing)
  | .signal => some { s with running := false }
  | .shutdown =>
      if s.phase .main ≠ .idle ∨ s.running = true then none
      else if s.recording then some ((s.aim .main).goto .main (.lowering .shutdown))
      else some (s.goto .main .gone)
  | .step p ok => s.partyStep p ok
  | .exit w n =>
      if s.live w n = true ∧ (s.recording = false ∨ s.running = false) then
        some { s with live := Function.update s.live w (Function.update (s.live w) n false) }
      else none

/-- Nothing has been started yet. -/
structure LifeStart (s : Life) : Prop where
  recording : s.recording = false
  held : ∀ r, s.held r = none
  next : s.next = 0
  began : ∀ n, s.began n = false
  phase : ∀ p, s.phase p = .idle
  acts : s.acts = []

def lifeMachine : Machine Life LifeEvent := ⟨LifeStart, lifeStep⟩

/-! ## What should hold -/

/-- The recording is finalised. -/
def Life.Complete (s : Life) (n : Nat) : Prop :=
  (∀ w, .joined w n ∈ s.acts) ∧ ∀ r, .released r n n ∈ s.acts

structure Finalised (s : Life) : Prop where
  /-- nothing is done twice for a recording -/
  once : s.acts.Nodup
  /-- a clean-up releases what belongs to the recording being stopped -/
  own : ∀ r n stopping, .released r n stopping ∈ s.acts → n = stopping
  /-- whenever no start or stop is in progress, what was started is finalised, but
  for the recording under way -/
  all : (∀ p, (s.phase p).busy = false) → ∀ n, s.began n = true →
    ¬ (s.recording = true ∧ n = s.latest ∧ s.phase .main ≠ .gone) → s.Complete n

/-- A start, a stop or the shutdown goes on past its test of `g_recording` only while
the other thread is in none of them, and no start after the shutdown. -/
def NoOverlap (s : Life) : LifeEvent → Prop
  | .start => s.recording = false → (s.phase .main).busy = false ∧ s.phase .main ≠ .gone
  | .step p _ => s.phase p = .testing → s.recording = true → (s.phase p.other).busy = false
  | .shutdown => (s.phase .mqtt).busy = false
  | _ => True

instance (s : Life) : (e : LifeEvent) → Decidable (NoOverlap s e)
  | .start => inferInstanceAs (Decidable (_ → _ ∧ _))
  | .step _ _ => inferInstanceAs (Decidable (_ → _ → _))
  | .shutdown => inferInstanceAs (Decidable (_ = _))
  | .stop | .check | .signal | .exit _ _ => isTrue trivial

end QnxHypervisor.MotorRecorder
