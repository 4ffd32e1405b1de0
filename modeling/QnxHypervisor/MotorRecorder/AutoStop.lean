import QnxHypervisor.MotorRecorder.Recorder

/-! # The auto-stop timer

The timer is a pair of globals that a start with a duration sets and a stop
clears. A start that fails sets it too, and it then waits for whatever recording
comes next; and the deadline is computed in 64 bits.
-/

namespace QnxHypervisor.MotorRecorder

open Foundation

/-! ## Histories -/

/-- A recording as its start command has asked for it; duration 0 stands for none. -/
structure Recording where
  duration : UInt64
  startedAt : Nat

structure AutoStop where
  recording : Recording
  time : Nat

/-- The recorder with its clock, the recording under way and the auto-stops so far. -/
structure Timed where
  recorder : Recorder
  clock : Nat
  current : Option Recording
  autoStops : List AutoStop

def begun (saveDir : Bytes) (r : Recorder) (e : RecorderEvent) : Option Recording :=
  if e.env.start = .started then
    (startAsked saveDir r e).map fun args => ⟨args.duration, e.env.now⟩
  else none

def autoStopped (s : Timed) : RecorderEvent → List AutoStop
  | .check env =>
      if s.recorder.recording = true ∧ (autoStopCheck env s.recorder).recording = false then
        s.current.toList.map fun recording => ⟨recording, env.now⟩
      else []
  | .command _ _ => []

def timedStep (saveDir : Bytes) (s : Timed) (e : RecorderEvent) : Option Timed :=
  if e.env.now < s.clock then none
  else
    (recorderStep saveDir s.recorder e).map fun r =>
      { recorder := r
        clock := e.env.now
        current := if r.recording then (begun saveDir s.recorder e).or s.current else none
        autoStops := s.autoStops ++ autoStopped s e }

def timedStart (s : Timed) : Prop :=
  s.recorder = idleRecorder ∧ s.current = none ∧ s.autoStops = []

def timedMachine (saveDir : Bytes) : Machine Timed RecorderEvent := ⟨timedStart, timedStep saveDir⟩

/-- The auto-stop was asked for and does not come early. -/
def AutoStop.Due (a : AutoStop) : Prop :=
  a.recording.duration ≠ 0 ∧ a.recording.startedAt + 1000 * a.recording.duration.toNat ≤ a.time

/-- A start that gets a recording going finds no timer from an earlier start, if it
has no duration, and else a deadline that 64 bits can hold. -/
def TimerFits (saveDir : Bytes) (s : Timed) (e : RecorderEvent) : Prop :=
  ∀ recording, begun saveDir s.recorder e = some recording →
    (recording.duration = 0 → s.recorder.autoStopActive = false) ∧
    (recording.duration ≠ 0 → recording.startedAt + 1000 * recording.duration.toNat < 2 ^ 64)

variable {saveDir : Bytes} {s s' : Timed} {e : RecorderEvent} {env : CommandEnv}

theorem mem_autoStopped {a : AutoStop} : a ∈ autoStopped s (.check env) ↔
    (s.recorder.recording = true ∧ (autoStopCheck env s.recorder).recording = false) ∧
      ∃ recording, s.current = some recording ∧ a = ⟨recording, env.now⟩ := by
  simp only [autoStopped]
  split
  · next h => simp [h, eq_comm]
  · next h => simp [h]

/-! ## The invariant -/

/-- The timer is that of the recording under way. -/
structure TimerKept (s : Timed) : Prop where
  unarmed : ∀ recording, s.current = some recording → recording.duration = 0 →
    s.recorder.autoStopActive = false
  deadline : ∀ recording, s.current = some recording → recording.duration ≠ 0 →
    s.recorder.autoStopActive = true →
    s.recorder.autoStopTime.toNat = recording.startedAt + 1000 * recording.duration.toNat
  due : ∀ a ∈ s.autoStops, a.Due

theorem TimerKept.empty (h : timedStart s) : TimerKept s := by
  obtain ⟨-, hcurrent, hstops⟩ := h
  refine ⟨fun recording h => ?_, fun recording h => ?_, fun a ha => ?_⟩
  · cases hcurrent.symm.trans h
  · cases hcurrent.symm.trans h
  · rw [hstops] at ha
    cases ha

theorem deadline_toNat {now : Nat} {duration : UInt64} (h : now + 1000 * duration.toNat < 2 ^ 64) :
    (UInt64.ofNat now + duration * 1000).toNat = now + 1000 * duration.toNat := by
  have hthousand : (1000 : UInt64).toNat = 1000 := rfl
  rw [UInt64.toNat_add, UInt64.toNat_mul, UInt64.toNat_ofNat', hthousand]
  omega

theorem TimerKept.stops_due (h : TimerKept s) {env : CommandEnv}
    (harmed : s.recorder.recording = true →
      s.recorder.autoStopActive = true ∧ s.recorder.autoStopTime ≤ env.nowMs) :
    ∀ a ∈ autoStopped s (.check env), a.Due := by
  intro a ha
  obtain ⟨⟨hrec, -⟩, recording, hsome, rfl⟩ := mem_autoStopped.mp ha
  obtain ⟨hactive, htime⟩ := harmed hrec
  have hdur : recording.duration ≠ 0 := by
    intro hzero
    rw [h.unarmed recording hsome hzero] at hactive
    cases hactive
  refine ⟨hdur, ?_⟩
  rw [← h.deadline recording hsome hdur hactive]
  calc s.recorder.autoStopTime.toNat ≤ env.nowMs.toNat := UInt64.le_iff_toNat_le.mp htime
    _ ≤ env.now := by
      rw [CommandEnv.nowMs, UInt64.toNat_ofNat']
      exact Nat.mod_le _ _

theorem current_after {r : Recorder} (hbegun : begun saveDir s.recorder e = none) {recording : Recording}
    (h : (if r.recording then (begun saveDir s.recorder e).or s.current else none) = some recording) :
    r.recording = true ∧ s.current = some recording := by
  rw [hbegun] at h
  by_cases hr : r.recording = true
  · exact ⟨hr, by simpa [hr] using h⟩
  · simp [hr] at h

theorem TimerKept.step (h : TimerKept s) (hok : TimerFits saveDir s e)
    (hs : timedStep saveDir s e = some s') : TimerKept s' := by
  unfold timedStep at hs
  split at hs
  · cases hs
  · obtain ⟨r, hstep, rfl⟩ := Option.map_eq_some_iff.mp hs
    have hdue : (∀ a ∈ autoStopped s e, a.Due) →
        ∀ a ∈ s.autoStops ++ autoStopped s e, a.Due := fun hnew a ha =>
      (List.mem_append.mp ha).elim (h.due a) (hnew a)
    have hbegun : startAsked saveDir s.recorder e = none → begun saveDir s.recorder e = none := by
      intro hnone
      simp [begun, hnone]
    -- a step that leaves recording and timer as they are
    have hsame : startAsked saveDir s.recorder e = none → r.recording = s.recorder.recording →
        r.autoStopActive = s.recorder.autoStopActive → r.autoStopTime = s.recorder.autoStopTime →
        TimerKept ⟨r, e.env.now, if r.recording then (begun saveDir s.recorder e).or s.current else none,
          s.autoStops ++ autoStopped s e⟩ := by
      intro hnone hrec hactive htime
      refine ⟨fun recording hsome hdur => ?_, fun recording hsome hdur hact => ?_,
        hdue fun a ha => ?_⟩
      · exact hactive.trans (h.unarmed recording (current_after (hbegun hnone) hsome).2 hdur)
      · exact (congrArg UInt64.toNat htime).trans (h.deadline recording
          (current_after (hbegun hnone) hsome).2 hdur (hactive.symm.trans hact))
      · cases e with
        | command cmd env => cases ha
        | check env =>
            obtain ⟨⟨hwas, hstops⟩, -⟩ := mem_autoStopped.mp ha
            obtain rfl : autoStopCheck env s.recorder = r := Option.some.inj hstep
            rw [hrec, hwas] at hstops
            cases hstops
    cases recorderStep_cases hstep with
    | start args hasked hnoUpload heq =>
        have hnone : autoStopped s e = [] := by
          cases e with
          | command cmd env => rfl
          | check env => cases hasked
        have hnew := hdue fun a ha => by
          rw [hnone] at ha
          cases ha
        have hidle := startAsked_idle hasked
        by_cases hstarted : e.env.start = .started
        · have hbegun' : begun saveDir s.recorder e = some ⟨args.duration, e.env.now⟩ := by
            simp [begun, hstarted, hasked]
          obtain ⟨hzero, hfits⟩ := hok _ hbegun'
          have htimer := @handleStart_timer e.env s.recorder args
          obtain ⟨hactive, htime⟩ := htimer
          have hcurrent : ∀ recording : Recording, (if r.recording then
              (begun saveDir s.recorder e).or s.current else none) = some recording →
              recording = ⟨args.duration, e.env.now⟩ := by
            intro recording hsome
            rw [heq, handleStart_recording hidle, hbegun'] at hsome
            simpa [hstarted] using hsome.symm
          refine ⟨fun recording hsome hdur => ?_, fun recording hsome hdur _ => ?_, hnew⟩
          · obtain rfl := hcurrent recording hsome
            change r.autoStopActive = false
            rw [heq, hactive, hzero hdur]
            simp [show args.duration = 0 from hdur]
          · obtain rfl := hcurrent recording hsome
            have hpos : args.duration > 0 := UInt64.pos_iff_ne_zero.mpr hdur
            change r.autoStopTime.toNat = _
            rw [heq, htime hpos]
            exact deadline_toNat (hfits hdur)
        · have hrec : r.recording = false := by simp [heq, handleStart_recording hidle, hstarted]
          exact ⟨fun recording hsome => by simp [hrec] at hsome,
            fun recording hsome => by simp [hrec] at hsome, hnew⟩
    | stop hnone hnoUpload hrec harmed heq =>
        have hstopped : r.recording = false := heq ▸ stopRecording_recording _
        refine ⟨fun recording hsome => by simp [hstopped] at hsome,
          fun recording hsome => by simp [hstopped] at hsome, hdue ?_⟩
        cases e with
        | command cmd env => exact fun a ha => by cases ha
        | check env => exact h.stops_due fun _ => harmed env rfl
    | upload path hnone hdone heq => exact hsame hnone (by rw [heq]; rfl) (by rw [heq]; rfl) (by rw [heq]; rfl)
    | error payload hnone hnoUpload heq =>
        exact hsame hnone (by rw [heq]; rfl) (by rw [heq]; rfl) (by rw [heq]; rfl)
    | none hnone hnoUpload heq => exact hsame hnone (by rw [heq]) (by rw [heq]) (by rw [heq])

/-- No auto-stop that was not asked for, and none before its time. -/
theorem auto_stops_due (h : (timedMachine saveDir).ReachableBy (TimerFits saveDir) s) :
    ∀ a ∈ s.autoStops, a.Due :=
  (h.invariant (fun _ => TimerKept.empty) fun _ _ _ _ hkept hok hs => hkept.step hok hs).due

/-! ## Two histories -/

def measuredNothing : Measured := ⟨0, false, 0, 0, 0, 0, 0⟩

/-- Everything a command asks for is done, at this time. -/
def calmAt (now : Nat) : CommandEnv where
  now := now
  stamp := utf8 "20240101_000000"
  start := .started
  measured := measuredNothing
  found := true
  sent := true

def noTimer (r : Recorder) : Timed := ⟨r, 0, none, []⟩

theorem noTimer_idle : (timedMachine (utf8 "/tmp")).initial (noTimer idleRecorder) := ⟨rfl, rfl, rfl⟩

/-- A recording of two seconds. -/
theorem auto_stop_after_two_seconds : ∃ s : Timed, s.autoStops.map AutoStop.time = [3000] ∧
    ∀ a ∈ s.autoStops, a.Due := by
  have hfits : ∀ recording, begun (utf8 "/tmp") idleRecorder (.command (utf8 "start a 2") (calmAt 1000)) =
      some recording → recording.duration = 2 ∧ recording.startedAt = 1000 := by
    have hbegun : begun (utf8 "/tmp") idleRecorder (.command (utf8 "start a 2") (calmAt 1000)) =
      some ⟨2, 1000⟩ := rfl
    intro recording h
    obtain rfl := Option.some.inj (hbegun.symm.trans h)
    exact ⟨rfl, rfl⟩
  have hbegin : (timedMachine (utf8 "/tmp")).ReachableBy (TimerFits (utf8 "/tmp")) _ :=
    .initial noTimer_idle
  have hstarted := hbegin.step (e := .command (utf8 "start a 2") (calmAt 1000))
    (fun recording h => ⟨fun _ => rfl, fun _ => by
      rw [(hfits recording h).1, (hfits recording h).2]
      decide⟩) rfl
  have hstopped := hstarted.step (e := .check (calmAt 3000)) (fun recording h => by cases h) rfl
  exact ⟨_, by decide, auto_stops_due hstopped⟩

/-- The start with a duration finds no shared memory; the next recording has none. -/
theorem failed_start_stops_the_next_recording :
    ¬ ∀ (saveDir : Bytes) (s : Timed), (timedMachine saveDir).Reachable s →
      ∀ a ∈ s.autoStops, a.Due := by
  intro hall
  have hidle : (timedMachine (utf8 "/tmp")).Reachable (noTimer idleRecorder) := .initial noTimer_idle
  have hfailed := hidle.step (e := .command (utf8 "start a 2") { calmAt 1000 with start := .noShm })
    trivial rfl
  have hstarted := hfailed.step (e := .command (utf8 "start b") (calmAt 2000)) trivial rfl
  have hstopped := hstarted.step (e := .check (calmAt 3000)) trivial rfl
  exact (hall _ _ hstopped ⟨⟨0, 2000⟩, 3000⟩ List.mem_cons_self).1 rfl

end QnxHypervisor.MotorRecorder
