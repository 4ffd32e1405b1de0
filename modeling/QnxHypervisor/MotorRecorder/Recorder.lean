import QnxHypervisor.Foundation.Machine
import QnxHypervisor.GuestManager.Host

/-! # Recorder commands

`recorder.c` as a sequence of commands: start, stop and upload, and the auto-stop
check of the main loop, one after another. The reader and writer threads appear
as what they have measured when a stop has joined them.
-/

namespace QnxHypervisor.MotorRecorder

open Foundation GuestManager

/-! ## Globals -/

/-- `reader_t`, `shm_state_t` and the row counter, as the joined threads leave them. -/
structure Measured where
  rows : UInt64
  firstSeen : Bool
  firstTs : UInt64
  lastTs : UInt64
  dropped : UInt64
  blockDrops : UInt64
  stalledMs : UInt64
  deriving DecidableEq

/-- `g_stop_span_us` and the other `g_stop_` figures. -/
structure StopFigures where
  spanUs : UInt64
  rows : UInt64
  drops : UInt64
  blockDrops : UInt64
  stalledMs : UInt64
  deriving DecidableEq

def Measured.figures (m : Measured) : StopFigures where
  spanUs := if m.firstSeen ∧ m.firstTs < m.lastTs then m.lastTs - m.firstTs else 0
  rows := m.rows
  drops := m.dropped
  blockDrops := m.blockDrops
  stalledMs := m.stalledMs

inductive RecState where
  | idle | recording | stopped
  deriving DecidableEq

/-- The calls of the publishers. -/
inductive Message where
  | status (state : RecState) (msg : Bytes)
  | stopMetadata (file url : Bytes) (figures : StopFigures)
  | uploadProgress (percent : Nat)
  | raw (payload : Bytes)
  deriving DecidableEq

structure Recorder where
  recording : Bool
  csvFilename : CStr 1024
  stop : StopFigures
  hasStopData : Bool
  uploading : Bool
  autoStopTime : UInt64
  autoStopActive : Bool
  published : List Message

def Recorder.publish (r : Recorder) (m : Message) : Recorder :=
  { r with published := r.published ++ [m] }

/-! ## Start -/

structure StartArgs where
  filename : CStr 1024
  duration : UInt64

/-- `generate_filename`; `stamp` is the date and time. -/
def generateFilename (saveDir stamp : Bytes) : CStr 1024 :=
  .fit 1024 (saveDir ++ utf8 "/motor_" ++ stamp ++ utf8 ".csv")

/-- `sscanf(arg, "%255s%n", ..)`: the word and what is left behind it. -/
def scanWord (arg : Bytes) : Bytes × Bytes :=
  let rest := arg.dropWhile isSpace
  let word := (rest.takeWhile fun b => !isSpace b).take 255
  (word, rest.drop word.length)

def skipSpaces (t : Bytes) : Bytes := t.dropWhile fun b => b == 32

/-- `char name_buf[200]`. -/
def nameRoom : Nat := 200

def beginsWithDigit (t : Bytes) : Bool :=
  match t with
  | b :: _ => isDigit b
  | [] => false

/-- The arguments of `start`. A word that does not fit into `name_buf` runs over it,
and nothing is said about what follows. -/
def startArgs (saveDir stamp cmd : Bytes) : Option StartArgs :=
  let arg := skipSpaces (cmd.drop 5)
  if arg = [] then some ⟨generateFilename saveDir stamp, 0⟩
  else
    let (word, rest) := scanWord arg
    if word = [] then some ⟨generateFilename saveDir stamp, 0⟩
    else if nameRoom ≤ word.length then none
    else if beginsWithDigit word then some ⟨generateFilename saveDir stamp, strtoul word⟩
    else
      let rest := skipSpaces rest
      some ⟨.fit 1024 (saveDir ++ utf8 "/" ++ word ++ utf8 ".csv"),
        if beginsWithDigit rest then strtoul rest else 0⟩

/-- How far `start_recording_internal` gets. -/
inductive StartOutcome where
  | noFile | noQueue | noShm | noThreads | started
  deriving DecidableEq

def startRecordingInternal (outcome : StartOutcome) (filename : CStr 1024) (r : Recorder) : Recorder :=
  match outcome with
  | .noFile | .noQueue | .noShm => { r with csvFilename := .fit 1024 [] }
  | .noThreads => { r with csvFilename := filename }
  | .started =>
      { r with csvFilename := filename, recording := true }.publish
        (.status .recording filename.bytes)

/-- What clock, files and threads answer in the course of one command. -/
structure CommandEnv where
  /-- `CLOCK_MONOTONIC` in milliseconds -/
  now : Nat
  stamp : Bytes
  start : StartOutcome
  measured : Measured
  /-- `access` finds the file -/
  found : Bool
  /-- the `scp` child ends with status 0 -/
  sent : Bool

def CommandEnv.nowMs (env : CommandEnv) : UInt64 := UInt64.ofNat env.now

/-- The timer is set after the start, whether it has failed or not. -/
def armAutoStop (env : CommandEnv) (duration : UInt64) (r : Recorder) : Recorder :=
  if duration > 0 then
    { r with autoStopTime := env.nowMs + duration * 1000, autoStopActive := true }
  else r

def handleStart (env : CommandEnv) (args : StartArgs) (r : Recorder) : Recorder :=
  armAutoStop env args.duration (startRecordingInternal env.start args.filename r)

/-! ## Stop -/

/-- `stop_recording`. -/
def stopRecording (m : Measured) (r : Recorder) : Recorder :=
  if ¬ r.recording then r
  else
    { r with
      recording := false
      autoStopActive := false
      stop := m.figures
      hasStopData := true }.publish (.stopMetadata r.csvFilename.bytes [] m.figures)

/-- The check of the main loop. -/
def autoStopCheck (env : CommandEnv) (r : Recorder) : Recorder :=
  if r.autoStopActive ∧ r.recording ∧ r.autoStopTime ≤ env.nowMs then
    stopRecording env.measured r
  else r

/-! ## Upload -/

def uploadPath (saveDir arg : Bytes) (r : Recorder) : Option (CStr 1024) :=
  if arg ≠ [] then some (.fit 1024 (if (47 : UInt8) ∈ arg then arg else saveDir ++ utf8 "/" ++ arg))
  else if r.csvFilename.bytes ≠ [] then some r.csvFilename
  else none

def remotePath (path : Bytes) : Bytes :=
  (CStr.fit 4096 (utf8 "maxmaster@139.185.38.211:" ++
    (CStr.fit 2048 (utf8 "/home/maxmaster/uploads/" ++ baseName path)).bytes)).bytes

def errorText (msg : String) : Bytes := utf8 "\x7b\"state\":\"error\",\"msg\":\"" ++ utf8 msg ++ utf8 "\"\x7d"

def handleUpload (saveDir : Bytes) (env : CommandEnv) (arg : Bytes) (r : Recorder) : Recorder :=
  if r.uploading then r.publish (.raw (errorText "Upload already in progress"))
  else
    match uploadPath saveDir arg r with
    | none => r.publish (.raw (errorText "No file to upload"))
    | some path =>
        if ¬ env.found then r.publish (.raw (errorText "File not found"))
        else if ¬ env.sent then r.publish (.raw (errorText "SCP upload failed"))
        else (r.publish (.uploadProgress 100)).publish
          (.stopMetadata path.bytes (remotePath path.bytes) r.stop)

/-! ## Steps -/

/-- `handle_command`. The other commands leave these globals as they are. -/
def handleCommand (saveDir : Bytes) (env : CommandEnv) (cmd : Bytes) (r : Recorder) : Option Recorder :=
  if (utf8 "start").isPrefixOf cmd then
    if r.recording then some r
    else (startArgs saveDir env.stamp cmd).map fun args => handleStart env args r
  else if cmd = utf8 "stop" then some (stopRecording env.measured r)
  else if (utf8 "upload").isPrefixOf cmd then
    some (handleUpload saveDir env (skipSpaces (cmd.drop 6)) r)
  else some r

inductive RecorderEvent where
  | command (cmd : Bytes) (env : CommandEnv)
  | check (env : CommandEnv)

def RecorderEvent.env : RecorderEvent → CommandEnv
  | .command _ env => env
  | .check env => env

def recorderStep (saveDir : Bytes) (r : Recorder) : RecorderEvent → Option Recorder
  | .command cmd env => handleCommand saveDir env cmd r
  | .check env => some (autoStopCheck env r)

/-- The globals before the first command. -/
def idleRecorder : Recorder where
  recording := false
  csvFilename := .fit 1024 []
  stop := ⟨0, 0, 0, 0, 0⟩
  hasStopData := false
  uploading := false
  autoStopTime := 0
  autoStopActive := false
  published := []

/-! ## What a step can do -/

theorem remotePath_ne_nil (path : Bytes) : remotePath path ≠ [] := by
  have hfirst : utf8 "maxmaster@139.185.38.211:" = 109 :: utf8 "axmaster@139.185.38.211:" := by decide
  rw [remotePath, hfirst]
  simp [CStr.fit, cString]

variable {saveDir cmd : Bytes} {e : RecorderEvent} {env : CommandEnv} {r r' : Recorder}
  {args : StartArgs}

def startAsked (saveDir : Bytes) (r : Recorder) : RecorderEvent → Option StartArgs
  | .command cmd env =>
      if (utf8 "start").isPrefixOf cmd = true ∧ r.recording = false then
        startArgs saveDir env.stamp cmd
      else none
  | .check _ => none

def uploadDone (saveDir : Bytes) (r : Recorder) : RecorderEvent → Option (CStr 1024)
  | .command cmd env =>
      if (utf8 "upload").isPrefixOf cmd = true ∧ r.uploading = false ∧ env.found = true ∧
          env.sent = true then
        uploadPath saveDir (skipSpaces (cmd.drop 6)) r
      else none
  | .check _ => none

inductive StepCase (saveDir : Bytes) (r : Recorder) (e : RecorderEvent) (r' : Recorder) : Prop
  | start (args : StartArgs) (asked : startAsked saveDir r e = some args)
      (noUpload : uploadDone saveDir r e = none) (eq : r' = handleStart e.env args r)
  | stop (noStart : startAsked saveDir r e = none) (noUpload : uploadDone saveDir r e = none)
      (recording : r.recording = true)
      (timer : ∀ env, e = .check env → r.autoStopActive = true ∧ r.autoStopTime ≤ env.nowMs)
      (eq : r' = stopRecording e.env.measured r)
  | upload (path : CStr 1024) (noStart : startAsked saveDir r e = none)
      (done : uploadDone saveDir r e = some path)
      (eq : r' = (r.publish (.uploadProgress 100)).publish
        (.stopMetadata path.bytes (remotePath path.bytes) r.stop))
  | error (payload : Bytes) (noStart : startAsked saveDir r e = none)
      (noUpload : uploadDone saveDir r e = none) (eq : r' = r.publish (.raw payload))
  | none (noStart : startAsked saveDir r e = none) (noUpload : uploadDone saveDir r e = none)
      (eq : r' = r)

theorem upload_not_start (h : (utf8 "upload").isPrefixOf cmd = true) :
    (utf8 "start").isPrefixOf cmd = false := by
  cases cmd with
  | nil => rfl
  | cons b rest =>
      have hb : 117 = b := by
        have hcons : utf8 "upload" = 117 :: utf8 "pload" := by decide
        rw [hcons, List.isPrefixOf_cons_cons, Bool.and_eq_true_iff] at h
        simpa using h.1
      subst hb
      have hcons : utf8 "start" = 115 :: utf8 "tart" := by decide
      rw [hcons, List.isPrefixOf_cons_cons]
      rfl

theorem stepCase_upload (h : (utf8 "upload").isPrefixOf cmd = true) :
    StepCase saveDir r (.command cmd env)
      (handleUpload saveDir env (skipSpaces (cmd.drop 6)) r) := by
  have hstart : startAsked saveDir r (.command cmd env) = none := by
    simp [startAsked, upload_not_start h]
  unfold handleUpload
  split
  · next hup => exact .error _ hstart (by simp [uploadDone, hup]) rfl
  · next hup =>
    split
    · next hpath => exact .error _ hstart (by simp [uploadDone, hpath]) rfl
    · next path hpath =>
      split
      · next hfound => exact .error _ hstart (by simp [uploadDone, hfound]) rfl
      · next hfound =>
        split
        · next hsent => exact .error _ hstart (by simp [uploadDone, hsent]) rfl
        · next hsent =>
          refine .upload path hstart ?_ rfl
          simp only [Bool.not_eq_true, Bool.not_eq_false] at hup hfound hsent
          simp [uploadDone, h, hup, hfound, hsent, hpath]

theorem recorderStep_cases (hs : recorderStep saveDir r e = some r') : StepCase saveDir r e r' := by
  cases e with
  | check env =>
      cases hs
      unfold autoStopCheck
      split
      · next hdue =>
        refine .stop rfl rfl hdue.2.1 (fun env' he => ?_) rfl
        cases he
        exact ⟨hdue.1, hdue.2.2⟩
      · exact .none rfl rfl rfl
  | command cmd env =>
      change handleCommand saveDir env cmd r = some r' at hs
      unfold handleCommand at hs
      split at hs
      · next hstart =>
        have hupload : uploadDone saveDir r (.command cmd env) = none := by
          by_cases hup : (utf8 "upload").isPrefixOf cmd = true
          · rw [upload_not_start hup] at hstart
            cases hstart
          · simp [uploadDone, hup]
        split at hs
        · next hrec =>
          cases hs
          exact .none (by simp [startAsked, hrec]) hupload rfl
        · next hrec =>
          obtain ⟨args, hargs, rfl⟩ := Option.map_eq_some_iff.mp hs
          exact .start args (by simp [startAsked, hstart, hrec, hargs]) hupload rfl
      · next hstart =>
        have hasked : startAsked saveDir r (.command cmd env) = none := by simp [startAsked, hstart]
        split at hs
        · next hstop =>
          cases hs
          have hupload : uploadDone saveDir r (.command cmd env) = none := by
            have hnot : (utf8 "upload").isPrefixOf (utf8 "stop") = false := by decide
            simp [uploadDone, hstop, hnot]
          cases hrec : r.recording with
          | true => exact .stop hasked hupload hrec (fun env' he => by cases he) rfl
          | false => exact .none hasked hupload (by simp [stopRecording, hrec])
        · split at hs
          · next hup =>
            cases hs
            exact stepCase_upload hup
          · next hup =>
            cases hs
            exact .none hasked (by simp [uploadDone, hup]) rfl

theorem startAsked_idle (h : startAsked saveDir r e = some args) : r.recording = false := by
  cases e with
  | check env => cases h
  | command cmd env =>
      simp only [startAsked] at h
      split at h
      · next hcond => exact hcond.2
      · cases h

/-! ## Start and stop -/

theorem handleStart_recording (h : r.recording = false) :
    (handleStart env args r).recording = decide (env.start = .started) := by
  unfold handleStart armAutoStop startRecordingInternal
  cases env.start <;> split <;> simp [Recorder.publish, h]

theorem handleStart_timer : (handleStart env args r).autoStopActive =
      (decide (args.duration > 0) || r.autoStopActive) ∧
    (args.duration > 0 → (handleStart env args r).autoStopTime = env.nowMs + args.duration * 1000) := by
  unfold handleStart armAutoStop
  split
  · next h => simp [h]
  · next h =>
    refine ⟨?_, fun hpos => absurd hpos h⟩
    unfold startRecordingInternal
    cases env.start <;> simp [Recorder.publish, h]

theorem stopRecording_recording (m : Measured) : (stopRecording m r).recording = false := by
  unfold stopRecording
  split
  · next h => simpa using h
  · rfl

end QnxHypervisor.MotorRecorder
