import QnxHypervisor.MotorRecorder.Recorder

/-! # The figures of an upload

One set of stop figures goes with every upload. They are those of the uploaded
file exactly as long as that file is the one of the recording stopped last. Path
strings are names of files: which of them name the same file is a parameter.
-/

namespace QnxHypervisor.MotorRecorder

open Foundation

variable {F : Type} {fileOf : Bytes → F} {saveDir : Bytes}

/-! ## Histories -/

/-- Stop metadata with a url: the recording that the file's content is from, the one
that the published figures are from, and the figures. -/
structure Upload where
  origin : Option Nat
  source : Option Nat
  figures : StopFigures
  deriving DecidableEq

/-- The recorder with the history of its files. Recordings are numbered; one under
way is the last. -/
structure Filed (F : Type) where
  recorder : Recorder
  next : Nat
  /-- the recording a file's content is from -/
  files : F → Option Nat
  /-- the figures of the recordings that were stopped -/
  finished : Nat → Option StopFigures
  /-- the recording stopped last and its file -/
  last : Option (Nat × F)
  /-- the files opened since -/
  opened : List F
  uploads : List Upload

/-- The file that the event's start opens, and whether a recording comes of it. -/
def opening (saveDir : Bytes) (r : Recorder) (e : RecorderEvent) : Option (CStr 1024 × Bool) :=
  if e.env.start = .noFile then none
  else (startAsked saveDir r e).map fun args => (args.filename, e.env.start = .started)

/-- `fopen(.., "w")`. -/
def Filed.open [DecidableEq F] (s : Filed F) (f : F) (started : Bool) : Filed F :=
  { s with
    files := Function.update s.files f (if started then some s.next else none)
    next := if started then s.next + 1 else s.next
    opened := f :: s.opened }

/-- The recording under way has been stopped. -/
def Filed.finish (s : Filed F) (f : F) (figures : StopFigures) : Filed F :=
  { s with
    finished := Function.update s.finished (s.next - 1) (some figures)
    last := some (s.next - 1, f)
    opened := [] }

def uploadOf (fileOf : Bytes → F) (s : Filed F) : Message → Option Upload
  | .stopMetadata file url figures =>
      if url = [] then none
      else some ⟨s.files (fileOf file), s.last.map Prod.fst, figures⟩
  | _ => none

def newMessages (r r' : Recorder) : List Message := r'.published.drop r.published.length

def filedStep [DecidableEq F] (fileOf : Bytes → F) (saveDir : Bytes) (s : Filed F) (e : RecorderEvent) :
    Option (Filed F) :=
  (recorderStep saveDir s.recorder e).map fun r =>
    let opened :=
      match opening saveDir s.recorder e with
      | some (path, started) => s.open (fileOf path.bytes) started
      | none => s
    let stopped :=
      if s.recorder.recording ∧ ¬ r.recording then
        opened.finish (fileOf s.recorder.csvFilename.bytes) e.env.measured.figures
      else opened
    { stopped with
      recorder := r
      uploads := s.uploads ++ (newMessages s.recorder r).filterMap (uploadOf fileOf s) }

structure FiledStart (s : Filed F) : Prop where
  recorder : s.recorder = idleRecorder
  files : ∀ f, s.files f = none
  finished : ∀ n, s.finished n = none
  last : s.last = none
  uploads : s.uploads = []

def filedMachine [DecidableEq F] (fileOf : Bytes → F) (saveDir : Bytes) : Machine (Filed F) RecorderEvent :=
  ⟨FiledStart, filedStep fileOf saveDir⟩

/-- The figures are those of the file's recording; a file that is from none goes
with no recording's figures. -/
def Upload.Faithful (finished : Nat → Option StopFigures) (u : Upload) : Prop :=
  match u.origin with
  | some n => finished n = some u.figures
  | none => u.source = none

/-- Only the file of the recording stopped last is uploaded, and only while no start
has opened it again. -/
def UploadsLast (fileOf : Bytes → F) (saveDir : Bytes) (s : Filed F) (e : RecorderEvent) : Prop :=
  ∀ path, uploadDone saveDir s.recorder e = some path →
    fileOf path.bytes ∉ s.opened ∧ ∀ last ∈ s.last, last.2 = fileOf path.bytes

/-! ## The invariant -/

variable {s s' : Filed F} {e : RecorderEvent}

structure FiguresKept (fileOf : Bytes → F) (s : Filed F) : Prop where
  /-- the recording under way has its file and is not finished -/
  current : s.recorder.recording = true → 0 < s.next ∧
    s.files (fileOf s.recorder.csvFilename.bytes) = some (s.next - 1) ∧ s.finished (s.next - 1) = none
  unborn : ∀ n, s.next ≤ n → s.finished n = none
  last : ∀ n f, s.last = some (n, f) →
    s.finished n = some s.recorder.stop ∧ (f ∉ s.opened → s.files f = some n)
  fresh : s.last = none → ∀ f, f ∉ s.opened → s.files f = none
  faithful : ∀ u ∈ s.uploads, u.Faithful s.finished

theorem FiguresKept.empty (h : FiledStart s) : FiguresKept fileOf s := by
  refine ⟨fun hrec => ?_, fun n _ => h.finished n, fun n f hlast => ?_, fun _ f _ => h.files f,
    fun u hu => ?_⟩
  · rw [h.recorder] at hrec
    cases hrec
  · cases h.last.symm.trans hlast
  · rw [h.uploads] at hu
    cases hu

theorem Upload.Faithful.mono {finished finished' : Nat → Option StopFigures} {u : Upload}
    (h : u.Faithful finished) (hmono : ∀ n figures, finished n = some figures →
      finished' n = some figures) : u.Faithful finished' := by
  unfold Upload.Faithful at h ⊢
  cases horigin : u.origin with
  | none => simpa [horigin] using h
  | some n =>
      simp only [horigin] at h ⊢
      exact hmono n _ h

theorem FiguresKept.upload_faithful (h : FiguresKept fileOf s) {path : CStr 1024}
    (hnew : fileOf path.bytes ∉ s.opened) (hlast : ∀ last ∈ s.last, last.2 = fileOf path.bytes) :
    Upload.Faithful s.finished
      ⟨s.files (fileOf path.bytes), s.last.map Prod.fst, s.recorder.stop⟩ := by
  cases hl : s.last with
  | none =>
      have hnone : s.files (fileOf path.bytes) = none := h.fresh hl _ hnew
      simp [Upload.Faithful, hnone]
  | some last =>
      obtain ⟨n, f⟩ := last
      obtain rfl : f = fileOf path.bytes := hlast (n, f) hl
      obtain ⟨hfigures, hfile⟩ := h.last n _ hl
      simp only [Upload.Faithful, hfile hnew]
      exact hfigures

section
variable [DecidableEq F] {f : F} {r : Recorder}

theorem FiguresKept.open_failed (h : FiguresKept fileOf s) (hrec : r.recording = false)
    (hstop : r.stop = s.recorder.stop) :
    FiguresKept fileOf { s.open f false with recorder := r } := by
  have hfile : ∀ g, g ∉ f :: s.opened → Function.update s.files f none g = s.files g := fun g hg =>
    Function.update_of_ne (List.ne_of_not_mem_cons hg) _ _
  refine ⟨fun hr => ?_, h.unborn, fun n g hlast => ?_, fun hnone g hg => ?_, h.faithful⟩
  · cases hrec.symm.trans hr
  · obtain ⟨hfigures, hkept⟩ := h.last n g hlast
    refine ⟨hfigures.trans (congrArg some hstop.symm), fun hg => ?_⟩
    exact (hfile g hg).trans (hkept (List.not_mem_of_not_mem_cons hg))
  · exact (hfile g hg).trans (h.fresh hnone g (List.not_mem_of_not_mem_cons hg))

theorem FiguresKept.open_started (h : FiguresKept fileOf s)
    (hname : fileOf r.csvFilename.bytes = f) (hstop : r.stop = s.recorder.stop) :
    FiguresKept fileOf { s.open f true with recorder := r } := by
  have hfile : ∀ g, g ∉ f :: s.opened → Function.update s.files f (some s.next) g = s.files g :=
    fun g hg => Function.update_of_ne (List.ne_of_not_mem_cons hg) _ _
  refine ⟨fun _ => ⟨Nat.succ_pos _, ?_, h.unborn _ (le_refl _)⟩, fun n hn => ?_, fun n g hlast => ?_,
    fun hnone g hg => ?_, h.faithful⟩
  · change Function.update s.files f (some s.next) (fileOf r.csvFilename.bytes) = _
    rw [hname, Function.update_self]
    rfl
  · exact h.unborn n (Nat.le_of_succ_le hn)
  · obtain ⟨hfigures, hkept⟩ := h.last n g hlast
    refine ⟨hfigures.trans (congrArg some hstop.symm), fun hg => ?_⟩
    exact (hfile g hg).trans (hkept (List.not_mem_of_not_mem_cons hg))
  · exact (hfile g hg).trans (h.fresh hnone g (List.not_mem_of_not_mem_cons hg))

end

section
variable {r : Recorder}

theorem FiguresKept.finish (h : FiguresKept fileOf s) (hwas : s.recorder.recording = true)
    (hrec : r.recording = false) :
    FiguresKept fileOf
      { s.finish (fileOf s.recorder.csvFilename.bytes) r.stop with recorder := r } := by
  obtain ⟨hpos, hfile, hunfinished⟩ := h.current hwas
  refine ⟨fun hr => ?_, fun n hn => ?_, fun n g hlast => ?_, fun hnone => ?_, fun u hu => ?_⟩
  · cases hrec.symm.trans hr
  · have hne : n ≠ s.next - 1 := by
      change s.next ≤ n at hn
      omega
    exact (Function.update_of_ne hne _ _).trans (h.unborn n hn)
  · obtain ⟨rfl, rfl⟩ : s.next - 1 = n ∧ fileOf s.recorder.csvFilename.bytes = g := by
      simpa [Filed.finish] using hlast
    exact ⟨Function.update_self .., fun _ => hfile⟩
  · cases hnone
  · refine (h.faithful u hu).mono fun n figures hn => ?_
    have hne : n ≠ s.next - 1 := by
      rintro rfl
      cases hunfinished.symm.trans hn
    exact (Function.update_of_ne hne _ _).trans hn

theorem FiguresKept.quiet (h : FiguresKept fileOf s) (hrec : r.recording = s.recorder.recording)
    (hname : r.csvFilename = s.recorder.csvFilename) (hstop : r.stop = s.recorder.stop) :
    FiguresKept fileOf { s with recorder := r } := by
  refine ⟨fun hr => ?_, h.unborn, fun n g hlast => ?_, h.fresh, h.faithful⟩
  · change _ ∧ s.files (fileOf r.csvFilename.bytes) = _ ∧ _
    rw [hname]
    exact h.current (hrec.symm.trans hr)
  · change s.finished n = some r.stop ∧ _
    rw [hstop]
    exact h.last n g hlast

theorem FiguresKept.upload (h : FiguresKept fileOf s) {more : List Upload}
    (hmore : ∀ u ∈ more, u.Faithful s.finished) :
    FiguresKept fileOf { s with uploads := s.uploads ++ more } :=
  ⟨h.current, h.unborn, h.last, h.fresh, fun u hu =>
    (List.mem_append.mp hu).elim (h.faithful u) (hmore u)⟩

end

/-! ## Steps -/

section
variable {r : Recorder} {args : StartArgs} {env : CommandEnv} {m : Message}

theorem newMessages_publish : newMessages r (r.publish m) = [m] := List.drop_left

theorem handleStart_uploads :
    (newMessages r (handleStart env args r)).filterMap (uploadOf fileOf s) = [] := by
  have hnew : newMessages r (handleStart env args r) = [] ∨
      ∃ file, newMessages r (handleStart env args r) = [.status .recording file] := by
    unfold handleStart armAutoStop startRecordingInternal newMessages
    cases env.start <;> split <;> simp [Recorder.publish]
  rcases hnew with hnil | ⟨file, hstatus⟩
  · rw [hnil]
    rfl
  · rw [hstatus]
    rfl

theorem handleStart_stop : (handleStart env args r).stop = r.stop := by
  unfold handleStart armAutoStop startRecordingInternal
  cases env.start <;> split <;> rfl

theorem handleStart_csvFilename (h : env.start = .started) :
    (handleStart env args r).csvFilename = args.filename := by
  unfold handleStart armAutoStop startRecordingInternal
  rw [h]
  split <;> rfl

theorem stopRecording_eq (h : r.recording = true) (measured : Measured) :
    stopRecording measured r =
      { r with
        recording := false
        autoStopActive := false
        stop := measured.figures
        hasStopData := true }.publish (.stopMetadata r.csvFilename.bytes [] measured.figures) := by
  rw [stopRecording, if_neg (by simp [h])]

end

theorem FiguresKept.step [DecidableEq F] (h : FiguresKept fileOf s)
    (hok : UploadsLast fileOf saveDir s e) (hs : filedStep fileOf saveDir s e = some s') :
    FiguresKept fileOf s' := by
  obtain ⟨r, hstep, rfl⟩ := Option.map_eq_some_iff.mp hs
  have hnoOpening : startAsked saveDir s.recorder e = none → opening saveDir s.recorder e = none := by
    intro hnone
    simp [opening, hnone]
  have hkept : r.recording = s.recorder.recording →
      ¬ (s.recorder.recording = true ∧ ¬ r.recording = true) := by
    intro hrec
    simp [hrec]
  cases recorderStep_cases hstep with
  | start args hasked hnoUpload heq =>
      have hidle := startAsked_idle hasked
      have hnew : (newMessages s.recorder r).filterMap (uploadOf fileOf s) = [] := by
        rw [heq]
        exact handleStart_uploads
      have hstop : r.stop = s.recorder.stop := by rw [heq, handleStart_stop]
      have hrec : r.recording = decide (e.env.start = .started) := by
        rw [heq, handleStart_recording hidle]
      simp only [hidle, Bool.false_eq_true, false_and, if_false, hnew, List.append_nil]
      by_cases hfile : e.env.start = .noFile
      · have hnone : opening saveDir s.recorder e = none := if_pos hfile
        rw [hnone]
        refine ⟨fun hr => ?_, h.unborn, fun n g hlast => ?_, h.fresh, h.faithful⟩
        · change r.recording = true at hr
          simp [hrec, hfile] at hr
        · change s.finished n = some r.stop ∧ _
          rw [hstop]
          exact h.last n g hlast
      · have hopening : opening saveDir s.recorder e =
            some (args.filename, decide (e.env.start = .started)) := by
          simp [opening, hfile, hasked]
        rw [hopening]
        by_cases hstarted : e.env.start = .started
        · have hname : r.csvFilename = args.filename := by rw [heq, handleStart_csvFilename hstarted]
          simp only [hstarted, decide_true]
          exact h.open_started (congrArg (fun c : CStr 1024 => fileOf c.bytes) hname) hstop
        · simp only [hstarted, decide_false]
          exact h.open_failed (by simp [hrec, hstarted]) hstop
  | stop hnone hnoUpload hwas harmed heq =>
      have heq' := heq.trans (stopRecording_eq hwas _)
      have hrec : r.recording = false := by rw [heq']; rfl
      have hstop : e.env.measured.figures = r.stop := by rw [heq']; rfl
      have hnew : (newMessages s.recorder r).filterMap (uploadOf fileOf s) = [] := by
        rw [heq']
        exact congrArg (List.filterMap (uploadOf fileOf s)) (newMessages_publish (r := s.recorder))
      simp only [hnoOpening hnone, hnew, List.append_nil, hwas, hrec, Bool.false_eq_true,
        not_false_eq_true, and_self, if_true, hstop]
      exact h.finish hwas hrec
  | upload path hnone hdone heq =>
      have hrec : r.recording = s.recorder.recording := by rw [heq]; rfl
      obtain ⟨hnew, hlast⟩ := hok path hdone
      simp only [hnoOpening hnone]
      rw [if_neg (hkept hrec)]
      refine (h.quiet hrec (by rw [heq]; rfl) (by rw [heq]; rfl)).upload fun u hu => ?_
      have hmessages : newMessages s.recorder r = [.uploadProgress 100,
          .stopMetadata path.bytes (remotePath path.bytes) s.recorder.stop] := by
        simp [heq, newMessages, Recorder.publish]
      have hu : u = ⟨s.files (fileOf path.bytes), s.last.map Prod.fst, s.recorder.stop⟩ := by
        rw [hmessages] at hu
        exact (by simpa [uploadOf, remotePath_ne_nil] using hu : _ = u).symm
      rw [hu]
      exact h.upload_faithful hnew hlast
  | error payload hnone hnoUpload heq =>
      have hrec : r.recording = s.recorder.recording := by rw [heq]; rfl
      simp only [hnoOpening hnone]
      have hmessages : (newMessages s.recorder r).filterMap (uploadOf fileOf s) = [] := by
        rw [heq, newMessages_publish]
        rfl
      rw [if_neg (hkept hrec), hmessages]
      exact (h.quiet hrec (by rw [heq]; rfl) (by rw [heq]; rfl)).upload fun u hu => by cases hu
  | none hnone hnoUpload heq =>
      have hnew : newMessages s.recorder s.recorder = [] := List.drop_length
      rw [heq]
      simp only [hnoOpening hnone]
      rw [if_neg (by simp), hnew]
      exact h.upload fun u hu => by cases hu

/-- Whatever is uploaded in a run that uploads the last recording only, goes with
its own figures. -/
theorem uploads_faithful [DecidableEq F]
    (h : (filedMachine fileOf saveDir).ReachableBy (UploadsLast fileOf saveDir) s) :
    ∀ u ∈ s.uploads, u.Faithful s.finished :=
  (h.invariant (fun _ => FiguresKept.empty) fun _ _ _ _ hkept hok hs => hkept.step hok hs).faithful

/-! ## Two histories -/

def measuredRows (rows : UInt64) : Measured := ⟨rows, false, 0, 0, 0, 0, 0⟩

/-- Everything a command asks for is done. -/
def calmEnv (rows : UInt64) : CommandEnv where
  now := 0
  stamp := utf8 "20240101_000000"
  start := .started
  measured := measuredRows rows
  found := true
  sent := true

def newFiles : Filed Bytes := ⟨idleRecorder, 0, fun _ => none, fun _ => none, none, [], []⟩

theorem newFiles_start : (filedMachine id (utf8 "/tmp")).initial newFiles :=
  ⟨rfl, fun _ => rfl, fun _ => rfl, rfl, rfl⟩

/-- The last recording is uploaded. -/
theorem last_upload_faithful : ∃ s : Filed Bytes, s.uploads.map Upload.figures = [⟨0, 7, 0, 0, 0⟩] ∧
    ∀ u ∈ s.uploads, u.Faithful s.finished := by
  have hbegin : (filedMachine id (utf8 "/tmp")).ReachableBy (UploadsLast id (utf8 "/tmp")) newFiles :=
    .initial newFiles_start
  have hstarted := hbegin.step (e := .command (utf8 "start a") (calmEnv 7)) (fun path h => by cases h) rfl
  have hstopped := hstarted.step (e := .command (utf8 "stop") (calmEnv 7)) (fun path h => by cases h) rfl
  have huploaded := hstopped.step (e := .command (utf8 "upload") (calmEnv 7)) (fun path h => by
    obtain rfl := Option.some.inj (show some (CStr.fit 1024 (utf8 "/tmp/a.csv")) = some path from h)
    refine ⟨List.not_mem_nil, fun last hlast => ?_⟩
    obtain rfl := Option.some.inj (show some (0, utf8 "/tmp/a.csv") = some last from hlast)
    decide) rfl
  exact ⟨_, by decide, uploads_faithful huploaded⟩

/-- The older of two recordings is uploaded with the figures of the newer. -/
theorem older_upload_gets_newer_figures :
    ¬ ∀ (fileOf : Bytes → Bytes) (saveDir : Bytes) (s : Filed Bytes),
      (filedMachine fileOf saveDir).Reachable s → ∀ u ∈ s.uploads, u.Faithful s.finished := by
  intro hall
  have hstart : (filedMachine id (utf8 "/tmp")).Reachable newFiles := .initial newFiles_start
  have hfirst := hstart.step (e := .command (utf8 "start a") (calmEnv 5)) trivial rfl
  have hfirstDone := hfirst.step (e := .command (utf8 "stop") (calmEnv 5)) trivial rfl
  have hsecond := hfirstDone.step (e := .command (utf8 "start b") (calmEnv 7)) trivial rfl
  have hsecondDone := hsecond.step (e := .command (utf8 "stop") (calmEnv 7)) trivial rfl
  have huploaded := hsecondDone.step (e := .command (utf8 "upload a.csv") (calmEnv 7)) trivial rfl
  have hfaithful := hall _ _ _ huploaded ⟨some 0, some 1, ⟨0, 7, 0, 0, 0⟩⟩ (by decide)
  cases (show some (StopFigures.mk 0 5 0 0 0) = some ⟨0, 7, 0, 0, 0⟩ from hfaithful)

end QnxHypervisor.MotorRecorder
