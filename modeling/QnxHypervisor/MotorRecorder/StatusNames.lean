import QnxHypervisor.MotorRecorder.StatusText

/-! # Names in the status payloads of a run

The recorder's commands with the client behind them and the connects in between.
Every payload goes with the name it was made from. Names that stand for
themselves in a JSON string, hold no percent sign and fit the buffers are told
as they are.
-/

namespace QnxHypervisor.MotorRecorder

open Foundation GuestManager

variable {saveDir : Bytes}

/-! ## Runs with a client -/

structure NamedPayload where
  payload : Bytes
  field : Bytes
  name : Bytes

structure Reporting where
  recorder : Recorder
  client : Client
  /-- the name last kept for the next connect -/
  lastName : Bytes
  payloads : List NamedPayload
  /-- names used as format strings -/
  formats : List Bytes

def Reporting.note (s : Reporting) (payload : Option Bytes) (field name : Bytes) : Reporting :=
  match payload with
  | some payload => { s with payloads := s.payloads ++ [⟨payload, field, name⟩] }
  | none => s

def report (expanded : Bytes) (s : Reporting) : Message → Reporting
  | .status state msg =>
      let result := publishStatus expanded state msg
      { s with client := result.1, lastName := msg, formats := s.formats ++ [msg] }.note
        result.2 (utf8 "msg") msg
  | .stopMetadata file url figures =>
      let result := publishStopMetadata file url figures
      { s with client := result.1, lastName := file }.note result.2 (utf8 "file") file
  | .uploadProgress _ => s
  | .raw _ => s

def deleteAsked : RecorderEvent → Option Bytes
  | .command cmd _ =>
      if (utf8 "delete").isPrefixOf cmd = true ∧ skipSpaces (cmd.drop 6) ≠ [] then
        some (skipSpaces (cmd.drop 6))
      else none
  | .check _ => none

/-- `handle_delete_command`: the file is there and `remove` succeeds, or not. -/
def handleDelete (removed : Bool) (filename : Bytes) (s : Reporting) : Reporting :=
  s.note (some (deleteReply filename removed)) (utf8 "file") filename

inductive ReportEvent where
  /-- a command or the check of the main loop; what a format string's conversions
  come to, and whether a file is deleted -/
  | run (e : RecorderEvent) (expanded : Bytes) (removed : Bool)
  | connect

def reportStep (saveDir : Bytes) (s : Reporting) : ReportEvent → Option Reporting
  | .run e expanded removed =>
      (recorderStep saveDir s.recorder e).map fun r =>
        let reported := (newMessages s.recorder r).foldl (report expanded) { s with recorder := r }
        match deleteAsked e with
        | some filename => handleDelete removed filename reported
        | none => reported
  | .connect => some (s.note (onConnect s.client) (utf8 "msg") s.lastName)

/-- `mqtt_client_init`. -/
def newClient : Client := ⟨.idle, .fit 256 (utf8 "idle")⟩

def noReports : Reporting := ⟨idleRecorder, newClient, utf8 "idle", [], []⟩

def reportMachine (saveDir : Bytes) : Machine Reporting ReportEvent :=
  ⟨fun s => s = noReports, reportStep saveDir⟩

/-- Every payload names what it was made from, and no name had conversions. -/
structure NamesTold (s : Reporting) : Prop where
  payloads : ∀ p ∈ s.payloads, Names p.payload p.field p.name
  formats : ∀ name ∈ s.formats, (37 : UInt8) ∉ name

/-- The names that the event makes payloads from: they stand for themselves in a
JSON string, one used as a format string has no conversions, a delete reply fits,
and what is published again on a connect has not been cut. -/
def NamesFit (saveDir : Bytes) (s : Reporting) : ReportEvent → Prop
  | .run e _ removed =>
      (∀ args, startAsked saveDir s.recorder e = some args → e.env.start = .started →
        Verbatim args.filename.bytes ∧ (37 : UInt8) ∉ args.filename.bytes) ∧
      (∀ path, uploadDone saveDir s.recorder e = some path → Verbatim path.bytes) ∧
      ∀ filename, deleteAsked e = some filename →
        Verbatim filename ∧ (deleteResultText filename removed).length < 512
  | .connect => s.lastName.length ≤ 255

/-! ## The invariant -/

variable {s : Reporting} {expanded : Bytes}

structure Told (s : Reporting) : Prop where
  told : NamesTold s
  current : s.recorder.recording = true → Verbatim s.recorder.csvFilename.bytes
  last : Verbatim s.lastName
  kept : s.client.statusMsg = .fit 256 s.lastName

theorem Told.note (h : Told s) {payload : Option Bytes} {field name : Bytes}
    (hnames : ∀ p ∈ payload, Names p field name) : Told (s.note payload field name) := by
  unfold Reporting.note
  split
  · next payload =>
    refine ⟨⟨fun p hp => ?_, h.told.formats⟩, h.current, h.last, h.kept⟩
    rcases List.mem_append.mp hp with hold | hnew
    · exact h.told.payloads p hold
    · obtain rfl := List.mem_singleton.mp hnew
      exact hnames payload rfl
  · exact h

theorem ifFits_text {size : Nat} {text p : Bytes} (h : p ∈ ifFits size text) : p = text := by
  unfold ifFits at h
  split at h
  · exact (Option.some.inj h).symm
  · cases h

theorem Told.status (h : Told s) {state : RecState} {msg : Bytes} (hmsg : Verbatim msg)
    (hformat : (37 : UInt8) ∉ msg) : Told (report expanded s (.status state msg)) := by
  have hclient : Told { s with client := (publishStatus expanded state msg).1, lastName := msg,
                               formats := s.formats ++ [msg] } := by
    refine ⟨⟨h.told.payloads, fun name hname => ?_⟩, h.current, hmsg, ?_⟩
    · rcases List.mem_append.mp hname with hold | hnew
      · exact h.told.formats name hold
      · obtain rfl := List.mem_singleton.mp hnew
        exact hformat
    · simp [publishStatus, formatted, hformat]
  refine hclient.note fun p hp => ?_
  rw [ifFits_text hp]
  exact statusText_names hmsg

theorem Told.stopMetadata (h : Told s) {file url : Bytes} {figures : StopFigures}
    (hfile : Verbatim file) (hurl : Verbatim url) :
    Told (report expanded s (.stopMetadata file url figures)) := by
  have hclient : Told { s with client := (publishStopMetadata file url figures).1,
                               lastName := file } :=
    ⟨⟨h.told.payloads, h.told.formats⟩, h.current, hfile, rfl⟩
  refine hclient.note fun p hp => ?_
  rw [ifFits_text hp]
  exact stopMetadataText_names hfile hurl

/-- What is left of the last slash on does not matter for the characters. -/
theorem baseName_verbatim {path : Bytes} (h : Verbatim path) : Verbatim (baseName path) := by
  have hsplit := List.takeWhile_append_dropWhile (p := fun b => b != 47) (l := path.reverse)
  cases hrest : path.reverse.dropWhile fun b => b != 47 with
  | nil =>
      rw [hrest, List.append_nil] at hsplit
      rwa [baseName, hsplit, List.reverse_reverse]
  | cons c rest =>
      have hslash : c = 47 := by simpa using dropWhile_stops hrest
      have hpath : path = rest.reverse ++ c :: baseName path := by
        rw [hrest] at hsplit
        have hrev := congrArg List.reverse hsplit
        simpa [baseName] using hrev.symm
      rw [hpath] at h
      exact Verbatim.of_append_cons (hslash ▸ by decide) h

theorem remotePath_verbatim {path : CStr 1024} (h : Verbatim path.bytes) :
    Verbatim (remotePath path.bytes) := by
  have hbase := baseName_verbatim h
  have hlen : (baseName path.bytes).length ≤ 1023 := by
    have hprefix := (List.takeWhile_prefix (p := fun b => b != 47) (l := path.bytes.reverse)).length_le
    have hshort := path.short
    simp only [baseName, List.length_reverse] at hprefix ⊢
    omega
  have hdir : Verbatim (utf8 "/home/maxmaster/uploads/" ++ baseName path.bytes) :=
    Verbatim.append (by decide) hbase
  have hall : Verbatim (utf8 "maxmaster@139.185.38.211:" ++
      (utf8 "/home/maxmaster/uploads/" ++ baseName path.bytes)) :=
    Verbatim.append (by decide) hdir
  have hdirLen : (utf8 "/home/maxmaster/uploads/").length = 24 := rfl
  have huserLen : (utf8 "maxmaster@139.185.38.211:").length = 25 := rfl
  unfold remotePath
  rw [CStr.fit_of_short hdir.no_nul (by simp only [List.length_append]; omega),
    CStr.fit_of_short hall.no_nul (by simp only [List.length_append]; omega)]
  exact hall

/-! ## Steps -/

section
variable {r r' : Recorder} {env : CommandEnv} {args : StartArgs}

/-- A start that succeeds publishes its file name; one that fails, nothing. -/
theorem handleStart_messages :
    (env.start = .started ∧ (handleStart env args r).csvFilename = args.filename ∧
        newMessages r (handleStart env args r) = [.status .recording args.filename.bytes]) ∨
      (env.start ≠ .started ∧ (handleStart env args r).recording = r.recording ∧
        newMessages r (handleStart env args r) = []) := by
  unfold handleStart armAutoStop startRecordingInternal newMessages
  cases env.start <;> split <;> simp [Recorder.publish]

theorem Told.recorder (h : Told s) (hcurrent : r.recording = true → Verbatim r.csvFilename.bytes) :
    Told { s with recorder := r } :=
  ⟨⟨h.told.payloads, h.told.formats⟩, hcurrent, h.last, h.kept⟩

theorem told_messages {e : RecorderEvent} {removed : Bool} (h : Told s)
    (hok : NamesFit saveDir s (.run e expanded removed)) (hs : StepCase saveDir s.recorder e r') :
    Told ((newMessages s.recorder r').foldl (report expanded) { s with recorder := r' }) := by
  obtain ⟨hstart, hupload, -⟩ := hok
  cases hs with
  | start args asked noUpload eq =>
      subst eq
      rcases @handleStart_messages s.recorder e.env args with
        ⟨hstarted, hname, hnew⟩ | ⟨-, hsame, hnew⟩
      · obtain ⟨hverbatim, hformat⟩ := hstart args asked hstarted
        rw [hnew]
        exact (h.recorder fun _ => hname ▸ hverbatim).status hverbatim hformat
      · have hidle := startAsked_idle asked
        rw [hnew]
        exact h.recorder fun hrec => by
          rw [hsame, hidle] at hrec
          cases hrec
  | stop noStart noUpload recording timer eq =>
      subst eq
      have hstop : stopRecording e.env.measured s.recorder =
          { s.recorder with
            recording := false
            autoStopActive := false
            stop := e.env.measured.figures
            hasStopData := true }.publish
              (.stopMetadata s.recorder.csvFilename.bytes [] e.env.measured.figures) := by
        simp [stopRecording, recording]
      have hnew : newMessages s.recorder (stopRecording e.env.measured s.recorder) =
          [.stopMetadata s.recorder.csvFilename.bytes [] e.env.measured.figures] := by
        rw [hstop]
        exact List.drop_left
      rw [hnew, List.foldl_cons, List.foldl_nil]
      refine Told.stopMetadata (h.recorder fun hrec => ?_) (h.current recording) (by decide)
      rw [stopRecording_recording] at hrec
      cases hrec
  | upload path noStart done eq =>
      subst eq
      have hpath := hupload path done
      have hnew : newMessages s.recorder ((s.recorder.publish (.uploadProgress 100)).publish
          (.stopMetadata path.bytes (remotePath path.bytes) s.recorder.stop)) =
            [.uploadProgress 100, .stopMetadata path.bytes (remotePath path.bytes) s.recorder.stop] := by
        simp [newMessages, Recorder.publish]
      rw [hnew, List.foldl_cons, List.foldl_cons, List.foldl_nil]
      refine Told.stopMetadata ?_ hpath (remotePath_verbatim hpath)
      exact h.recorder h.current
  | error payload noStart noUpload eq =>
      subst eq
      rw [newMessages_publish]
      exact h.recorder h.current
  | none noStart noUpload eq =>
      subst eq
      have hnew : newMessages s.recorder s.recorder = [] := List.drop_length ..
      rw [hnew]
      exact h.recorder h.current

end

theorem told_step {s' : Reporting} {e : ReportEvent} (h : Told s) (hok : NamesFit saveDir s e)
    (hs : reportStep saveDir s e = some s') : Told s' := by
  cases e with
  | connect =>
      obtain rfl := Option.some.inj hs
      refine h.note fun p hp => ?_
      have hshort : s.lastName.length ≤ 255 := hok
      have hwhole : s.client.statusMsg.bytes = s.lastName := by
        rw [h.kept, CStr.fit_of_short h.last.no_nul (by omega)]
      rw [ifFits_text hp, hwhole]
      exact statusText_names h.last
  | run e expanded removed =>
      obtain ⟨r', hr', rfl⟩ := Option.map_eq_some_iff.mp hs
      have hmessages := told_messages h hok (recorderStep_cases hr')
      simp only
      split
      · next filename hasked =>
        obtain ⟨hname, hfits⟩ := hok.2.2 filename hasked
        refine hmessages.note fun p hp => ?_
        obtain rfl := Option.some.inj hp
        exact deleteReply_names hname hfits
      · exact hmessages

theorem told_new : Told noReports := by
  refine ⟨⟨?_, ?_⟩, ?_, by decide, rfl⟩
  · simp [noReports]
  · simp [noReports]
  · simp [noReports, idleRecorder]

/-- In every run whose names fit, each payload is one JSON object that tells the
name used, and no name is taken for a format. -/
theorem names_told (hr : (reportMachine saveDir).ReachableBy (NamesFit saveDir) s) : NamesTold s := by
  have htold : Told s := by
    refine hr.invariant (fun s hs => ?_) fun s e s' _ h hok hs => told_step h hok hs
    obtain rfl : s = noReports := hs
    exact told_new
  exact htold.told

/-! ## The defect -/

/-- A recording is started and the client connects again. -/
theorem names_told_twice :
    ∃ s : Reporting, s.payloads.map NamedPayload.name = [utf8 "/tmp/a.csv", utf8 "/tmp/a.csv"] ∧
      NamesTold s := by
  have hbegin : (reportMachine (utf8 "/tmp")).ReachableBy (NamesFit (utf8 "/tmp")) noReports :=
    .initial rfl
  have hstarted := hbegin.step (e := .run (.command (utf8 "start a") (calmEnv 0)) [] false)
    (by
      refine ⟨fun args hargs _ => ?_, fun path hpath => ?_, fun filename hname => ?_⟩
      · obtain rfl := Option.some.inj hargs
        decide
      · cases hpath
      · cases hname) rfl
  have hconnected := hstarted.step (e := .connect) (by
    show (utf8 "/tmp/a.csv").length ≤ 255
    decide) rfl
  exact ⟨_, by decide, names_told hconnected⟩

/-- A quotation mark in a name ends the member early. -/
theorem quoted_name_breaks_payload :
    ¬ ∀ (saveDir : Bytes) (s : Reporting), (reportMachine saveDir).Reachable s → NamesTold s := by
  intro hall
  have hbegin : (reportMachine (utf8 "/tmp")).Reachable noReports := .initial rfl
  have hstarted := hbegin.step (e := .run (.command (utf8 "start a\"b") (calmEnv 0)) [] false)
    trivial rfl
  have htold := (hall _ _ hstarted).payloads
    ⟨statusText (utf8 "recording") (utf8 "/tmp/a\"b.csv"), utf8 "msg", utf8 "/tmp/a\"b.csv"⟩
    (List.mem_singleton.mpr rfl)
  have hread : jsonString (utf8 "msg") (statusText (utf8 "recording") (utf8 "/tmp/a\"b.csv")) = none := by
    decide +kernel
  cases hread.symm.trans htold.2

end QnxHypervisor.MotorRecorder
