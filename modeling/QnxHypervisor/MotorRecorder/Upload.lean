import QnxHypervisor.MotorRecorder.Recorder

/-! # The upload

`upload` starts a `scp` child and waits for it in a loop, which it leaves when the child has
ended, when the wait fails or after three minutes. Only the first gives `scp_status` a value.
-/

namespace QnxHypervisor.MotorRecorder

open Foundation

/-! ## The child and the clock -/

/-- What a status word reads as. -/
inductive WaitStatus where
  | exited (code : UInt8)
  | other
  deriving DecidableEq

/-- What `waitpid(pid, &scp_status, WNOHANG)` answers. -/
inductive WaitAnswer where
  | running
  | ended (status : WaitStatus)
  | failed
  deriving DecidableEq

/-- `(int)(now - upload_start_time) > 180`. -/
def Overdue (start now : Int64) : Prop := 180 < (now - start).toInt32

instance (start now : Int64) : Decidable (Overdue start now) := inferInstanceAs (Decidable (_ < _))

/-- What the upload meets, turn by turn of its loop. -/
structure UploadWorld where
  wait : Nat → WaitAnswer
  /-- `time(NULL)` -/
  clock : Nat → Int64
  /-- the size of the remote file, where a poll reads one -/
  poll : Nat → Option Int64
  progressStart : Int64
  uploadStart : Int64
  localSize : Int64
  /-- what `scp_status` reads as before it has a value -/
  leftover : WaitStatus
  /-- a child that does not end runs until the time is over -/
  ends : ∃ n, wait n ≠ .running ∨ Overdue uploadStart (clock n)

/-- The loop is left in this turn, if it is reached. -/
def UploadWorld.Leaves (w : UploadWorld) (n : Nat) : Prop :=
  w.wait n ≠ .running ∨ Overdue w.uploadStart (w.clock n)

/-- The turn in which the loop is left. -/
structure UploadWorld.LeftAt (w : UploadWorld) (n : Nat) : Prop where
  leaves : w.Leaves n
  first : ∀ m < n, ¬ w.Leaves m

/-! ## Source functions -/

structure UploadState where
  lastPct : Int32
  lastProgressTime : Int64
  progressUpdatesSent : Int32
  /-- the values that have been published -/
  progress : List Nat

def UploadWorld.start (w : UploadWorld) : UploadState := ⟨-1, w.progressStart, 0, []⟩

def progressDue (now : Int64) (s : UploadState) : Bool :=
  let elapsed := (now - s.lastProgressTime).toInt32
  (10 ≤ elapsed && s.lastPct < 100) || (30 ≤ elapsed && s.progressUpdatesSent == 0)

def percent (remote localSize : Int64) : Int32 :=
  let pct := (remote * 100 / localSize).toInt32
  if 100 < pct then 100 else pct

/-- The poll of the remote size. The publisher puts the value between 0 and 100. -/
def progressPoll (initialized : Bool) (localSize now : Int64) (remote : Option Int64)
    (s : UploadState) : UploadState :=
  if progressDue now s ∧ initialized then
    match remote with
    | none => s
    | some remote =>
        if 0 < remote ∧ 0 < localSize then
          let pct := percent remote localSize
          if s.lastPct < pct then
            ⟨pct, now, s.progressUpdatesSent + 1, s.progress ++ [min pct.toNatClampNeg 100]⟩
          else s
        else s
  else s

/-- The loop from turn `turn` on: how `scp_status` reads afterwards. `initialized` is
`ssh_stat_cmd_initialized`, which the source sets to 0 and never changes. -/
def uploadLoop (initialized : Bool) (w : UploadWorld) :
    Nat → Nat → UploadState → Option (WaitStatus × UploadState)
  | 0, _, _ => none
  | fuel + 1, turn, s =>
      match w.wait turn with
      | .ended status => some (status, s)
      | .failed => some (w.leftover, s)
      | .running =>
          let now := w.clock turn
          let s := progressPoll initialized w.localSize now (w.poll turn) s
          if Overdue w.uploadStart now then some (w.leftover, s)
          else uploadLoop initialized w fuel (turn + 1) s

def copyDone (path : CStr 1024) (r : Recorder) : List Message :=
  [.uploadProgress 100, .stopMetadata path.bytes (remotePath path.bytes) r.stop]

def copyFailed : List Message := [.raw (errorText "SCP upload failed")]

def uploadFile (initialized : Bool) (w : UploadWorld) (fuel : Nat) (path : CStr 1024)
    (r : Recorder) : Option Recorder :=
  (uploadLoop initialized w fuel 0 w.start).map fun (status, s) =>
    { r with
      uploading := false
      published := r.published ++ s.progress.map .uploadProgress ++
        if status = .exited 0 then copyDone path r else copyFailed }

/-! ## What is promised -/

/-- The wait has reported that the child exited with status 0. -/
def UploadWorld.ChildSucceeded (w : UploadWorld) : Prop :=
  ∃ n, w.LeftAt n ∧ w.wait n = .ended (.exited 0)

structure UploadTold (w : UploadWorld) (path : CStr 1024) (r r' : Recorder) (progress : List Nat) :
    Prop where
  idle : r'.uploading = false
  range : ∀ p ∈ progress, p ≤ 100
  ordered : progress.Pairwise (· ≤ ·)
  success : w.ChildSucceeded →
    r'.published = r.published ++ progress.map .uploadProgress ++ copyDone path r
  failure : ¬ w.ChildSucceeded →
    r'.published = r.published ++ progress.map .uploadProgress ++ copyFailed
  url : remotePath path.bytes ≠ []

/-- With enough fuel the upload ends, and what it publishes is true. -/
def UploadTruthful (initialized : Bool) (w : UploadWorld) (path : CStr 1024) (r : Recorder) : Prop :=
  ∃ progress enough, ∀ fuel ≥ enough, ∃ r', uploadFile initialized w fuel path r = some r' ∧
    UploadTold w path r r' progress

/-- The loop is left because the child has ended, or what `scp_status` reads as before it has a
value is not success. -/
def StatusKnown (w : UploadWorld) : Prop :=
  ∀ n, w.LeftAt n → (∃ status, w.wait n = .ended status) ∨ w.leftover ≠ .exited 0

/-! ## Progress -/

variable {initialized : Bool} {w : UploadWorld} {s : UploadState} {path : CStr 1024}
  {r r' : Recorder} {progress : List Nat} {n : Nat}

/-- The last value bounds the others. -/
structure ProgressKept (s : UploadState) : Prop where
  least : -1 ≤ s.lastPct.toInt
  most : s.lastPct.toInt ≤ 100
  below : ∀ p ∈ s.progress, (p : Int) ≤ s.lastPct.toInt
  ordered : s.progress.Pairwise (· ≤ ·)

theorem ProgressKept.start (w : UploadWorld) : ProgressKept w.start where
  least := show -1 ≤ (-1 : Int32).toInt by decide
  most := show (-1 : Int32).toInt ≤ 100 by decide
  below := fun p hp => nomatch hp
  ordered := List.Pairwise.nil

theorem percent_le (remote localSize : Int64) : (percent remote localSize).toInt ≤ 100 := by
  simp only [percent]
  split
  case isTrue => decide
  case isFalse hle =>
    rw [Int32.lt_iff_toInt_lt] at hle
    exact Int.not_lt.mp hle

theorem ProgressKept.poll (h : ProgressKept s) (initialized : Bool) (localSize now : Int64)
    (remote : Option Int64) : ProgressKept (progressPoll initialized localSize now remote s) := by
  unfold progressPoll
  split
  case isFalse => exact h
  case isTrue =>
    cases remote with
    | none => exact h
    | some remote =>
        simp only
        split
        case isFalse => exact h
        case isTrue =>
          split
          case isFalse => exact h
          case isTrue hmore =>
            have hleast := h.least
            have hle := percent_le remote localSize
            rw [Int32.lt_iff_toInt_lt] at hmore
            -- the value is not negative, and the publisher leaves it alone
            have hvalue : ((min (percent remote localSize).toNatClampNeg 100 : Nat) : Int) =
                (percent remote localSize).toInt := by
              have hnat : ((percent remote localSize).toNatClampNeg : Int) =
                  (percent remote localSize).toInt := Int.toNat_of_nonneg (by omega)
              omega
            refine ⟨?_, hle, ?_, ?_⟩
            · show -1 ≤ (percent remote localSize).toInt
              omega
            · intro p hp
              show (p : Int) ≤ (percent remote localSize).toInt
              rcases List.mem_append.mp hp with hold | hnew
              · have hbelow := h.below p hold
                omega
              · rw [List.mem_singleton.mp hnew]
                exact le_of_eq hvalue
            · refine List.pairwise_append.mpr ⟨h.ordered, List.pairwise_singleton .., ?_⟩
              intro p hp q hq
              have hbelow := h.below p hp
              rw [List.mem_singleton.mp hq]
              omega

theorem ProgressKept.range (h : ProgressKept s) : ∀ p ∈ s.progress, p ≤ 100 := by
  intro p hp
  have hbelow := h.below p hp
  have hmost := h.most
  omega

/-! ## The loop -/

theorem UploadWorld.leftAt (w : UploadWorld) : ∃ n, w.LeftAt n := by
  classical
  exact ⟨Nat.find w.ends, Nat.find_spec w.ends, fun m hm => Nat.find_min w.ends hm⟩

theorem UploadWorld.LeftAt.unique {m : Nat} (hn : w.LeftAt n) (hm : w.LeftAt m) : n = m := by
  rcases Nat.lt_trichotomy n m with hlt | heq | hgt
  · exact absurd hn.leaves (hm.first n hlt)
  · exact heq
  · exact absurd hm.leaves (hn.first m hgt)

/-- What `scp_status` reads as behind the loop. -/
def UploadWorld.statusAt (w : UploadWorld) (n : Nat) : WaitStatus :=
  match w.wait n with
  | .ended status => status
  | _ => w.leftover

theorem uploadLoop_leaves (initialized : Bool) (hleaves : w.Leaves n) (h : ProgressKept s) :
    ∃ s', ProgressKept s' ∧
      ∀ fuel, uploadLoop initialized w (fuel + 1) n s = some (w.statusAt n, s') := by
  cases hwait : w.wait n with
  | ended status =>
      exact ⟨s, h, fun fuel => by simp only [uploadLoop, UploadWorld.statusAt, hwait]⟩
  | failed =>
      exact ⟨s, h, fun fuel => by simp only [uploadLoop, UploadWorld.statusAt, hwait]⟩
  | running =>
      have hover : Overdue w.uploadStart (w.clock n) :=
        hleaves.resolve_left fun hne => hne hwait
      refine ⟨_, h.poll initialized w.localSize (w.clock n) (w.poll n), fun fuel => ?_⟩
      simp only [uploadLoop, UploadWorld.statusAt, hwait, if_pos hover]

theorem uploadLoop_stays (initialized : Bool) (hstays : ¬ w.Leaves n) (fuel : Nat) :
    uploadLoop initialized w (fuel + 1) n s = uploadLoop initialized w fuel (n + 1)
      (progressPoll initialized w.localSize (w.clock n) (w.poll n) s) := by
  obtain ⟨hrunning, hover⟩ := not_or.mp hstays
  simp only [uploadLoop, not_not.mp hrunning, if_neg hover]

theorem uploadLoop_left (initialized : Bool) (hleft : w.LeftAt n) (togo : Nat) {turn : Nat}
    (hturn : turn + togo = n) (h : ProgressKept s) :
    ∃ s', ProgressKept s' ∧
      ∀ fuel > togo, uploadLoop initialized w fuel turn s = some (w.statusAt n, s') := by
  induction togo generalizing turn s with
  | zero =>
      obtain rfl : turn = n := hturn
      obtain ⟨s', hkept, hloop⟩ := uploadLoop_leaves initialized hleft.leaves h
      refine ⟨s', hkept, fun fuel hfuel => ?_⟩
      obtain ⟨fuel, rfl⟩ := Nat.exists_eq_add_of_lt hfuel
      rw [Nat.zero_add]
      exact hloop fuel
  | succ togo ih =>
      have hstays : ¬ w.Leaves turn := hleft.first turn (by omega)
      obtain ⟨s', hkept, hloop⟩ := ih (show turn + 1 + togo = n by omega)
        (h.poll initialized w.localSize (w.clock turn) (w.poll turn))
      refine ⟨s', hkept, fun fuel hfuel => ?_⟩
      obtain ⟨fuel, rfl⟩ : ∃ f, fuel = f + 1 := ⟨fuel - 1, by omega⟩
      rw [uploadLoop_stays initialized hstays]
      exact hloop fuel (by omega)

theorem uploadFile_left (initialized : Bool) (hleft : w.LeftAt n) (path : CStr 1024)
    (r : Recorder) :
    ∃ s, ProgressKept s ∧ ∀ fuel > n, uploadFile initialized w fuel path r = some
      { r with
        uploading := false
        published := r.published ++ s.progress.map .uploadProgress ++
          if w.statusAt n = .exited 0 then copyDone path r else copyFailed } := by
  obtain ⟨s, hkept, hloop⟩ := uploadLoop_left initialized hleft n (Nat.zero_add n) (.start w)
  refine ⟨s, hkept, fun fuel hfuel => ?_⟩
  rw [uploadFile, hloop fuel hfuel]
  rfl

/-! ## When the upload tells the truth -/

theorem childSucceeded_iff (hleft : w.LeftAt n) :
    w.ChildSucceeded ↔ w.wait n = .ended (.exited 0) := by
  constructor
  · rintro ⟨m, hm, hwait⟩
    rwa [hleft.unique hm]
  · exact fun hwait => ⟨n, hleft, hwait⟩

theorem statusAt_exited (hleft : w.LeftAt n) (hknown : StatusKnown w) :
    w.statusAt n = .exited 0 ↔ w.ChildSucceeded := by
  rw [childSucceeded_iff hleft, UploadWorld.statusAt]
  cases hwait : w.wait n with
  | ended status => simp
  | running =>
      rcases hknown n hleft with ⟨status, hended⟩ | hother
      · rw [hwait] at hended
        cases hended
      · exact iff_of_false hother nofun
  | failed =>
      rcases hknown n hleft with ⟨status, hended⟩ | hother
      · rw [hwait] at hended
        cases hended
      · exact iff_of_false hother nofun

/-- The two verdicts end differently. -/
theorem copyDone_ne (before after : List Message) (path : CStr 1024) (r : Recorder) :
    before ++ copyDone path r ≠ after ++ copyFailed := by
  intro h
  have hlast := congrArg List.getLast? h
  simp [copyDone, copyFailed] at hlast

/-- Without a status the upload is reported as done if `scp_status` happens to read so. -/
theorem not_truthful (hleft : w.LeftAt n) (hwait : ∀ status, w.wait n ≠ .ended status)
    (hleftover : w.leftover = .exited 0) : ¬ UploadTruthful initialized w path r := by
  rintro ⟨progress, enough, htold⟩
  obtain ⟨s, -, hfile⟩ := uploadFile_left initialized hleft path r
  obtain ⟨r', hread, hr'⟩ := htold (enough + n + 1) (by omega)
  have hstatus : w.statusAt n = .exited 0 := by
    rw [UploadWorld.statusAt]
    cases hcase : w.wait n with
    | ended status => exact absurd hcase (hwait status)
    | running => exact hleftover
    | failed => exact hleftover
  have hchild : ¬ w.ChildSucceeded := by
    rw [childSucceeded_iff hleft]
    exact hwait _
  rw [hfile _ (by omega), if_pos hstatus, Option.some.injEq] at hread
  subst hread
  exact copyDone_ne _ _ path r (hr'.failure hchild)

/-- A child that runs for longer than three minutes. -/
def slowChild : UploadWorld where
  wait := fun _ => .running
  clock := fun turn => Int64.ofNat (181 * turn)
  poll := fun _ => none
  progressStart := 0
  uploadStart := 0
  localSize := 1000
  leftover := .exited 0
  ends := ⟨1, .inr (by decide)⟩

theorem slowChild_leftAt : slowChild.LeftAt 1 where
  leaves := .inr (show Overdue 0 181 by decide)
  first := fun m hm => by
    obtain rfl : m = 0 := by omega
    exact not_or.mpr ⟨fun hne => hne rfl, show ¬ Overdue 0 0 by decide⟩

end QnxHypervisor.MotorRecorder
