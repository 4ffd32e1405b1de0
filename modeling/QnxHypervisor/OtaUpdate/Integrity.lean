import QnxHypervisor.Foundation.Machine
import QnxHypervisor.OtaUpdate.Containment
import QnxHypervisor.OtaUpdate.Installed

/-! # The integrity of installed files

Jobs for one guest, one after another, from an empty stage. A run records what fetch
jobs have fetched with success and what all jobs have left in the guest directory.
Stage and package directory outlive the jobs, and size tests and copies can end with
part of a file; where no job meets this, all installed files are complete.
-/

namespace QnxHypervisor.OtaUpdate

open Foundation GuestManager HmsStatus

variable {s s' : History} {e : JobEvent} {w : World} {env : JobEnv} {id : Bytes} {job : Job}
  {files : List (Bytes × Bytes)}

/-! ## Runs of jobs -/

/-- A file that a job has left below the guest directory, and the files, by name and
content, that the job may install. -/
structure Installation where
  path : Path
  content : Bytes
  sources : List (Bytes × Bytes)
  deriving DecidableEq

/-- It is one of them, whole and under its name. -/
def Installation.Complete (f : Installation) : Prop :=
  ∃ name, f.path.getLast? = some name ∧ (name, f.content) ∈ f.sources

/-- What the jobs leave to each other is the tree. -/
structure History where
  fs : FileTree
  /-- the remote files of the fetch jobs that have reported success -/
  fetched : List (Bytes × Bytes)
  installed : List Installation

structure JobEvent where
  guests : List Guest
  cmd : Bytes
  host : Host
  env : JobEnv

/-- The remote files that the command names. -/
def Job.remotes : Job → List Bytes
  | .ota _ remote => [remote]
  | .fetch _ paths => paths
  | .apply .. => []
  | .addfile _ remote => [remote]
  | .addguest _ ifs conf _ => [ifs, conf]

/-- `apply` installs what has been fetched, the others what their commands name. -/
def Job.sources (server : Server) (fetched : List (Bytes × Bytes)) : Job → List (Bytes × Bytes)
  | .apply .. => fetched
  | job => remoteFiles server job.remotes

def reportsSuccess (id : Bytes) (w : World) : Bool :=
  w.published.any fun
    | .otaResult guest true _ => guest = id
    | _ => false

/-- What the job has written below the guest directory and left there. -/
def leftBehind (id : Bytes) (sources : List (Bytes × Bytes)) (w : World) : List Installation :=
  w.writes.filterMap fun p =>
    if (guestPath id).isPrefixOf p then (textAt w.fs p).map fun c => ⟨p, c, sources⟩ else none

/-- The files of a fetch that has reported success. -/
def Job.fetches (server : Server) (w : World) : Job → List (Bytes × Bytes)
  | .fetch id paths => if reportsSuccess id w then remoteFiles server paths else []
  | _ => []

def History.after (s : History) (env : JobEnv) (host : Host) (job : Job) : History :=
  let w := job.run env (World.begin s.fs host)
  { fs := w.fs
    fetched := s.fetched ++ job.fetches env.server w
    installed := s.installed ++ leftBehind job.guest (job.sources env.server s.fetched) w }

/-- The jobs for one guest; nothing is staged at first. -/
def jobMachine (id : Bytes) : Machine History JobEvent where
  initial s := s.fs.children (stagePath id) = [] ∧ s.fetched = [] ∧ s.installed = []
  step s e :=
    match handleCommand e.guests e.cmd with
    | some job => if job.guest = id ∧ e.env.Lists s.fs id then some (s.after e.env e.host job) else none
    | none => none

theorem jobMachine_step (h : (jobMachine id).step s e = some s') :
    ∃ job, handleCommand e.guests e.cmd = some job ∧ job.guest = id ∧ e.env.Lists s.fs id ∧
      s' = s.after e.env e.host job := by
  simp only [jobMachine] at h
  split at h
  · next job hjob =>
    split at h
    · next hfor => exact ⟨job, hjob, hfor.1, hfor.2, (Option.some.inj h).symm⟩
    · cases h
  · cases h

theorem step_of_command (hjob : handleCommand e.guests e.cmd = some job) (hid : job.guest = id)
    (hlist : e.env.Lists s.fs id) :
    (jobMachine id).step s e = some (s.after e.env e.host job) := by
  simp only [jobMachine, hjob]
  exact if_pos ⟨hid, hlist⟩

/-! ## Careful jobs -/

/-- The condition on the transfers and copies of a job and on what it finds. -/
def Job.Careful (t : FileTree) (env : JobEnv) : Job → Prop
  | .ota id remote => WholeOrSized env 0 1 remote ∧
      if isArchive (packageFile id remote) then NoStageFile env t id remote
      else baseOnly remote ≠ metaName ∧ (∀ k, env.copied 0 ≠ .cut k) ∧ LeftoverFails env t id remote
  | .fetch id paths => (∀ j remote, paths[j]? = some remote → ∀ a ∈ [1, 2, 3],
      WholeOrSized env j a remote) ∧ FetchClean env t id paths
  | .apply id _ => (∀ name ∈ t.children (stagePath id), PlainName name) ∧ ∀ i k, env.copied i ≠ .cut k
  | .addfile _ remote => WholeOrSized env 0 1 remote ∧ ∀ k, env.copied 0 ≠ .cut k
  | .addguest _ ifs conf _ => AllOrNothing env 0 conf ∧ AllOrNothing env 1 ifs

/-- The shells take the words of a command literally, and its job is careful. -/
def Careful (s : History) (e : JobEvent) : Prop :=
  ∀ job, handleCommand e.guests e.cmd = some job → ProperName job.guest ∧ Bare job.guest ∧
    (∀ remote ∈ job.remotes, Bare remote) ∧ job.Careful s.fs e.env

/-! ## One job -/

theorem leftBehind_complete (h : Vouched id files w) : ∀ f ∈ leftBehind id files w, f.Complete := by
  intro f hf
  obtain ⟨p, hp, hmatch⟩ := List.mem_filterMap.mp hf
  split at hmatch
  · next hguest =>
    obtain ⟨c, hc, rfl⟩ := Option.map_eq_some_iff.mp hmatch
    exact (h p hp (List.isPrefixOf_iff_prefix.mp hguest)).2 c (textAt_eq_some.mp hc)
  · cases hmatch

theorem reportsSuccess_fetch {paths : List Bytes}
    (hok : (fetchFiles env id 0 paths (w.mkdirs env (stageDir id))).1 = true) :
    reportsSuccess id (fetchThread env id paths w) = true := by
  unfold fetchThread
  simp [hok, reportsSuccess]

/-- What is in the stage has been fetched with success, and what is installed is complete. -/
structure HistoryInv (id : Bytes) (s : History) : Prop where
  staged : ∀ n x, s.fs.node (stagePath id ++ [n]) = some (.file x) → (n, x) ∈ s.fetched
  complete : ∀ f ∈ s.installed, f.Complete

theorem historyInv_initial (h : (jobMachine id).initial s) : HistoryInv id s := by
  obtain ⟨hstage, -, hinstalled⟩ := h
  refine ⟨fun n x hx => ?_, fun f hf => ?_⟩
  · have hmem : n ∈ s.fs.children (stagePath id) := FileTree.mem_children.mpr (by simp [hx])
    rw [hstage] at hmem
    cases hmem
  · rw [hinstalled] at hf
    cases hf

theorem HistoryInv.tidy {host : Host} (h : HistoryInv job.guest s)
    (hjob : Tidy job.guest (job.sources env.server s.fetched) (World.begin s.fs host)
      (job.run env (World.begin s.fs host))) : HistoryInv job.guest (s.after env host job) where
  staged n x hx := List.mem_append_left _ (h.staged n x (hjob.stage n x hx))
  complete := List.forall_mem_append.mpr
    ⟨h.complete, leftBehind_complete (hjob.vouched (vouched_begin s.fs host))⟩

theorem HistoryInv.after {guests : List Guest} {host : Host} (h : HistoryInv job.guest s)
    (hstarted : job.Started guests) (hid : ProperName job.guest) (hbare : Bare job.guest)
    (hwords : ∀ remote ∈ job.remotes, Bare remote) (hlist : env.Lists s.fs job.guest)
    (hcareful : job.Careful s.fs env) : HistoryInv job.guest (s.after env host job) := by
  cases job with
  | ota id remote =>
      have hremote : Bare remote := hwords remote List.mem_cons_self
      have hjob : Tidy id (remoteFiles env.server [remote]) (World.begin s.fs host)
          (otaThread env id remote (World.begin s.fs host)) :=
        ota_tidy hid hbare hremote hcareful.2 hcareful.1
      exact h.tidy hjob
  | fetch id paths =>
      have hvouched : Vouched id (remoteFiles env.server paths)
          (fetchThread env id paths (World.begin s.fs host)) :=
        fetch_vouched hid hbare hwords (vouched_begin s.fs host)
      refine ⟨fun n x hx => List.mem_append.mpr ?_,
        List.forall_mem_append.mpr ⟨h.complete, leftBehind_complete hvouched⟩⟩
      have hstage : s.fs.node (stagePath id ++ [n]) = some (.file x) ∨ _ ∧ _ :=
        fetch_stage (w := World.begin s.fs host) hbare hid hwords hstarted.2 hcareful.1 hcareful.2 hx
      refine hstage.imp (h.staged n x) fun hnew => ?_
      have hsuccess : reportsSuccess id (fetchThread env id paths (World.begin s.fs host)) = true :=
        reportsSuccess_fetch hnew.1
      rw [Job.fetches, Job.run, if_pos hsuccess]
      exact hnew.2
  | apply id restart =>
      have hjob : Tidy id s.fetched (World.begin s.fs host)
          (applyThread env id restart (World.begin s.fs host)) :=
        Tidy.apply ⟨hid, hbare.quotable⟩ hcareful.1 hlist hcareful.2 h.staged
      exact h.tidy hjob
  | addfile id remote =>
      have hremote : Bare remote := hwords remote List.mem_cons_self
      have hjob : Tidy id (remoteFiles env.server [remote]) (World.begin s.fs host)
          (addfileThread env id remote (World.begin s.fs host)) :=
        addfile_tidy hid hbare hremote hcareful.1 hcareful.2
      exact h.tidy hjob
  | addguest id ifs conf ip =>
      have hifs : Bare ifs := hwords ifs List.mem_cons_self
      have hconf : Bare conf := hwords conf (List.mem_cons_of_mem _ List.mem_cons_self)
      have hjob : Tidy id (remoteFiles env.server [ifs, conf]) (World.begin s.fs host)
          (addguestThread env id ifs conf ip (World.begin s.fs host)) :=
        addguest_tidy hid hbare hconf hifs hcareful.1 hcareful.2
      exact h.tidy hjob

/-! ## Runs of careful jobs -/

theorem historyInv_reachable (h : (jobMachine id).ReachableBy Careful s) : HistoryInv id s := by
  refine h.invariant (fun _ => historyInv_initial) fun s e s' _ hinv hok hs => ?_
  obtain ⟨job, hjob, rfl, hlist, rfl⟩ := jobMachine_step hs
  obtain ⟨hid, hbare, hwords, hcareful⟩ := hok job hjob
  exact hinv.after (handleCommand_started hjob) hid hbare hwords hlist hcareful

/-- In a run of careful jobs all that a job has left in the guest directory is the whole
of a remote file: one that its own command names, and for `apply` one that a fetch has
fetched with success. -/
theorem installed_files_are_complete (h : (jobMachine id).ReachableBy Careful s) :
    ∀ f ∈ s.installed, f.Complete := (historyInv_reachable h).complete

/-! ## Two runs -/

/-- Nothing is staged for the guest, and nothing installed. -/
def freshHistory : History := ⟨smallTree [], [], []⟩

def fetchDisk (env : JobEnv) : JobEvent :=
  ⟨[recordOf .stopped 0], utf8 "fetch guest-a /up/disk.bin", hostWith .stopped 0, env⟩

def applyDisk : JobEvent := ⟨[recordOf .stopped 0], utf8 "apply guest-a", hostWith .stopped 0, calmEnv⟩

def fetchedDisk (env : JobEnv) : History :=
  freshHistory.after env (hostWith .stopped 0) (.fetch guestA [remoteFile])

def appliedDisk (env : JobEnv) : History :=
  (fetchedDisk env).after calmEnv (hostWith .stopped 0) (.apply guestA true)

theorem fetchDisk_job (env : JobEnv) : handleCommand (fetchDisk env).guests (fetchDisk env).cmd =
    some (.fetch guestA [remoteFile]) := by
  change handleCommand [recordOf .stopped 0] (utf8 "fetch guest-a /up/disk.bin") = _
  decide

theorem applyDisk_job : handleCommand applyDisk.guests applyDisk.cmd = some (.apply guestA true) := by
  decide

/-- The whole file is fetched and applied. -/
theorem installed_files_are_complete_disk :
    ∃ s, (jobMachine guestA).ReachableBy Careful s ∧ s.installed ≠ [] ∧
      ∀ f ∈ s.installed, f.Complete := by
  have hfetch : Careful freshHistory (fetchDisk emptyStageEnv) := fun job hjob => by
    obtain rfl := Option.some.inj ((fetchDisk_job emptyStageEnv).symm.trans hjob)
    refine ⟨by decide, by decide, by decide, fun j remote hj a _ c k _ _ => .inr (.inr rfl), .inr (.inl ?_)⟩
    intro j remote hj
    obtain ⟨rfl, rfl⟩ : j = 0 ∧ remoteFile = remote := by
      cases j with
      | zero => exact ⟨rfl, Option.some.inj hj⟩
      | succ j => cases hj
    exact ⟨⟨[1, 2, 3, 4], by decide, by decide, 1, by decide, 4, rfl, by decide⟩, by decide⟩
  have happly : Careful (fetchedDisk emptyStageEnv) applyDisk := fun job hjob => by
    obtain rfl := Option.some.inj (applyDisk_job.symm.trans hjob)
    exact ⟨by decide, by decide, by decide, by decide, fun i k h => by cases h⟩
  have hstart : (jobMachine guestA).ReachableBy Careful freshHistory := .initial ⟨by decide, rfl, rfl⟩
  have hrun : (jobMachine guestA).ReachableBy Careful (appliedDisk emptyStageEnv) :=
    (hstart.step hfetch (step_of_command (fetchDisk_job emptyStageEnv) rfl (by decide))).step happly
      (step_of_command applyDisk_job rfl (by decide))
  exact ⟨_, hrun, by decide, installed_files_are_complete hrun⟩

/-- The size is unknown and the connection breaks after two of four bytes. -/
def brokenEnv : JobEnv := { emptyStageEnv with sized := fun _ => false, stored := fun _ _ => some 2 }

/-- The fetch reports success, and the part is installed. -/
theorem partial_file_is_installed : ¬ ∀ (id : Bytes) (s : History), (jobMachine id).Reachable s →
    ∀ f ∈ s.installed, f.Complete := by
  intro hall
  have hstart : (jobMachine guestA).Reachable freshHistory := .initial ⟨by decide, rfl, rfl⟩
  have hrun : (jobMachine guestA).Reachable (appliedDisk brokenEnv) :=
    (hstart.step trivial (step_of_command (fetchDisk_job brokenEnv) rfl (by decide))).step trivial
      (step_of_command applyDisk_job rfl (by decide))
  have hpart : ⟨installedDisk, [1, 2], [(utf8 "disk.bin", [1, 2, 3, 4])]⟩ ∈
      (appliedDisk brokenEnv).installed := by decide +kernel
  obtain ⟨name, -, hmem⟩ := hall guestA _ hrun _ hpart
  simp at hmem

end QnxHypervisor.OtaUpdate
