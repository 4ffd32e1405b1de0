import QnxHypervisor.OtaUpdate.ApplyPromise

/-! # Archives

The command line of `ota_apply` makes the stage directory a member name: an archive whose
members are named from its own root ends in "Extraction failed", and of one that has
members of that name these are extracted into the stage and stay there. The payload root
is used by nobody, so no file of the archive gets into the guest directory.
-/

namespace QnxHypervisor.OtaUpdate

open Foundation GuestManager HmsStatus

variable {w w' : World} {env : JobEnv} {id remote : Bytes} {dir p q : Path} {m : Member}
  {members : List Member}

/-! ## Extraction -/

/-- The members that have the stage directory's name or are below it. -/
def stagedMembers (id : Bytes) (members : List Member) : List Member :=
  members.filter fun m => (stagePath id).isPrefixOf m.path

theorem mem_stagedMembers : m ∈ stagedMembers id members ↔ m ∈ members ∧ stagePath id <+: m.path := by
  rw [stagedMembers, List.mem_filter, List.isPrefixOf_iff_prefix]

namespace World

theorem extract_keeps (h : w.fs.node q ≠ none) : (extract dir w m).2.fs.node q ≠ none := by
  have hmkdirs : ∀ way, (w.fs.mkdirs way).node q ≠ none := fun way => by
    rcases FileTree.node_mkdirs w.fs way q with hsame | ⟨hnone, -⟩
    · rwa [hsame]
    · exact absurd hnone h
  unfold extract
  cases m.content with
  | none => exact hmkdirs _
  | some c =>
      dsimp only
      rw [node_put]
      split
      · simp
      · exact hmkdirs _

theorem extract_writes (h : q ∈ w.writes) : q ∈ (extract dir w m).2.writes := by
  unfold extract
  cases m.content with
  | none => exact List.mem_append_left _ h
  | some c => exact mem_writes_put.mpr (.inl h)

theorem extract_ok (h : (extract dir w m).1 = true) :
    dir ++ m.path ∈ (extract dir w m).2.writes ∧ (extract dir w m).2.fs.node (dir ++ m.path) ≠ none := by
  unfold extract at h ⊢
  cases hcontent : m.content with
  | none =>
      simp only [hcontent] at h ⊢
      refine ⟨List.mem_append_right _ List.mem_cons_self, ?_⟩
      rcases FileTree.isDir_iff.mp h with hroot | ⟨size, hdir⟩
      · exact absurd (List.append_eq_nil_iff.mp hroot).2 m.nonempty
      · rw [hdir]
        simp
  | some c =>
      simp only [hcontent] at h ⊢
      have hwrite := of_decide_eq_true h
      refine ⟨mem_writes_put.mpr (.inr ⟨rfl, hwrite⟩), ?_⟩
      rw [node_put, if_pos ⟨rfl, hwrite⟩]
      simp

theorem extractAll_keeps (h : w.fs.node q ≠ none) : (extractAll dir members w).2.fs.node q ≠ none := by
  induction members generalizing w with
  | nil => exact h
  | cons m rest ih => exact ih (extract_keeps h)

theorem extractAll_writes (h : q ∈ w.writes) : q ∈ (extractAll dir members w).2.writes := by
  induction members generalizing w with
  | nil => exact h
  | cons m rest ih => exact ih (extract_writes h)

theorem extractAll_ok (h : (extractAll dir members w).1 = true) (hm : m ∈ members) :
    dir ++ m.path ∈ (extractAll dir members w).2.writes ∧
      (extractAll dir members w).2.fs.node (dir ++ m.path) ≠ none := by
  induction members generalizing w with
  | nil => cases hm
  | cons first rest ih =>
      obtain ⟨hfirst, hrest⟩ := Bool.and_eq_true_iff.mp h
      rcases List.mem_cons.mp hm with rfl | hmem
      · obtain ⟨hwrites, hnode⟩ := extract_ok hfirst
        exact ⟨extractAll_writes (w := (extract dir w m).2) hwrites,
          extractAll_keeps (w := (extract dir w m).2) hnode⟩
      · exact ih hrest hmem

end World

theorem World.extract_published : (World.extract dir w m).2.published = w.published := by
  unfold World.extract
  cases m.content with
  | none => rfl
  | some c => exact World.put_published

theorem World.extractAll_published :
    (World.extractAll dir members w).2.published = w.published := by
  induction members generalizing w with
  | nil => rfl
  | cons m rest ih => exact ih.trans World.extract_published

/-! ## The course of a job -/

/-- The local file of the package. -/
def packageFile (id remote : Bytes) : Bytes := join (packageDir id) (baseOnly remote)

def pulled (env : JobEnv) (id remote : Bytes) (w : World) : Bool × World :=
  let (size, w) := (w.report id "download" 0 (utf8 "Starting pull from server")).remoteSize env 0 remote
  w.pullFile env 0 1 size remote (packageFile id remote)

def prepared (env : JobEnv) (id remote : Bytes) (w : World) : World :=
  ((((pulled env id remote w).2.report id "download" 100 (utf8 "Package pulled")).report id "prep" 0
    (utf8 "Stopping guest before applying update")).call id (otaKillCb env.killStore id)).2

def updated (env : JobEnv) (id remote : Bytes) (w : World) : Int × World :=
  otaApply env id (packageFile id remote) (prepared env id remote w)

def relaunched (env : JobEnv) (id remote : Bytes) (w : World) : Int × World :=
  (((updated env id remote w).2.report id "apply" 100 (utf8 "Update applied")).report id "restart" 0
    (utf8 "Restarting guest")).call id (otaStartCb env.start id)

theorem otaThread_eq (env : JobEnv) (id remote : Bytes) (w : World) :
    otaThread env id remote w =
      if ¬ (pulled env id remote w).1 then
        (pulled env id remote w).2.report id "failed" 0 (utf8 "Failed to pull package from server")
      else if (updated env id remote w).1 ≠ 0 then
        (updated env id remote w).2.report id "failed" 0 (utf8 "Failed to apply update")
      else
        (relaunched env id remote w).2.publish (.otaResult id ((relaunched env id remote w).1 = 0)
          (if (relaunched env id remote w).1 = 0 then utf8 "OTA update applied and guest restarted"
           else utf8 "Update applied but guest restart failed")) := by
  unfold otaThread
  rfl

theorem otaThread_cases (env : JobEnv) (id remote : Bytes) (w : World) :
    (∃ msg, otaThread env id remote w = (pulled env id remote w).2.report id "failed" 0 msg) ∨
    (∃ msg, otaThread env id remote w = (updated env id remote w).2.report id "failed" 0 msg) ∨
    (updated env id remote w).1 = 0 ∧ ∃ ok msg, otaThread env id remote w =
      (relaunched env id remote w).2.publish (.otaResult id ok msg) := by
  rw [otaThread_eq]
  split
  · exact .inl ⟨_, rfl⟩
  · split
    · exact .inr (.inl ⟨_, rfl⟩)
    · next hzero => exact .inr (.inr ⟨not_not.mp hzero, _, _, rfl⟩)

/-- The members of the package in a tree, as `tar` reads it. -/
def packageMembers (env : JobEnv) (id remote : Bytes) (t : FileTree) : List Member :=
  ((regularAt t (packageFile id remote)).map (env.tar.members (tarOpt (packageFile id remote)))).getD []

/-- The state in which the extraction begins. -/
def unpacking (env : JobEnv) (id remote : Bytes) (w : World) : World :=
  ((prepared env id remote w).mkdirs env (stageDir id)).report id "extract" 0
    (utf8 "Extracting package")

/-! ## What an archive update promises -/

/-- The content under a path of the archive: a later member replaces an earlier one. -/
def archived (members : List Member) (p : Path) : Option Bytes :=
  (members.reverse.find? fun m => m.path = p).bind Member.content

/-- The entries of the archive root; those with a leading dot do not count. -/
def topNames (members : List Member) : List Bytes :=
  ((members.filterMap fun m => m.path.head?).filter fun n => n.head? ≠ some 46).dedup

/-- The single top-level directory if there is exactly one, else the archive root. -/
def payloadRoot (members : List Member) : Path :=
  match topNames members with
  | [top] => if archived members [top] = none then [top] else []
  | _ => []

structure ArchiveInstalled (members : List Member) (id : Bytes) (w' : World) : Prop where
  installed : ∀ rel c, archived members (payloadRoot members ++ rel) = some c →
    w'.fs.node (guestPath id ++ rel) = some (.file c)
  cleaned : ∀ p ∈ w'.writes, stagePath id <+: p → p ≠ stagePath id → w'.fs.node p = none

/-- The job has reported that the update is applied, or success. -/
def UpdateApplied (id : Bytes) (w' : World) : Prop :=
  .otaProgress id (utf8 "apply") 100 (utf8 "Update applied") ∈ w'.published ∨ Succeeded id w'

/-! ## An archive job -/

theorem packagePath_not_stage (hid : ProperName id) (hname : ProperName (baseOnly remote)) (t : FileTree) :
    ¬ stagePath id <+: target t (resolve (packageFile id remote)) (baseOnly remote) := by
  have hne : utf8 "stage" ≠ utf8 "package" := by decide
  rw [packageFile, resolve_join_proper _ hname, resolve_packageDir hid]
  rintro ⟨rest, hrest⟩
  unfold target at hrest
  split at hrest <;> simp [stagePath, packagePath, jobPath, hne] at hrest

theorem pulled_writes (hid : PlainName id) (hremote : Quotable remote)
    (hname : Quotable (baseOnly remote)) (hp : p ∈ (pulled env id remote w).2.writes) :
    p ∈ w.writes ∨ ¬ stagePath id <+: p := by
  have hpkg : Quotable (packageFile id remote) :=
    quotable_join.mpr ⟨quotable_jobDir.mpr ⟨hid.quotable, by decide⟩, hname⟩
  simp only [pulled, World.pullFile, World.remoteSize_quotable hremote] at hp
  rcases @World.scp_cases _ env _ _ 0 1 hremote hpkg with ⟨heq, -⟩ |
    ⟨c, k, hfile, -, heq⟩
  · rw [heq] at hp
    exact .inl hp
  · rw [heq, World.mem_writes_put] at hp
    refine hp.imp_right fun ⟨htarget, _⟩ => ?_
    rw [htarget]
    exact packagePath_not_stage hid.proper (env.server.named remote (by simp [hfile])) _

theorem pulled_published : (pulled env id remote w).2.published =
    w.published ++ [.otaProgress id (utf8 "download") 0 (utf8 "Starting pull from server")] := by
  simp [pulled, World.pullFile]

theorem prepared_writes : (prepared env id remote w).writes = (pulled env id remote w).2.writes := rfl

theorem prepared_published : (prepared env id remote w).published = w.published ++
    [.otaProgress id (utf8 "download") 0 (utf8 "Starting pull from server"),
      .otaProgress id (utf8 "download") 100 (utf8 "Package pulled"),
      .otaProgress id (utf8 "prep") 0 (utf8 "Stopping guest before applying update")] := by
  change (((pulled env id remote w).2.published ++ [_]) ++ [_]) = _
  rw [pulled_published]
  simp

theorem unpacking_published : (unpacking env id remote w).published =
    (prepared env id remote w).published ++
      [.otaProgress id (utf8 "extract") 0 (utf8 "Extracting package")] := by
  change ((prepared env id remote w).mkdirs env (stageDir id)).published ++ [_] = _
  rw [World.mkdirs_published]

theorem updated_eq (harchive : isArchive (packageFile id remote) = true) :
    updated env id remote w =
      let run := (unpacking env id remote w).untar env (stageDir id) (packageFile id remote)
      if run.1 ≠ 0 then (-1, run.2.report id "extract" 0 (utf8 "Extraction failed")) else (0, run.2) := by
  unfold updated otaApply
  rw [if_pos harchive]
  rfl

section
variable (hid : ProperName id) (hbare : Bare id) (hname : Bare (baseOnly remote))
include hid hbare hname

theorem untar_eq : w.untar env (stageDir id) (packageFile id remote) =
    w.unpack env.tar.status [] (stagedMembers id (packageMembers env id remote w.fs)) := by
  have hwords : Bare (stageDir id) ∧ Bare (packageFile id remote) :=
    ⟨bare_jobDir.mpr ⟨hbare, by decide⟩, bare_join.mpr ⟨bare_jobDir.mpr ⟨hbare, by decide⟩, hname⟩⟩
  have hcall : tarCall none (tarWords (stageDir id) (packageFile id remote)) =
      ⟨[utf8 "-C", packageFile id remote], [], [stageDir id]⟩ := tarCall_tarWords rfl
  have hasked : TarCall.asksFor ⟨[utf8 "-C", packageFile id remote], [], [stageDir id]⟩ =
      fun m => (stagePath id).isPrefixOf m.path := by
    funext m
    simp [TarCall.asksFor, resolve_stageDir hid]
  have hfile : TarCall.file ⟨[utf8 "-C", packageFile id remote], [], [stageDir id]⟩ =
      some (packageFile id remote) := rfl
  have hdir : TarCall.dir ⟨[utf8 "-C", packageFile id remote], [], [stageDir id]⟩ = [] := rfl
  unfold World.untar packageMembers
  simp only [if_neg (not_not_intro hwords), hcall, hasked, hfile, hdir, Option.bind_some]
  cases regularAt w.fs (packageFile id remote) <;> rfl

theorem untar_published :
    (w.untar env (stageDir id) (packageFile id remote)).2.published = w.published := by
  rw [untar_eq hid hbare hname, World.unpack]
  split
  · rfl
  · exact World.extractAll_published

/-- With status 0 all members of the stage's name have been extracted. -/
theorem untar_zero (hzero : (w.untar env (stageDir id) (packageFile id remote)).1 = 0) :
    (World.extractAll [] (stagedMembers id (packageMembers env id remote w.fs)) w).1 = true ∧
      (w.untar env (stageDir id) (packageFile id remote)).2 =
        (World.extractAll [] (stagedMembers id (packageMembers env id remote w.fs)) w).2 := by
  rw [untar_eq hid hbare hname, World.unpack] at hzero ⊢
  split at hzero
  · exact absurd (show (1 : Int) = 0 from hzero) (by decide)
  · next hsome =>
    rw [if_neg hsome]
    refine ⟨?_, rfl⟩
    by_contra hfalse
    simp [hfalse] at hzero

variable (harchive : isArchive (packageFile id remote) = true)
include harchive

theorem updated_extracted (hzero : (updated env id remote w).1 = 0) :
    let start := unpacking env id remote w
    let found := stagedMembers id (packageMembers env id remote start.fs)
    (World.extractAll [] found start).1 = true ∧
      (updated env id remote w).2 = (World.extractAll [] found start).2 := by
  rw [updated_eq harchive] at hzero ⊢
  by_cases hrun : ((unpacking env id remote w).untar env (stageDir id) (packageFile id remote)).1 = 0
  · simpa [hrun] using untar_zero hid hbare hname hrun
  · simp [hrun] at hzero

theorem updated_published : (updated env id remote w).2.published =
      (unpacking env id remote w).published ∨
    (updated env id remote w).2.published = (unpacking env id remote w).published ++
      [.otaProgress id (utf8 "extract") 0 (utf8 "Extraction failed")] := by
  rw [updated_eq harchive]
  dsimp only
  split
  · right
    rw [World.report_published, untar_published hid hbare hname]
  · left
    exact untar_published hid hbare hname

theorem updated_quiet (fs : FileTree) (h : Host) :
    ¬ UpdateApplied id (updated env id remote (World.begin fs h)).2 := by
  have happly : utf8 "download" ≠ utf8 "apply" ∧ utf8 "prep" ≠ utf8 "apply" ∧
    utf8 "extract" ≠ utf8 "apply" := by decide
  have hbefore : (unpacking env id remote (World.begin fs h)).published = _ := unpacking_published
  rw [prepared_published] at hbefore
  have hafter : (updated env id remote (World.begin fs h)).2.published = _ ∨ _ :=
    updated_published hid hbare hname harchive
  rcases hafter with hp | hp <;>
  · rw [UpdateApplied, Succeeded, hp, hbefore]
    simp [World.begin, happly.1.symm, happly.2.1.symm, happly.2.2.symm]

end

theorem node_relaunched (hid : ProperName id) (hq : q ≠ metaPath id) :
    (relaunched env id remote w).2.fs.node q = (updated env id remote w).2.fs.node q := by
  rw [relaunched, World.node_call hid hq, World.report_fs, World.report_fs]

theorem relaunched_writes :
    (relaunched env id remote w).2.writes = (updated env id remote w).2.writes := by
  simp only [relaunched, World.call_writes, World.report_writes]

theorem applied_extracted {fs : FileTree} {h : Host} (hid : ProperName id) (hbare : Bare id)
    (hname : Bare (baseOnly remote)) (harchive : isArchive (packageFile id remote) = true)
    (happlied : UpdateApplied id (otaThread env id remote (World.begin fs h))) :
    (updated env id remote (World.begin fs h)).1 = 0 ∧ ∃ ok msg,
      otaThread env id remote (World.begin fs h) =
        (relaunched env id remote (World.begin fs h)).2.publish (.otaResult id ok msg) := by
  have hfailed : ∀ w₁ msg, UpdateApplied id (World.report w₁ id "failed" 0 msg) → UpdateApplied id w₁ := by
    have hne : utf8 "failed" ≠ utf8 "apply" := by decide
    intro w₁ msg happ
    simpa [UpdateApplied, Succeeded, hne.symm] using happ
  rcases otaThread_cases env id remote (World.begin fs h) with ⟨msg, heq⟩ | ⟨msg, heq⟩ | hdone
  · have happ := hfailed _ _ (heq ▸ happlied)
    have hne : utf8 "download" ≠ utf8 "apply" := by decide
    simp [UpdateApplied, Succeeded, pulled_published, World.begin, hne.symm] at happ
  · exact absurd (hfailed _ _ (heq ▸ happlied)) (updated_quiet hid hbare hname harchive fs h)
  · exact hdone

end QnxHypervisor.OtaUpdate
