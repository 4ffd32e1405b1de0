import QnxHypervisor.OtaUpdate.Attempts

/-! # Jobs that keep to their places

Under its condition no run of a job writes anything out of place: one lemma per
command line, then one per job.
-/

namespace QnxHypervisor.OtaUpdate

open Foundation GuestManager HmsStatus

variable {w w' : World} {env : JobEnv} {id name remote src ifs conf ip : Bytes} {p q dir : Path}
  {t t' : FileTree} {i attempt : Nat}

theorem Contained.congr (h : w'.writes = w.writes) : Contained w' ↔ Contained w := by
  rw [Contained, h]
  rfl

/-! ## Directories that stay -/

/-- The second tree has the first one's directories below the guest's. -/
def SameGuest (t t' : FileTree) (id : Bytes) : Prop :=
  ∀ rest, t'.isDir (guestPath id ++ rest) = t.isDir (guestPath id ++ rest)

theorem SameGuest.target (h : SameGuest t t' id) : copyTarget t' id name = copyTarget t id name := by
  rw [copyTarget, OtaUpdate.target, h]
  rfl

theorem SameGuest.writable (h : SameGuest t t' id) :
    t'.Writable (copyTarget t id name) ↔ t.Writable (copyTarget t id name) := by
  rcases copyTarget_eq t id name with heq | heq
  · have hdir := h []
    rw [List.append_nil] at hdir
    rw [heq, FileTree.Writable, FileTree.Writable, List.dropLast_concat, hdir, h]
  · rw [heq, FileTree.Writable, FileTree.Writable, List.dropLast_concat, h, List.append_assoc, h]

theorem SameGuest.receives (h : SameGuest t t' id) : Receives t' id name ↔ Receives t id name := by
  rw [Receives, h.target, h.writable, h]
  rfl

theorem sameGuest_mkdirs {sub : Bytes} (hid : ProperName id) (hsub : ProperName sub)
    (hbare : Bare (jobDir id sub)) : SameGuest w.fs (w.mkdirs env (jobDir id sub)).fs id := fun rest =>
  isDir_congr (World.node_mkdirs_cmd hbare (guest_not_job hid hsub rest))

/-! ## Command lines -/

theorem scp_job {sub : Bytes} (hid : ProperName id) (hsub : PlainName sub) (hquote : Quotable id)
    (hremote : Quotable remote) (hw : Contained w) :
    Contained (w.scp env i attempt remote (join (jobDir id sub) (baseOnly remote))) := by
  intro p hp
  have hdst : Quotable (join (jobDir id sub) (baseOnly remote)) :=
    quotable_join.mpr ⟨quotable_jobDir.mpr ⟨hquote, hsub.quotable⟩, quotable_base hremote⟩
  rcases World.mem_writes_scp hremote hdst hp with hold | ⟨hname, rfl, -⟩
  · exact hw p hold
  · rw [resolve_join_proper _ hname, resolve_jobDir hid hsub.proper]
    unfold target
    split
    · rw [List.append_assoc, List.append_assoc]
      exact wellPlaced_job hid (by simp)
    · rw [List.append_assoc]
      exact wellPlaced_job hid (by simp)

theorem cp_guest (hid : PlainName id) (hsrc : Quotable src)
    (hrec : ∀ c, regularAt w.fs src = some c → Receives w.fs id (baseOnly src)) (hw : Contained w) :
    Contained (w.cp env i src (join (guestDir id) (baseOnly src))).2 := by
  intro p hp
  have hdst : Quotable (join (guestDir id) (baseOnly src)) :=
    quotable_guestFile hid.quotable (quotable_base hsrc)
  rcases World.mem_writes_cp hsrc hdst hp with hold | ⟨⟨c, hc⟩, heq, hwrite⟩
  · exact hw p hold
  · have hplace : p = copyTarget w.fs id (baseOnly src) := by
      rw [heq, resolve_join_proper _ (regularAt_proper hc), resolve_guestDir hid.proper]
      rfl
    rw [hplace] at hwrite ⊢
    exact (wellPlaced_copyTarget hid.proper).mpr (hrec c hc hwrite)

/-! ## ota -/

theorem packageFile_quotable (hquote : Quotable id) (hremote : Quotable remote) :
    Quotable (packageFile id remote) :=
  quotable_join.mpr ⟨quotable_jobDir.mpr ⟨hquote, by decide⟩, quotable_base hremote⟩

theorem baseOnly_packageFile : baseOnly (packageFile id remote) = baseOnly remote :=
  baseOnly_join _ (baseOnly_noSlash remote)

section
variable (hid : ProperName id) (hquote : Quotable id) (hremote : Quotable remote)
include hquote hremote

theorem isDir_pulled (q : Path) : (pulled env id remote w).2.fs.isDir q = w.fs.isDir q := by
  rw [pulled]
  simp only [World.remoteSize_quotable hremote]
  exact isDir_scp hremote (packageFile_quotable hquote hremote) q

theorem pulled_landable (hok : (pulled env id remote w).1 = true) :
    Landable w.fs (packageFile id remote) (baseOnly remote) := by
  rw [pulled] at hok
  simp only [World.remoteSize_quotable hremote] at hok
  exact landable_of_landed (w := w.report id "download" 0 (utf8 "Starting pull from server")) hremote
    (packageFile_quotable hquote hremote) World.remoteSize_ne_zero hok

include hid

theorem pulled_contained (hw : Contained w) : Contained (pulled env id remote w).2 := by
  rw [pulled]
  simp only [World.remoteSize_quotable hremote]
  exact scp_job (w := w.report id "download" 0 _) hid (by decide) hquote hremote hw

theorem sameGuest_updating (hbare : Bare id) :
    SameGuest w.fs ((prepared env id remote w).mkdirs env (stageDir id)).fs id := fun rest => by
  rw [stageDir, sameGuest_mkdirs hid (by decide) (bare_jobDir.mpr ⟨hbare, by decide⟩) rest]
  exact World.isDir_call.trans (isDir_pulled hquote hremote _)

theorem package_writable {c : Bytes} (hbare : Bare id) (hc : regularAt
      ((prepared env id remote w).mkdirs env (stageDir id)).fs (packageFile id remote) = some c) :
    w.fs.Writable (packagePath id ++ [baseOnly remote]) := by
  have hstage : Bare (stageDir id) := bare_jobDir.mpr ⟨hbare, by decide⟩
  have hname : ProperName (baseOnly remote) := baseOnly_packageFile ▸ regularAt_proper hc
  have hdirs : ∀ rest, ((prepared env id remote w).mkdirs env (stageDir id)).fs.isDir
      (packagePath id ++ rest) = w.fs.isDir (packagePath id ++ rest) := fun rest => by
    have haway : packagePath id ++ rest ∉ steps (stageDir id) := by
      rw [packagePath, List.append_assoc]
      exact sub_not_job hid (by decide) (by decide) rest
    rw [isDir_congr (World.node_mkdirs_cmd hstage haway)]
    exact World.isDir_call.trans (isDir_pulled hquote hremote _)
  rw [packageFile, regularAt_join _ hname, resolve_packageDir hid, textAt_eq_some] at hc
  have hwrite := writable_of_file hc (by simp)
  have hparent := hdirs []
  rw [List.append_nil] at hparent
  have hlast : (packagePath id ++ [baseOnly remote]).dropLast = packagePath id :=
    List.dropLast_concat
  rwa [FileTree.Writable, hlast, hdirs, hparent, ← hlast] at hwrite

theorem updated_contained (hbare : Bare id) (hrest : if isArchive (packageFile id remote) then
      Bare (baseOnly remote) else ProperName (baseOnly remote) →
        w.fs.Writable (packagePath id ++ [baseOnly remote]) → Receives w.fs id (baseOnly remote))
    (hw : Contained w) : Contained (updated env id remote w).2 := by
  have hstage : Bare (stageDir id) := bare_jobDir.mpr ⟨hbare, by decide⟩
  have hmade : Contained ((prepared env id remote w).mkdirs env (stageDir id)) :=
    (Contained.congr (World.mkdirs_writes hstage)).mpr (pulled_contained hid hquote hremote hw)
  by_cases harchive : isArchive (packageFile id remote) = true
  · have huntar : Contained ((unpacking env id remote w).untar env (stageDir id)
        (packageFile id remote)).2 := by
      rw [if_pos harchive] at hrest
      rw [untar_eq hid hbare hrest]
      intro p hp
      rcases World.mem_writes_unpack hp with hold | ⟨rest, rfl⟩
      · exact hmade p hold
      · rw [stagePath, List.append_assoc]
        exact wellPlaced_job hid (by simp)
    rw [updated_eq harchive]
    dsimp only
    split <;> exact huntar
  · rw [if_neg harchive] at hrest
    rw [updated, otaApply, if_neg harchive]
    refine cp_guest ⟨hid, hquote⟩ (packageFile_quotable hquote hremote) (fun c hc => ?_) hmade
    rw [baseOnly_packageFile]
    have hname : ProperName (baseOnly remote) := baseOnly_packageFile ▸ regularAt_proper hc
    exact (sameGuest_updating hid hquote hremote hbare).receives.mpr
      (hrest hname (package_writable hid hquote hremote hbare hc))

end

theorem ota_contained (hid : ProperName id) (hsafe : otaSafe w.fs id remote) (hw : Contained w) :
    Contained (otaThread env id remote w) := by
  obtain ⟨hremote, hquote, hnext⟩ := hsafe
  rw [otaThread_eq]
  split
  · exact pulled_contained hid hquote hremote hw
  · next hok =>
    have hland := pulled_landable hquote hremote (not_not.mp hok)
    have hupdated : Contained (updated env id remote w).2 :=
      updated_contained hid hquote hremote (hnext hland).1 (hnext hland).2 hw
    split
    · exact hupdated
    · have hrelaunched : Contained (relaunched env id remote w).2 :=
        (Contained.congr relaunched_writes).mpr hupdated
      exact hrelaunched

/-! ## fetch -/

section
variable (hid : PlainName id)
include hid

theorem fetchAttempts_contained {size : Option Nat} (left : Nat) (hremote : Quotable remote)
    (hw : Contained w) : Contained (fetchAttempts env id remote i size left w).2 := by
  have hstage : PlainName (utf8 "stage") := by decide
  induction left generalizing w with
  | zero => exact hw
  | succ left ih =>
      have hone : Contained (attempted env id remote i size left w).2 :=
        scp_job hid.proper hstage hid.quotable hremote ((Contained.congr retrying_writes).mpr hw)
      rw [fetchAttempts_succ]
      split
      · exact hone
      · exact ih hone

end

theorem fetchFiles_contained {paths : List Bytes} (hid : ProperName id) (hbare : Bare id)
    (hpaths : pathsSafe w.fs id (w.fs.children (stagePath id) ≠ []) paths) (hw : Contained w) :
    Contained (fetchFiles env id i paths w).2 := by
  induction paths generalizing w i with
  | nil => exact hw
  | cons remote rest ih =>
      obtain ⟨hremote, hnext⟩ := hpaths
      have hfile : Contained (fetchOne env id i remote w).2 := by
        rw [fetchOne_eq hremote]
        exact fetchAttempts_contained ⟨hid, hbare.quotable⟩ 3 hremote
          ((Contained.congr World.unlink_writes).mpr hw)
      rw [fetchFiles_cons]
      split
      · exact hw
      · split
        · exact hfile
        · next hok =>
          have hthrough := fetchOne_through hid hbare hremote (not_not.mp hok)
          refine ih (w := (fetchOne env id i remote w).2.report id "download" 100 _) ?_ hfile
          change pathsSafe (fetchOne env id i remote w).2.fs id _ rest
          rw [pathsSafe_congr hid hthrough.alike, World.report_fs, hthrough.filled]
          exact hnext hthrough.fetchable

theorem fetch_contained {paths : List Bytes} (hid : ProperName id) (hsafe : fetchSafe w.fs id paths)
    (hw : Contained w) : Contained (fetchThread env id paths w) := by
  have hstage : Bare (stageDir id) := bare_jobDir.mpr ⟨hsafe.1, by decide⟩
  have hmade : Contained (w.mkdirs env (stageDir id)) :=
    (Contained.congr (World.mkdirs_writes hstage)).mpr hw
  refine (Contained.congr fetchThread_writes).mpr (fetchFiles_contained hid hsafe.1 ?_ hmade)
  rw [World.mkdirs_fs hstage]
  split
  · exact hsafe.2
  · exact pathsSafe_made hid hsafe.2

/-! ## apply -/

theorem copyStaged_contained {names : List Bytes} {n : Nat} (hid : PlainName id)
    (hnames : ∀ name ∈ names, PlainName name) (hdirs : ∀ q, w.fs.isDir q = t.isDir q)
    (hstaged : ∀ name ∈ names, w.fs.node (stagePath id ++ [name]) = t.node (stagePath id ++ [name]))
    (hrec : ∀ name ∈ names, (∃ c, t.node (stagePath id ++ [name]) = some (.file c)) → Receives t id name)
    (hw : Contained w) : Contained (copyStaged env id n i names w).2 := by
  induction names generalizing i w with
  | nil => exact hw
  | cons name rest ih =>
      have hname := hnames name List.mem_cons_self
      have hsrc : Quotable (join (stageDir id) name) := quotable_stageFile hid.quotable hname.quotable
      have hbase : baseOnly (join (stageDir id) name) = name := baseOnly_join _ hname.proper.noSlash
      have hone : Contained (copyOne env id i name w).2 := by
        have hcp : Contained (w.cp env i (join (stageDir id) name)
            (join (guestDir id) (baseOnly (join (stageDir id) name)))).2 := by
          refine cp_guest hid hsrc (fun c hc => ?_) hw
          rw [regularAt_join _ hname.proper, resolve_stageDir hid.proper, textAt_eq_some,
            hstaged name List.mem_cons_self] at hc
          rw [hbase]
          exact (SameGuest.receives fun _ => hdirs _).mpr (hrec name List.mem_cons_self ⟨c, hc⟩)
        rwa [hbase] at hcp
      rw [copyStaged_cons]
      split
      · exact hone
      · refine ih (fun m hm => hnames m (List.mem_cons_of_mem _ hm))
          (fun q => (isDir_copyOne hid hname q).trans (hdirs q)) (fun m hm => ?_)
          (fun m hm => hrec m (List.mem_cons_of_mem _ hm)) hone
        exact (node_copyOne_ne hid hname (stage_ne_copyTarget m)).trans
          (hstaged m (List.mem_cons_of_mem _ hm))

theorem control_beyond_table {names : List Bytes} (hid : ProperName id) (hlist : env.Lists t id)
    (hread : readStaged maxFiles env.listing = .ok names)
    (hcontrol : ∃ name ∈ t.children (stagePath id), isControlFile name = true) :
    maxFiles ≤ ((t.children (stagePath id)).filter fun name => !isControlFile name).length := by
  obtain ⟨htake, hplain⟩ := readStaged_ok hread
  rw [JobEnv.Lists, resolve_stageDir hid] at hlist
  obtain ⟨name, hname, hc⟩ := hcontrol
  generalize env.listing.filter (fun name => name ≠ utf8 "." ∧ name ≠ utf8 "..") = listing at *
  -- the control file is not among the names, so they fill the table
  have hfull : names.length = maxFiles := by
    rw [htake, List.length_take, min_eq_left_iff]
    by_contra hshort
    rw [List.take_of_length_le (by omega)] at htake
    have hmem := hplain name (htake ▸ hlist.mem_iff.mpr hname)
    rw [hc] at hmem
    cases hmem
  have hsub : names.Subperm ((t.children (stagePath id)).filter fun name => !isControlFile name) := by
    have hfilter : names.filter (fun name => !isControlFile name) = names :=
      List.filter_eq_self.mpr fun m hm => by simp [hplain m hm]
    rw [← hfilter]
    exact (((htake ▸ List.take_sublist _ _).subperm).trans hlist.subperm).filter _
  exact hfull ▸ hsub.length_le

theorem apply_contained {restart : Bool} (hid : ProperName id)
    (hproper : ∀ name ∈ w.fs.children (stagePath id), ProperName name) (hlist : env.Lists w.fs id)
    (hsafe : applySafe w.fs id) (hw : Contained w) : Contained (applyThread env id restart w) := by
  rcases applyThread_cases env id restart w with ⟨⟨msg, heq⟩, -⟩ | ⟨names, hb, hcourse⟩
  · rw [heq]
    exact hw
  · obtain ⟨htake, hcontrol⟩ := readStaged_ok hb.read
    have hstaged : ∀ name ∈ names, name ∈ w.fs.children (stagePath id) := fun name hname => by
      rw [JobEnv.Lists, resolve_stageDir hid] at hlist
      exact hlist.mem_iff.mp (List.mem_of_mem_take (htake ▸ hname))
    have hall := hsafe.resolve_left fun hfew =>
      absurd (control_beyond_table hid hlist hb.read hfew.1) (by omega)
    obtain ⟨first, hfirst⟩ := List.exists_mem_of_ne_nil names hb.some
    have hplain : PlainName id := ⟨hid, (hall first (hstaged first hfirst) (hcontrol first hfirst)).1⟩
    have hnames : ∀ name ∈ names, PlainName name := fun name hname =>
      ⟨hproper name (hstaged name hname), (hall name (hstaged name hname) (hcontrol name hname)).2.1⟩
    have hcopies : Contained (copies env id names w).2 :=
      copyStaged_contained (t := w.fs) hplain hnames (fun _ => World.isDir_call)
        (fun name _ => World.node_call hid (stage_ne_meta name))
        (fun name hname => (hall name (hstaged name hname) (hcontrol name hname)).2.2) hw
    rcases hcourse with ⟨-, heq⟩ | ⟨-, msg, heq⟩
    · rw [heq]
      exact hcopies
    · rw [heq]
      refine (Contained.congr ?_).mpr hcopies
      rw [World.publish_writes, finished, unlinkStaged_writes, restartGuest_writes]

/-! ## addfile -/

/-- The tree in which the transfer begins. -/
def clearedFor (t : FileTree) (id name : Bytes) : FileTree := t.remove (addfilePath id ++ [name])

section
variable (hid : ProperName id) (hbare : Bare id) (hremote : Quotable remote)
include hid hbare hremote

theorem addPulled_contained (hw : Contained w) : Contained (addPulled env id remote w).2 := by
  have hadd : PlainName (utf8 "addfile") := by decide
  rw [addPulled]
  simp only [World.remoteSize_quotable hremote]
  have hmade : Contained (w.mkdirs env (addfileDir id)) :=
    (Contained.congr (World.mkdirs_writes (bare_jobDir.mpr ⟨hbare, by decide⟩))).mpr hw
  exact scp_job (w := (w.mkdirs env (addfileDir id)).unlink _) hid hadd hbare.quotable hremote
    ((Contained.congr World.unlink_writes).mpr hmade)

theorem isDir_addPulled (hname : ProperName (baseOnly remote)) (q : Path) :
    (addPulled env id remote w).2.fs.isDir q =
      (clearedFor (w.mkdirs env (addfileDir id)).fs id (baseOnly remote)).isDir q := by
  have hdst : Quotable (addedFile id remote) := addedFile_quotable hbare.quotable hremote
  rw [addPulled]
  simp only [World.remoteSize_quotable hremote]
  have hbase : ProperName (baseOnly (addedFile id remote)) := by rwa [baseOnly_addedFile]
  rw [World.pullFile, isDir_scp hremote hdst, World.unlink_fs hbase, addedFile,
    resolve_join_proper _ hname, resolve_addfileDir hid]
  rfl

theorem sameGuest_addPulled (hname : ProperName (baseOnly remote)) :
    SameGuest w.fs (addPulled env id remote w).2.fs id := fun rest => by
  have hadd : ProperName (utf8 "addfile") := by decide
  have haway : guestPath id ++ rest ≠ addfilePath id ++ [baseOnly remote] := by
    rw [addfilePath, List.append_assoc]
    exact guest_ne_job id id rest _
  rw [isDir_addPulled hid hbare hremote hname, clearedFor, FileTree.isDir_remove_ne _ haway]
  exact sameGuest_mkdirs hid hadd (bare_jobDir.mpr ⟨hbare, by decide⟩) rest

theorem addfile_ready (hname : ProperName (baseOnly remote)) {c : Bytes}
    (hc : (addPulled env id remote w).2.fs.node (addfilePath id ++ [baseOnly remote]) = some (.file c)) :
    AddfileReady w.fs id (baseOnly remote) := by
  have hwords : Bare (addfileDir id) := bare_jobDir.mpr ⟨hbare, by decide⟩
  have hadd : ProperName (utf8 "addfile") := by decide
  have hne : addfilePath id ≠ addfilePath id ++ [baseOnly remote] := by simp
  obtain ⟨-, hparent, hnot⟩ := writable_of_file hc (by simp)
  rw [List.dropLast_concat, isDir_addPulled hid hbare hremote hname, clearedFor,
    FileTree.isDir_remove_ne _ hne, World.mkdirs_fs hwords] at hparent
  refine ⟨?_, fun hdir => ?_⟩
  · split at hparent
    · exact hparent
    · exact FileTree.isDir_mkdirs hparent
  · -- a directory with entries would still be there
    by_contra hfull
    obtain ⟨n, hn⟩ := List.exists_mem_of_ne_nil _ hfull
    have hmade : (w.mkdirs env (addfileDir id)).fs.children (addfilePath id ++ [baseOnly remote]) ≠ [] := by
      have hentry : (w.mkdirs env (addfileDir id)).fs.node (addfilePath id ++ [baseOnly remote] ++ [n]) ≠
          none := by
        rw [addfilePath, List.append_assoc, List.append_assoc, World.node_mkdirs_cmd hwords]
        · rw [← List.append_assoc, ← List.append_assoc]
          exact FileTree.mem_children.mp hn
        · rw [addfileDir, steps_jobDir hid hadd]
          simp [jobPath]
      exact List.ne_nil_of_mem (FileTree.mem_children.mpr hentry)
    have haway : addfilePath id ++ [baseOnly remote] ∉ steps (addfileDir id) :=
      entry_not_job hid hadd _
    rw [isDir_addPulled hid hbare hremote hname, clearedFor, FileTree.remove, dif_neg hmade,
      isDir_congr (World.node_mkdirs_cmd hwords haway), hdir] at hnot
    cases hnot

end

theorem addfile_contained (hid : ProperName id) (hsafe : addfileSafe w.fs id remote) (hw : Contained w) :
    Contained (addfileThread env id remote w) := by
  rcases addfileThread_cases env id remote w with ⟨-, m, heq⟩ | ⟨hcontrol, m, heq⟩
  · rw [heq]
    exact hw
  · have hnot : ¬ isControlFile (baseOnly remote) = true := by simp [hcontrol]
    obtain ⟨hbare, hremote, hplace⟩ := hsafe.resolve_left hnot
    have hpulled : Contained (addPulled env id remote w).2 := addPulled_contained hid hbare hremote hw
    have hsrc : Quotable (addedFile id remote) := addedFile_quotable hbare.quotable hremote
    have hbase : baseOnly (addedFile id remote) = baseOnly remote := baseOnly_addedFile
    have hcopy : Contained (added env id remote w).2 := by
      have hcp : Contained ((addPulled env id remote w).2.cp env 0 (addedFile id remote)
          (join (guestDir id) (baseOnly (addedFile id remote)))).2 := by
        refine cp_guest ⟨hid, hbare.quotable⟩ hsrc (fun c hc => ?_) hpulled
        have hname : ProperName (baseOnly remote) := hbase ▸ regularAt_proper hc
        rw [addedFile, regularAt_join _ hname, resolve_addfileDir hid, textAt_eq_some] at hc
        rw [hbase]
        exact (sameGuest_addPulled hid hbare hremote hname).receives.mpr
          (hplace hname (addfile_ready hid hbare hremote hname hc))
      rwa [hbase] at hcp
    rw [heq, addedOrNot]
    split
    · exact (Contained.congr World.unlink_writes).mpr hcopy
    · exact hpulled

/-! ## addguest -/

theorem wellPlaced_concat (hname : ProperName name) (hcontrol : isControlFile name = false) :
    WellPlaced (dir ++ [name]) ↔ dir = [utf8 "guests"] ∨ (∃ g, ProperName g ∧ dir = guestPath g) ∨
      ∃ g rest, ProperName g ∧ dir = jobPath g ++ rest := by
  constructor
  · rintro ⟨-, g, hg, heq | ⟨n, heq⟩ | ⟨rest, hne, heq⟩⟩
    · have hguests : dir ++ [name] = [utf8 "guests"] ++ [g] := heq
      exact .inl (List.append_inj' hguests rfl).1
    · exact .inr (.inl ⟨g, hg, (List.append_inj' heq rfl).1⟩)
    · rw [← List.dropLast_concat_getLast hne, ← List.append_assoc] at heq
      exact .inr (.inr ⟨g, rest.dropLast, hg, (List.append_inj' heq rfl).1⟩)
  · intro hdir
    refine ⟨fun g n _ heq => ?_, ?_⟩
    · have hlast : name = n := by simpa using (List.append_inj' heq rfl).2
      exact hlast ▸ hcontrol
    · rcases hdir with rfl | ⟨g, hg, rfl⟩ | ⟨g, rest, hg, rfl⟩
      · exact ⟨name, hname, .inl rfl⟩
      · exact ⟨g, hg, .inr (.inl ⟨name, rfl⟩)⟩
      · exact ⟨g, hg, .inr (.inr ⟨rest ++ [name], by simp, by rw [List.append_assoc]⟩)⟩

theorem wellPlaced_target (hname : ProperName name) (hcontrol : isControlFile name = false)
    (hdir : dir ≠ []) : WellPlaced (target t (dir ++ [name]) name) ↔ Roomy t dir name := by
  unfold target Roomy
  split
  · rw [wellPlaced_concat hname hcontrol]
    constructor
    · rintro (heq | ⟨g, -, heq⟩ | ⟨g, rest, hg, heq⟩)
      · have hroot : [] ++ dir ++ [name] = [] ++ [utf8 "guests"] := heq
        exact absurd (List.append_inj' hroot rfl).1 hdir
      · have hguests : dir ++ [name] = [utf8 "guests"] ++ [g] := heq
        exact .inr (.inl (List.append_inj' hguests rfl).1)
      · by_cases hne : rest = []
        · have htmp : dir ++ [name] = [utf8 "tmp", utf8 "ota"] ++ [g] := by
            rw [heq, hne]
            rfl
          exact .inr (.inr (List.append_inj' htmp rfl).1)
        · rw [← List.dropLast_concat_getLast hne, ← List.append_assoc] at heq
          exact .inl ⟨g, rest.dropLast, hg, (List.append_inj' heq rfl).1⟩
    · rintro (⟨g, rest, hg, rfl⟩ | rfl | rfl)
      · exact .inr (.inr ⟨g, rest ++ [name], hg, by rw [List.append_assoc]⟩)
      · exact .inr (.inl ⟨name, hname, rfl⟩)
      · exact .inr (.inr ⟨name, [], hname, rfl⟩)
  · rw [wellPlaced_concat hname hcontrol]
    constructor
    · rintro (heq | hguest | hjob)
      · exact .inr (.inl heq)
      · exact .inr (.inr hguest)
      · exact .inl hjob
    · rintro (hjob | heq | hguest)
      · exact .inr (.inr hjob)
      · exact .inl heq
      · exact .inr (.inl hguest)

theorem scp_roomy {dirText : Bytes} (hremote : Quotable remote) (hdirText : Quotable dirText)
    (hcontrol : isControlFile (baseOnly remote) = false) (hroot : resolve dirText ≠ [])
    (htakes : Takes w.fs (resolve dirText) remote) (hw : Contained w) :
    Contained (w.scp env i attempt remote (join dirText (baseOnly remote))) := by
  intro p hp
  have hdst : Quotable (join dirText (baseOnly remote)) :=
    quotable_join.mpr ⟨hdirText, quotable_base hremote⟩
  rcases World.mem_writes_scp hremote hdst hp with hold | ⟨hname, rfl, hwrite⟩
  · exact hw p hold
  · rw [resolve_join_proper _ hname] at hwrite ⊢
    exact (wellPlaced_target hname hcontrol hroot).mpr (htakes hname hwrite)

theorem Takes.congr (h : ∀ q, t'.isDir q = t.isDir q) : Takes t' dir remote ↔ Takes t dir remote := by
  rw [Takes, Takes, target, target, Roomy, Roomy, h, writable_congr h]

section
variable (hbare : Bare id) (hdir : w.fs.isDir (resolve (guestDir id)) = false)
include hbare hdir

theorem takes_made (h : Takes (w.fs.mkdirs (steps (guestDir id))) (resolve (guestDir id)) remote) :
    Takes (w.mkdirs env (guestDir id)).fs (resolve (guestDir id)) remote := by
  rw [World.mkdirs_fs (bare_guestDir.mpr hbare)]
  split
  · exact h
  · exact fun _ hwrite => absurd hwrite (not_writable_target hdir)

theorem landable_made
    (hslash : slash ∉ name) (h : Landable (w.mkdirs env (guestDir id)).fs (join (guestDir id) name) name) :
    Landable (w.fs.mkdirs (steps (guestDir id))) (join (guestDir id) name) name := by
  rw [World.mkdirs_fs (bare_guestDir.mpr hbare)] at h
  split at h
  · exact h
  · rcases h with ⟨hname, hwrite⟩ | hsize
    · have hparent := hwrite.2.1
      rw [resolve_join_proper _ hname, List.dropLast_concat, hdir] at hparent
      cases hparent
    · -- without the directory there is nothing to measure
      have hparent := (statSize_pos hsize).1
      rw [resolve_dirPart _ hslash, hdir] at hparent
      cases hparent

end

theorem addguest_contained (hsafe : addguestSafe w.fs id ifs conf) (hw : Contained w) :
    Contained (addguestThread env id ifs conf ip w) := by
  rcases addguestThread_cases env id ifs conf ip w with ⟨-, m, heq⟩ |
    ⟨⟨hdir, hnode, hconf, hifs⟩, m, heq⟩
  · rw [heq]
    exact hw
  · obtain ⟨hbare, hquote, htakes, hnext⟩ : Bare id ∧ Quotable conf ∧ _ ∧ _ := by
      simpa [addguestSafe, hdir, hnode, hconf, hifs] using hsafe
    have hroot : resolve (guestDir id) ≠ [] := by
      intro hnil
      rw [hnil, FileTree.isDir_iff.mpr (.inl rfl)] at hdir
      cases hdir
    have hwords : Bare (guestDir id) := bare_guestDir.mpr hbare
    have hmade : Contained (w.mkdirs env (guestDir id)) :=
      (Contained.congr (World.mkdirs_writes hwords)).mpr hw
    have hdst : Quotable (join (guestDir id) (baseOnly conf)) :=
      quotable_join.mpr ⟨hwords.quotable, quotable_base hquote⟩
    have hfirst : Contained (confPulled env id conf w).2 := by
      rw [confPulled]
      simp only [World.remoteSize_quotable hquote]
      exact scp_roomy hquote hwords.quotable hconf hroot (takes_made hbare hdir htakes) hmade
    have hdirs : ∀ q, (confPulled env id conf w).2.fs.isDir q = (w.mkdirs env (guestDir id)).fs.isDir q := by
      rw [confPulled]
      simp only [World.remoteSize_quotable hquote]
      exact isDir_scp hquote hdst
    rw [heq]
    refine (Contained.congr withIp_writes).mpr ?_
    unfold guestPulled
    split
    · next hok =>
      have hland : Landable (w.mkdirs env (guestDir id)).fs
          (join (guestDir id) (baseOnly conf)) (baseOnly conf) := by
        rw [confPulled] at hok
        simp only [World.remoteSize_quotable hquote] at hok
        exact landable_of_landed hquote hdst World.remoteSize_ne_zero hok
      obtain ⟨hquoteIfs, htakesIfs⟩ := hnext (landable_made hbare hdir (baseOnly_noSlash conf) hland)
      rw [ifsPulled]
      simp only [World.remoteSize_quotable hquoteIfs]
      exact scp_roomy hquoteIfs hwords.quotable hifs hroot
        ((Takes.congr hdirs).mpr (takes_made hbare hdir htakesIfs)) hfirst
    · exact hfirst

end QnxHypervisor.OtaUpdate
