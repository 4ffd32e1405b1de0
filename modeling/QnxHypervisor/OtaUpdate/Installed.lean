import QnxHypervisor.OtaUpdate.Transfers

/-! # What a job leaves in the guest directory

A job is tidy when all it has written below the guest directory comes whole from its
sources, and no file is new in the stage. One lemma per command line, then one per job.
-/

namespace QnxHypervisor.OtaUpdate

open Foundation GuestManager HmsStatus

variable {w w' w₁ w₂ w₃ : World} {env : JobEnv} {id n name remote path src c x ifs conf ip : Bytes}
  {p q : Path} {t t' : FileTree} {i attempt left : Nat} {paths names : List Bytes}
  {sources : List (Bytes × Bytes)}

theorem size_file (h : t.node q = some (.file c)) : t.size q = c.length := by
  rw [FileTree.size, h]

/-! ## Vouched files -/

/-- What has been written below the guest directory and is still there is one of these
files, under its name. The metadata file is not among it. -/
def Vouched (id : Bytes) (sources : List (Bytes × Bytes)) (w : World) : Prop :=
  ∀ p ∈ w.writes, guestPath id <+: p → p ≠ metaPath id ∧
    ∀ x, w.fs.node p = some (.file x) → ∃ name, p.getLast? = some name ∧ (name, x) ∈ sources

def StageKept (id : Bytes) (t t' : FileTree) : Prop :=
  ∀ n x, t'.node (stagePath id ++ [n]) = some (.file x) → t.node (stagePath id ++ [n]) = some (.file x)

structure Tidy (id : Bytes) (sources : List (Bytes × Bytes)) (w w' : World) : Prop where
  vouched : Vouched id sources w → Vouched id sources w'
  stage : StageKept id w.fs w'.fs

theorem vouched_begin (fs : FileTree) (host : Host) : Vouched id sources (World.begin fs host) :=
  fun p hp => by cases hp

theorem Vouched.quiet (h : Vouched id sources w)
    (hwrites : ∀ p ∈ w'.writes, p ∈ w.writes ∨ ¬ guestPath id <+: p)
    (hfile : ∀ p x, p ≠ metaPath id → w'.fs.node p = some (.file x) → guestPath id <+: p →
      w.fs.node p = some (.file x)) : Vouched id sources w' := by
  intro p hp hguest
  obtain ⟨hmeta, hvouched⟩ := h p ((hwrites p hp).resolve_right (not_not_intro hguest)) hguest
  exact ⟨hmeta, fun x hx => hvouched x (hfile p x hmeta hx hguest)⟩

theorem Vouched.put (h : Vouched id sources w) (hput : guestPath id <+: p → p ≠ metaPath id ∧
      ∃ name, p.getLast? = some name ∧ (name, c) ∈ sources) : Vouched id sources (w.put p c) := by
  intro q hq hguest
  rcases World.mem_writes_put.mp hq with hold | ⟨rfl, hwrite⟩
  · obtain ⟨hmeta, hvouched⟩ := h q hold hguest
    refine ⟨hmeta, fun x hx => ?_⟩
    rw [World.node_put] at hx
    split at hx
    · next hnew =>
      obtain rfl : c = x := by simpa using hx
      obtain ⟨rfl, -⟩ := hnew
      exact (hput hguest).2
    · exact hvouched x hx
  · refine ⟨(hput hguest).1, fun x hx => ?_⟩
    rw [World.node_put, if_pos ⟨rfl, hwrite⟩] at hx
    obtain rfl : c = x := by simpa using hx
    exact (hput hguest).2

theorem not_guest_job (g : Bytes) (rest : Path) : ¬ guestPath id <+: jobPath g ++ rest := by
  rintro ⟨more, heq⟩
  exact guest_ne_job id g more rest heq

namespace Tidy

theorem refl (w : World) : Tidy id sources w w := ⟨fun h => h, fun _ _ h => h⟩

theorem trans (h : Tidy id sources w₁ w₂) (h' : Tidy id sources w₂ w₃) : Tidy id sources w₁ w₃ :=
  ⟨fun hw => h'.vouched (h.vouched hw), fun n x hx => h.stage n x (h'.stage n x hx)⟩

theorem quiet (hwrites : ∀ p ∈ w'.writes, p ∈ w.writes ∨ ¬ guestPath id <+: p)
    (hfile : ∀ p x, p ≠ metaPath id → (guestPath id <+: p ∨ ∃ n, p = stagePath id ++ [n]) →
      w'.fs.node p = some (.file x) → w.fs.node p = some (.file x)) : Tidy id sources w w' :=
  ⟨fun h => h.quiet hwrites fun p x hp hx hguest => hfile p x hp (.inl hguest) hx,
    fun n x hx => hfile _ x (stage_ne_meta n) (.inr ⟨n, rfl⟩) hx⟩

theorem put (hguest : guestPath id <+: p → p ≠ metaPath id ∧
      ∃ name, p.getLast? = some name ∧ (name, c) ∈ sources)
    (hstage : ∀ n, stagePath id ++ [n] ≠ p) : Tidy id sources w (w.put p c) := by
  refine ⟨fun h => h.put hguest, fun n x hx => ?_⟩
  rwa [World.node_put, if_neg fun h => hstage n h.1] at hx

theorem publish (m : StatusMessage) : Tidy id sources w (w.publish m) :=
  quiet (fun _ => .inl) fun _ _ _ _ h => h

theorem report (stage : String) (progress : Int32) (msg : Bytes) :
    Tidy id sources w (w.report id stage progress msg) := publish _

theorem unlink : Tidy id sources w (w.unlink path) :=
  quiet (fun _ hp => .inl (World.unlink_writes ▸ hp)) fun _ _ _ _ h => unlink_some h

theorem call {f : Host → Int × Host} (hid : ProperName id) : Tidy id sources w (w.call id f).2 :=
  quiet (fun _ => .inl) fun p x hp _ h => by rwa [World.node_call hid hp] at h

theorem mkdirs (hpath : Bare path) : Tidy id sources w (w.mkdirs env path) := by
  refine quiet (fun p hp => .inl ?_) fun p x _ _ h => ?_
  · rwa [World.mkdirs_writes hpath] at hp
  · rw [World.mkdirs_fs hpath] at h
    split at h
    · exact FileTree.file_mkdirs.mp h
    · exact h

/-! ## Transfers and copies -/

theorem scp_job {sub : Bytes} (hid : ProperName id) (hsub : PlainName sub)
    (hother : sub ≠ utf8 "stage") (hquote : Quotable id) (hremote : Quotable remote) :
    Tidy id sources w (w.scp env i attempt remote (join (jobDir id sub) (baseOnly remote))) := by
  have hdst : Quotable (join (jobDir id sub) (baseOnly remote)) :=
    quotable_join.mpr ⟨quotable_jobDir.mpr ⟨hquote, hsub.quotable⟩, quotable_base hremote⟩
  rcases World.scp_cases hremote hdst with ⟨heq, -⟩ | ⟨c, k, hfile, -, heq⟩
  · rw [heq]
    exact refl w
  · have hname : ProperName (baseOnly remote) := env.server.named remote (by simp [hfile])
    have hplace : ∃ rest, target w.fs (resolve (join (jobDir id sub) (baseOnly remote)))
        (baseOnly remote) = jobPath id ++ sub :: rest := by
      rw [resolve_join_proper _ hname, resolve_jobDir hid hsub.proper]
      unfold target
      split
      · exact ⟨[baseOnly remote, baseOnly remote], by simp⟩
      · exact ⟨[baseOnly remote], by simp⟩
    obtain ⟨rest, hrest⟩ := hplace
    rw [heq, hrest]
    refine put (fun hguest => absurd hguest (not_guest_job _ _)) fun n hn => ?_
    simp [stagePath, jobPath, hother.symm] at hn

theorem put_guest (hname : name ≠ metaName) (hsource : (name, c) ∈ sources) :
    Tidy id sources w (w.put (copyTarget t id name) c) := by
  refine put (fun _ => ⟨(metaPath_ne_copyTarget hname).symm, name, ?_, hsource⟩)
    fun n => stage_ne_copyTarget n
  rcases copyTarget_eq t id name with h | h <;> simp [h]

theorem cp_guest (hid : PlainName id) (hsrc : Quotable src) (huncut : ∀ k, env.copied i ≠ .cut k)
    (hmeta : baseOnly src ≠ metaName)
    (hsource : ∀ c, regularAt w.fs src = some c → (baseOnly src, c) ∈ sources) :
    Tidy id sources w (w.cp env i src (join (guestDir id) (baseOnly src))).2 := by
  have hdst : Quotable (join (guestDir id) (baseOnly src)) :=
    quotable_guestFile hid.quotable (quotable_base hsrc)
  rcases World.cp_cases hsrc hdst with ⟨c, hc, -, -, heq⟩ | ⟨c, k, -, hcut, -⟩ | ⟨-, heq⟩
  · rw [heq, resolve_join_proper _ (regularAt_proper hc), resolve_guestDir hid.proper]
    exact put_guest hmeta (hsource c hc)
  · exact absurd hcut (huncut k)
  · rw [heq]
    exact refl w

theorem scp_guest (hid : PlainName id) (hremote : Quotable remote)
    (hwhole : ∀ c k, env.server.file remote = some c → env.stored i attempt = some k → c.length ≤ k)
    (hmeta : baseOnly remote ≠ metaName)
    (hsource : ∀ c, env.server.file remote = some c → (baseOnly remote, c) ∈ sources) :
    Tidy id sources w (w.scp env i attempt remote (join (guestDir id) (baseOnly remote))) := by
  have hdst : Quotable (join (guestDir id) (baseOnly remote)) :=
    quotable_guestFile hid.quotable (quotable_base hremote)
  rcases World.scp_cases hremote hdst with ⟨heq, -⟩ | ⟨c, k, hfile, hstored, heq⟩
  · rw [heq]
    exact refl w
  · have hname : ProperName (baseOnly remote) := env.server.named remote (by simp [hfile])
    rw [heq, resolve_join_proper _ hname, resolve_guestDir hid.proper,
      List.take_of_length_le (hwhole c k hfile hstored)]
    exact put_guest hmeta (hsource c hfile)

/-! ## apply -/

theorem copyStaged (hid : PlainName id) (hnames : ∀ name ∈ names, PlainName name)
    (hmeta : ∀ name ∈ names, name ≠ metaName) (huncut : ∀ i k, env.copied i ≠ .cut k)
    (hstaged : ∀ name x, w.fs.node (stagePath id ++ [name]) = some (.file x) → (name, x) ∈ sources)
    (count : Nat) : Tidy id sources w (OtaUpdate.copyStaged env id count i names w).2 := by
  induction names generalizing i w with
  | nil => exact refl w
  | cons name rest ih =>
      have hname := hnames name List.mem_cons_self
      have hsrc : Quotable (join (stageDir id) name) := quotable_stageFile hid.quotable hname.quotable
      have hbase : baseOnly (join (stageDir id) name) = name := baseOnly_join _ hname.proper.noSlash
      have hone : Tidy id sources w (copyOne env id i name w).2 := by
        have hcp : Tidy id sources w (w.cp env i (join (stageDir id) name)
            (join (guestDir id) (baseOnly (join (stageDir id) name)))).2 := by
          refine cp_guest hid hsrc (huncut i) ?_ fun c hc => ?_
          · rw [hbase]
            exact hmeta name List.mem_cons_self
          · rw [regularAt_join _ hname.proper, resolve_stageDir hid.proper, textAt_eq_some] at hc
            rw [hbase]
            exact hstaged name c hc
        rwa [hbase] at hcp
      rw [copyStaged_cons]
      split
      · exact hone.trans (report _ _ _)
      · refine (hone.trans (report _ _ _)).trans (ih (fun m hm => hnames m (List.mem_cons_of_mem _ hm))
          (fun m hm => hmeta m (List.mem_cons_of_mem _ hm)) fun m x hx => ?_)
        exact hstaged m x (hone.stage m x hx)

theorem unlinkStaged : Tidy id sources w (OtaUpdate.unlinkStaged id names w) := by
  unfold OtaUpdate.unlinkStaged
  induction names generalizing w with
  | nil => exact refl w
  | cons name rest ih => exact unlink.trans ih

theorem restartGuest {restart : Bool} (hid : ProperName id) :
    Tidy id sources w (OtaUpdate.restartGuest env id restart w) := by
  cases restart with
  | false => exact report _ _ _
  | true =>
      have hstart : Tidy id sources w ((w.report id "restart" 50 (utf8 "Guest stopped, starting now")).call
          id (otaStartCb env.start id)).2 := (report _ _ _).trans (call hid)
      exact hstart.trans (report "restart" 100 _)

theorem apply {restart : Bool} (hid : PlainName id)
    (hplain : ∀ name ∈ w.fs.children (stagePath id), PlainName name) (hlist : env.Lists w.fs id)
    (huncut : ∀ i k, env.copied i ≠ .cut k)
    (hstaged : ∀ name x, w.fs.node (stagePath id ++ [name]) = some (.file x) → (name, x) ∈ sources) :
    Tidy id sources w (applyThread env id restart w) := by
  rcases applyThread_cases env id restart w with ⟨⟨msg, heq⟩, -⟩ | ⟨names, hb, hcourse⟩
  · rw [heq]
    exact report _ _ _
  · have hn : Names env id names w.fs :=
      names_of_begins hid.proper (fun name hname => (hplain name hname).proper) hlist hb
    have hplain' : ∀ name ∈ names, PlainName name := fun name hname => hplain name (hn.staged name hname)
    have hstopped : Tidy id sources w (stopped env id w) := (report _ _ _).trans (call hid.proper)
    have hcopies : Tidy id sources w (copies env id names w).2 :=
      hstopped.trans (copyStaged hid hplain' (fun _ => hn.ne_meta) huncut
        (fun name x hx => hstaged name x (hstopped.stage name x hx)) _)
    rcases hcourse with ⟨-, heq⟩ | ⟨-, msg, heq⟩
    · rwa [heq]
    · rw [heq]
      exact ((hcopies.trans (restartGuest hid.proper)).trans unlinkStaged).trans (publish _)

end Tidy

/-! ## ota -/

theorem extract_file {dir : Path} {m : Member}
    (h : (World.extract dir w m).2.fs.node q = some (.file x)) :
    w.fs.node q = some (.file x) ∨ q = dir ++ m.path ∧ m.content ≠ none := by
  unfold World.extract at h
  cases hcontent : m.content with
  | none =>
      simp only [hcontent] at h
      exact .inl (FileTree.file_mkdirs.mp h)
  | some c =>
      simp only [hcontent] at h
      rw [World.node_put] at h
      split at h
      · next hnew => exact .inr ⟨hnew.1, by simp⟩
      · exact .inl (FileTree.file_mkdirs.mp h)

theorem extractAll_file {dir : Path} {members : List Member}
    (h : (World.extractAll dir members w).2.fs.node q = some (.file x)) :
    w.fs.node q = some (.file x) ∨ ∃ m ∈ members, q = dir ++ m.path ∧ m.content ≠ none := by
  induction members generalizing w with
  | nil => exact .inl h
  | cons m rest ih =>
      rcases ih h with hfirst | ⟨m', hm', hplace⟩
      · exact (extract_file hfirst).imp_right fun hplace => ⟨m, List.mem_cons_self, hplace⟩
      · exact .inr ⟨m', List.mem_cons_of_mem _ hm', hplace⟩

/-- What may lie at the package's place after the pull. -/
def PackageMayHold (env : JobEnv) (t : FileTree) (id remote c : Bytes) : Prop :=
  (∃ x k, env.server.file remote = some x ∧ env.stored 0 1 = some k ∧ c = x.take k) ∨
    t.node (packagePath id ++ [baseOnly remote]) = some (.file c)

def NoStageFile (env : JobEnv) (t : FileTree) (id remote : Bytes) : Prop :=
  ∀ c, PackageMayHold env t id remote c →
    ∀ m ∈ env.tar.members (tarOpt (packageFile id remote)) c, m.content ≠ none →
      ∀ n, m.path ≠ stagePath id ++ [n]

/-- When nothing new is stored, what lies at the package's place fails the size test, or
it is the remote file. -/
def LeftoverFails (env : JobEnv) (t : FileTree) (id remote : Bytes) : Prop :=
  env.server.file remote = none ∨ env.stored 0 1 = none →
    ∀ x, t.node (packagePath id ++ [baseOnly remote]) = some (.file x) →
      env.server.file remote = some x ∨
        World.landed (sizeAnswer env 0 remote) x.length = false

section
variable (hid : ProperName id) (hbare : Bare id) (hremote : Bare remote)
include hid hbare hremote

theorem pulled_tidy : Tidy id sources w (pulled env id remote w).2 := by
  rw [pulled]
  simp only [World.remoteSize_quotable hremote.quotable]
  exact (Tidy.report _ _ _).trans
    (Tidy.scp_job hid (by decide) (by decide) hbare.quotable hremote.quotable)

theorem pulled_file (hname : ProperName (baseOnly remote)) (hwhole : WholeOrSized env 0 1 remote)
    (hleft : LeftoverFails env w.fs id remote) (hok : (pulled env id remote w).1 = true)
    (h : (pulled env id remote w).2.fs.node (packagePath id ++ [baseOnly remote]) = some (.file c)) :
    env.server.file remote = some c := by
  have hplace : resolve (packageFile id remote) = packagePath id ++ [baseOnly remote] := by
    rw [packageFile, resolve_join_proper _ hname, resolve_packageDir hid]
  have hdst := packageFile_quotable hbare.quotable hremote.quotable
  rw [pulled] at hok h
  simp only [remoteSize_answer hremote.quotable] at hok h
  rw [← hplace] at h
  rcases pullFile_whole hremote hdst (by simp [hplace]) hwhole hok h with hnew | ⟨hold, hnothing⟩
  · exact hnew
  · refine (hleft hnothing c (hplace ▸ hold)).resolve_right fun hfail => ?_
    have hland : World.landed (sizeAnswer env 0 remote) c.length = true := by
      rw [← size_file h]
      exact landed_size sizeAnswer_ne_zero hok
    rw [hfail] at hland
    cases hland

theorem prepared_tidy : Tidy id sources w ((prepared env id remote w).mkdirs env (stageDir id)) := by
  have hprepared : Tidy id sources (pulled env id remote w).2 (prepared env id remote w) :=
    ((Tidy.report _ _ _).trans (Tidy.report _ _ _)).trans (Tidy.call hid)
  exact ((pulled_tidy hid hbare hremote).trans hprepared).trans
    (Tidy.mkdirs (bare_jobDir.mpr ⟨hbare, by decide⟩))

omit hremote in
theorem package_pulled
    (hc : regularAt ((prepared env id remote w).mkdirs env (stageDir id)).fs (packageFile id remote) = some c) :
    ProperName (baseOnly remote) ∧
      (pulled env id remote w).2.fs.node (packagePath id ++ [baseOnly remote]) = some (.file c) := by
  have hname : ProperName (baseOnly remote) := baseOnly_packageFile ▸ regularAt_proper hc
  rw [packageFile, regularAt_join _ hname, resolve_packageDir hid, textAt_eq_some] at hc
  have haway : packagePath id ++ [baseOnly remote] ∉ steps (stageDir id) := by
    rw [packagePath, List.append_assoc]
    exact sub_not_job hid (by decide) (by decide) _
  have hmetaPath : packagePath id ++ [baseOnly remote] ≠ metaPath id := fun heq => by
    rw [packagePath, List.append_assoc] at heq
    exact guest_ne_job _ _ _ _ heq.symm
  have hstage : Bare (stageDir id) := bare_jobDir.mpr ⟨hbare, by decide⟩
  rw [World.node_mkdirs_cmd hstage haway, prepared, World.node_call hid hmetaPath] at hc
  exact ⟨hname, hc⟩

theorem package_held
    (hc : regularAt ((prepared env id remote w).mkdirs env (stageDir id)).fs (packageFile id remote) = some c) :
    PackageMayHold env w.fs id remote c := by
  obtain ⟨-, hnode⟩ := package_pulled hid hbare hc
  have hpkg : Quotable (packageFile id remote) := packageFile_quotable hbare.quotable hremote.quotable
  simp only [pulled, World.pullFile, World.remoteSize_quotable hremote.quotable] at hnode
  rcases @World.scp_cases (w.report id "download" 0 (utf8 "Starting pull from server")) env _ _ 0 1
    hremote.quotable hpkg with ⟨heq, -⟩ | ⟨x, k, hfile, hstored, heq⟩
  · rw [heq] at hnode
    exact .inr hnode
  · rw [heq, World.node_put] at hnode
    split at hnode
    · exact .inl ⟨x, k, hfile, hstored, (Node.file.inj (Option.some.inj hnode)).symm⟩
    · exact .inr hnode

theorem untar_tidy (hname : Bare (baseOnly remote)) (hcareful : NoStageFile env w.fs id remote) :
    Tidy id sources (unpacking env id remote w)
      ((unpacking env id remote w).untar env (stageDir id) (packageFile id remote)).2 := by
  rw [untar_eq hid hbare hname, World.unpack]
  split
  · exact Tidy.refl _
  · refine Tidy.quiet (fun p hp => ?_) fun p x _ hp hx => ?_
    · refine (World.mem_writes_extractAll hp).imp_right ?_
      rintro ⟨m, hm, rfl⟩ hguest
      obtain ⟨rest, hrest⟩ := (mem_stagedMembers.mp hm).2
      rw [List.nil_append, ← hrest, stagePath, List.append_assoc] at hguest
      exact not_guest_job _ _ hguest
    · refine (extractAll_file hx).resolve_right ?_
      rintro ⟨m, hm, rfl, hcontent⟩
      obtain ⟨hmem, rest, hrest⟩ := mem_stagedMembers.mp hm
      rcases hp with hguest | ⟨n, hn⟩
      · rw [List.nil_append, ← hrest, stagePath, List.append_assoc] at hguest
        exact not_guest_job _ _ hguest
      · unfold packageMembers at hmem
        cases hc : regularAt (unpacking env id remote w).fs (packageFile id remote) with
        | none =>
            rw [hc] at hmem
            cases hmem
        | some c =>
            rw [hc] at hmem
            exact hcareful c (package_held hid hbare hremote hc) m hmem hcontent n hn

theorem updated_tidy (hcareful : if isArchive (packageFile id remote) then NoStageFile env w.fs id remote
      else baseOnly remote ≠ metaName ∧ (∀ k, env.copied 0 ≠ .cut k) ∧
        LeftoverFails env w.fs id remote)
    (hwhole : WholeOrSized env 0 1 remote) (hok : (pulled env id remote w).1 = true) :
    Tidy id (remoteFiles env.server [remote]) w (updated env id remote w).2 := by
  have hprepared : Tidy id (remoteFiles env.server [remote]) w
      ((prepared env id remote w).mkdirs env (stageDir id)) := prepared_tidy hid hbare hremote
  by_cases harchive : isArchive (packageFile id remote) = true
  · rw [if_pos harchive] at hcareful
    have hname : Bare (baseOnly remote) := bare_base hremote
    have huntar := @untar_tidy w env id remote (remoteFiles env.server [remote]) hid hbare hremote
      hname hcareful
    have hunpacking := hprepared.trans (Tidy.report "extract" 0 (utf8 "Extracting package"))
    rw [updated_eq harchive]
    dsimp only
    split
    · exact (hunpacking.trans huntar).trans (Tidy.report _ _ _)
    · exact hunpacking.trans huntar
  · rw [if_neg harchive] at hcareful
    obtain ⟨hmeta, huncut, hleft⟩ := hcareful
    rw [updated, otaApply, if_neg harchive]
    refine (hprepared.trans (Tidy.report _ _ _)).trans (Tidy.cp_guest ⟨hid, hbare.quotable⟩
      (packageFile_quotable hbare.quotable hremote.quotable) huncut ?_ fun c hc => ?_)
    · rwa [baseOnly_packageFile]
    · obtain ⟨hname, hpulled⟩ := package_pulled hid hbare hc
      rw [baseOnly_packageFile]
      exact mem_remoteFiles List.mem_cons_self
        (pulled_file hid hbare hremote hname hwhole hleft hok hpulled)

theorem ota_tidy (hcareful : if isArchive (packageFile id remote) then NoStageFile env w.fs id remote
      else baseOnly remote ≠ metaName ∧ (∀ k, env.copied 0 ≠ .cut k) ∧
        LeftoverFails env w.fs id remote)
    (hwhole : WholeOrSized env 0 1 remote) :
    Tidy id (remoteFiles env.server [remote]) w (otaThread env id remote w) := by
  rw [otaThread_eq]
  split
  · exact (pulled_tidy hid hbare hremote).trans (Tidy.report _ _ _)
  · next hok =>
    have hupdated := updated_tidy hid hbare hremote hcareful hwhole (not_not.mp hok)
    split
    · exact hupdated.trans (Tidy.report _ _ _)
    · have hrelaunched : Tidy id (remoteFiles env.server [remote]) (updated env id remote w).2
          (relaunched env id remote w).2 := ((Tidy.report _ _ _).trans (Tidy.report _ _ _)).trans
        (Tidy.call hid)
      exact (hupdated.trans hrelaunched).trans (Tidy.publish _)

end

/-! ## addfile -/

theorem control_ne_meta (h : isControlFile name = false) : name ≠ metaName := by
  rintro rfl
  exact absurd h (by decide)

section
variable (hid : ProperName id) (hbare : Bare id) (hremote : Bare remote)
include hid hbare hremote

theorem addPulled_tidy : Tidy id sources w (addPulled env id remote w).2 := by
  rw [addPulled]
  simp only [World.remoteSize_quotable hremote.quotable]
  exact ((Tidy.mkdirs (bare_jobDir.mpr ⟨hbare, by decide⟩)).trans Tidy.unlink).trans
    (Tidy.scp_job hid (by decide) (by decide) hbare.quotable hremote.quotable)

theorem addPulled_file (hname : ProperName (baseOnly remote)) (hwhole : WholeOrSized env 0 1 remote)
    (hok : (addPulled env id remote w).1 = true)
    (h : (addPulled env id remote w).2.fs.node (addfilePath id ++ [baseOnly remote]) = some (.file c)) :
    env.server.file remote = some c := by
  have hplace : resolve (addedFile id remote) = addfilePath id ++ [baseOnly remote] := by
    rw [addedFile, resolve_join_proper _ hname, resolve_addfileDir hid]
  have hdst : Quotable (addedFile id remote) := addedFile_quotable hbare.quotable hremote.quotable
  rw [addPulled] at hok h
  simp only [remoteSize_answer hremote.quotable] at hok h
  rw [← hplace] at h
  have hroot : resolve (addedFile id remote) ≠ [] := by simp [hplace]
  rcases pullFile_whole hremote hdst hroot hwhole hok h with hnew | ⟨hold, -⟩
  · exact hnew
  · exact absurd hold (unlink_no_file (by rwa [baseOnly_addedFile]) hroot)

theorem addfile_tidy (hwhole : WholeOrSized env 0 1 remote) (huncut : ∀ k, env.copied 0 ≠ .cut k) :
    Tidy id (remoteFiles env.server [remote]) w (addfileThread env id remote w) := by
  rcases addfileThread_cases env id remote w with ⟨-, m, heq⟩ | ⟨hcontrol, m, heq⟩
  · rw [heq]
    exact Tidy.publish _
  · have hpulled : Tidy id (remoteFiles env.server [remote]) w (addPulled env id remote w).2 :=
      addPulled_tidy hid hbare hremote
    have hbase : baseOnly (addedFile id remote) = baseOnly remote := baseOnly_addedFile
    have hsrc : Quotable (addedFile id remote) := addedFile_quotable hbare.quotable hremote.quotable
    rw [heq, addedOrNot]
    refine Tidy.trans ?_ (Tidy.publish _)
    split
    · next hok =>
      have hcopy : Tidy id (remoteFiles env.server [remote]) (addPulled env id remote w).2
          ((addPulled env id remote w).2.cp env 0 (addedFile id remote)
            (join (guestDir id) (baseOnly (addedFile id remote)))).2 := by
        refine Tidy.cp_guest ⟨hid, hbare.quotable⟩ hsrc huncut ?_ fun c hc => ?_
        · rw [hbase]
          exact control_ne_meta hcontrol
        · have hname : ProperName (baseOnly remote) := hbase ▸ regularAt_proper hc
          rw [addedFile, regularAt_join _ hname, resolve_addfileDir hid, textAt_eq_some] at hc
          rw [hbase]
          exact mem_remoteFiles List.mem_cons_self (addPulled_file hid hbare hremote hname hwhole hok hc)
      rw [hbase] at hcopy
      exact (hpulled.trans hcopy).trans Tidy.unlink
    · exact hpulled

end

/-! ## addguest -/

/-- The transfer stores the whole file or cannot open the local one. -/
def AllOrNothing (env : JobEnv) (i : Nat) (remote : Bytes) : Prop :=
  ∀ c k, env.server.file remote = some c → env.stored i 1 = some k → c.length ≤ k

theorem addguest_tidy (hid : ProperName id) (hbare : Bare id) (hconf : Bare conf) (hifs : Bare ifs)
    (hwholeConf : AllOrNothing env 0 conf) (hwholeIfs : AllOrNothing env 1 ifs) :
    Tidy id (remoteFiles env.server [ifs, conf]) w (addguestThread env id ifs conf ip w) := by
  rcases addguestThread_cases env id ifs conf ip w with ⟨-, m, heq⟩ |
    ⟨⟨-, -, hcontrolConf, hcontrolIfs⟩, m, heq⟩
  · rw [heq]
    exact Tidy.publish _
  · have hplain : PlainName id := ⟨hid, hbare.quotable⟩
    have hmade : Tidy id (remoteFiles env.server [ifs, conf]) w (w.mkdirs env (guestDir id)) :=
      Tidy.mkdirs (bare_guestDir.mpr hbare)
    have hfirst : Tidy id (remoteFiles env.server [ifs, conf]) w (confPulled env id conf w).2 := by
      rw [confPulled]
      simp only [World.remoteSize_quotable hconf.quotable]
      exact hmade.trans (Tidy.scp_guest hplain hconf.quotable hwholeConf (control_ne_meta hcontrolConf)
        fun c hc => mem_remoteFiles (by simp) hc)
    have hboth : Tidy id (remoteFiles env.server [ifs, conf]) w (guestPulled env id ifs conf w).2 := by
      rw [guestPulled]
      split
      · rw [ifsPulled]
        simp only [World.remoteSize_quotable hifs.quotable]
        exact hfirst.trans (Tidy.scp_guest hplain hifs.quotable hwholeIfs (control_ne_meta hcontrolIfs)
          fun c hc => mem_remoteFiles (by simp) hc)
      · exact hfirst
    have hip : Tidy id (remoteFiles env.server [ifs, conf]) (guestPulled env id ifs conf w).2
        (withIp env id ifs conf ip w) := by
      unfold withIp
      split
      · refine Tidy.quiet (fun _ => .inl) fun p x hp _ hx => ?_
        change (FileTree.write _ _ _).node p = _ at hx
        rwa [FileTree.node_write, resolve_metaFile hid, if_neg fun h => hp h.1] at hx
      · exact Tidy.refl _
    rw [heq]
    exact (hboth.trans hip).trans (Tidy.publish _)

/-! ## fetch -/

section
variable (hid : ProperName id) (hbare : Bare id)
include hid hbare

theorem fetchAttempts_vouched {size : Option Nat} (hremote : Bare remote) (h : Vouched id sources w) :
    Vouched id sources (fetchAttempts env id remote i size left w).2 := by
  induction left generalizing w with
  | zero => exact h
  | succ left ih =>
      have hretry : Vouched id sources (retrying id remote left w) := by
        unfold retrying
        split
        · exact ((Tidy.report _ _ _).trans Tidy.unlink).vouched h
        · exact h
      have hone : Vouched id sources (attempted env id remote i size left w).2 := by
        change Vouched id sources ((retrying id remote left w).scp env i (3 - left) remote
          (join (stageDir id) (baseOnly remote)))
        rcases @World.scp_cases (retrying id remote left w) env _ _ i (3 - left) hremote.quotable
          (quotable_staged hbare hremote.quotable) with ⟨heq, -⟩ | ⟨c, k, hfile, -, heq⟩
        · rwa [heq]
        · have hname : ProperName (baseOnly remote) := env.server.named remote (by simp [hfile])
          rw [heq, resolve_join_proper _ hname, resolve_stageDir hid, stagePath, List.append_assoc]
          refine hretry.put fun hguest => absurd hguest ?_
          unfold target
          split
          · rw [List.append_assoc]
            exact not_guest_job _ _
          · exact not_guest_job _ _
      rw [fetchAttempts_succ]
      split
      · exact hone
      · exact ih hone

theorem fetchFiles_vouched (hpaths : ∀ remote ∈ paths, Bare remote) (h : Vouched id sources w) :
    Vouched id sources (fetchFiles env id i paths w).2 := by
  induction paths generalizing w i with
  | nil => exact h
  | cons remote rest ih =>
      have hremote := hpaths remote List.mem_cons_self
      have hone : Vouched id sources (fetchOne env id i remote w).2 := by
        rw [fetchOne_eq hremote.quotable]
        exact fetchAttempts_vouched hid hbare hremote
          (((Tidy.report _ _ _).trans Tidy.unlink).vouched h)
      rw [fetchFiles_cons]
      split
      · exact (Tidy.report _ _ _).vouched h
      · split
        · exact (Tidy.report _ _ _).vouched hone
        · exact ih (fun m hm => hpaths m (List.mem_cons_of_mem _ hm)) ((Tidy.report _ _ _).vouched hone)

theorem fetch_vouched (hpaths : ∀ remote ∈ paths, Bare remote) (h : Vouched id sources w) :
    Vouched id sources (fetchThread env id paths w) := by
  have hmade : Vouched id sources (w.mkdirs env (stageDir id)) :=
    (Tidy.mkdirs (bare_jobDir.mpr ⟨hbare, by decide⟩)).vouched h
  have hfiles : Vouched id sources (fetchFiles env id 0 paths (w.mkdirs env (stageDir id))).2 :=
    fetchFiles_vouched hid hbare hpaths hmade
  unfold fetchThread
  dsimp only
  split
  · exact (Tidy.publish _).vouched hfiles
  · exact hfiles

end

end QnxHypervisor.OtaUpdate
