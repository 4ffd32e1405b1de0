import QnxHypervisor.OtaUpdate.Transfers

/-! # What an archive update installs

A job that reports an archive as applied has extracted the members of the stage's name and
nothing else. So the guest directory is what stopping and starting the guest make of it:
the condition under which it holds the payload all the same, and nothing stays behind.
-/

namespace QnxHypervisor.OtaUpdate

open Foundation GuestManager HmsStatus

variable {w w' : World} {env : JobEnv} {id remote : Bytes} {p q : Path} {m : Member}
  {members : List Member} {f : Host → Int × Host}

/-! ## Calls and the guest directory -/

/-- Hosts that differ in other guests' metadata files at most. -/
def HostAlike (id : Bytes) (h h' : Host) : Prop :=
  ∃ metas, metas id = h.metas id ∧ h' = { h with metas }

namespace HostAlike

variable {h h' : Host} {g : Guest}

theorem setGuest (hh : HostAlike id h h') (f : Guest → Guest) :
    HostAlike id (h.setGuest id f) (h'.setGuest id f) := by
  obtain ⟨metas, hsame, rfl⟩ := hh
  exact ⟨metas, hsame, rfl⟩

theorem metaSet (hh : HostAlike id h h') (store : MetaEnv) (key val : Bytes) :
    HostAlike id (h.setMeta id (GuestManager.metaSet store key val (h.metas id)))
      (h'.setMeta id (GuestManager.metaSet store key val (h'.metas id))) := by
  obtain ⟨metas, hsame, rfl⟩ := hh
  refine ⟨Function.update metas id (GuestManager.metaSet store key val (metas id)), ?_, rfl⟩
  simp [Host.setMeta, hsame]

theorem guestKill (hh : HostAlike id h h') (hid : g.id.bytes = id) (store : MetaEnv) :
    HostAlike id (GuestManager.guestKill store g h).2 (GuestManager.guestKill store g h').2 := by
  subst hid
  obtain ⟨metas, hsame, rfl⟩ := hh
  unfold GuestManager.guestKill
  split
  · exact ⟨metas, hsame, rfl⟩
  · cases h.procs g.pid with
    | none => exact ⟨metas, hsame, rfl⟩
    | some proc =>
        have hkilled : HostAlike g.id.bytes
            { h.exit g.pid with killed := h.killed ++ [⟨g.id.bytes, proc⟩] }
            { h.exit g.pid with metas, killed := h.killed ++ [⟨g.id.bytes, proc⟩] } :=
          ⟨metas, hsame, rfl⟩
        exact hkilled.metaSet store pidKey (utf8 "0")

theorem noteStarted (hh : HostAlike id h h') :
    HostAlike id (GuestManager.noteStarted g h) (GuestManager.noteStarted g h') := by
  obtain ⟨metas, hsame, rfl⟩ := hh
  exact ⟨metas, hsame, rfl⟩

theorem exit (hh : HostAlike id h h') (p : Int32) : HostAlike id (h.exit p) (h'.exit p) := by
  obtain ⟨metas, hsame, rfl⟩ := hh
  exact ⟨metas, hsame, rfl⟩

theorem guestStart (hh : HostAlike id h h') (hid : g.id.bytes = id) (start : StartEnv) :
    (GuestManager.guestStart start g h').1 = (GuestManager.guestStart start g h).1 ∧
      HostAlike id (GuestManager.guestStart start g h).2 (GuestManager.guestStart start g h').2 := by
  subst hid
  unfold GuestManager.guestStart
  split
  · exact ⟨rfl, hh.noteStarted⟩
  · split
    · exact ⟨rfl, hh⟩
    · cases start.pid with
      | none => exact ⟨rfl, hh⟩
      | some p =>
          have hspawned : HostAlike g.id.bytes
              (h.spawn p ⟨qvmCmdline g.confPath.bytes, some g.id.bytes⟩)
              (h'.spawn p ⟨qvmCmdline g.confPath.bytes, some g.id.bytes⟩) := by
            obtain ⟨metas, hsame, rfl⟩ := hh
            exact ⟨metas, hsame, rfl⟩
          have hlaunched := hspawned.metaSet start.store pidKey (decimalInt p.toInt)
          dsimp only
          split
          · exact ⟨rfl, hlaunched.noteStarted⟩
          · exact ⟨rfl, hlaunched.exit p⟩

end HostAlike

/-- A call that looks at no other guest's metadata file. -/
def LocalCall (id : Bytes) (f : Host → Int × Host) : Prop :=
  ∀ h h', HostAlike id h h' → HostAlike id (f h).2 (f h').2

theorem localCall_kill (store : MetaEnv) : LocalCall id (otaKillCb store id) := by
  intro h h' hh
  have hguests : h'.guests = h.guests := by
    obtain ⟨metas, -, rfl⟩ := hh
    rfl
  unfold otaKillCb
  rw [hguests]
  cases hfind : findGuest h.guests id with
  | none => exact hh
  | some g =>
      dsimp only
      split
      · exact hh
      · exact (hh.guestKill (findGuest_id hfind) store).setGuest _

theorem localCall_start (start : StartEnv) : LocalCall id (otaStartCb start id) := by
  intro h h' hh
  have hguests : h'.guests = h.guests := by
    obtain ⟨metas, -, rfl⟩ := hh
    rfl
  unfold otaStartCb
  rw [hguests]
  cases hfind : findGuest h.guests id with
  | none => exact hh
  | some g =>
      obtain ⟨hrc, hstarted⟩ := hh.guestStart (findGuest_id hfind) start
      dsimp only
      rw [hrc]
      split
      · exact hstarted.setGuest _
      · exact hstarted

/-- The guest's directory is the same, and so is all that a call for the guest looks at. -/
structure GuestAlike (id : Bytes) (w w' : World) : Prop where
  host : w'.host = { w.host with metas := w'.host.metas }
  node : ∀ rest, w'.fs.node (guestPath id ++ rest) = w.fs.node (guestPath id ++ rest)

theorem GuestAlike.call (hid : ProperName id) (hf : LocalCall id f) (h : GuestAlike id w w') :
    GuestAlike id (w.call id f).2 (w'.call id f).2 := by
  have hcalls : HostAlike id w.calls w'.calls := by
    refine ⟨w'.calls.metas, ?_, ?_⟩
    · change textAt w'.fs (resolve (metaFile id)) = textAt w.fs (resolve (metaFile id))
      rw [resolve_metaFile hid, textAt, textAt, metaPath, h.node]
    · unfold World.calls
      rw [h.host]
  obtain ⟨metas, hafter, hresult⟩ := hf w.calls w'.calls hcalls
  refine ⟨?_, fun rest => ?_⟩
  · rw [World.call_host, World.call_host, hresult]
  · have hdirs : ∀ rest, w'.fs.isDir (guestPath id ++ rest) = w.fs.isDir (guestPath id ++ rest) :=
      fun rest => isDir_congr (h.node rest)
    have hwritable : w'.fs.Writable (metaPath id) ↔ w.fs.Writable (metaPath id) := by
      have hparent := hdirs []
      rw [List.append_nil] at hparent
      rw [FileTree.Writable, FileTree.Writable, metaPath, List.dropLast_concat, hparent,
        hdirs [metaName]]
    rw [World.call_fs, World.call_fs, hresult, resolve_metaFile hid]
    simp only [hafter]
    split
    · simp only [FileTree.node_write, hwritable, h.node]
    · exact h.node rest

/-! ## The guest directory in the course of a job -/

section
variable (hid : ProperName id) (hbare : Bare id) (hremote : Quotable remote)
include hid hbare hremote

theorem guestAlike_pulled : GuestAlike id w (pulled env id remote w).2 := by
  have hpkg : Quotable (packageFile id remote) := packageFile_quotable hbare.quotable hremote
  refine ⟨by simp [pulled, World.pullFile, World.remoteSize_quotable hremote, World.scp_host hremote hpkg],
    fun rest => ?_⟩
  simp only [pulled, World.pullFile, World.remoteSize_quotable hremote]
  rcases @World.scp_cases (w.report id "download" 0 (utf8 "Starting pull from server")) env _ _ 0 1
    hremote hpkg with ⟨heq, -⟩ | ⟨c, k, hfile, -, heq⟩
  · rw [heq]
    rfl
  · have hproper : ProperName (baseOnly remote) := env.server.named remote (by simp [hfile])
    rw [heq, World.node_put, if_neg]
    · rfl
    · rintro ⟨hplace, -⟩
      rw [packageFile, resolve_join_proper _ hproper, resolve_packageDir hid, packagePath, target]
        at hplace
      split at hplace
      · rw [List.append_assoc, List.append_assoc] at hplace
        exact guest_ne_job _ _ _ _ hplace
      · rw [List.append_assoc] at hplace
        exact guest_ne_job _ _ _ _ hplace

theorem guestAlike_prepared :
    GuestAlike id (w.call id (otaKillCb env.killStore id)).2 (prepared env id remote w) := by
  have hpulled : GuestAlike id w (pulled env id remote w).2 :=
    guestAlike_pulled hid hbare hremote
  have hreported : GuestAlike id w (((pulled env id remote w).2.report id "download" 100
      (utf8 "Package pulled")).report id "prep" 0 (utf8 "Stopping guest before applying update")) :=
    ⟨hpulled.host, hpulled.node⟩
  exact hreported.call hid (localCall_kill _)

end

theorem World.extractAll_host {dir : Path} : (World.extractAll dir members w).2.host = w.host := by
  induction members generalizing w with
  | nil => rfl
  | cons m rest ih =>
      refine ih.trans ?_
      change (World.extract dir w m).2.host = w.host
      unfold World.extract
      cases m.content with
      | none => rfl
      | some c => exact World.put_host

/-- A member changes nothing but what leads to its place. -/
theorem World.node_extract {dir : Path} (hq : ¬ q <+: dir ++ m.path) :
    (World.extract dir w m).2.fs.node q = w.fs.node q := by
  have hmade : ∀ p : Path, p <+: dir ++ m.path → (w.fs.mkdirs p.inits).node q = w.fs.node q := by
    intro p hp
    refine (FileTree.node_mkdirs w.fs p.inits q).resolve_right ?_
    rintro ⟨-, -, hmem, -⟩
    exact hq (((List.mem_inits _ _).mp hmem).trans hp)
  unfold World.extract
  cases m.content with
  | none => exact hmade _ (List.prefix_refl _)
  | some c =>
      dsimp only
      rw [World.node_put, if_neg fun hself : q = _ ∧ _ => hq (hself.1 ▸ List.prefix_refl _)]
      exact hmade _ (List.dropLast_prefix _)

theorem World.node_extractAll {dir : Path} (hq : ∀ m ∈ members, ¬ q <+: dir ++ m.path) :
    (World.extractAll dir members w).2.fs.node q = w.fs.node q := by
  induction members generalizing w with
  | nil => rfl
  | cons m rest ih =>
      exact (ih fun m' hm' => hq m' (List.mem_cons_of_mem _ hm')).trans
        (World.node_extract (hq m List.mem_cons_self))

theorem guestAlike_extracted :
    GuestAlike id w (World.extractAll [] (stagedMembers id members) w).2 := by
  refine ⟨by rw [World.extractAll_host], fun rest => World.node_extractAll fun m hm hguest => ?_⟩
  obtain ⟨more, hmore⟩ := (mem_stagedMembers.mp hm).2
  obtain ⟨below, hbelow⟩ := hguest
  rw [List.nil_append, ← hmore, List.append_assoc] at hbelow
  exact stage_ne_guest _ _ _ _ hbelow.symm

/-! ## What is kept -/

/-- Stopping and starting the guest, without an update. -/
def restarted (env : JobEnv) (id : Bytes) (w : World) : World :=
  ((w.call id (otaKillCb env.killStore id)).2.call id (otaStartCb env.start id)).2

/-- No member goes into the stage, and the guest has every file of the payload. -/
structure NothingToInstall (members : List Member) (id : Bytes) (t : FileTree) : Prop where
  unstaged : ∀ m ∈ members, stagePath id <+: m.path → m.path = stagePath id
  held : ∀ rel c, archived members (payloadRoot members ++ rel) = some c →
    t.node (guestPath id ++ rel) = some (.file c)

section
variable (hid : ProperName id) (hbare : Bare id) (hremote : Quotable remote)
  (hname : Bare (baseOnly remote)) (harchive : isArchive (packageFile id remote) = true)
include hid hbare hremote hname harchive

theorem guestAlike_relaunched (hzero : (updated env id remote w).1 = 0) :
    GuestAlike id (restarted env id w) (relaunched env id remote w).2 := by
  have hprepared : GuestAlike id (w.call id (otaKillCb env.killStore id)).2
      (prepared env id remote w) := guestAlike_prepared hid hbare hremote
  have hstage : Bare (stageDir id) := bare_jobDir.mpr ⟨hbare, by decide⟩
  have hunpacking : GuestAlike id (w.call id (otaKillCb env.killStore id)).2
      (unpacking env id remote w) := by
    refine ⟨?_, fun rest => ?_⟩
    · rw [unpacking, World.report_host, World.mkdirs_host hstage]
      exact hprepared.host
    · rw [unpacking, World.report_fs,
        World.node_mkdirs_cmd hstage (guest_not_job hid (by decide) rest)]
      exact hprepared.node rest
  have hupdated : GuestAlike id (w.call id (otaKillCb env.killStore id)).2
      (updated env id remote w).2 := by
    rw [(updated_extracted hid hbare hname harchive hzero).2]
    have hextracted := @guestAlike_extracted (unpacking env id remote w) id
      (packageMembers env id remote (unpacking env id remote w).fs)
    refine ⟨?_, fun rest => (hextracted.node rest).trans (hunpacking.node rest)⟩
    rw [World.extractAll_host]
    exact hunpacking.host
  have hreported : GuestAlike id (w.call id (otaKillCb env.killStore id)).2
      (((updated env id remote w).2.report id "apply" 100 (utf8 "Update applied")).report id
        "restart" 0 (utf8 "Restarting guest")) := ⟨hupdated.host, hupdated.node⟩
  exact hreported.call hid (localCall_start _)

end

def remoteArchive : Bytes := utf8 "/up/pkg.tar"

def archiveEnv (members : List Member) : JobEnv :=
  { calmEnv with
    server := serverWith remoteArchive [1, 2, 3, 4] (by decide)
    tar := ⟨fun _ _ => members, 0⟩ }

def heldMembers : List Member :=
  [⟨stagePath guestA, none, by decide, by decide⟩,
    ⟨[utf8 "tmp", utf8 "disk.bin"], some [7], by decide, by decide⟩]

theorem heldMembers_archived {rel : Path} {c : Bytes}
    (h : archived heldMembers (payloadRoot heldMembers ++ rel) = some c) : rel = [utf8 "disk.bin"] ∧ c = [7] := by
  have hroot : payloadRoot heldMembers = [utf8 "tmp"] := by decide
  rw [hroot, archived] at h
  obtain ⟨m, hfound, hcontent⟩ := Option.bind_eq_some_iff.mp h
  have hpath : m.path = [utf8 "tmp"] ++ rel := by simpa using List.find?_some hfound
  have hmem : m ∈ heldMembers := List.mem_reverse.mp (List.mem_of_find?_eq_some hfound)
  rcases List.mem_cons.mp hmem with rfl | hdisk
  · cases hcontent
  · obtain rfl := List.mem_singleton.mp hdisk
    exact ⟨(List.cons.inj hpath).2.symm, (Option.some.inj hcontent).symm⟩

/-- A file under the stage's full name. -/
def diskMember : Member := ⟨stagePath guestA ++ [utf8 "disk.bin"], some [7, 8], by decide, by decide⟩

end QnxHypervisor.OtaUpdate
