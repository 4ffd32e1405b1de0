import QnxHypervisor.OtaUpdate.Installed

/-! # What addfile adds

The contract of `addfile` is one new file and no other change. The job does not look at
the guest directory before it copies, and a copy that stops leaves what it has written:
the condition on the tree and on what arrives under which the contract is kept.
-/

namespace QnxHypervisor.OtaUpdate

open Foundation GuestManager HmsStatus

variable {w : World} {env : JobEnv} {id name remote src dst path x : Bytes} {p q rest : Path}
  {t : FileTree} {i attempt : Nat} {words : List Bytes}

/-! ## A shell with a tree of its own -/

/-- Whatever line this shell gets, it leaves that tree. -/
def leaving (t : FileTree) : Shell := fun _ _ procs => ⟨t, procs, [], 0⟩

section
variable (hshell : env.shell = leaving t)
include hshell

theorem runShell_leaving : (w.runShell env words).2.fs = t := by
  rw [World.runShell, hshell]
  rfl

theorem remoteSize_leaving (hremote : ¬ Quotable remote) : (w.remoteSize env i remote).2.fs = t := by
  rw [World.remoteSize, if_pos hremote]
  exact runShell_leaving hshell

theorem sized_leaving (hwords : ¬ (Bare path ∧ Quotable remote)) :
    ((w.mkdirs env path).remoteSize env i remote).2.fs = t := by
  by_cases hremote : Quotable remote
  · rw [World.remoteSize_quotable hremote, World.mkdirs, if_pos fun hpath => hwords ⟨hpath, hremote⟩,
      runShell_leaving hshell]
  · exact remoteSize_leaving hshell hremote

/-- Later commands are run by the shell or keep what is at `q`. -/
theorem scp_leaving (hq : q ≠ target w.fs (resolve dst) (baseOnly remote) ∨ ¬ ProperName (baseOnly remote))
    (hkept : w.fs.node q = t.node q) : (w.scp env i attempt remote dst).fs.node q = t.node q := by
  by_cases hwords : Quotable remote ∧ Quotable dst
  · rcases World.scp_cases hwords.1 hwords.2 with ⟨heq, -⟩ | ⟨c, k, hfile, -, heq⟩
    · rw [heq, hkept]
    · have hname : ProperName (baseOnly remote) := env.server.named remote (by simp [hfile])
      rw [heq, World.node_put, if_neg fun h => hq.elim (fun hne => hne h.1) (fun hnot => hnot hname), hkept]
  · rw [World.scp, if_pos hwords, runShell_leaving hshell]

theorem cp_leaving (hq : ProperName (baseOnly src) → q ≠ target w.fs (resolve dst) (baseOnly src))
    (hkept : w.fs.node q = t.node q) : (w.cp env i src dst).2.fs.node q = t.node q := by
  by_cases hwords : Quotable src ∧ Quotable dst
  · rcases World.cp_cases hwords.1 hwords.2 with ⟨c, hc, -, -, heq⟩ | ⟨c, k, hc, -, heq⟩ | ⟨-, heq⟩
    · rw [heq, World.node_put, if_neg fun h => hq (regularAt_proper hc) h.1, hkept]
    · rw [heq, World.node_put, if_neg fun h => hq (regularAt_proper hc) h.1, hkept]
    · rw [heq, hkept]
  · rw [World.cp, if_pos hwords, runShell_leaving hshell]

end

/-! ## The contract -/

/-- One new file, whole, and a report of success. -/
structure AddsFile (server : Server) (id remote : Bytes) (w w' : World) : Prop where
  reported : ∃ msg, w'.published = w.published ++ [.addfileResult id true msg]
  fresh : w.fs.node (guestPath id ++ [baseOnly remote]) = none
  whole : ∃ c, server.file remote = some c ∧
    w'.fs.node (guestPath id ++ [baseOnly remote]) = some (.file c)
  others : ∀ rest, rest ≠ [baseOnly remote] →
    w'.fs.node (guestPath id ++ rest) = w.fs.node (guestPath id ++ rest)

/-- The guest directory as it was, and a report of failure. -/
structure AddsNothing (id : Bytes) (w w' : World) : Prop where
  reported : ∃ msg, w'.published = w.published ++ [.addfileResult id false msg]
  same : ∀ rest, w'.fs.node (guestPath id ++ rest) = w.fs.node (guestPath id ++ rest)

def AddsOnly (server : Server) (id remote : Bytes) (w w' : World) : Prop :=
  AddsFile server id remote w w' ∨ AddsNothing id w w'

/-! ## The condition -/

/-- The tree in which the transfer begins. -/
def readied (env : JobEnv) (t : FileTree) (id name : Bytes) : FileTree :=
  clearedFor (if env.mkdirOk then t.mkdirs (steps (addfileDir id)) else t) id name

/-- The transfer stores these bytes as the local file, and they pass the size test. -/
structure FileArrives (env : JobEnv) (t : FileTree) (id remote x : Bytes) : Prop where
  stored : ∃ c k, env.server.file remote = some c ∧ env.stored 0 1 = some k ∧ x = c.take k
  room : (readied env t id (baseOnly remote)).Writable (addfilePath id ++ [baseOnly remote])
  passes : World.landed (sizeAnswer env 0 remote) x.length = true

/-- The copy of these bytes does what the contract allows: a complete one makes a new
file of the whole remote one, and one that stops has not changed anything. -/
def CopyAdds (env : JobEnv) (t : FileTree) (id remote x : Bytes) : Prop :=
  t.Writable (copyTarget t id (baseOnly remote)) →
    match env.copied 0 with
    | .done => t.node (guestPath id ++ [baseOnly remote]) = none ∧ env.server.file remote = some x
    | .cut k => t.node (copyTarget t id (baseOnly remote)) = some (.file (x.take k))
    | .failed => True

def AddfileKeeps (env : JobEnv) (t : FileTree) (id remote : Bytes) : Prop :=
  isControlFile (baseOnly remote) = true ∨
    Bare id ∧ Quotable remote ∧ ∀ x, FileArrives env t id remote x → CopyAdds env t id remote x

/-! ## The local file -/

theorem addedFile_not_guest (hid : ProperName id) (rest : Path) :
    guestPath id ++ rest ≠ resolve (addedFile id remote) := by
  rw [addedFile, resolve_join _ (baseOnly_noSlash remote), resolve_addfileDir hid, descend]
  split
  · exact guest_ne_job id id rest [utf8 "addfile"]
  · split
    · rw [addfilePath, List.dropLast_concat]
      exact fun heq => guest_ne_job id id rest [] (by rw [heq, List.append_nil])
    · rw [addfilePath, List.append_assoc]
      exact guest_ne_job id id rest _

theorem addedTarget_not_guest (hid : ProperName id) (rest : Path) :
    guestPath id ++ rest ≠ target t (resolve (addedFile id remote)) (baseOnly remote) ∨
      ¬ ProperName (baseOnly remote) := by
  by_cases hname : ProperName (baseOnly remote)
  · left
    rw [target, addedFile, resolve_join_proper _ hname, resolve_addfileDir hid, addfilePath]
    split
    · rw [List.append_assoc, List.append_assoc]
      exact guest_ne_job id id rest _
    · rw [List.append_assoc]
      exact guest_ne_job id id rest _
  · exact .inr hname

theorem node_unlink_added (hid : ProperName id) (rest : Path) :
    (w.unlink (addedFile id remote)).fs.node (guestPath id ++ rest) = w.fs.node (guestPath id ++ rest) := by
  exact node_unlink_ne (addedFile_not_guest hid rest)

theorem copyTarget_added (hid : ProperName id) (hname : ProperName (baseOnly remote)) :
    target t (resolve (join (guestDir id) (baseOnly remote))) (baseOnly (addedFile id remote)) =
      copyTarget t id (baseOnly remote) := by
  rw [resolve_join_proper _ hname, resolve_guestDir hid, baseOnly_addedFile]
  rfl

theorem copyTarget_fresh (h : t.node (guestPath id ++ [name]) = none) :
    copyTarget t id name = guestPath id ++ [name] := by
  have hdir : t.isDir (guestPath id ++ [name]) = false := by
    rw [← Bool.not_eq_true, FileTree.isDir_iff]
    simp [h]
  rw [copyTarget, target, hdir]
  rfl

theorem node_copied (hid : ProperName id) :
    ((w.put p x).unlink (addedFile id remote)).fs.node (guestPath id ++ rest) =
      if guestPath id ++ rest = p ∧ w.fs.Writable p then some (.file x)
      else w.fs.node (guestPath id ++ rest) := by
  rw [node_unlink_added hid, World.node_put]

/-! ## Words that the shell reads -/

theorem addfile_left (hid : ProperName id) (hcontrol : isControlFile (baseOnly remote) = false)
    (hwords : ¬ (Bare id ∧ Quotable remote)) :
    (addfileThread { env with shell := leaving t } id remote w).fs.node (metaPath id) =
      t.node (metaPath id) := by
  generalize henv : { env with shell := leaving t } = env'
  have hshell : env'.shell = leaving t := by rw [← henv]
  have hsized : ((w.mkdirs env' (addfileDir id)).remoteSize env' 0 remote).2.fs = t :=
    sized_leaving hshell fun h => hwords ⟨(bare_jobDir.mp h.1).1, h.2⟩
  have hpulled : (addPulled env' id remote w).2.fs.node (metaPath id) = t.node (metaPath id) :=
    scp_leaving hshell (addedTarget_not_guest hid [metaName])
      ((node_unlink_added hid [metaName]).trans (congrArg (·.node (metaPath id)) hsized))
  have hadded : (added env' id remote w).2.fs.node (metaPath id) = t.node (metaPath id) := by
    refine cp_leaving hshell (fun hname => ?_) hpulled
    rw [baseOnly_addedFile] at hname
    rw [copyTarget_added hid hname]
    exact metaPath_ne_copyTarget (control_ne_meta hcontrol)
  rcases addfileThread_cases env' id remote w with ⟨htrue, -⟩ | ⟨-, m, heq⟩
  · rw [hcontrol] at htrue
    cases htrue
  · rw [heq, World.publish_fs, addedOrNot]
    split
    · exact (node_unlink_added hid [metaName]).trans hadded
    · exact hpulled

theorem unsafe_words_break (hid : ProperName id) (hcontrol : isControlFile (baseOnly remote) = false)
    (hwords : ¬ (Bare id ∧ Quotable remote)) :
    ∃ shell, ¬ AddsOnly env.server id remote w (addfileThread { env with shell := shell } id remote w) := by
  obtain ⟨t, hother, -⟩ :=
    FileTree.exists_node_ne (p := metaPath id) (by simp [metaPath]) (w.fs.node (metaPath id))
  have hleft := @addfile_left w env id remote t hid hcontrol hwords
  have hmeta : [metaName] ≠ [baseOnly remote] := fun h =>
    control_ne_meta hcontrol (List.singleton_inj.mp h).symm
  refine ⟨leaving t, fun h => hother ?_⟩
  rw [← hleft]
  rcases h with hfile | hnothing
  · exact hfile.others [metaName] hmeta
  · exact hnothing.same [metaName]

/-! ## Words that it takes literally -/

theorem readied_not_file (c : Bytes) :
    (readied env t id name).node (addfilePath id ++ [name]) ≠ some (.file c) := by
  intro h
  rw [readied, clearedFor, FileTree.node_remove] at h
  by_cases hchildren : (if env.mkdirOk then t.mkdirs (steps (addfileDir id)) else t).children
      (addfilePath id ++ [name]) = []
  · rw [if_pos ⟨rfl, hchildren⟩] at h
    cases h
  · rw [if_neg fun hempty => hchildren hempty.2] at h
    exact hchildren (FileTree.children_file h (by simp))

theorem addPulled_published (hremote : Quotable remote) :
    (addPulled env id remote w).2.published = w.published := by
  rw [addPulled]
  simp only [World.remoteSize_quotable hremote]
  rw [World.pullFile, World.scp_published, World.unlink_published, World.mkdirs_published]

section
variable (hid : ProperName id) (hbare : Bare id) (hremote : Quotable remote)
include hid hbare hremote

theorem node_addPulled (rest : Path) :
    (addPulled env id remote w).2.fs.node (guestPath id ++ rest) = w.fs.node (guestPath id ++ rest) := by
  have hdst : Quotable (addedFile id remote) := addedFile_quotable hbare.quotable hremote
  have hwords : Bare (addfileDir id) := bare_jobDir.mpr ⟨hbare, by decide⟩
  have hmade : (w.mkdirs env (addfileDir id)).fs.node (guestPath id ++ rest) =
      w.fs.node (guestPath id ++ rest) :=
    World.node_mkdirs_cmd hwords (guest_not_job hid (by decide) rest)
  have hcleared := (@node_unlink_added (w.mkdirs env (addfileDir id)) id remote hid rest).trans hmade
  rw [addPulled]
  simp only [World.remoteSize_quotable hremote]
  rcases addedTarget_not_guest
    (t := ((w.mkdirs env (addfileDir id)).unlink (addedFile id remote)).fs) hid rest with hne | hnot
  · exact (node_scp_ne hremote hdst hne).trans hcleared
  · rcases @World.scp_cases ((w.mkdirs env (addfileDir id)).unlink (addedFile id remote)) env _ _ 0 1
      hremote hdst with ⟨heq, -⟩ | ⟨c, k, hfile, -⟩
    · exact (congrArg (·.fs.node (guestPath id ++ rest)) heq).trans hcleared
    · exact absurd (env.server.named remote (by simp [hfile])) hnot

omit hid hbare hremote in
theorem statSize_added (hname : ProperName (baseOnly remote)) :
    statSize t (addedFile id remote) = t.size (resolve (addedFile id remote)) := statSize_proper _ hname

theorem arrives_iff : (addPulled env id remote w).1 = true ∧
    regularAt (addPulled env id remote w).2.fs (addedFile id remote) = some x ↔
      FileArrives env w.fs id remote x := by
  have hdst : Quotable (addedFile id remote) := addedFile_quotable hbare.quotable hremote
  have hwords : Bare (addfileDir id) := bare_jobDir.mpr ⟨hbare, by decide⟩
  by_cases hname : ProperName (baseOnly remote)
  · have hplace : resolve (addedFile id remote) = addfilePath id ++ [baseOnly remote] := by
      rw [addedFile, resolve_join_proper _ hname, resolve_addfileDir hid]
    have hready : ((w.mkdirs env (addfileDir id)).unlink (addedFile id remote)).fs =
        readied env w.fs id (baseOnly remote) := by
      rw [World.unlink_fs (by rwa [baseOnly_addedFile]), hplace, World.mkdirs_fs hwords]
      rfl
    have hgone := @readied_not_file env id (baseOnly remote) w.fs
    rw [addPulled, addedFile, regularAt_join _ hname, resolve_addfileDir hid, ← addedFile, textAt_eq_some]
    simp only [remoteSize_answer hremote, World.pullFile, statSize_added hname, hplace]
    generalize hw : (w.mkdirs env (addfileDir id)).unlink (addedFile id remote) = w₀ at hready ⊢
    rcases @World.scp_cases w₀ env _ _ 0 1 hremote hdst with
      ⟨heq, hnothing⟩ | ⟨c, k, hfile, hstored, heq⟩
    · rw [heq, hready]
      refine ⟨fun h => absurd h.2 (hgone x), fun h => ?_⟩
      obtain ⟨c, k, hfile, hstored, -⟩ := h.stored
      rcases hnothing with hnone | hnone
      · exact absurd (hnone.symm.trans hfile) (Option.some_ne_none c).symm
      · exact absurd (hnone.symm.trans hstored) (Option.some_ne_none k).symm
    · rw [heq]
      by_cases hroom : (readied env w.fs id (baseOnly remote)).Writable (addfilePath id ++ [baseOnly remote])
      · have htarget : target w₀.fs (resolve (addedFile id remote)) (baseOnly remote) =
            addfilePath id ++ [baseOnly remote] := by
          rw [target, hplace, hready, hroom.2.2]
          rfl
        have hnode : (w₀.put (target w₀.fs (resolve (addedFile id remote)) (baseOnly remote))
            (c.take k)).fs.node (addfilePath id ++ [baseOnly remote]) = some (.file (c.take k)) := by
          rw [World.node_put, if_pos ⟨htarget.symm, by rwa [htarget, hready]⟩]
        rw [FileTree.size, hnode]
        constructor
        · rintro ⟨hland, hx⟩
          obtain rfl : c.take k = x := by simpa using hx
          exact ⟨⟨c, k, hfile, hstored, rfl⟩, hroom, hland⟩
        · rintro ⟨⟨c', k', hfile', hstored', rfl⟩, -, hland⟩
          obtain rfl : c = c' := Option.some.inj (hfile.symm.trans hfile')
          obtain rfl : k = k' := Option.some.inj (hstored.symm.trans hstored')
          exact ⟨hland, rfl⟩
      · refine ⟨fun h => ?_, fun h => absurd h.room hroom⟩
        have hfile' := h.2
        rw [World.node_put] at hfile'
        split at hfile'
        · next hput =>
          -- what is written there can be written there
          rw [← hput.1, hready] at hput
          exact absurd hput.2 hroom
        · rw [hready] at hfile'
          exact absurd hfile' (hgone x)
  · have hnone : regularAt (addPulled env id remote w).2.fs (addedFile id remote) = none := by
      rw [regularAt, baseOnly_addedFile, if_neg hname]
    refine ⟨fun h => ?_, fun h => ?_⟩
    · rw [hnone] at h
      cases h.2
    · obtain ⟨c, k, hfile, -⟩ := h.stored
      exact absurd (env.server.named remote (by simp [hfile])) hname

theorem copied_course (hcontrol : isControlFile (baseOnly remote) = false)
    (harrives : FileArrives env w.fs id remote x) :
    AddsOnly env.server id remote w (addfileThread env id remote w) ↔ CopyAdds env w.fs id remote x := by
  obtain ⟨hok, hread⟩ := (arrives_iff hid hbare hremote).mpr harrives
  have hname : ProperName (baseOnly remote) := @baseOnly_addedFile id remote ▸ regularAt_proper hread
  have hsrc : Quotable (addedFile id remote) := addedFile_quotable hbare.quotable hremote
  have hdst : Quotable (join (guestDir id) (baseOnly remote)) :=
    quotable_guestFile hbare.quotable (quotable_base hremote)
  have hsame : SameGuest w.fs (addPulled env id remote w).2.fs id :=
    sameGuest_addPulled hid hbare hremote hname
  have hkept := @node_addPulled w env id remote hid hbare hremote
  have hpublished := @addPulled_published w env id remote hremote
  have hcases := @World.cp_cases (addPulled env id remote w).2 env _ _ 0 hsrc hdst
  rw [copyTarget_added hid hname, hsame.target, hsame.writable, hread] at hcases
  rw [addfileThread_eq, if_neg (by simp [hcontrol]), addedOrNot, if_pos hok, added]
  generalize (addPulled env id remote w).2 = w₁ at *
  rcases hcases with ⟨c, hc, hdone, hwrite, heq⟩ | ⟨c, k, hc, hcut, heq⟩ | ⟨hfailed, heq⟩
  · -- complete: a new file if there was none, and the whole one if that is what has arrived
    obtain rfl : x = c := Option.some.inj hc
    have hkeeps : CopyAdds env w.fs id remote x ↔ w.fs.node (guestPath id ++ [baseOnly remote]) = none ∧
        env.server.file remote = some x := by
      simp only [CopyAdds, hdone, hwrite, true_imp_iff]
    rw [heq, hkeeps]
    change AddsOnly _ _ _ _ (((w₁.put _ x).unlink _).publish _) ↔ _
    constructor
    · rintro (hfile | hnothing)
      · obtain ⟨c, hc, hnode⟩ := hfile.whole
        rw [World.publish_fs, copyTarget_fresh hfile.fresh, node_copied hid,
          if_pos ⟨rfl, copyTarget_fresh hfile.fresh ▸ hsame.writable.mpr hwrite⟩] at hnode
        have hwhole : x = c := by simpa using hnode
        exact ⟨hfile.fresh, hwhole ▸ hc⟩
      · obtain ⟨msg, hmsg⟩ := hnothing.reported
        simp [hpublished] at hmsg
    · rintro ⟨hfresh, hfile⟩
      rw [copyTarget_fresh hfresh] at hwrite ⊢
      have hwrite' : w₁.fs.Writable (guestPath id ++ [baseOnly remote]) :=
        copyTarget_fresh hfresh ▸ hsame.writable.mpr ((copyTarget_fresh hfresh).symm ▸ hwrite)
      refine .inl ⟨⟨_, congrArg (· ++ [_]) (World.unlink_published.trans
          (World.put_published.trans hpublished))⟩, hfresh,
        ⟨x, hfile, ?_⟩, fun rest hrest => ?_⟩
      · rw [World.publish_fs, node_copied hid, if_pos ⟨rfl, hwrite'⟩]
      · rw [World.publish_fs, node_copied hid, if_neg fun h => hrest (List.append_cancel_left h.1), hkept]
  · -- cut: what has been written stays
    obtain rfl : x = c := Option.some.inj hc
    have hkeeps : CopyAdds env w.fs id remote x ↔ (w.fs.Writable (copyTarget w.fs id (baseOnly remote)) →
        w.fs.node (copyTarget w.fs id (baseOnly remote)) = some (.file (x.take k))) := by
      simp only [CopyAdds, hcut]
    rw [heq, hkeeps]
    change AddsOnly _ _ _ _ (((w₁.put _ (x.take k)).unlink _).publish _) ↔ _
    constructor
    · rintro (hfile | hnothing) hwrite
      · obtain ⟨msg, hmsg⟩ := hfile.reported
        simp [hpublished] at hmsg
      · obtain ⟨rest, hrest⟩ := @guestPath_prefix_copyTarget id (baseOnly remote) w.fs
        have hnode := hnothing.same rest
        rw [World.publish_fs, node_copied hid, hrest, if_pos ⟨rfl, hsame.writable.mpr hwrite⟩] at hnode
        exact hnode.symm
    · intro hsafe
      refine .inr ⟨⟨_, congrArg (· ++ [_]) (World.unlink_published.trans
          (World.put_published.trans hpublished))⟩, fun rest => ?_⟩
      rw [World.publish_fs, node_copied hid]
      split
      · next hput =>
        rw [hput.1, hsafe (hsame.writable.mp hput.2)]
      · exact hkept rest
  · -- nothing written
    rw [heq]
    refine iff_of_true (.inr ⟨⟨_, congrArg (· ++ [_]) (World.unlink_published.trans hpublished)⟩,
      fun rest => ?_⟩) fun hwrite => ?_
    · exact (node_unlink_added hid rest).trans (hkept rest)
    · rcases hfailed with hnone | hfailed | ⟨-, hnot⟩
      · cases hnone
      · rw [hfailed]
        trivial
      · exact absurd hwrite hnot

/-- Nothing to copy: the guest directory has not been touched. -/
theorem quiet_course (hcontrol : isControlFile (baseOnly remote) = false)
    (hnothing : ∀ x, ¬ FileArrives env w.fs id remote x) :
    AddsNothing id w (addfileThread env id remote w) := by
  have hsrc : Quotable (addedFile id remote) := addedFile_quotable hbare.quotable hremote
  have hdst : Quotable (join (guestDir id) (baseOnly remote)) :=
    quotable_guestFile hbare.quotable (quotable_base hremote)
  have hkept := @node_addPulled w env id remote hid hbare hremote
  have hpublished := @addPulled_published w env id remote hremote
  rw [addfileThread_eq, if_neg (by simp [hcontrol]), addedOrNot]
  by_cases hok : (addPulled env id remote w).1 = true
  · have hread : regularAt (addPulled env id remote w).2.fs (addedFile id remote) = none := by
      by_contra hsome
      obtain ⟨x, hx⟩ := Option.ne_none_iff_exists'.mp hsome
      exact hnothing x ((arrives_iff hid hbare hremote).mp ⟨hok, hx⟩)
    have hadded : added env id remote w = (1, (addPulled env id remote w).2) := by
      rw [added, World.cp, if_neg (not_not_intro ⟨hsrc, hdst⟩), hread]
    rw [if_pos hok, hadded]
    exact ⟨⟨_, congrArg (· ++ [_]) (World.unlink_published.trans hpublished)⟩,
      fun rest => (node_unlink_added hid rest).trans (hkept rest)⟩
  · rw [if_neg hok, if_neg hok]
    exact ⟨⟨_, congrArg (· ++ [_]) hpublished⟩, hkept⟩

end

/-- The contract is kept, whatever a shell does with the words it has to read, exactly when
a control file is refused, or the words are literal and what arrives is copied as allowed. -/
theorem addfile_only_adds (hid : ProperName id) :
    (∀ shell, AddsOnly env.server id remote w (addfileThread { env with shell := shell } id remote w)) ↔
      AddfileKeeps env w.fs id remote := by
  by_cases hcontrol : isControlFile (baseOnly remote) = true
  · refine iff_of_true (fun shell => .inr ?_) (.inl hcontrol)
    rw [addfileThread_eq, if_pos hcontrol]
    exact ⟨⟨_, rfl⟩, fun _ => rfl⟩
  · rw [Bool.not_eq_true] at hcontrol
    constructor
    · intro hall
      have hwords : Bare id ∧ Quotable remote := by
        by_contra hunsafe
        obtain ⟨shell, hbreaks⟩ := @unsafe_words_break w env id remote hid hcontrol hunsafe
        exact hbreaks (hall shell)
      exact .inr ⟨hwords.1, hwords.2, fun x harrives =>
        (copied_course hid hwords.1 hwords.2 hcontrol harrives).mp (hall env.shell)⟩
    · rintro (hrefused | ⟨hbare, hremote, hcopies⟩) shell
      · rw [hcontrol] at hrefused
        cases hrefused
      · by_cases harrives : ∃ x, FileArrives env w.fs id remote x
        · obtain ⟨x, hx⟩ := harrives
          have hx' : FileArrives { env with shell := shell } w.fs id remote x := ⟨hx.1, hx.2, hx.3⟩
          exact (copied_course hid hbare hremote hcontrol hx').mpr (hcopies x hx)
        · have hnothing : ∀ x, ¬ FileArrives { env with shell := shell } w.fs id remote x :=
            fun x hx => harrives ⟨x, hx.1, hx.2, hx.3⟩
          exact .inr (quiet_course hid hbare hremote hcontrol hnothing)

/-- A new file for the guest. -/
theorem addfile_adds_disk : AddsOnly calmEnv.server guestA remoteFile (World.begin (smallTree []) bareHost)
    (addfileThread calmEnv guestA remoteFile (World.begin (smallTree []) bareHost)) := by
  have hkeeps : AddfileKeeps calmEnv (World.begin (smallTree []) bareHost).fs guestA remoteFile := by
    refine .inr ⟨by decide, by decide, fun x hx _ => ⟨by decide, ?_⟩⟩
    obtain ⟨c, k, hfile, hstored, rfl⟩ := hx.stored
    obtain rfl : [1, 2, 3, 4] = c := Option.some.inj hfile
    obtain rfl : 4 = k := Option.some.inj hstored
    rfl
  exact (addfile_only_adds (by decide)).mpr hkeeps calmEnv.shell

/-- The guest's `disk.bin` is replaced by another file of that name. -/
theorem addfile_replaces_file :
    ¬ ∀ (env : JobEnv) (id remote : Bytes) (fs : FileTree) (host : Host), ProperName id →
      AddsOnly env.server id remote (World.begin fs host)
        (addfileThread env id remote (World.begin fs host)) := by
  intro hall
  rcases hall calmEnv guestA remoteFile (smallTree [(installedDisk, [7])]) bareHost (by decide) with
    hfile | hnothing
  · exact absurd hfile.fresh (by decide)
  · exact absurd (hnothing.same [utf8 "disk.bin"]) (by decide)

end QnxHypervisor.OtaUpdate
