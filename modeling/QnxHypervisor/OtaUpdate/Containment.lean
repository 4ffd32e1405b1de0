import QnxHypervisor.OtaUpdate.Confined

/-! # Where transfers can go

Each job breaks the rule in some run unless its condition holds: in the run where the
server has every file, sizes stay unknown, all commands succeed and the shell takes
words that are not literal for something else. The names of guests come from
directories; the id of `addguest` is any word.
-/

namespace QnxHypervisor.OtaUpdate

open Foundation GuestManager HmsStatus

variable {w w' : World} {id name remote dst src path ifs conf ip : Bytes} {p q dir : Path}
  {t : FileTree} {i attempt : Nat} {listing : List Bytes}

/-! ## An environment in which everything happens -/

def fullServer : Server where
  file := fun path => if ProperName (baseOnly path) then some [1] else none
  stat := fun path => if ProperName (baseOnly path) then some 1 else none
  named := fun path h => by
    by_contra hnot
    simp [hnot] at h
  statFile := fun path c _ h => by
    split at h
    · next hname =>
      obtain rfl : [1] = c := by simpa using h
      simp [hname]
    · cases h

def etc : Path := [utf8 "etc"]

def openEnv (listing : List Bytes) : JobEnv where
  server := fullServer
  shell := fun _ t procs => ⟨t, procs, [etc], 0⟩
  mkdirOk := true
  sized := fun _ => false
  stored := fun _ _ => some 1
  tar := ⟨fun _ _ => [], 0⟩
  copied := fun _ => .done
  listing := listing
  killStore := storeOk
  start := startAs 101

theorem etc_strays : ¬ WellPlaced etc := by
  rintro ⟨-, g, -, heq | ⟨n, heq⟩ | ⟨rest, -, heq⟩⟩ <;> simp [etc, guestPath, jobPath] at heq

theorem Contained.of_grows (h : Contained w') (hgrows : Grows w w') : Contained w := fun p hp =>
  h p (hgrows hp)

theorem not_contained (hetc : etc ∈ w.writes) (hgrows : Grows w w') : ¬ Contained w' := fun h =>
  etc_strays (h etc (hgrows hetc))

section
variable {words : List Bytes}

theorem etc_runShell : etc ∈ (w.runShell (openEnv listing) words).2.writes :=
  List.mem_append_right _ List.mem_cons_self

theorem etc_mkdirs (h : ¬ Bare path) : etc ∈ (w.mkdirs (openEnv listing) path).writes := by
  rw [World.mkdirs, if_pos h]
  exact etc_runShell

theorem etc_remoteSize (h : ¬ Quotable remote) :
    etc ∈ (w.remoteSize (openEnv listing) i remote).2.writes := by
  rw [World.remoteSize, if_pos h]
  exact etc_runShell

theorem etc_scp (h : ¬ (Quotable remote ∧ Quotable dst)) :
    etc ∈ (w.scp (openEnv listing) i attempt remote dst).writes := by
  rw [World.scp, if_pos h]
  exact etc_runShell

theorem etc_cp (h : ¬ (Quotable src ∧ Quotable dst)) :
    etc ∈ (w.cp (openEnv listing) i src dst).2.writes := by
  rw [World.cp, if_pos h]
  exact etc_runShell

theorem etc_untar (h : ¬ (Bare dst ∧ Bare path)) :
    etc ∈ (w.untar (openEnv listing) dst path).2.writes := by
  rw [World.untar, if_pos h]
  exact etc_runShell

end

theorem open_mkdirs (h : Bare path) :
    (w.mkdirs (openEnv listing) path).fs = w.fs.mkdirs (steps path) := by
  rw [World.mkdirs_fs h]
  rfl

theorem open_remoteSize (h : Quotable remote) :
    w.remoteSize (openEnv listing) i remote = (none, w) := by
  rw [World.remoteSize, if_neg (not_not_intro h)]
  rfl

theorem open_scp (hremote : Quotable remote) (hdst : Quotable dst) :
    w.scp (openEnv listing) i attempt remote dst =
      if ProperName (baseOnly remote) then w.put (target w.fs (resolve dst) (baseOnly remote)) [1]
      else w := by
  rw [World.scp, if_neg (not_not_intro ⟨hremote, hdst⟩)]
  by_cases hname : ProperName (baseOnly remote) <;>
    simp [openEnv, fullServer, hname]

/-- Every transfer that can pass the size test passes it. -/
theorem open_lands {dirText : Bytes} (hremote : Quotable remote)
    (hdst : Quotable (join dirText (baseOnly remote)))
    (h : Landable w.fs (join dirText (baseOnly remote)) (baseOnly remote)) :
    (w.pullFile (openEnv listing) i attempt none remote (join dirText (baseOnly remote))).1 = true := by
  suffices hsize : 0 < statSize (w.scp (openEnv listing) i attempt remote
      (join dirText (baseOnly remote))).fs (join dirText (baseOnly remote)) by
    simpa [World.pullFile, World.landed] using hsize
  rw [open_scp hremote hdst]
  split
  · next hname =>
    rw [Landable, statSize_proper _ hname] at h
    rw [statSize_proper _ hname]
    generalize join dirText (baseOnly remote) = dst at h ⊢
    by_cases hself : resolve dst = target w.fs (resolve dst) (baseOnly remote) ∧
        w.fs.Writable (target w.fs (resolve dst) (baseOnly remote))
    · rw [FileTree.size, World.node_put, if_pos hself]
      exact Nat.one_pos
    · rw [size_congr (World.node_put.trans (if_neg hself))]
      refine h.resolve_left fun hwrite => hself ?_
      have htarget : target w.fs (resolve dst) (baseOnly remote) = resolve dst := by
        rw [target, hwrite.2.2.2]
        rfl
      rw [htarget]
      exact ⟨rfl, hwrite.2⟩
  · next hname => exact h.resolve_left fun hwrite => hname hwrite.1

theorem open_arrives (hremote : Quotable remote) (hdst : Quotable dst)
    (hname : ProperName (baseOnly remote))
    (hwrite : w.fs.Writable (target w.fs (resolve dst) (baseOnly remote))) :
    target w.fs (resolve dst) (baseOnly remote) ∈ (w.scp (openEnv listing) i attempt remote dst).writes := by
  rw [open_scp hremote hdst, if_pos hname]
  exact World.mem_writes_put.mpr (.inr ⟨rfl, hwrite⟩)

theorem open_cp {c : Bytes} (hsrc : Quotable src) (hdst : Quotable dst)
    (hc : regularAt w.fs src = some c)
    (hwrite : w.fs.Writable (target w.fs (resolve dst) (baseOnly src))) :
    target w.fs (resolve dst) (baseOnly src) ∈ (w.cp (openEnv listing) i src dst).2.writes := by
  rw [World.cp, if_neg (not_not_intro ⟨hsrc, hdst⟩), hc]
  exact World.mem_writes_put.mpr (.inr ⟨rfl, hwrite⟩)

theorem open_cp_guest {c : Bytes} (hid : PlainName id) (hsrc : Quotable src)
    (hsame : SameGuest t w.fs id) (hc : regularAt w.fs src = some c)
    (hwrite : t.Writable (copyTarget t id (baseOnly src))) : copyTarget t id (baseOnly src) ∈
      (w.cp (openEnv listing) i src (join (guestDir id) (baseOnly src))).2.writes := by
  have htarget : target w.fs (resolve (join (guestDir id) (baseOnly src))) (baseOnly src) =
      copyTarget t id (baseOnly src) := by
    rw [resolve_join_proper _ (regularAt_proper hc), resolve_guestDir hid.proper]
    exact hsame.target
  have hdst : Quotable (join (guestDir id) (baseOnly src)) :=
    quotable_guestFile hid.quotable (quotable_base hsrc)
  rw [← htarget]
  apply open_cp hsrc hdst hc
  rw [htarget]
  exact hsame.writable.mpr hwrite

/-! ## ota -/

/-- A guest is updated in a directory that has been made. -/
def updating (env : JobEnv) (id : Bytes) (msg : String) (w : World) : World :=
  (w.mkdirs env (stageDir id)).report id "extract" 0 (utf8 msg)

theorem grows_updating {env : JobEnv} {msg : String} : Grows w (updating env id msg w) := Grows.mkdirs

theorem otaApply_writes {env : JobEnv} : (otaApply env id path w).2.writes =
    if isArchive path then
      ((updating env id "Extracting package" w).untar env (stageDir id) path).2.writes
    else ((updating env id "Copying file into guest directory" w).cp env 0 path
      (join (guestDir id) (baseOnly path))).2.writes := by
  unfold otaApply
  dsimp only
  split
  · split <;> rfl
  · rfl

theorem grows_otaApply {env : JobEnv} : Grows w (otaApply env id path w).2 := by
  rw [Grows, otaApply_writes]
  split
  · exact grows_updating.trans Grows.untar
  · exact grows_updating.trans Grows.cp

theorem grows_updated {env : JobEnv} :
    Grows (pulled env id remote w).2 (updated env id remote w).2 :=
  Grows.trans (Grows.of_eq prepared_writes) grows_otaApply

theorem grows_from_pulled {env : JobEnv} :
    Grows (pulled env id remote w).2 (otaThread env id remote w) := by
  rw [otaThread_eq]
  split
  · exact Grows.report
  · split
    · exact grows_updated.trans Grows.report
    · exact (grows_updated.trans (Grows.of_eq relaunched_writes)).trans Grows.publish

theorem grows_from_updated {env : JobEnv} (hok : (pulled env id remote w).1 = true) :
    Grows (updated env id remote w).2 (otaThread env id remote w) := by
  rw [otaThread_eq, if_neg (not_not_intro hok)]
  split
  · exact Grows.report
  · exact (Grows.of_eq relaunched_writes).trans Grows.publish

theorem package_arrives (hid : ProperName id) (hquote : Quotable id) (hremote : Quotable remote)
    (hbare : Bare id) (hname : ProperName (baseOnly remote))
    (hwrite : w.fs.Writable (packagePath id ++ [baseOnly remote])) :
    regularAt ((prepared (openEnv listing) id remote w).mkdirs (openEnv listing) (stageDir id)).fs
      (packageFile id remote) = some [1] := by
  have hstage : Bare (stageDir id) := bare_jobDir.mpr ⟨hbare, by decide⟩
  have haway : packagePath id ++ [baseOnly remote] ∉ steps (stageDir id) := by
    rw [packagePath, List.append_assoc]
    exact sub_not_job hid (by decide) (by decide) _
  have hmeta : packagePath id ++ [baseOnly remote] ≠ metaPath id := by
    rw [packagePath, List.append_assoc]
    exact (guest_ne_job id id [metaName] _).symm
  have hresolve : resolve (packageFile id remote) = packagePath id ++ [baseOnly remote] := by
    rw [packageFile, resolve_join_proper _ hname, resolve_packageDir hid]
  have hput : (pulled (openEnv listing) id remote w).2.fs.node (packagePath id ++ [baseOnly remote]) =
      some (.file [1]) := by
    simp only [pulled, open_remoteSize hremote, World.pullFile]
    rw [open_scp hremote (packageFile_quotable hquote hremote), if_pos hname, hresolve, target]
    have hnot : w.fs.isDir (packagePath id ++ [baseOnly remote]) = false := hwrite.2.2
    simp only [World.report_fs, hnot, Bool.false_eq_true, if_false, World.node_put]
    exact if_pos ⟨trivial, hwrite⟩
  have hcall : (prepared (openEnv listing) id remote w).fs.node (packagePath id ++ [baseOnly remote]) =
      some (.file [1]) := (World.node_call hid hmeta).trans hput
  rw [packageFile, regularAt_join _ hname, resolve_packageDir hid, textAt_eq_some,
    World.node_mkdirs_cmd hstage haway]
  exact hcall

theorem ota_strays (hid : ProperName id) (h : Contained (otaThread (openEnv listing) id remote w)) :
    otaSafe w.fs id remote := by
  have hremote : Quotable remote := by
    by_contra hnot
    have hetc : etc ∈ (pulled (openEnv listing) id remote w).2.writes :=
      Grows.pullFile (etc_remoteSize hnot)
    exact not_contained hetc grows_from_pulled h
  have hpulled : pulled (openEnv listing) id remote w =
      (w.report id "download" 0 (utf8 "Starting pull from server")).pullFile (openEnv listing) 0 1 none
        remote (packageFile id remote) := by
    simp only [pulled, open_remoteSize hremote]
  have hquote : Quotable id := by
    by_contra hnot
    have hetc : etc ∈ (pulled (openEnv listing) id remote w).2.writes := by
      rw [hpulled]
      refine etc_scp fun hboth => hnot ?_
      exact (quotable_jobDir.mp (quotable_join.mp hboth.2).1).1
    exact not_contained hetc grows_from_pulled h
  have hpkg : Quotable (packageFile id remote) := packageFile_quotable hquote hremote
  refine ⟨hremote, hquote, fun hland => ?_⟩
  have hok : (pulled (openEnv listing) id remote w).1 = true := by
    rw [hpulled]
    exact open_lands hremote hpkg hland
  have hgrows : Grows (updated (openEnv listing) id remote w).2
    (otaThread (openEnv listing) id remote w) := grows_from_updated hok
  have hstray : etc ∉ (updated (openEnv listing) id remote w).2.writes := fun hetc =>
    not_contained hetc hgrows h
  rw [updated, otaApply_writes] at hstray
  have hbare : Bare id := by
    by_contra hnot
    have hmade : ∀ msg, etc ∈ (updating (openEnv listing) id msg
        (prepared (openEnv listing) id remote w)).writes := fun msg =>
      etc_mkdirs fun hb => hnot (bare_jobDir.mp hb).1
    split at hstray
    · exact hstray (Grows.untar (hmade _))
    · exact hstray (Grows.cp (hmade _))
  refine ⟨hbare, ?_⟩
  by_cases harchive : isArchive (packageFile id remote) = true
  · rw [if_pos harchive] at hstray ⊢
    by_contra hnot
    exact hstray (etc_untar fun hboth => hnot (bare_join.mp hboth.2).2)
  · rw [if_neg harchive]
    intro hname hpackage hreceive
    have hsame : SameGuest w.fs ((prepared (openEnv listing) id remote w).mkdirs (openEnv listing)
      (stageDir id)).fs id := sameGuest_updating hid hquote hremote hbare
    have hreceive' : w.fs.Writable (copyTarget w.fs id (baseOnly (packageFile id remote))) := by
      rw [baseOnly_packageFile]
      exact hreceive
    have hcopied : copyTarget w.fs id (baseOnly (packageFile id remote)) ∈
        ((updating (openEnv listing) id "Copying file into guest directory" (prepared (openEnv listing) id
          remote w)).cp (openEnv listing) 0 (packageFile id remote)
            (join (guestDir id) (baseOnly (packageFile id remote)))).2.writes :=
      open_cp_guest ⟨hid, hquote⟩ hpkg hsame
        (package_arrives hid hquote hremote hbare hname hpackage) hreceive'
    have hwritten : copyTarget w.fs id (baseOnly (packageFile id remote)) ∈
        (updated (openEnv listing) id remote w).2.writes := by
      rw [updated, otaApply_writes, if_neg harchive]
      exact hcopied
    have hplaced := h _ (hgrows hwritten)
    rw [baseOnly_packageFile] at hplaced
    exact (wellPlaced_copyTarget hid).mp hplaced

/-! ## fetch -/

section
variable {env : JobEnv}

theorem grows_fetchAttempts {size : Option Nat} (left : Nat) :
    Grows w (fetchAttempts env id remote i size left w).2 := by
  induction left generalizing w with
  | zero => exact Grows.refl _
  | succ left ih =>
      have hone : Grows w (attempted env id remote i size left w).2 :=
        (Grows.of_eq retrying_writes).trans Grows.pullFile
      rw [fetchAttempts_succ]
      split
      · exact hone
      · exact hone.trans ih

theorem grows_fetchOne : Grows (w.remoteSize env i remote).2 (fetchOne env id i remote w).2 :=
  fun _ hq => grows_fetchAttempts 3 (Grows.unlink (w := (w.remoteSize env i remote).2.report id "download"
    0 _) hq)

theorem grows_fetchFiles {paths : List Bytes} : Grows w (fetchFiles env id i paths w).2 := by
  induction paths generalizing w i with
  | nil => exact Grows.refl _
  | cons remote rest ih =>
      have hone : Grows w (fetchOne env id i remote w).2 := Grows.remoteSize.trans grows_fetchOne
      rw [fetchFiles_cons]
      split
      · exact Grows.refl _
      · split
        · exact hone
        · exact fun q hq => ih (hone hq)

theorem grows_fetchFirst {rest : List Bytes} (hcontrol : isControlFile (baseOnly remote) = false) :
    Grows (w.remoteSize env i remote).2 (fetchFiles env id i (remote :: rest) w).2 := by
  rw [fetchFiles_cons, if_neg (by simp [hcontrol])]
  split
  · exact grows_fetchOne
  · exact fun q hq => grows_fetchFiles (grows_fetchOne hq)

end

/-- A file that can be fetched gets through at the first attempt. -/
theorem open_fetches (hid : ProperName id) (hbare : Bare id) (hremote : Quotable remote)
    (h : Fetchable w.fs id (w.fs.children (stagePath id) ≠ []) (baseOnly remote)) :
    (fetchOne (openEnv listing) id i remote w).1 = true := by
  obtain ⟨hstage, hplace⟩ := h
  suffices hland : Landable (opened id remote w).fs (join (stageDir id) (baseOnly remote))
      (baseOnly remote) by
    have hfirst : (attempted (openEnv listing) id remote i none 2 (opened id remote w)).1 = true :=
      open_lands hremote (quotable_staged hbare hremote) hland
    rw [fetchOne_eq hremote]
    change (fetchAttempts (openEnv listing) id remote i none 3 (opened id remote w)).1 = true
    rw [fetchAttempts_succ, if_pos hfirst]
  by_cases hname : ProperName (baseOnly remote)
  · rw [if_pos hname] at hplace
    have heq := @stagePlace_proper id remote hid hname
    by_cases hclear : w.fs.children (stagePlace id remote) = []
    · refine .inl ⟨hname, ?_⟩
      rw [← stagePlace]
      refine ⟨stagePlace_ne_nil hid, ?_, opened_place hid hname hclear⟩
      rw [heq, List.dropLast_concat, isDir_congr (node_opened_ne (by simp [heq])), hstage]
    · refine .inr ?_
      rw [opened_full hclear, statSize_proper _ hname, ← stagePlace, heq]
      exact hplace (heq ▸ hclear)
  · rw [if_neg hname] at hplace
    refine .inr ?_
    rw [opened_unnamed hname fun hempty _ => ?_]
    · exact hplace.2
    · rw [stagePlace_empty hid hempty]
      exact hplace.1 hempty

theorem fetchFiles_strays {paths : List Bytes} (hid : ProperName id) (hbare : Bare id)
    (hcontrol : ∀ remote ∈ paths, isControlFile (baseOnly remote) = false)
    (h : Contained (fetchFiles (openEnv listing) id i paths w).2) :
    pathsSafe w.fs id (w.fs.children (stagePath id) ≠ []) paths := by
  induction paths generalizing w i with
  | nil => trivial
  | cons remote rest ih =>
      have hcontrol' := hcontrol remote List.mem_cons_self
      have hremote : Quotable remote := by
        by_contra hnot
        exact etc_strays (h etc (grows_fetchFirst hcontrol' (etc_remoteSize hnot)))
      refine ⟨hremote, fun hfetch => ?_⟩
      have hok := @open_fetches w id remote i listing hid hbare hremote hfetch
      have hthrough := fetchOne_through hid hbare hremote hok
      rw [fetchFiles_cons, if_neg (by simp [hcontrol']), if_neg (by simp [hok])] at h
      have hrest := ih (fun m hm => hcontrol m (List.mem_cons_of_mem _ hm)) h
      rw [World.report_fs, pathsSafe_congr hid hthrough.alike, hthrough.filled] at hrest
      exact hrest

theorem fetch_strays {paths : List Bytes} (hid : ProperName id)
    (hcontrol : ∀ remote ∈ paths, isControlFile (baseOnly remote) = false)
    (h : Contained (fetchThread (openEnv listing) id paths w)) : fetchSafe w.fs id paths := by
  rw [Contained, fetchThread_writes] at h
  have hbare : Bare id := by
    by_contra hnot
    have hetc : etc ∈ (w.mkdirs (openEnv listing) (stageDir id)).writes :=
      etc_mkdirs fun hb => hnot (bare_jobDir.mp hb).1
    exact etc_strays (h etc (grows_fetchFiles hetc))
  have hmade : (w.mkdirs (openEnv listing) (stageDir id)).fs = w.fs.mkdirs (steps (stageDir id)) :=
    open_mkdirs (bare_jobDir.mpr ⟨hbare, by decide⟩)
  rw [fetchSafe, ← hmade]
  exact ⟨hbare, fetchFiles_strays hid hbare hcontrol h⟩

/-! ## apply -/

/-- The table takes names that are no control files up to its end. -/
theorem readStaged_plain {room : Nat} {plain rest : List Bytes}
    (hplain : ∀ name ∈ plain, ProperName name ∧ isControlFile name = false)
    (hroom : room ≤ plain.length ∨ rest = []) :
    readStaged room (plain ++ rest) = .ok (plain.take room) := by
  induction plain generalizing room with
  | nil =>
      rcases hroom with hzero | rfl
      · obtain rfl : room = 0 := Nat.le_zero.mp hzero
        cases rest <;> rfl
      · cases room <;> rfl
  | cons name plain ih =>
      cases room with
      | zero => rfl
      | succ room =>
          obtain ⟨hname, hcontrol⟩ := hplain name List.mem_cons_self
          have hdot : ¬ (name = utf8 "." ∨ name = utf8 "..") := fun h => h.elim hname.notDot hname.notDotDot
          have hrest : readStaged room (plain ++ rest) = .ok (plain.take room) := by
            refine ih (fun m hm => hplain m (List.mem_cons_of_mem _ hm)) (hroom.imp_left fun hle => ?_)
            simpa using hle
          rw [List.cons_append, readStaged, if_neg hdot, if_neg (by simp [hcontrol]), hrest,
            List.take_succ_cons]
          rfl

theorem lists_of_perm {env : JobEnv}
    (hproper : ∀ name ∈ t.children (resolve (stageDir id)), ProperName name)
    (hperm : env.listing.Perm (t.children (resolve (stageDir id)))) : env.Lists t id := by
  refine List.Perm.trans (List.Perm.of_eq ?_) hperm
  refine List.filter_eq_self.mpr fun name hname => ?_
  have hp := hproper name (hperm.mem_iff.mp hname)
  simpa using ⟨hp.notDot, hp.notDotDot⟩

theorem grows_copyStaged {env : JobEnv} {n : Nat} {names : List Bytes} :
    Grows w (copyStaged env id n i names w).2 := by
  induction names generalizing w i with
  | nil => exact Grows.refl _
  | cons name rest ih =>
      have hone : Grows w (copyOne env id i name w).2 := Grows.cp
      rw [copyStaged_cons]
      split
      · exact hone.trans Grows.report
      · exact (hone.trans Grows.report).trans ih

theorem grows_apply {env : JobEnv} {restart : Bool} {rest : List Bytes}
    (hb : Begins env id (name :: rest) w) :
    Grows (copyOne env id 0 name (stopped env id w)).2 (applyThread env id restart w) := by
  have hcopies : Grows (copyOne env id 0 name (stopped env id w)).2 (copies env id (name :: rest) w).2 := by
    rw [copies, copyStaged_cons]
    split
    · exact Grows.report
    · exact Grows.report.trans grows_copyStaged
  rcases applyThread_cases env id restart w with ⟨-, hnone⟩ | ⟨names, hb', hcourse⟩
  · exact absurd hb (hnone _)
  · obtain rfl : name :: rest = names := by simpa using hb.read.symm.trans hb'.read
    rcases hcourse with ⟨-, heq⟩ | ⟨-, msg, heq⟩
    · rw [heq]
      exact hcopies
    · rw [heq]
      refine hcopies.trans (Grows.of_eq ?_)
      rw [World.publish_writes, finished, unlinkStaged_writes, restartGuest_writes]

theorem apply_strays {restart : Bool} (hid : ProperName id)
    (hproper : ∀ name ∈ w.fs.children (stagePath id), ProperName name)
    (h : ∀ listing, (openEnv listing).Lists w.fs id →
      Contained (applyThread (openEnv listing) id restart w)) : applySafe w.fs id := by
  refine or_iff_not_imp_left.mpr fun hmany name hname hcontrol => ?_
  -- the directory is read with this name first and the control files last
  let isPlain := fun m : Bytes => !isControlFile m
  let plain := name :: ((w.fs.children (stagePath id)).filter isPlain).erase name
  let controls := (w.fs.children (stagePath id)).filter fun m => !isPlain m
  have hmem : name ∈ (w.fs.children (stagePath id)).filter isPlain :=
    List.mem_filter.mpr ⟨hname, by simp [isPlain, hcontrol]⟩
  have hplainPerm : plain.Perm ((w.fs.children (stagePath id)).filter isPlain) :=
    (List.perm_cons_erase hmem).symm
  have hperm : (plain ++ controls).Perm (w.fs.children (stagePath id)) :=
    (hplainPerm.append_right _).trans (List.filter_append_perm _ _)
  have hplain : ∀ m ∈ plain, ProperName m ∧ isControlFile m = false := fun m hm => by
    obtain ⟨hchild, hnot⟩ := List.mem_filter.mp (hplainPerm.mem_iff.mp hm)
    exact ⟨hproper m hchild, by simpa [isPlain] using hnot⟩
  have hroom : maxFiles ≤ plain.length ∨ controls = [] := by
    by_contra hnot
    obtain ⟨hfew, hsome⟩ := not_or.mp hnot
    obtain ⟨m, hm⟩ := List.exists_mem_of_ne_nil _ hsome
    obtain ⟨hchild, hc⟩ := List.mem_filter.mp hm
    rw [hplainPerm.length_eq] at hfew
    exact hmany ⟨⟨m, hchild, by simpa [isPlain] using hc⟩, Nat.lt_of_not_le hfew⟩
  have hlist : (openEnv (plain ++ controls)).Lists w.fs id := by
    rw [← resolve_stageDir hid] at hproper hperm
    exact lists_of_perm hproper hperm
  have hb : Begins (openEnv (plain ++ controls)) id (plain.take maxFiles) w := by
    refine ⟨?_, readStaged_plain hplain hroom, by simp [plain, maxFiles]⟩
    rw [resolve_stageDir hid]
    exact FileTree.isDir_parent (FileTree.mem_children.mp hname)
  have hgrows : Grows (copyOne (openEnv (plain ++ controls)) id 0 name
      (stopped (openEnv (plain ++ controls)) id w)).2
    (applyThread (openEnv (plain ++ controls)) id restart w) := grows_apply hb
  have hcontained := (h _ hlist).of_grows hgrows
  have hstray : Quotable (join (stageDir id) name) ∧ Quotable (join (guestDir id) name) := by
    by_contra hnot
    exact etc_strays (hcontained _ (etc_cp hnot))
  have hquote : Quotable id := quotable_guestDir.mp (quotable_join.mp hstray.2).1
  refine ⟨hquote, (quotable_join.mp hstray.2).2, fun hfile hwrite => ?_⟩
  obtain ⟨c, hc⟩ := hfile
  have hname' := hproper name hname
  have hbase : baseOnly (join (stageDir id) name) = name := baseOnly_join _ hname'.noSlash
  have hread : regularAt (stopped (openEnv (plain ++ controls)) id w).fs (join (stageDir id) name) =
      some c := by
    rw [regularAt_join _ hname', resolve_stageDir hid, textAt_eq_some, node_stopped hid
      (stage_ne_meta name)]
    exact hc
  have hwrite' : w.fs.Writable (copyTarget w.fs id (baseOnly (join (stageDir id) name))) := by
    rw [hbase]
    exact hwrite
  have hcopied : copyTarget w.fs id (baseOnly (join (stageDir id) name)) ∈
      ((stopped (openEnv (plain ++ controls)) id w).cp (openEnv (plain ++ controls)) 0
        (join (stageDir id) name) (join (guestDir id) (baseOnly (join (stageDir id) name)))).2.writes :=
    open_cp_guest ⟨hid, hquote⟩ hstray.1 (fun _ => World.isDir_call) hread hwrite'
  rw [hbase] at hcopied
  exact (wellPlaced_copyTarget hid).mp (hcontained _ hcopied)

/-! ## addfile -/

theorem isDir_remove_self (hp : p ≠ []) (h : (t.remove p).isDir p = true) :
    t.isDir p = true ∧ t.children p ≠ [] := by
  by_cases hchildren : t.children p = []
  · have hnone : (t.remove p).node p = none := by
      rw [FileTree.node_remove, if_pos ⟨rfl, hchildren⟩]
    rcases FileTree.isDir_iff.mp h with hroot | ⟨size, hdir⟩
    · exact absurd hroot hp
    · rw [hnone] at hdir
      cases hdir
  · rw [FileTree.remove, dif_neg hchildren] at h
    exact ⟨h, hchildren⟩

theorem grows_addPulled {env : JobEnv} :
    Grows ((w.mkdirs env (addfileDir id)).remoteSize env 0 remote).2 (addPulled env id remote w).2 :=
  fun _ hq => Grows.pullFile (Grows.unlink hq)

theorem grows_addedOrNot {env : JobEnv} :
    Grows (addPulled env id remote w).2 (addedOrNot env id remote w).2 := by
  unfold addedOrNot
  split
  · exact Grows.cp.trans Grows.unlink
  · exact Grows.refl _

section
variable (hid : ProperName id) (hbare : Bare id) (hremote : Quotable remote)
  (hname : ProperName (baseOnly remote)) (hready : AddfileReady w.fs id (baseOnly remote))
include hid hbare hready

/-- The local file can be written when the transfer begins. -/
theorem addfile_writable : (clearedFor (w.mkdirs (openEnv listing) (addfileDir id)).fs id
    (baseOnly remote)).Writable (addfilePath id ++ [baseOnly remote]) := by
  have hwords : Bare (addfileDir id) := bare_jobDir.mpr ⟨hbare, by decide⟩
  have hadd : ProperName (utf8 "addfile") := by decide
  have hne : addfilePath id ≠ addfilePath id ++ [baseOnly remote] := by simp
  have haway : addfilePath id ++ [baseOnly remote] ∉ steps (addfileDir id) := entry_not_job hid hadd _
  refine ⟨by simp, ?_, ?_⟩
  · rw [List.dropLast_concat, clearedFor, FileTree.isDir_remove_ne _ hne, open_mkdirs hwords]
    exact hready.1
  · by_contra hdir
    rw [Bool.not_eq_false] at hdir
    obtain ⟨hold, hfull⟩ := isDir_remove_self (by simp) hdir
    rw [isDir_congr (World.node_mkdirs_cmd hwords haway)] at hold
    -- its entries were there before
    obtain ⟨n, hn⟩ := List.exists_mem_of_ne_nil _ hfull
    have hentry : addfilePath id ++ [baseOnly remote] ++ [n] ∉ steps (addfileDir id) := by
      rw [addfileDir, steps_jobDir hid hadd]
      simp [addfilePath, jobPath]
    have hmem := FileTree.mem_children.mp hn
    rw [World.node_mkdirs_cmd hwords hentry] at hmem
    have hchild := FileTree.mem_children.mpr hmem
    rw [hready.2 hold] at hchild
    cases hchild

include hremote hname

theorem addfile_arrives : (addPulled (openEnv listing) id remote w).1 = true ∧
    regularAt (addPulled (openEnv listing) id remote w).2.fs (addedFile id remote) = some [1] := by
  have hdst : Quotable (addedFile id remote) := addedFile_quotable hbare.quotable hremote
  have hresolve : resolve (addedFile id remote) = addfilePath id ++ [baseOnly remote] := by
    rw [addedFile, resolve_join_proper _ hname, resolve_addfileDir hid]
  have hwrite : ((w.mkdirs (openEnv listing) (addfileDir id)).unlink (addedFile id remote)).fs.Writable
      (addfilePath id ++ [baseOnly remote]) := by
    rw [World.unlink_fs (by rwa [baseOnly_addedFile]), hresolve]
    exact addfile_writable hid hbare hready
  have hpulled : addPulled (openEnv listing) id remote w =
      ((w.mkdirs (openEnv listing) (addfileDir id)).unlink (addedFile id remote)).pullFile (openEnv listing)
        0 1 none remote (addedFile id remote) := by
    simp only [addPulled, open_remoteSize hremote]
  rw [hpulled]
  refine ⟨open_lands hremote hdst (.inl ⟨hname, hresolve ▸ hwrite⟩), ?_⟩
  rw [World.pullFile, open_scp hremote hdst, if_pos hname, hresolve, target, hwrite.2.2, addedFile,
    regularAt_join _ hname, resolve_addfileDir hid, textAt_eq_some]
  simp only [Bool.false_eq_true, if_false, World.node_put]
  exact if_pos ⟨trivial, hwrite⟩

end

theorem addfile_strays (hid : ProperName id)
    (h : Contained (addfileThread (openEnv listing) id remote w)) : addfileSafe w.fs id remote := by
  rcases addfileThread_cases (openEnv listing) id remote w with ⟨hcontrol, -⟩ | ⟨hcontrol, m, heq⟩
  · exact .inl hcontrol
  · rw [heq] at h
    have hpulled : etc ∉ (addPulled (openEnv listing) id remote w).2.writes := fun hetc =>
      not_contained hetc grows_addedOrNot h
    have hbare : Bare id := by
      by_contra hnot
      have hmade : etc ∈ (w.mkdirs (openEnv listing) (addfileDir id)).writes :=
        etc_mkdirs fun hb => hnot (bare_jobDir.mp hb).1
      exact hpulled (grows_addPulled (Grows.remoteSize hmade))
    have hremote : Quotable remote := by
      by_contra hnot
      exact hpulled (grows_addPulled (etc_remoteSize hnot))
    refine .inr ⟨hbare, hremote, fun hname hready hwrite => ?_⟩
    obtain ⟨hok, hfile⟩ : (addPulled (openEnv listing) id remote w).1 = true ∧ _ :=
      addfile_arrives hid hbare hremote hname hready
    have hsrc : Quotable (addedFile id remote) := addedFile_quotable hbare.quotable hremote
    have hbase : baseOnly (addedFile id remote) = baseOnly remote := baseOnly_addedFile
    have hcopied : copyTarget w.fs id (baseOnly (addedFile id remote)) ∈
        ((addPulled (openEnv listing) id remote w).2.cp (openEnv listing) 0 (addedFile id remote)
          (join (guestDir id) (baseOnly (addedFile id remote)))).2.writes :=
      open_cp_guest ⟨hid, hbare.quotable⟩ hsrc (sameGuest_addPulled hid hbare hremote hname) hfile
        (by rw [hbase]; exact hwrite)
    rw [hbase] at hcopied
    have hwritten : copyTarget w.fs id (baseOnly remote) ∈
        (addedOrNot (openEnv listing) id remote w).2.writes := by
      rw [addedOrNot, if_pos hok]
      exact Grows.unlink hcopied
    exact (wellPlaced_copyTarget hid).mp (h _ hwritten)

/-! ## addguest -/

theorem open_takes {dirText : Bytes} (hremote : Quotable remote) (hdirText : Quotable dirText)
    (hcontrol : isControlFile (baseOnly remote) = false) (hroot : resolve dirText ≠ [])
    (h : Contained (w.pullFile (openEnv listing) i attempt none remote
      (join dirText (baseOnly remote))).2) : Takes w.fs (resolve dirText) remote := by
  intro hname hwrite
  have hdst : Quotable (join dirText (baseOnly remote)) :=
    quotable_join.mpr ⟨hdirText, quotable_base hremote⟩
  have hresolve : resolve (join dirText (baseOnly remote)) = resolve dirText ++ [baseOnly remote] :=
    resolve_join_proper _ hname
  have harrived := h _ (open_arrives hremote hdst hname (hresolve ▸ hwrite))
  rw [hresolve] at harrived
  exact (wellPlaced_target hname hcontrol hroot).mp harrived

theorem addguest_strays (h : Contained (addguestThread (openEnv listing) id ifs conf ip w)) :
    addguestSafe w.fs id ifs conf := by
  rcases addguestThread_cases (openEnv listing) id ifs conf ip w with ⟨hold, -⟩ |
    ⟨⟨hdir, hnode, hconf, hifs⟩, m, heq⟩
  · rcases hold with hold | hold | hold | hold
    · exact .inl hold
    · exact .inr (.inl hold)
    · exact .inr (.inr (.inl hold))
    · exact .inr (.inr (.inr (.inl hold)))
  · have hroot : resolve (guestDir id) ≠ [] := by
      intro hnil
      rw [hnil, FileTree.isDir_iff.mpr (.inl rfl)] at hdir
      cases hdir
    rw [heq] at h
    have hall : Contained (guestPulled (openEnv listing) id ifs conf w).2 :=
      (Contained.congr withIp_writes).mp h
    have hgrows : Grows (confPulled (openEnv listing) id conf w).2
        (guestPulled (openEnv listing) id ifs conf w).2 := by
      unfold guestPulled
      split
      · exact fun _ hq => Grows.pullFile (Grows.remoteSize hq)
      · exact Grows.refl _
    have hfirst : etc ∉ (confPulled (openEnv listing) id conf w).2.writes := fun hetc =>
      not_contained hetc hgrows hall
    have hbare : Bare id := by
      by_contra hnot
      have hmade : etc ∈ (w.mkdirs (openEnv listing) (guestDir id)).writes :=
        etc_mkdirs fun hb => hnot (bare_guestDir.mp hb)
      exact hfirst (Grows.pullFile (Grows.remoteSize hmade))
    have hquote : Quotable conf := by
      by_contra hnot
      exact hfirst (Grows.pullFile (etc_remoteSize hnot))
    have hwords : Bare (guestDir id) := bare_guestDir.mpr hbare
    have hdst : ∀ remote, Quotable remote → Quotable (join (guestDir id) (baseOnly remote)) :=
      fun remote hremote => quotable_join.mpr ⟨hwords.quotable, quotable_base hremote⟩
    have hpulled : confPulled (openEnv listing) id conf w = (w.mkdirs (openEnv listing) (guestDir id)).pullFile
        (openEnv listing) 0 1 none conf (join (guestDir id) (baseOnly conf)) := by
      simp only [confPulled, open_remoteSize hquote]
    have hmade : (w.mkdirs (openEnv listing) (guestDir id)).fs = w.fs.mkdirs (steps (guestDir id)) :=
      open_mkdirs hwords
    refine .inr (.inr (.inr (.inr ⟨hbare, hquote, ?_, fun hland => ?_⟩)))
    · have hcontained : Contained (confPulled (openEnv listing) id conf w).2 := hall.of_grows hgrows
      rw [hpulled] at hcontained
      rw [← hmade]
      exact open_takes hquote hwords.quotable hconf hroot hcontained
    · have hok : (confPulled (openEnv listing) id conf w).1 = true := by
        rw [hpulled]
        rw [← hmade] at hland
        exact open_lands hquote (hdst conf hquote) hland
      rw [guestPulled, if_pos hok] at hall
      have hquoteIfs : Quotable ifs := by
        by_contra hnot
        exact not_contained (etc_remoteSize hnot) Grows.pullFile hall
      simp only [ifsPulled, open_remoteSize hquoteIfs] at hall
      have htakes := open_takes hquoteIfs hwords.quotable hifs hroot hall
      refine ⟨hquoteIfs, (Takes.congr fun q => ?_).mp htakes⟩
      rw [hpulled, ← hmade]
      exact isDir_scp hquote (hdst conf hquote) q

/-! ## Jobs of commands -/

/-- The guest of a job. -/
def Job.guest : Job → Bytes
  | .ota id _ => id
  | .fetch id _ => id
  | .apply id _ => id
  | .addfile id _ => id
  | .addguest id _ _ _ => id

/-- What holds of the words of a job when `handle_command` has started it. -/
def Job.Started (guests : List Guest) : Job → Prop
  | .ota id _ => ∃ g ∈ guests, g.id.bytes = id
  | .fetch id paths => (∃ g ∈ guests, g.id.bytes = id) ∧
      ∀ remote ∈ paths, isControlFile (baseOnly remote) = false
  | .apply id _ => ∃ g ∈ guests, g.id.bytes = id
  | .addfile id _ => ∃ g ∈ guests, g.id.bytes = id
  | .addguest .. => True

theorem known_id {guests : List Guest} (h : ¬ findGuest guests id = none) :
    ∃ g ∈ guests, g.id.bytes = (CStr.fit 32 id).bytes := by
  obtain ⟨g, hg⟩ := Option.ne_none_iff_exists'.mp h
  have hid : g.id.bytes = id := by simpa using List.find?_some hg
  refine ⟨g, List.mem_of_find?_eq_some hg, ?_⟩
  have hshort := g.id.short
  rw [← hid, CStr.fit_of_short g.id.noNul (by omega)]

theorem handleCommand_started {guests : List Guest} {cmd : Bytes} {job : Job}
    (h : handleCommand guests cmd = some job) : job.Started guests := by
  unfold handleCommand at h
  split at h
  · cases h
  · next action line _ =>
    split at h
    · split at h
      · split at h
        · cases h
        · next hknown =>
          cases h
          exact known_id (not_or.mp hknown).2
      · cases h
    · split at h
      · split at h
        · dsimp only at h
          split at h
          · cases h
          · next hknown =>
            split at h
            · cases h
            · next hcontrol =>
              cases h
              exact ⟨known_id hknown, by simpa using hcontrol⟩
        · cases h
      · split at h
        · split at h
          · split at h
            · cases h
            · next hknown =>
              cases h
              exact known_id hknown
          · cases h
        · split at h
          · split at h
            · split at h
              · cases h
              · next hknown =>
                cases h
                exact known_id hknown
            · cases h
          · split at h
            · split at h
              · cases h
                trivial
              · cases h
            · cases h

/-- The guests come from directories whose names begin with `guest-`. -/
theorem guest_ids_proper {env : RefreshEnv} {h : Host} (hentries : ∀ d ∈ env.entries, slash ∉ d.name) :
    ∀ g ∈ (refresh env h).guests, ProperName g.id.bytes := by
  intro g hg
  obtain ⟨d, hd, rfl⟩ := List.mem_map.mp hg
  obtain ⟨hmem, hguest⟩ := List.mem_filter.mp (List.mem_of_mem_take hd)
  obtain ⟨rest, hrest⟩ := List.isPrefixOf_iff_prefix.mp (of_decide_eq_true hguest).2.1
  have hid : (guestOf env.cfg h d).id.bytes = utf8 "guest-" ++ (cString rest).take 25 := by
    have hkeep : ∀ b ∈ utf8 "guest-", (b != 0) = true :=
      List.all_eq_true.mp (by decide)
    have hcut : cString (utf8 "guest-" ++ rest) = utf8 "guest-" ++ cString rest :=
      List.takeWhile_append_of_pos hkeep
    rw [guestOf_id, ← hrest]
    change (cString (utf8 "guest-" ++ rest)).take 31 = _
    rw [hcut]
    rfl
  have hslash : slash ∉ (cString rest).take 25 := fun hmem' => by
    refine hentries d hmem (hrest ▸ List.mem_append_right _ ?_)
    exact (List.takeWhile_sublist _).subset (List.mem_of_mem_take hmem')
  have hguest : slash ∉ utf8 "guest-" := by decide
  have hlong : 6 ≤ (guestOf env.cfg h d).id.bytes.length := by
    rw [hid, List.length_append]
    exact Nat.le_add_right 6 _
  refine ⟨?_, ?_, ?_, ?_⟩
  · rintro hnil
    simp [hnil] at hlong
  · rintro hdot
    simp [hdot] at hlong
  · rintro hdots
    simp [hdots] at hlong
  · rw [hid, List.mem_append, not_or]
    exact ⟨hguest, hslash⟩

def Job.Safe (t : FileTree) : Job → Prop
  | .ota id remote => otaSafe t id remote
  | .fetch id paths => fetchSafe t id paths
  | .apply id _ => applySafe t id
  | .addfile id remote => addfileSafe t id remote
  | .addguest id ifs conf _ => addguestSafe t id ifs conf

/-- Directory entries have names. -/
def NamedEntries (t : FileTree) : Prop := ∀ p, ∀ name ∈ t.children p, ProperName name

theorem contained_begin (t : FileTree) (h : Host) : Contained (World.begin t h) := fun _ hp => by
  cases hp

/-- An empty stage goes away for a path without a name, and the next path is never reached. -/
example : fetchSafe (smallTree []) guestA [utf8 "/up/", utf8 "/up/$x"] := by
  refine ⟨by decide, by decide, fun hfetch => ?_⟩
  have hplace := hfetch.2
  rw [if_neg (by decide)] at hplace
  exact absurd (hplace.1 (by decide)) (by decide)

/-! ## Two commands -/

theorem namedEntries_of_keys
    (h : (t.nodes.keys.all fun q => q.getLast?.all fun n => ProperName n) = true) : NamedEntries t := by
  intro p name hname
  have hkey : p ++ [name] ∈ t.nodes.keys := AList.mem_keys.mp
    (AList.lookup_isSome.mp (Option.isSome_iff_ne_none.mpr (FileTree.mem_children.mp hname)))
  simpa using List.all_eq_true.mp h _ hkey

def emptyStageEnv : JobEnv := { calmEnv with listing := [] }

end QnxHypervisor.OtaUpdate
