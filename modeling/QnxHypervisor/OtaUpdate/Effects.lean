import QnxHypervisor.OtaUpdate.Jobs

/-! # What each command does

Where the paths of the jobs lead and what a command leaves behind. The proofs
about jobs cite these and never unfold a command.
-/

namespace QnxHypervisor.OtaUpdate

open Foundation GuestManager HmsStatus

variable {w : World} {env : JobEnv} {id name : Bytes} {p q : Path}

/-! ## Paths -/

def guestPath (id : Bytes) : Path := [utf8 "guests", id]
def jobPath (id : Bytes) : Path := [utf8 "tmp", utf8 "ota", id]
def stagePath (id : Bytes) : Path := jobPath id ++ [utf8 "stage"]
def packagePath (id : Bytes) : Path := jobPath id ++ [utf8 "package"]
def addfilePath (id : Bytes) : Path := jobPath id ++ [utf8 "addfile"]
def metaPath (id : Bytes) : Path := guestPath id ++ [metaName]

theorem guest_ne_job (id id' : Bytes) (rest rest' : Path) :
    guestPath id ++ rest ≠ jobPath id' ++ rest' := by
  have hhead : utf8 "guests" ≠ utf8 "tmp" := by decide
  simp [guestPath, jobPath, hhead]

theorem stage_ne_guest (id id' : Bytes) (rest rest' : Path) :
    stagePath id ++ rest ≠ guestPath id' ++ rest' := fun heq => by
  rw [stagePath, List.append_assoc] at heq
  exact guest_ne_job _ _ _ _ heq.symm

theorem resolve_guestDir (h : ProperName id) : resolve (guestDir id) = guestPath id := by
  have hroot : resolve (utf8 "/guests") = [utf8 "guests"] := by decide
  rw [guestDir, resolve_join_proper _ h, hroot]
  rfl

theorem resolve_jobDir {sub : Bytes} (h : ProperName id) (hsub : ProperName sub) :
    resolve (jobDir id sub) = jobPath id ++ [sub] := by
  have hroot : resolve (utf8 "/tmp/ota") = [utf8 "tmp", utf8 "ota"] := by decide
  rw [jobDir, resolve_join_proper _ hsub, resolve_join_proper _ h, hroot]
  rfl

theorem resolve_stageDir (h : ProperName id) : resolve (stageDir id) = stagePath id :=
  resolve_jobDir h (by decide)

theorem resolve_packageDir (h : ProperName id) : resolve (packageDir id) = packagePath id :=
  resolve_jobDir h (by decide)

theorem resolve_addfileDir (h : ProperName id) : resolve (addfileDir id) = addfilePath id :=
  resolve_jobDir h (by decide)

theorem resolve_metaFile (h : ProperName id) : resolve (metaFile id) = metaPath id := by
  rw [metaFile, resolve_join_proper _ (by decide), resolve_guestDir h]
  rfl

theorem baseOnly_noSlash (path : Bytes) : slash ∉ baseOnly path := by
  intro h
  have hmem := List.mem_takeWhile_imp (List.mem_reverse.mp h)
  exact absurd hmem (by decide)

theorem baseOnly_join (dir : Bytes) {n : Bytes} (h : slash ∉ n) : baseOnly (join dir n) = n := by
  have hkeep : ∀ b ∈ n.reverse, (b != 47) = true := fun b hb => by
    simp only [bne_iff_ne, ne_eq]
    rintro rfl
    exact h (List.mem_reverse.mp hb)
  rw [baseOnly, baseName, join, List.reverse_append, List.reverse_cons, List.append_assoc,
    List.takeWhile_append_of_pos hkeep]
  simp [slash]

theorem resolve_dirPart (dir : Bytes) {n : Bytes} (h : slash ∉ n) :
    resolve (dirPart (join dir n)) = resolve dir := by
  have hdir : dirPart (join dir n) = join dir [] := by
    rw [dirPart, baseOnly_join dir h, join, join, List.length_append, List.length_cons,
      show dir.length + (n.length + 1) - n.length = dir.length + 1 by omega, List.take_length_add_append]
    rfl
  rw [hdir, resolve_join dir (by simp)]
  exact if_pos (.inl rfl)

theorem statSize_proper {t : FileTree} (dir : Bytes) {n : Bytes} (h : ProperName n) :
    statSize t (join dir n) = t.size (resolve (join dir n)) := by
  unfold statSize
  rw [resolve_dirPart dir h.noSlash]
  split
  · rfl
  · next hdir =>
    have hnone : t.node (resolve (join dir n)) = none := by
      by_contra hsome
      rw [resolve_join_proper dir h] at hsome
      exact hdir (FileTree.isDir_parent hsome)
    rw [FileTree.size_none _ hnone]
    simp [resolve_join_proper dir h]

theorem statSize_pos {t : FileTree} {path : Bytes} (h : 0 < statSize t path) :
    t.isDir (resolve (dirPart path)) = true ∧ statSize t path = t.size (resolve path) := by
  unfold statSize at h ⊢
  split
  · next hdir => exact ⟨hdir, rfl⟩
  · next hdir =>
    rw [if_neg hdir] at h
    cases h

theorem textAt_eq_some {t : FileTree} {c : Bytes} : textAt t p = some c ↔ t.node p = some (.file c) := by
  unfold textAt
  cases h : t.node p with
  | none => simp
  | some node => cases node <;> simp

/-! ## Words -/

theorem quotable_guestDir : Quotable (guestDir id) ↔ Quotable id := by
  rw [guestDir, quotable_join]
  exact and_iff_right (by decide)

theorem quotable_jobDir {sub : Bytes} : Quotable (jobDir id sub) ↔ Quotable id ∧ Quotable sub := by
  rw [jobDir, quotable_join, quotable_join]
  exact and_congr_left' (and_iff_right (by decide))

theorem mem_baseOnly {path : Bytes} {b : UInt8} (h : b ∈ baseOnly path) : b ∈ path :=
  List.mem_reverse.mp ((List.takeWhile_sublist _).subset (List.mem_reverse.mp h))

theorem quotable_base {remote : Bytes} (h : Quotable remote) : Quotable (baseOnly remote) :=
  fun b hb => h b (mem_baseOnly hb)

theorem bare_base {remote : Bytes} (h : Bare remote) : Bare (baseOnly remote) :=
  fun b hb => h b (mem_baseOnly hb)

theorem quotable_guestFile (hid : Quotable id) (hname : Quotable name) :
    Quotable (join (guestDir id) name) := quotable_join.mpr ⟨quotable_guestDir.mpr hid, hname⟩

theorem quotable_stageFile (hid : Quotable id) (hname : Quotable name) :
    Quotable (join (stageDir id) name) :=
  quotable_join.mpr ⟨quotable_jobDir.mpr ⟨hid, by decide⟩, hname⟩

theorem bare_guestDir : Bare (guestDir id) ↔ Bare id := by
  rw [guestDir, bare_join]
  exact and_iff_right (by decide)

theorem bare_jobDir {sub : Bytes} : Bare (jobDir id sub) ↔ Bare id ∧ Bare sub := by
  rw [jobDir, bare_join, bare_join]
  exact and_congr_left' (and_iff_right (by decide))

/-! ## Reports -/

/-- The job has reported success. -/
def Succeeded (id : Bytes) (w : World) : Prop := ∃ msg, .otaResult id true msg ∈ w.published

/-- The job has reported that it failed. -/
def Failed (id : Bytes) (w : World) : Prop :=
  ∃ msg, .otaProgress id (utf8 "failed") 0 msg ∈ w.published

theorem Succeeded.congr {w' : World} (h : w'.published = w.published) :
    Succeeded id w' ↔ Succeeded id w := by
  rw [Succeeded, h]
  rfl

theorem Failed.congr {w' : World} (h : w'.published = w.published) : Failed id w' ↔ Failed id w := by
  rw [Failed, h]
  rfl

theorem succeeded_report (stage : String) (progress : Int32) (msg : Bytes) :
    Succeeded id (w.report id stage progress msg) ↔ Succeeded id w := by
  simp [Succeeded, World.report, World.publish]

theorem failed_report {stage : String} {progress : Int32} {msg : Bytes}
    (h : utf8 stage ≠ utf8 "failed") : Failed id (w.report id stage progress msg) ↔ Failed id w := by
  simp [Failed, World.report, World.publish, h.symm]

theorem failed_reported (msg : Bytes) : Failed id (w.report id "failed" 0 msg) :=
  ⟨msg, by simp [World.report, World.publish]⟩

namespace World

/-! ## Messages -/

section
variable {m : StatusMessage} {stage : String} {progress : Int32} {msg : Bytes}

@[simp] theorem publish_fs : (w.publish m).fs = w.fs := rfl
@[simp] theorem publish_host : (w.publish m).host = w.host := rfl
@[simp] theorem publish_writes : (w.publish m).writes = w.writes := rfl
@[simp] theorem publish_published : (w.publish m).published = w.published ++ [m] := rfl
@[simp] theorem report_fs : (w.report id stage progress msg).fs = w.fs := rfl
@[simp] theorem report_host : (w.report id stage progress msg).host = w.host := rfl
@[simp] theorem report_writes : (w.report id stage progress msg).writes = w.writes := rfl
@[simp] theorem report_published : (w.report id stage progress msg).published =
    w.published ++ [.otaProgress id (utf8 stage) progress msg] := rfl

end

/-! ## Files -/

section
variable {path c : Bytes}

@[simp] theorem unlink_host : (w.unlink path).host = w.host := by
  unfold unlink
  split <;> rfl

@[simp] theorem unlink_writes : (w.unlink path).writes = w.writes := by
  unfold unlink
  split <;> rfl

@[simp] theorem unlink_published : (w.unlink path).published = w.published := by
  unfold unlink
  split <;> rfl

theorem unlink_fs (h : ProperName (baseOnly path)) : (w.unlink path).fs = w.fs.remove (resolve path) := by
  rw [unlink, if_pos (.inl h)]

@[simp] theorem put_host : (w.put p c).host = w.host := by
  unfold put
  split <;> rfl

@[simp] theorem put_published : (w.put p c).published = w.published := by
  unfold put
  split <;> rfl

theorem put_fs : (w.put p c).fs = w.fs.write p c := by
  unfold put
  split
  · rfl
  · next h => rw [FileTree.write_eq_self h]

theorem node_put : (w.put p c).fs.node q =
    if q = p ∧ w.fs.Writable p then some (.file c) else w.fs.node q := by
  rw [put_fs, FileTree.node_write]

@[simp] theorem isDir_put : (w.put p c).fs.isDir q = w.fs.isDir q := by
  rw [put_fs, FileTree.isDir_write]

theorem mem_writes_put : q ∈ (w.put p c).writes ↔ q ∈ w.writes ∨ q = p ∧ w.fs.Writable p := by
  unfold put
  split
  · next h => simp [h]
  · next h => simp [h]

end

/-! ## Lifecycle calls -/

section
variable {f : Host → Int × Host}

@[simp] theorem call_published : (w.call id f).2.published = w.published := rfl
@[simp] theorem call_writes : (w.call id f).2.writes = w.writes := rfl
@[simp] theorem call_status : (w.call id f).1 = (f w.calls).1 := rfl
@[simp] theorem call_host : (w.call id f).2.host = (f w.calls).2 := rfl
@[simp] theorem calls_procs : w.calls.procs = w.host.procs := rfl
@[simp] theorem calls_guests : w.calls.guests = w.host.guests := rfl

theorem call_fs : (w.call id f).2.fs =
    match (f w.calls).2.metas id with
    | some text => w.fs.write (resolve (metaFile id)) text
    | none => w.fs := rfl

theorem node_call (hid : ProperName id) (hq : q ≠ metaPath id) :
    (w.call id f).2.fs.node q = w.fs.node q := by
  rw [call_fs, resolve_metaFile hid]
  split
  · rw [FileTree.node_write, if_neg fun h => hq h.1]
  · rfl

theorem call_metas (hid : ProperName id) : w.calls.metas id = textAt w.fs (metaPath id) := by
  rw [← resolve_metaFile hid]
  rfl

theorem node_call_meta (hid : ProperName id) :
    (w.call id f).2.fs.node (metaPath id) = w.fs.node (metaPath id) ↔
      ∀ text, (f w.calls).2.metas id = some text → w.fs.Writable (metaPath id) →
        w.fs.node (metaPath id) = some (.file text) := by
  rw [call_fs, resolve_metaFile hid]
  cases (f w.calls).2.metas id with
  | none => simp
  | some text =>
      by_cases hwrite : w.fs.Writable (metaPath id)
      · simp [FileTree.node_write, hwrite, eq_comm]
      · simp [FileTree.node_write, hwrite]

/-- A call that leaves the metadata text leaves the tree. -/
theorem node_call_same (hid : ProperName id) (hsame : (f w.calls).2.metas id = w.calls.metas id)
    (q : Path) : (w.call id f).2.fs.node q = w.fs.node q := by
  rw [call_fs, hsame, call_metas hid, resolve_metaFile hid]
  split
  · next text heq =>
    rw [FileTree.node_write]
    split
    · next hq => rw [hq.1, textAt_eq_some.mp heq]
    · rfl
  · rfl

@[simp] theorem isDir_call : (w.call id f).2.fs.isDir q = w.fs.isDir q := by
  rw [call_fs]
  split
  · rw [FileTree.isDir_write]
  · rfl

end

/-! ## Commands -/

section
variable {path remote src dst : Bytes} {i attempt : Nat}

theorem mkdirs_host (h : Bare path) : (w.mkdirs env path).host = w.host := by
  unfold mkdirs
  rw [if_neg (not_not_intro h)]
  split_ifs <;> rfl

@[simp] theorem mkdirs_published : (w.mkdirs env path).published = w.published := by
  unfold mkdirs
  split_ifs <;> rfl

theorem mkdirs_fs (h : Bare path) : (w.mkdirs env path).fs =
    if env.mkdirOk then w.fs.mkdirs (steps path) else w.fs := by
  unfold mkdirs
  rw [if_neg (not_not_intro h)]
  split_ifs <;> simp_all

theorem mkdirs_writes (h : Bare path) : (w.mkdirs env path).writes = w.writes := by
  unfold mkdirs
  rw [if_neg (not_not_intro h)]
  split_ifs <;> rfl

theorem remoteSize_quotable (h : Quotable remote) : (w.remoteSize env i remote).2 = w := by
  unfold remoteSize
  rw [if_neg (not_not_intro h)]
  split
  · rfl
  · split <;> rfl

@[simp] theorem remoteSize_published : (w.remoteSize env i remote).2.published = w.published := by
  by_cases h : Quotable remote
  · rw [remoteSize_quotable h]
  · rw [remoteSize, if_pos h]
    rfl

theorem scp_cases (hremote : Quotable remote) (hdst : Quotable dst) :
    w.scp env i attempt remote dst = w ∧
      (env.server.file remote = none ∨ env.stored i attempt = none) ∨
    ∃ c k, env.server.file remote = some c ∧ env.stored i attempt = some k ∧
      w.scp env i attempt remote dst = w.put (target w.fs (resolve dst) (baseOnly remote)) (c.take k) := by
  unfold scp
  rw [if_neg (not_not_intro ⟨hremote, hdst⟩)]
  cases hfile : env.server.file remote with
  | none => exact .inl ⟨rfl, .inl rfl⟩
  | some c =>
      cases hstored : env.stored i attempt with
      | none => exact .inl ⟨rfl, .inr rfl⟩
      | some k => exact .inr ⟨c, k, rfl, rfl, rfl⟩

theorem scp_host (hremote : Quotable remote) (hdst : Quotable dst) :
    (w.scp env i attempt remote dst).host = w.host := by
  rcases scp_cases hremote hdst with ⟨heq, -⟩ | ⟨c, k, -, -, heq⟩
  · rw [heq]
  · rw [heq, put_host]

@[simp] theorem scp_published : (w.scp env i attempt remote dst).published = w.published := by
  unfold scp
  split
  · rfl
  · split
    · exact put_published
    · rfl

theorem cp_cases (hsrc : Quotable src) (hdst : Quotable dst) :
    (∃ c, regularAt w.fs src = some c ∧ env.copied i = .done ∧
      w.fs.Writable (target w.fs (resolve dst) (baseOnly src)) ∧
      w.cp env i src dst = (0, w.put (target w.fs (resolve dst) (baseOnly src)) c)) ∨
    (∃ c k, regularAt w.fs src = some c ∧ env.copied i = .cut k ∧
      w.cp env i src dst = (1, w.put (target w.fs (resolve dst) (baseOnly src)) (c.take k))) ∨
    (regularAt w.fs src = none ∨ env.copied i = .failed ∨ env.copied i = .done ∧
      ¬ w.fs.Writable (target w.fs (resolve dst) (baseOnly src))) ∧ w.cp env i src dst = (1, w) := by
  unfold cp
  rw [if_neg (not_not_intro ⟨hsrc, hdst⟩)]
  cases hfile : regularAt w.fs src with
  | none => exact .inr (.inr ⟨.inl rfl, rfl⟩)
  | some c =>
      cases hcopied : env.copied i with
      | done =>
          by_cases hwrite : w.fs.Writable (target w.fs (resolve dst) (baseOnly src))
          · exact .inl ⟨c, rfl, rfl, hwrite, by simp [hwrite]⟩
          · exact .inr (.inr ⟨.inr (.inr ⟨rfl, hwrite⟩), by simp [hwrite, put]⟩)
      | cut k => exact .inr (.inl ⟨c, k, rfl, rfl, rfl⟩)
      | failed => exact .inr (.inr ⟨.inr (.inl rfl), rfl⟩)

theorem cp_host (hsrc : Quotable src) (hdst : Quotable dst) : (w.cp env i src dst).2.host = w.host := by
  rcases cp_cases hsrc hdst with ⟨c, -, -, -, heq⟩ | ⟨c, k, -, -, heq⟩ | ⟨-, heq⟩
  · rw [heq, put_host]
  · rw [heq, put_host]
  · rw [heq]

@[simp] theorem cp_guests : (w.cp env i src dst).2.host.guests = w.host.guests := by
  by_cases hwords : Quotable src ∧ Quotable dst
  · rw [cp_host hwords.1 hwords.2]
  · rw [cp, if_pos hwords]
    rfl

@[simp] theorem cp_published : (w.cp env i src dst).2.published = w.published := by
  unfold cp
  split
  · rfl
  · split
    · rfl
    · dsimp only
      split
      · exact put_published
      · exact put_published
      · rfl

end

end World

/-! ## Removing -/

section
variable {path : Bytes}

theorem unlink_some {node : Node} (h : (w.unlink path).fs.node q = some node) :
    w.fs.node q = some node := by
  unfold World.unlink at h
  split at h
  · rw [FileTree.node_remove] at h
    split at h
    · cases h
    · exact h
  · exact h

theorem node_unlink_ne (hq : q ≠ resolve path) : (w.unlink path).fs.node q = w.fs.node q := by
  unfold World.unlink
  split
  · rw [FileTree.node_remove, if_neg fun h => hq h.1]
  · rfl

end

end QnxHypervisor.OtaUpdate
