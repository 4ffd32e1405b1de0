import QnxHypervisor.OtaUpdate.Archive

/-! # What the commands write

Where the writes of one command go, and when a transfer passes the size test. A
tree that has a file at a path could be written there; directories change only by
`mkdir` and `remove`.
-/

namespace QnxHypervisor.OtaUpdate

open Foundation GuestManager HmsStatus

variable {w : World} {env : JobEnv} {id name remote dst src path : Bytes} {p q : Path}
  {i attempt : Nat} {t : FileTree}

/-! ## Trees -/

theorem writable_of_file {c : Bytes} (h : t.node p = some (.file c)) (hp : p ≠ []) :
    t.Writable p := by
  refine ⟨hp, ?_, FileTree.not_isDir_file h hp⟩
  apply FileTree.isDir_parent (n := p.getLast hp)
  rw [List.dropLast_concat_getLast hp, h]
  simp

theorem not_writable_target (h : t.isDir q = false) : ¬ t.Writable (target t (q ++ [name]) name) := by
  unfold target
  split
  · next hdir =>
    rcases FileTree.isDir_iff.mp hdir with hroot | ⟨size, hnode⟩
    · simp at hroot
    · have hparent : t.isDir q = true := FileTree.isDir_parent (n := name) (by simp [hnode])
      rw [h] at hparent
      cases hparent
  · intro hwrite
    have hparent := hwrite.2.1
    rw [List.dropLast_concat, h] at hparent
    cases hparent

theorem node_mkdirs_away {way : List Path} (hq : q ∉ way) : (t.mkdirs way).node q = t.node q := by
  rcases FileTree.node_mkdirs t way q with hsame | ⟨-, -, hway, -⟩
  · exact hsame
  · exact absurd hway hq

theorem isDir_congr {t' : FileTree} (h : t'.node q = t.node q) : t'.isDir q = t.isDir q := by
  rw [Bool.eq_iff_iff, FileTree.isDir_iff, FileTree.isDir_iff, h]

theorem size_congr {t' : FileTree} (h : t'.node q = t.node q) : t'.size q = t.size q := by
  rw [FileTree.size, FileTree.size, h]

theorem statSize_congr {t' : FileTree} (h : t'.node (resolve path) = t.node (resolve path))
    (hdir : t'.isDir (resolve (dirPart path)) = t.isDir (resolve (dirPart path))) :
    statSize t' path = statSize t path := by
  rw [statSize, statSize, hdir, size_congr h]

theorem regularAt_proper {c : Bytes} (h : regularAt t path = some c) : ProperName (baseOnly path) := by
  unfold regularAt at h
  split at h
  · assumption
  · cases h

/-! ## The directories of a job -/

theorem steps_jobDir {sub : Bytes} (hid : ProperName id) (hsub : ProperName sub) :
    steps (jobDir id sub) =
      [[], [], [utf8 "tmp"], [utf8 "tmp", utf8 "ota"], jobPath id, jobPath id ++ [sub]] := by
  have hroot : steps (utf8 "/tmp/ota") = [[], [], [utf8 "tmp"], [utf8 "tmp", utf8 "ota"]] := by decide
  have hjob : resolve (join (utf8 "/tmp/ota") id) = jobPath id := by
    have hparent : resolve (utf8 "/tmp/ota") = [utf8 "tmp", utf8 "ota"] := by decide
    rw [resolve_join_proper _ hid, hparent]
    rfl
  rw [← resolve_jobDir hid hsub, jobDir, steps_join _ hsub.noSlash, steps_join _ hid.noSlash, hroot, hjob]
  rfl

theorem guest_not_job {sub : Bytes} (hid : ProperName id) (hsub : ProperName sub) (rest : Path) :
    guestPath id ++ rest ∉ steps (jobDir id sub) := by
  have hhead : utf8 "guests" ≠ utf8 "tmp" := by decide
  rw [steps_jobDir hid hsub]
  simp [guestPath, jobPath, hhead]

/-- Only the directory itself is made below the job's. -/
theorem sub_not_job {sub other : Bytes} (hid : ProperName id) (hsub : ProperName sub)
    (hne : other ≠ sub) (rest : Path) : jobPath id ++ other :: rest ∉ steps (jobDir id sub) := by
  rw [steps_jobDir hid hsub]
  simp [jobPath, hne]

theorem entry_not_job {sub : Bytes} (hid : ProperName id) (hsub : ProperName sub) (name : Bytes) :
    jobPath id ++ [sub] ++ [name] ∉ steps (jobDir id sub) := by
  rw [steps_jobDir hid hsub]
  simp [jobPath]

namespace World

theorem node_mkdirs_cmd (h : Bare path) (hq : q ∉ steps path) :
    (w.mkdirs env path).fs.node q = w.fs.node q := by
  rw [mkdirs_fs h]
  split
  · exact node_mkdirs_away hq
  · rfl

/-! ## Writes of a command -/

theorem mem_writes_scp (hremote : Quotable remote) (hdst : Quotable dst)
    (hp : p ∈ (w.scp env i attempt remote dst).writes) :
    p ∈ w.writes ∨ ProperName (baseOnly remote) ∧
      p = target w.fs (resolve dst) (baseOnly remote) ∧ w.fs.Writable p := by
  rcases scp_cases hremote hdst with ⟨heq, -⟩ | ⟨c, k, hfile, -, heq⟩
  · rw [heq] at hp
    exact .inl hp
  · rw [heq, mem_writes_put] at hp
    rcases hp with hold | ⟨rfl, hwrite⟩
    · exact .inl hold
    · exact .inr ⟨env.server.named remote (by simp [hfile]), rfl, hwrite⟩

theorem mem_writes_cp (hsrc : Quotable src) (hdst : Quotable dst)
    (hp : p ∈ (w.cp env i src dst).2.writes) :
    p ∈ w.writes ∨ (∃ c, regularAt w.fs src = some c) ∧
      p = target w.fs (resolve dst) (baseOnly src) ∧ w.fs.Writable p := by
  rcases cp_cases hsrc hdst with ⟨c, htext, -, -, heq⟩ | ⟨c, k, htext, -, heq⟩ | ⟨-, heq⟩
  · rw [heq] at hp
    refine (mem_writes_put.mp hp).imp_right fun ⟨htarget, hwrite⟩ => ?_
    exact ⟨⟨c, htext⟩, htarget, htarget ▸ hwrite⟩
  · rw [heq] at hp
    refine (mem_writes_put.mp hp).imp_right fun ⟨htarget, hwrite⟩ => ?_
    exact ⟨⟨c, htext⟩, htarget, htarget ▸ hwrite⟩
  · rw [heq] at hp
    exact .inl hp

theorem mem_writes_extractAll {dir : Path} {members : List Member}
    (hp : p ∈ (extractAll dir members w).2.writes) :
    p ∈ w.writes ∨ ∃ m ∈ members, p = dir ++ m.path := by
  induction members generalizing w with
  | nil => exact .inl hp
  | cons m rest ih =>
      have hone : p ∈ (extract dir w m).2.writes → p ∈ w.writes ∨ p = dir ++ m.path := by
        unfold extract
        cases m.content with
        | none => simp
        | some c =>
            dsimp only
            rw [mem_writes_put]
            exact Or.imp_right And.left
      rcases ih hp with hfirst | ⟨m', hm', heq⟩
      · exact (hone hfirst).imp_right fun heq => ⟨m, List.mem_cons_self, heq⟩
      · exact .inr ⟨m', List.mem_cons_of_mem _ hm', heq⟩

theorem mem_writes_unpack {status : Int} {members : List Member}
    (hp : p ∈ (w.unpack status [] (stagedMembers id members)).2.writes) :
    p ∈ w.writes ∨ ∃ rest, p = stagePath id ++ rest := by
  unfold unpack at hp
  split at hp
  · exact .inl hp
  · refine (mem_writes_extractAll hp).imp_right ?_
    rintro ⟨m, hm, rfl⟩
    obtain ⟨rest, hrest⟩ := (mem_stagedMembers.mp hm).2
    exact ⟨rest, hrest.symm⟩

/-! ## The size test -/

theorem remoteSize_ne_zero : (w.remoteSize env i remote).1 ≠ some 0 := by
  unfold remoteSize
  split
  · dsimp only
    split
    · simp
    · next hpos =>
      intro h
      simp only [Option.some.injEq] at h
      omega
  · split
    · simp
    · split
      · simp
      · split <;> simp_all

end World

/-- A transfer to this path can pass the size test. -/
def Landable (t : FileTree) (dst name : Bytes) : Prop :=
  ProperName name ∧ t.Writable (resolve dst) ∨ 0 < statSize t dst

theorem landed_pos {size : Option Nat} {n : Nat} (hsize : size ≠ some 0)
    (h : World.landed size n = true) : 0 < n := by
  cases size with
  | none => simpa [World.landed] using h
  | some s =>
      have hs : s ≠ 0 := fun hs => hsize (hs ▸ rfl)
      have hle : s ≤ n := by simpa [World.landed] using h
      omega

theorem landed_size {size : Option Nat} (hsize : size ≠ some 0)
    (h : World.landed size (statSize t path) = true) : World.landed size (t.size (resolve path)) = true := by
  rw [← (statSize_pos (landed_pos hsize h)).2]
  exact h

theorem landable_of_landed {size : Option Nat} (hremote : Quotable remote) (hdst : Quotable dst)
    (hsize : size ≠ some 0) (h : (w.pullFile env i attempt size remote dst).1 = true) :
    Landable w.fs dst (baseOnly remote) := by
  have hpos : 0 < statSize (w.scp env i attempt remote dst).fs dst := landed_pos hsize h
  rcases World.scp_cases hremote hdst with ⟨heq, -⟩ | ⟨c, k, hfile, -, heq⟩
  · rw [heq] at hpos
    exact .inr hpos
  · have hname : ProperName (baseOnly remote) := env.server.named remote (by simp [hfile])
    rw [heq] at hpos
    by_cases hself : resolve dst = target w.fs (resolve dst) (baseOnly remote) ∧
        w.fs.Writable (target w.fs (resolve dst) (baseOnly remote))
    · exact .inl ⟨hname, hself.1 ▸ hself.2⟩
    · rw [statSize_congr (World.node_put.trans (if_neg hself)) World.isDir_put] at hpos
      exact .inr hpos

/-! ## Writes are kept -/

/-- All that was written before counts as written after. -/
def Grows (w w' : World) : Prop := w.writes ⊆ w'.writes

namespace Grows

variable {w₁ w₂ w₃ : World}

theorem refl (w : World) : Grows w w := List.Subset.refl _

theorem trans (h : Grows w₁ w₂) (h' : Grows w₂ w₃) : Grows w₁ w₃ := List.Subset.trans h h'

theorem of_eq (h : w₂.writes = w₁.writes) : Grows w₁ w₂ := fun _ hq => h.symm ▸ hq

theorem publish {m : StatusMessage} : Grows w (w.publish m) := of_eq rfl

theorem report {stage : String} {progress : Int32} {msg : Bytes} :
    Grows w (w.report id stage progress msg) := publish

theorem runShell {words : List Bytes} : Grows w (w.runShell env words).2 := List.subset_append_left _ _

theorem put {c : Bytes} : Grows w (w.put p c) := fun _ hq => World.mem_writes_put.mpr (.inl hq)

theorem unlink : Grows w (w.unlink path) := of_eq World.unlink_writes

theorem mkdirs : Grows w (w.mkdirs env path) := by
  unfold World.mkdirs
  split
  · exact runShell
  · split <;> exact refl _

theorem remoteSize : Grows w (w.remoteSize env i remote).2 := by
  unfold World.remoteSize
  split
  · exact runShell
  · split
    · exact refl _
    · split <;> exact refl _

theorem scp : Grows w (w.scp env i attempt remote dst) := by
  unfold World.scp
  split
  · exact runShell
  · split
    · exact put
    · exact refl _

theorem pullFile {size : Option Nat} : Grows w (w.pullFile env i attempt size remote dst).2 := scp

theorem cp : Grows w (w.cp env i src dst).2 := by
  unfold World.cp
  split
  · exact runShell
  · split
    · exact refl _
    · dsimp only
      split
      · exact put
      · exact put
      · exact refl _

theorem untar {dir : Bytes} : Grows w (w.untar env dir path).2 := by
  unfold World.untar
  dsimp only
  split
  · exact runShell
  · split
    · exact refl _
    · unfold World.unpack
      split
      · exact refl _
      · exact fun _ hq => World.extractAll_writes hq

end Grows

end QnxHypervisor.OtaUpdate
