import QnxHypervisor.OtaUpdate.Confined

/-! # Transfers and the size test

A transfer stores a prefix of the remote file, and the jobs take it for complete by
its size alone. When the size is known, or the transfer stores all or nothing, what
passes the test is complete. For `fetch`: what its attempts on one file leave in the
stage, and when they get through.
-/

namespace QnxHypervisor.OtaUpdate

open Foundation GuestManager HmsStatus

variable {w : World} {env : JobEnv} {id n remote dst path x : Bytes} {p q : Path} {t : FileTree}
  {i attempt left : Nat} {paths : List Bytes}

/-! ## The answer about the size -/

theorem sizeAnswer_file {c : Bytes} (hremote : Bare remote) (hfile : env.server.file remote = some c)
    (hsized : env.sized i = true) (hc : c ≠ []) : sizeAnswer env i remote = some c.length := by
  have hstat := env.server.statFile remote c hremote hfile
  simp [sizeAnswer, hsized, hstat, hc]

theorem sizeAnswer_le {c : Bytes} {size : Nat} (hremote : Bare remote)
    (hfile : env.server.file remote = some c) (h : sizeAnswer env i remote = some size) :
    size = c.length := by
  have hstat := env.server.statFile remote c hremote hfile
  unfold sizeAnswer at h
  split at h
  · cases h
  · rw [hstat, Option.filter_eq_some_iff] at h
    exact (Option.some.inj h.1).symm

/-! ## One transfer -/

/-- The transfer stores the whole file or nothing of it, or its size is known. -/
def WholeOrSized (env : JobEnv) (i attempt : Nat) (remote : Bytes) : Prop :=
  ∀ c k, env.server.file remote = some c → env.stored i attempt = some k →
    c.length ≤ k ∨ k = 0 ∨ env.sized i = true

theorem landed_whole {c : Bytes} {k : Nat} (hremote : Bare remote)
    (hwhole : WholeOrSized env i attempt remote) (hfile : env.server.file remote = some c)
    (hstored : env.stored i attempt = some k)
    (hland : World.landed (sizeAnswer env i remote) (c.take k).length = true) :
    c ≠ [] ∧ c.length ≤ k := by
  have hpos : 0 < (c.take k).length := landed_pos sizeAnswer_ne_zero hland
  have hlength : (c.take k).length = min k c.length := List.length_take
  have hc : c ≠ [] := by
    rintro rfl
    simp at hpos
  refine ⟨hc, ?_⟩
  rcases hwhole c k hfile hstored with hlong | hzero | hsized
  · exact hlong
  · omega
  · rw [sizeAnswer_file hremote hfile hsized hc] at hland
    have hreached : c.length ≤ (c.take k).length := by simpa [World.landed] using hland
    omega

theorem whole_landed {c : Bytes} (hremote : Bare remote) (hfile : env.server.file remote = some c)
    (hc : c ≠ []) : World.landed (sizeAnswer env i remote) c.length = true := by
  cases hanswer : sizeAnswer env i remote with
  | none => simpa [World.landed, List.length_pos_iff] using hc
  | some size => simp [World.landed, sizeAnswer_le hremote hfile hanswer]

theorem scp_file (hremote : Quotable remote) (hdst : Quotable dst)
    (h : (w.scp env i attempt remote dst).fs.node q = some (.file x)) :
    w.fs.node q = some (.file x) ∨ ProperName (baseOnly remote) ∧
      q = target w.fs (resolve dst) (baseOnly remote) ∧
      ∃ c k, env.server.file remote = some c ∧ env.stored i attempt = some k ∧ x = c.take k := by
  rcases World.scp_cases hremote hdst with ⟨heq, -⟩ | ⟨c, k, hfile, hstored, heq⟩
  · rw [heq] at h
    exact .inl h
  · rw [heq, World.node_put] at h
    split at h
    · next hplace =>
      have hcontent : c.take k = x := by simpa using h
      exact .inr ⟨env.server.named remote (by simp [hfile]), hplace.1, c, k, hfile, hstored, hcontent.symm⟩
    · exact .inl h

/-- A transfer that passes the test leaves the remote file, unless it has stored nothing
and the file was there before. -/
theorem pullFile_whole (hremote : Bare remote) (hdst : Quotable dst) (hroot : resolve dst ≠ [])
    (hwhole : WholeOrSized env i attempt remote)
    (hok : (w.pullFile env i attempt (sizeAnswer env i remote) remote dst).1 = true)
    (h : (w.pullFile env i attempt (sizeAnswer env i remote) remote dst).2.fs.node (resolve dst) =
      some (.file x)) :
    env.server.file remote = some x ∨ w.fs.node (resolve dst) = some (.file x) ∧
      (env.server.file remote = none ∨ env.stored i attempt = none) := by
  replace hok : World.landed _ ((w.scp env i attempt remote dst).fs.size (resolve dst)) = true :=
    landed_size sizeAnswer_ne_zero hok
  change (w.scp env i attempt remote dst).fs.node (resolve dst) = some (.file x) at h
  rcases World.scp_cases hremote.quotable hdst with ⟨heq, hnothing⟩ | ⟨c, k, hfile, hstored, heq⟩
  · rw [heq] at h
    exact .inr ⟨h, hnothing⟩
  · left
    rw [FileTree.size, h] at hok
    rw [heq, World.node_put] at h
    split at h
    · have hcontent : c.take k = x := by simpa using h
      rw [← hcontent] at hok ⊢
      have hlong := (landed_whole hremote hwhole hfile hstored hok).2
      rw [hfile, List.take_of_length_le hlong]
    · next hplace =>
      -- a file can be written, so it has been
      have hself : target w.fs (resolve dst) (baseOnly remote) = resolve dst := by
        rw [target, FileTree.not_isDir_file h hroot]
        rfl
      have hwrite : w.fs.Writable (resolve dst) := writable_of_file h hroot
      rw [hself] at hplace
      exact absurd ⟨rfl, hwrite⟩ hplace

/-! ## The attempts of fetch -/

section
variable {size : Option Nat} (hid : ProperName id) (hbare : Bare id) (hremote : Bare remote)

include hid hbare hremote

theorem attempted_file
    (h : (attempted env id remote i size left w).2.fs.node (stagePath id ++ [n]) = some (.file x)) :
    (retrying id remote left w).fs.node (stagePath id ++ [n]) = some (.file x) ∨
      n = baseOnly remote ∧ ProperName (baseOnly remote) ∧ env.server.file remote ≠ none ∧
        env.stored i (3 - left) ≠ none := by
  refine (scp_file hremote.quotable (quotable_staged hbare hremote.quotable) h).imp_right ?_
  rintro ⟨hname, hplace, c, k, hfile, hstored, -⟩
  rw [resolve_join_proper _ hname, resolve_stageDir hid] at hplace
  exact ⟨stage_target hplace, hname, by simp [hfile], by simp [hstored]⟩

theorem fetchAttempts_last (left : Nat) : ∃ last w₁, last ≤ left ∧
    fetchAttempts env id remote i size (left + 1) w = attempted env id remote i size last w₁ ∧
    ((attempted env id remote i size last w₁).1 = true ∨ last = 0) ∧
    (last = left ∧ w₁ = w ∨ last < left ∧ ∀ n x, w₁.fs.node (stagePath id ++ [n]) = some (.file x) →
      w.fs.node (stagePath id ++ [n]) = some (.file x) ∨
        n = baseOnly remote ∧ ProperName (baseOnly remote)) := by
  induction left generalizing w with
  | zero =>
      refine ⟨0, w, le_rfl, ?_, .inr rfl, .inl ⟨rfl, rfl⟩⟩
      rw [fetchAttempts_succ]
      split
      · next hok => exact Prod.ext hok.symm rfl
      · next hok =>
        have hfail : (attempted env id remote i size 0 w).1 = false := by simpa using hok
        exact Prod.ext hfail.symm rfl
  | succ left ih =>
      rw [fetchAttempts_succ]
      by_cases hok : (attempted env id remote i size (left + 1) w).1 = true
      · rw [if_pos hok]
        exact ⟨left + 1, w, le_rfl, Prod.ext hok.symm rfl, .inl hok, .inl ⟨rfl, rfl⟩⟩
      · rw [if_neg hok]
        have hback : ∀ n x, (attempted env id remote i size (left + 1) w).2.fs.node
            (stagePath id ++ [n]) = some (.file x) → w.fs.node (stagePath id ++ [n]) = some (.file x) ∨
              n = baseOnly remote ∧ ProperName (baseOnly remote) := fun n x h =>
          (attempted_file hid hbare hremote h).imp retrying_some fun hnew => ⟨hnew.1, hnew.2.1⟩
        obtain ⟨last, w₁, hlast, heq, hend, hbefore⟩ := ih (w := (attempted env id remote i size
          (left + 1) w).2)
        refine ⟨last, w₁, by omega, heq, hend, .inr ⟨by omega, fun n x h => ?_⟩⟩
        rcases hbefore with ⟨-, rfl⟩ | ⟨-, hbefore⟩
        · exact hback n x h
        · exact (hbefore n x h).elim (hback n x) .inr

/-- What the transfer of one file leaves in the stage, when the size test can be
trusted: what was there, the whole file, or what the third attempt stored. -/
theorem fetchOne_file (hwhole : ∀ a ∈ [1, 2, 3], WholeOrSized env i a remote)
    (h : (fetchOne env id i remote w).2.fs.node (stagePath id ++ [n]) = some (.file x)) :
    w.fs.node (stagePath id ++ [n]) = some (.file x) ∨ n = baseOnly remote ∧
      ((fetchOne env id i remote w).1 = true ∧ env.server.file remote = some x ∨
        (fetchOne env id i remote w).1 = false ∧ env.server.file remote ≠ none ∧
          env.stored i 3 ≠ none) := by
  rw [fetchOne] at h ⊢
  simp only [remoteSize_answer hremote.quotable] at h ⊢
  have hstart : ∀ n x, ((w.report id "download" 0 (utf8 "Starting pull from server")).unlink
      (join (stageDir id) (baseOnly remote))).fs.node (stagePath id ++ [n]) = some (.file x) →
      w.fs.node (stagePath id ++ [n]) = some (.file x) := fun n x => unlink_some
  obtain ⟨last, w₁, hlast, heq, hend, hbefore⟩ := @fetchAttempts_last ((w.report id "download" 0
    (utf8 "Starting pull from server")).unlink (join (stageDir id) (baseOnly remote))) env id remote i
    (sizeAnswer env i remote) hid hbare hremote 2
  rw [heq] at h ⊢
  rcases attempted_file hid hbare hremote h with hold | ⟨rfl, hname, hfile, hstored⟩
  · left
    rcases hbefore with ⟨-, rfl⟩ | ⟨hless, hbefore⟩
    · exact hstart n x (retrying_some hold)
    · rcases hbefore n x (retrying_some hold) with hfirst | ⟨rfl, hname⟩
      · exact hstart n x hfirst
      · have hplace := @stagePlace_proper id remote hid hname
        rw [← hplace] at hold
        exact absurd hold (retrying_no_file hname hless (by simp [hplace]))
  · refine .inr ⟨rfl, ?_⟩
    by_cases hok : (attempted env id remote i (sizeAnswer env i remote) last w₁).1 = true
    · have hplace := @stagePlace_proper id remote hid hname
      rw [← hplace] at h
      have ha : 3 - last ∈ [1, 2, 3] := by
        simp only [List.mem_cons, List.not_mem_nil, or_false]
        omega
      have hroot : resolve (join (stageDir id) (baseOnly remote)) ≠ [] := by
        rw [← stagePlace, hplace]
        simp
      rcases pullFile_whole hremote (quotable_staged hbare hremote.quotable) hroot (hwhole _ ha) hok h with
        hnew | ⟨-, hnothing⟩
      · exact .inl ⟨hok, hnew⟩
      · exact absurd hnothing (not_or.mpr ⟨hfile, hstored⟩)
    · obtain rfl := hend.resolve_left hok
      exact .inr ⟨by simpa using hok, hfile, hstored⟩

end

/-! ## Attempts on a place without a directory -/

theorem size_put : (w.put p x).fs.size q = if q = p ∧ w.fs.Writable p then x.length else w.fs.size q := by
  rw [FileTree.size, World.node_put]
  by_cases h : q = p ∧ w.fs.Writable p
  · simp [h]
  · rw [if_neg h, if_neg h, FileTree.size]

theorem retrying_empty (hname : ProperName (baseOnly remote))
    (hplace : w.fs.isDir (stagePlace id remote) = false) (hleft : left < 2) :
    (retrying id remote left w).fs.node (stagePlace id remote) = none := by
  rw [retrying, if_pos (by omega), World.unlink_fs (by rwa [baseOnly_staged]), FileTree.node_remove]
  exact if_pos ⟨rfl, children_of_not_dir hplace⟩

section
variable {size : Option Nat} (hbare : Bare id) (hremote : Bare remote)
  (hplace : w.fs.isDir (stagePlace id remote) = false)
include hbare hremote hplace

theorem attempted_size {k : Nat} {c : Bytes} (hfile : env.server.file remote = some c)
    (hstored : env.stored i (3 - left) = some k) :
    (attempted env id remote i size left w).2.fs.size (stagePlace id remote) =
      if (retrying id remote left w).fs.Writable (stagePlace id remote) then (c.take k).length
      else (retrying id remote left w).fs.size (stagePlace id remote) := by
  change ((retrying id remote left w).scp env i (3 - left) remote
    (join (stageDir id) (baseOnly remote))).fs.size (stagePlace id remote) = _
  rcases @World.scp_cases (retrying id remote left w) env _ _ i (3 - left) hremote.quotable
    (quotable_staged hbare hremote.quotable) with ⟨-, hnone⟩ | ⟨c', k', hfile', hstored', heq⟩
  · simp [hfile, hstored] at hnone
  · obtain rfl : c = c' := Option.some.inj (hfile.symm.trans hfile')
    obtain rfl : k = k' := Option.some.inj (hstored.symm.trans hstored')
    rw [heq, ← stagePlace, attempt_target hplace, size_put]
    simp only [true_and]

theorem attempted_whole {c : Bytes} {k : Nat} (hid : ProperName id)
    (hname : ProperName (baseOnly remote)) (hstage : w.fs.isDir (stagePath id) = true)
    (hfile : env.server.file remote = some c) (hc : c ≠ [])
    (hstored : env.stored i (3 - left) = some k) (hlong : c.length ≤ k) :
    (attempted env id remote i (sizeAnswer env i remote) left w).1 = true := by
  have hproper := @stagePlace_proper id remote hid hname
  have haway : stagePath id ≠ stagePlace id remote := by simp [hproper]
  have hwrite : (retrying id remote left w).fs.Writable (stagePlace id remote) := by
    refine ⟨by simp [hproper], ?_, retrying_not_dir hplace⟩
    rw [hproper, List.dropLast_concat, isDir_congr (node_retrying_ne haway), hstage]
  change World.landed _ (statSize (attempted env id remote i (sizeAnswer env i remote) left w).2.fs
    (join (stageDir id) (baseOnly remote))) = true
  rw [statSize_proper _ hname, ← stagePlace, attempted_size hbare hremote hplace hfile hstored, if_pos hwrite, List.take_of_length_le hlong]
  exact whole_landed hremote hfile hc

theorem attempted_missed (hid : ProperName id) (hwhole : WholeOrSized env i (3 - left) remote)
    (hmiss : ∀ c k, env.server.file remote = some c → env.stored i (3 - left) = some k → c ≠ [] →
      k < c.length)
    (hempty : (retrying id remote left w).fs.node (stagePlace id remote) = none) :
    (attempted env id remote i (sizeAnswer env i remote) left w).1 = false := by
  by_contra hok
  have hland : World.landed (sizeAnswer env i remote) ((attempted env id remote i
      (sizeAnswer env i remote) left w).2.fs.size (stagePlace id remote)) = true :=
    landed_size sizeAnswer_ne_zero (Bool.eq_true_of_not_eq_false hok)
  have hpos := landed_pos sizeAnswer_ne_zero hland
  have hzero : (retrying id remote left w).fs.size (stagePlace id remote) = 0 :=
    FileTree.size_none (stagePlace_ne_nil hid) hempty
  rcases @World.scp_cases (retrying id remote left w) env _ _ i (3 - left) hremote.quotable
    (quotable_staged hbare hremote.quotable) with ⟨heq, -⟩ | ⟨c, k, hfile, hstored, -⟩
  · have hsame : (attempted env id remote i (sizeAnswer env i remote) left w).2 =
        retrying id remote left w := heq
    rw [hsame] at hpos
    omega
  · rw [attempted_size hbare hremote hplace hfile hstored] at hland hpos
    split at hland
    · obtain ⟨hc, hlong⟩ := landed_whole hremote hwhole hfile hstored hland
      have hshort := hmiss c k hfile hstored hc
      omega
    · next hwrite =>
      rw [if_neg hwrite] at hpos
      omega

theorem fetchAttempts_whole {c : Bytes} (hid : ProperName id) (hname : ProperName (baseOnly remote))
    (hstage : w.fs.isDir (stagePath id) = true) (hfile : env.server.file remote = some c)
    (hc : c ≠ []) (hleft : left ≤ 3)
    (h : ∃ a k, 3 - left < a ∧ a ≤ 3 ∧ env.stored i a = some k ∧ c.length ≤ k) :
    (fetchAttempts env id remote i (sizeAnswer env i remote) left w).1 = true := by
  induction left generalizing w with
  | zero =>
      obtain ⟨a, -, hlow, hhigh, -⟩ := h
      omega
  | succ left ih =>
      rw [fetchAttempts_succ]
      split
      · rfl
      · next hfail =>
        obtain ⟨a, k, hlow, hhigh, hstored, hlong⟩ := h
        have hlater : 3 - left ≠ a := by
          rintro rfl
          exact hfail (attempted_whole hbare hremote hplace hid hname hstage hfile hc hstored hlong)
        have haway : stagePath id ≠ stagePlace id remote := by simp [stagePlace_proper hid hname]
        refine ih (attempted_place hbare hremote.quotable hplace) ?_ (by omega)
          ⟨a, k, by omega, hhigh, hstored, hlong⟩
        rw [isDir_congr (node_attempted_ne hbare hremote.quotable hplace haway), hstage]

theorem fetchAttempts_missed (hid : ProperName id) (hname : ProperName (baseOnly remote)) (hwhole : ∀ a ∈ [1, 2, 3], WholeOrSized env i a remote)
    (hmiss : ∀ a ∈ [1, 2, 3], ∀ c k, env.server.file remote = some c → env.stored i a = some k →
      c ≠ [] → k < c.length) (hleft : left ≤ 3)
    (hempty : left = 3 → w.fs.node (stagePlace id remote) = none) :
    (fetchAttempts env id remote i (sizeAnswer env i remote) left w).1 = false := by
  induction left generalizing w with
  | zero => rfl
  | succ left ih =>
      have ha : 3 - left ∈ [1, 2, 3] := by
        simp only [List.mem_cons, List.not_mem_nil, or_false]
        omega
      have hnone : (retrying id remote left w).fs.node (stagePlace id remote) = none := by
        by_cases hretry : left < 2
        · exact retrying_empty hname hplace hretry
        · rw [retrying, if_neg (by omega)]
          exact hempty (by omega)
      have hfail : (attempted env id remote i (sizeAnswer env i remote) left w).1 = false :=
        attempted_missed hbare hremote hplace hid (hwhole _ ha) (hmiss _ ha) hnone
      rw [fetchAttempts_succ, if_neg (by simp [hfail])]
      exact ih (attempted_place hbare hremote.quotable hplace) (by omega) (by omega)

end

/-! ## The files of a fetch -/

def Arrives (env : JobEnv) (i : Nat) (remote : Bytes) : Prop :=
  ∃ c, env.server.file remote = some c ∧ c ≠ [] ∧
    ∃ a ∈ [1, 2, 3], ∃ k, env.stored i a = some k ∧ c.length ≤ k

def Misses (env : JobEnv) (i : Nat) (remote : Bytes) : Prop :=
  ¬ Arrives env i remote ∧ (env.server.file remote = none ∨ env.stored i 3 = none)

section
variable (hid : ProperName id) (hbare : Bare id) (hremote : Bare remote)

include hid hbare hremote

/-- The transfer of a file touches nothing but the file's place. -/
theorem node_fetchOne_ne (hname : ProperName (baseOnly remote))
    (hclear : w.fs.children (stagePlace id remote) = []) (hq : q ≠ stagePlace id remote) :
    (fetchOne env id i remote w).2.fs.node q = w.fs.node q := by
  have hplace := @opened_place w id remote hid hname hclear
  rw [fetchOne_eq hremote.quotable, (fetchAttempts_place hbare hremote.quotable hplace).2 q hq]
  exact node_opened_ne hq

theorem fetchOne_arrives (hclear : w.fs.children (stagePlace id remote) = [])
    (hstage : w.fs.isDir (stagePath id) = true) (h : Arrives env i remote) :
    (fetchOne env id i remote w).1 = true := by
  obtain ⟨c, hfile, hc, a, ha, k, hstored, hlong⟩ := h
  have hname : ProperName (baseOnly remote) := env.server.named remote (by simp [hfile])
  have haway : stagePath id ≠ stagePlace id remote := by simp [stagePlace_proper hid hname]
  have hopened : (opened id remote w).fs.isDir (stagePath id) = true := by
    rw [← hstage]
    exact isDir_congr (node_opened_ne haway)
  rw [fetchOne_eq hremote.quotable]
  refine fetchAttempts_whole hbare hremote (opened_place hid hname hclear) hid hname hopened hfile hc le_rfl
    ⟨a, k, ?_, ?_, hstored, hlong⟩
  all_goals
    simp only [List.mem_cons, List.not_mem_nil, or_false] at ha
    omega

theorem fetchOne_misses (hname : ProperName (baseOnly remote) ∨ baseOnly remote = [])
    (hwhole : ∀ a ∈ [1, 2, 3], WholeOrSized env i a remote)
    (hclear : w.fs.children (stagePlace id remote) = []) (h : Misses env i remote) :
    (fetchOne env id i remote w).1 = false := by
  rcases hname with hname | hempty
  · rw [fetchOne_eq hremote.quotable]
    refine fetchAttempts_missed hbare hremote (opened_place hid hname hclear) hid hname hwhole
      (fun a ha c k hfile hstored hc => ?_) le_rfl fun _ => opened_empty hname hclear
    by_contra hlong
    exact h.1 ⟨c, hfile, hc, a, ha, k, hstored, by omega⟩
  · by_contra hok
    have hfetch := (fetchOne_through hid hbare hremote.quotable (by simpa using hok)).fetchable.2
    have hname : ¬ ProperName (baseOnly remote) := fun hproper => hproper.nonempty hempty
    rw [if_neg hname] at hfetch
    exact hfetch.1 hempty (stagePlace_empty hid hempty ▸ hclear)

end

def remoteFiles (server : Server) (remotes : List Bytes) : List (Bytes × Bytes) :=
  remotes.filterMap fun remote => (server.file remote).map fun c => (baseOnly remote, c)

theorem mem_remoteFiles {server : Server} {c : Bytes} (hmem : remote ∈ paths)
    (hfile : server.file remote = some c) : (baseOnly remote, c) ∈ remoteFiles server paths :=
  List.mem_filterMap.mpr ⟨remote, hmem, by simp [hfile]⟩

/-- The tree in which a fetch begins: with the stage directory, if it can be made. -/
def staging (env : JobEnv) (t : FileTree) (id : Bytes) : FileTree :=
  if env.mkdirOk then t.mkdirs (steps (stageDir id)) else t

/-- Nothing can be stored, or all files arrive, or the fetch ends with the first without
a trace. -/
def FetchClean (env : JobEnv) (t : FileTree) (id : Bytes) (paths : List Bytes) : Prop :=
  (staging env t id).isDir (stagePath id) = false ∨
  (∀ j remote, paths[j]? = some remote → Arrives env j remote ∧
    (staging env t id).children (stagePlace id remote) = []) ∨
  ∃ first, paths.head? = some first ∧ Misses env 0 first ∧
    (ProperName (baseOnly first) ∨ baseOnly first = []) ∧
      (staging env t id).children (stagePlace id first) = []

section
variable (hid : ProperName id) (hbare : Bare id) (hpaths : ∀ remote ∈ paths, Bare remote)
include hid hbare hpaths

theorem fetchFiles_file (hwhole : ∀ j remote, paths[j]? = some remote → ∀ a ∈ [1, 2, 3],
      WholeOrSized env (i + j) a remote)
    (hok : (fetchFiles env id i paths w).1 = true)
    (h : (fetchFiles env id i paths w).2.fs.node (stagePath id ++ [n]) = some (.file x)) :
    w.fs.node (stagePath id ++ [n]) = some (.file x) ∨ (n, x) ∈ remoteFiles env.server paths := by
  induction paths generalizing w i with
  | nil => exact .inl h
  | cons remote rest ih =>
      have hremote := hpaths remote List.mem_cons_self
      rw [fetchFiles_cons] at hok h
      split at hok
      · cases hok
      · next hcontrol =>
        rw [if_neg hcontrol] at h
        split at hok
        · cases hok
        · next hone =>
          rw [if_neg hone] at h
          have hrest := ih (fun m hm => hpaths m (List.mem_cons_of_mem _ hm))
            (fun j m hm a ha => by
              have hnext := hwhole (j + 1) m hm a ha
              rwa [show i + (j + 1) = i + 1 + j by omega] at hnext) hok h
          rcases hrest with hold | hnew
          · refine (fetchOne_file hid hbare hremote (hwhole 0 remote rfl) hold).imp_right ?_
            rintro ⟨rfl, ⟨-, hfile⟩ | ⟨hfail, -⟩⟩
            · exact mem_remoteFiles List.mem_cons_self hfile
            · exact absurd hfail (by simpa using hone)
          · exact .inr (List.mem_filterMap.mpr ((List.mem_filterMap.mp hnew).imp fun m hm =>
              ⟨List.mem_cons_of_mem _ hm.1, hm.2⟩))

theorem fetchFiles_arrives (hcontrol : ∀ remote ∈ paths, isControlFile (baseOnly remote) = false)
    (hstage : w.fs.isDir (stagePath id) = true)
    (harrive : ∀ j remote, paths[j]? = some remote → Arrives env (i + j) remote ∧
      w.fs.children (stagePlace id remote) = []) : (fetchFiles env id i paths w).1 = true := by
  induction paths generalizing w i with
  | nil => rfl
  | cons remote rest ih =>
      have hremote := hpaths remote List.mem_cons_self
      obtain ⟨harrives, hclear⟩ := harrive 0 remote rfl
      have hone : (fetchOne env id i remote w).1 = true :=
        fetchOne_arrives hid hbare hremote hclear hstage harrives
      have hnamed : ∀ m, (∃ j, Arrives env j m) → ProperName (baseOnly m) := by
        rintro m ⟨j, c, hfile, -⟩
        exact env.server.named m (by simp [hfile])
      have hname := hnamed remote ⟨_, harrives⟩
      have hplace := @stagePlace_proper id remote hid hname
      rw [fetchFiles_cons, if_neg (by simp [hcontrol remote List.mem_cons_self]), if_neg (by simp [hone])]
      refine ih (fun m hm => hpaths m (List.mem_cons_of_mem _ hm))
        (fun m hm => hcontrol m (List.mem_cons_of_mem _ hm)) ?_ fun j m hm => ?_
      · have haway : stagePath id ≠ stagePlace id remote := by simp [hplace]
        exact (isDir_congr (node_fetchOne_ne hid hbare hremote hname hclear haway)).trans hstage
      · obtain ⟨hnext, hclear'⟩ := harrive (j + 1) m hm
        rw [show i + (j + 1) = i + 1 + j by omega] at hnext
        refine ⟨hnext, List.eq_nil_iff_forall_not_mem.mpr fun entry hentry => ?_⟩
        have haway : stagePlace id m ++ [entry] ≠ stagePlace id remote := by
          simp [hplace, stagePlace_proper hid (hnamed m ⟨_, hnext⟩)]
        have hnode : (fetchOne env id i remote w).2.fs.node _ = _ :=
          node_fetchOne_ne hid hbare hremote hname hclear haway
        have hthere := FileTree.mem_children.mpr (hnode ▸ FileTree.mem_children.mp hentry)
        rw [hclear'] at hthere
        cases hthere

end

section
variable (hbare : Bare id)
include hbare

theorem fetchOne_not_dir (hremote : Bare remote) (h : w.fs.isDir q = false) :
    (fetchOne env id i remote w).2.fs.isDir q = false := by
  rw [fetchOne_eq hremote.quotable]
  have hopened : (opened id remote w).fs.isDir q = false :=
    unlink_not_dir (w := w.report id "download" 0 _) h
  generalize opened id remote w = w₁ at hopened
  generalize 3 = left
  induction left generalizing w₁ with
  | zero => exact hopened
  | succ left ih =>
      have hone : (attempted env id remote i (sizeAnswer env i remote) left w₁).2.fs.isDir q = false :=
        (isDir_scp hremote.quotable (quotable_staged hbare hremote.quotable) q).trans (retrying_not_dir hopened)
      rw [fetchAttempts_succ]
      split
      · exact hone
      · exact ih _ hone

theorem fetchFiles_not_dir (hpaths : ∀ remote ∈ paths, Bare remote) (h : w.fs.isDir q = false) :
    (fetchFiles env id i paths w).2.fs.isDir q = false := by
  induction paths generalizing w i with
  | nil => exact h
  | cons remote rest ih =>
      have hone : (fetchOne env id i remote w).2.fs.isDir q = false :=
        fetchOne_not_dir hbare (hpaths remote List.mem_cons_self) h
      rw [fetchFiles_cons]
      split
      · exact h
      · split
        · exact hone
        · exact ih (fun m hm => hpaths m (List.mem_cons_of_mem _ hm)) hone

theorem fetch_stage (hid : ProperName id) (hpaths : ∀ remote ∈ paths, Bare remote)
    (hcontrol : ∀ remote ∈ paths, isControlFile (baseOnly remote) = false)
    (hwhole : ∀ j remote, paths[j]? = some remote → ∀ a ∈ [1, 2, 3], WholeOrSized env j a remote)
    (hclean : FetchClean env w.fs id paths)
    (h : (fetchThread env id paths w).fs.node (stagePath id ++ [n]) = some (.file x)) :
    w.fs.node (stagePath id ++ [n]) = some (.file x) ∨
      (fetchFiles env id 0 paths (w.mkdirs env (stageDir id))).1 = true ∧
        (n, x) ∈ remoteFiles env.server paths := by
  have hthread : (fetchThread env id paths w).fs =
      (fetchFiles env id 0 paths (w.mkdirs env (stageDir id))).2.fs := by
    unfold fetchThread
    dsimp only
    split <;> rfl
  have hmade : (w.mkdirs env (stageDir id)).fs = staging env w.fs id :=
    World.mkdirs_fs (bare_jobDir.mpr ⟨hbare, by decide⟩)
  have hfile : ∀ m y, (w.mkdirs env (stageDir id)).fs.node (stagePath id ++ [m]) = some (.file y) →
      w.fs.node (stagePath id ++ [m]) = some (.file y) := fun m y hy => by
    rw [hmade, staging] at hy
    split at hy
    · exact FileTree.file_mkdirs.mp hy
    · exact hy
  have hzero : ∀ j remote, paths[j]? = some remote → ∀ a ∈ [1, 2, 3],
      WholeOrSized env (0 + j) a remote := fun j remote hj a ha => by
    rw [Nat.zero_add]
    exact hwhole j remote hj a ha
  rw [hthread] at h
  rw [FetchClean, ← hmade] at hclean
  have hstage : (w.mkdirs env (stageDir id)).fs.isDir (stagePath id) = true := by
    by_contra hnot
    have hparent : (fetchFiles env id 0 paths (w.mkdirs env (stageDir id))).2.fs.isDir
        (stagePath id) = true := FileTree.isDir_parent (n := n) (by simp [h])
    rw [fetchFiles_not_dir hbare hpaths (by simpa using hnot)] at hparent
    cases hparent
  rcases hclean with hnowhere | harrive | ⟨first, hfirst, hmiss, hname, hclear⟩
  · rw [hnowhere] at hstage
    cases hstage
  · have hok := fetchFiles_arrives (i := 0) hid hbare hpaths hcontrol hstage fun j remote hj => by
      rw [Nat.zero_add]
      exact harrive j remote hj
    exact (fetchFiles_file hid hbare hpaths hzero hok h).imp (hfile n x) fun hnew => ⟨hok, hnew⟩
  · left
    cases paths with
    | nil => cases hfirst
    | cons remote rest =>
        cases hfirst
        have hremote := hpaths first List.mem_cons_self
        have hfail : (fetchOne env id 0 first (w.mkdirs env (stageDir id))).1 = false :=
          fetchOne_misses hid hbare hremote hname (hwhole 0 first rfl) hclear hmiss
        rw [fetchFiles_cons, if_neg (by simp [hcontrol first List.mem_cons_self]),
          if_pos (by simp [hfail])] at h
        rcases fetchOne_file hid hbare hremote (hwhole 0 first rfl) h with hold | ⟨-, hnew⟩
        · exact hfile n x hold
        · rcases hnew with ⟨hok, -⟩ | ⟨-, hserved, hstored⟩
          · rw [hfail] at hok
            cases hok
          · exact absurd hmiss.2 (not_or.mpr ⟨hserved, hstored⟩)

end

end QnxHypervisor.OtaUpdate
