import QnxHypervisor.OtaUpdate.Courses
import QnxHypervisor.OtaUpdate.Places

/-! # The attempts of a fetch

What the attempts on one file change, and which files can get through them. A file that
gets through leaves the stage as the next one wants to find it, so a fetch reaches as far
as its files can be fetched one by one.
-/

namespace QnxHypervisor.OtaUpdate

open Foundation GuestManager HmsStatus

variable {w : World} {env : JobEnv} {id n name remote dst path x : Bytes} {p q : Path} {t t' : FileTree}
  {i attempt left : Nat} {size : Option Nat}

theorem not_proper (hslash : slash ∉ n) (h : ¬ ProperName n) : n = [] ∨ n = [46] ∨ n = [46, 46] := by
  by_contra hnot
  obtain ⟨hempty, hdot, hdots⟩ := by simpa using hnot
  exact h ⟨hempty, hdot, hdots, hslash⟩

/-! ## The answer about the size -/

/-- The answer of `remote_size` for a path that the shell takes literally. -/
def sizeAnswer (env : JobEnv) (i : Nat) (remote : Bytes) : Option Nat :=
  if ¬ env.sized i then none
  else (env.server.stat remote).filter fun size => size ≠ 0

theorem remoteSize_answer (h : Quotable remote) :
    w.remoteSize env i remote = (sizeAnswer env i remote, w) := by
  unfold World.remoteSize sizeAnswer
  rw [if_neg (not_not_intro h)]
  split
  · rfl
  · cases env.server.stat remote with
    | none => rfl
    | some size =>
        by_cases hzero : size = 0 <;> simp [hzero, Option.filter]

theorem sizeAnswer_ne_zero : sizeAnswer env i remote ≠ some 0 := by
  unfold sizeAnswer
  split
  · simp
  · simp [Option.filter_eq_some_iff]

/-! ## One transfer -/

theorem node_scp_ne (hremote : Quotable remote) (hdst : Quotable dst)
    (hq : q ≠ target w.fs (resolve dst) (baseOnly remote)) :
    (w.scp env i attempt remote dst).fs.node q = w.fs.node q := by
  rcases World.scp_cases hremote hdst with ⟨heq, -⟩ | ⟨c, k, -, -, heq⟩
  · rw [heq]
  · rw [heq, World.node_put, if_neg fun h => hq h.1]

theorem isDir_scp (hremote : Quotable remote) (hdst : Quotable dst) (q : Path) :
    (w.scp env i attempt remote dst).fs.isDir q = w.fs.isDir q := by
  rcases World.scp_cases hremote hdst with ⟨heq, -⟩ | ⟨c, k, -, -, heq⟩
  · rw [heq]
  · rw [heq, World.isDir_put]

theorem scp_kept (hremote : Quotable remote) (hdst : Quotable dst) (h : w.fs.node q ≠ none) :
    (w.scp env i attempt remote dst).fs.node q ≠ none := by
  rcases World.scp_cases hremote hdst with ⟨heq, -⟩ | ⟨c, k, -, -, heq⟩
  · rwa [heq]
  · rw [heq, World.node_put]
    split
    · simp
    · exact h

/-- A path without a name is no file's on the server. -/
theorem scp_unnamed (hremote : Quotable remote) (hdst : Quotable dst) (h : ¬ ProperName (baseOnly remote)) :
    w.scp env i attempt remote dst = w := by
  rcases World.scp_cases hremote hdst with ⟨heq, -⟩ | ⟨c, k, hfile, -, -⟩
  · exact heq
  · exact absurd (env.server.named remote (by simp [hfile])) h

/-! ## Removing -/

theorem children_of_not_dir (h : t.isDir q = false) : t.children q = [] :=
  List.eq_nil_iff_forall_not_mem.mpr fun m hm => by
    have hdir := FileTree.isDir_parent (FileTree.mem_children.mp hm)
    rw [h] at hdir
    cases hdir

theorem isDir_of_children (h : t.children q ≠ []) : t.isDir q = true := by
  by_contra hnot
  exact h (children_of_not_dir (by simpa using hnot))

theorem unlink_no_file (hname : ProperName (baseOnly path)) (hpath : resolve path ≠ []) :
    (w.unlink path).fs.node (resolve path) ≠ some (.file x) := by
  intro h
  have hchildren := FileTree.children_file (unlink_some h) hpath
  rw [World.unlink_fs hname, FileTree.node_remove, if_pos ⟨rfl, hchildren⟩] at h
  cases h

theorem unlink_not_dir (h : w.fs.isDir q = false) : (w.unlink path).fs.isDir q = false := by
  by_contra hdir
  rcases FileTree.isDir_iff.mp (by simpa using hdir) with rfl | ⟨size, hnode⟩
  · rw [FileTree.isDir_iff.mpr (.inl rfl)] at h
    cases h
  · rw [FileTree.isDir_iff.mpr (.inr ⟨size, unlink_some hnode⟩)] at h
    cases h

theorem unlink_full (h : w.fs.children (resolve path) ≠ []) : (w.unlink path).fs = w.fs := by
  unfold World.unlink
  split
  · exact dif_neg h
  · rfl

theorem unlink_unnamed (hname : ¬ ProperName (baseOnly path)) (h : baseOnly path = [] →
    w.fs.isDir (resolve path) = true → w.fs.children (resolve path) ≠ []) : (w.unlink path).fs = w.fs := by
  by_cases hempty : baseOnly path = [] ∧ w.fs.isDir (resolve path) = true
  · exact unlink_full (h hempty.1 hempty.2)
  · rw [World.unlink, if_neg (not_or.mpr ⟨hname, hempty⟩)]

/-! ## The place of a fetched file -/

def stagePlace (id remote : Bytes) : Path := resolve (join (stageDir id) (baseOnly remote))

theorem stagePlace_proper (hid : ProperName id) (hname : ProperName (baseOnly remote)) :
    stagePlace id remote = stagePath id ++ [baseOnly remote] := by
  rw [stagePlace, resolve_join_proper _ hname, resolve_stageDir hid]

theorem stagePlace_empty (hid : ProperName id) (hempty : baseOnly remote = []) :
    stagePlace id remote = stagePath id := by
  rw [stagePlace, resolve_join _ (baseOnly_noSlash remote), resolve_stageDir hid, hempty]
  rfl

theorem stagePlace_ne_nil (hid : ProperName id) : stagePlace id remote ≠ [] := by
  rw [stagePlace, resolve_join _ (baseOnly_noSlash remote), resolve_stageDir hid, descend]
  split_ifs <;> simp [stagePath, jobPath]

theorem baseOnly_staged : baseOnly (join (stageDir id) (baseOnly remote)) = baseOnly remote :=
  baseOnly_join _ (baseOnly_noSlash remote)

theorem quotable_staged (hbare : Bare id) (hremote : Quotable remote) :
    Quotable (join (stageDir id) (baseOnly remote)) :=
  quotable_stageFile hbare.quotable (quotable_base hremote)

theorem stage_target (h : stagePath id ++ [n] = target t (stagePath id ++ [path]) path) : n = path := by
  unfold target at h
  split at h
  · simp at h
  · simpa using h

/-! ## One attempt -/

theorem retrying_some {node : Node} (h : (retrying id remote left w).fs.node q = some node) :
    w.fs.node q = some node := by
  unfold retrying at h
  split at h
  · exact unlink_some (w := w.report id "download" 0 _) h
  · exact h

theorem retrying_no_file (hname : ProperName (baseOnly remote)) (hleft : left < 2)
    (hplace : stagePlace id remote ≠ []) :
    (retrying id remote left w).fs.node (stagePlace id remote) ≠ some (.file x) := by
  rw [retrying, if_pos (by omega)]
  exact unlink_no_file (by rwa [baseOnly_staged]) hplace

theorem node_retrying_ne (hq : q ≠ stagePlace id remote) :
    (retrying id remote left w).fs.node q = w.fs.node q := by
  unfold retrying
  split
  · exact node_unlink_ne hq
  · rfl

theorem retrying_not_dir (h : w.fs.isDir q = false) :
    (retrying id remote left w).fs.isDir q = false := by
  unfold retrying
  split
  · exact unlink_not_dir (w := w.report id "download" 0 _) h
  · exact h

theorem retrying_full (h : w.fs.children (stagePlace id remote) ≠ []) :
    (retrying id remote left w).fs = w.fs := by
  unfold retrying
  split
  · exact unlink_full (w := w.report id "download" 0 _) h
  · rfl

theorem retrying_unnamed (hname : ¬ ProperName (baseOnly remote)) (h : baseOnly remote = [] →
      w.fs.isDir (stagePlace id remote) = true → w.fs.children (stagePlace id remote) ≠ []) :
    (retrying id remote left w).fs = w.fs := by
  unfold retrying
  split
  · refine unlink_unnamed (w := w.report id "download" 0 _) ?_ ?_
    · rwa [baseOnly_staged]
    · rwa [baseOnly_staged]
  · rfl

theorem attempt_target (hplace : w.fs.isDir (stagePlace id remote) = false) :
    target (retrying id remote left w).fs (stagePlace id remote) (baseOnly remote) =
      stagePlace id remote := by
  rw [target, retrying_not_dir hplace]
  rfl

/-! ## All attempts on one file -/

/-- The state in which the first attempt begins. -/
def opened (id remote : Bytes) (w : World) : World :=
  (w.report id "download" 0 (utf8 "Starting pull from server")).unlink
    (join (stageDir id) (baseOnly remote))

theorem fetchOne_eq (hremote : Quotable remote) : fetchOne env id i remote w =
    fetchAttempts env id remote i (sizeAnswer env i remote) 3 (opened id remote w) := by
  rw [fetchOne]
  simp only [remoteSize_answer hremote]
  rfl

theorem fetchAttempts_lands (hsize : size ≠ some 0) (h : (fetchAttempts env id remote i size left w).1 = true) :
    0 < statSize (fetchAttempts env id remote i size left w).2.fs (join (stageDir id) (baseOnly remote)) := by
  induction left generalizing w with
  | zero => cases h
  | succ left ih =>
      rw [fetchAttempts_succ] at h ⊢
      split
      · next hok => exact landed_pos hsize hok
      · next hfail =>
        rw [if_neg hfail] at h
        exact ih h

section
variable (hbare : Bare id) (hremote : Quotable remote)
include hbare hremote

/-! ### A place without a directory -/

section
variable (hplace : w.fs.isDir (stagePlace id remote) = false)
include hplace

theorem attempted_place :
    (attempted env id remote i size left w).2.fs.isDir (stagePlace id remote) = false :=
  (isDir_scp hremote (quotable_staged hbare hremote) _).trans (retrying_not_dir hplace)

theorem node_attempted_ne (hq : q ≠ stagePlace id remote) :
    (attempted env id remote i size left w).2.fs.node q = w.fs.node q := by
  refine (node_scp_ne hremote (quotable_staged hbare hremote) ?_).trans (node_retrying_ne hq)
  change q ≠ target (retrying id remote left w).fs (stagePlace id remote) (baseOnly remote)
  rwa [attempt_target hplace]

theorem fetchAttempts_place :
    (fetchAttempts env id remote i size left w).2.fs.isDir (stagePlace id remote) = false ∧
      ∀ q ≠ stagePlace id remote, (fetchAttempts env id remote i size left w).2.fs.node q =
        w.fs.node q := by
  induction left generalizing w with
  | zero => exact ⟨hplace, fun _ _ => rfl⟩
  | succ left ih =>
      have hone : (attempted env id remote i size left w).2.fs.isDir (stagePlace id remote) = false :=
        attempted_place hbare hremote hplace
      have hothers : ∀ q ≠ stagePlace id remote, (attempted env id remote i size left w).2.fs.node q =
          w.fs.node q := fun q hq => node_attempted_ne hbare hremote hplace hq
      rw [fetchAttempts_succ]
      split
      · exact ⟨hone, hothers⟩
      · obtain ⟨hlast, hrest⟩ := ih hone
        exact ⟨hlast, fun q hq => (hrest q hq).trans (hothers q hq)⟩

end

/-! ### A directory with entries in the place -/

theorem fetchAttempts_full (hfull : w.fs.children (stagePlace id remote) ≠ []) :
    (fetchAttempts env id remote i size left w).2.fs.children (stagePlace id remote) ≠ [] ∧
      ∀ q ≠ stagePlace id remote ++ [baseOnly remote],
        (fetchAttempts env id remote i size left w).2.fs.node q = w.fs.node q := by
  induction left generalizing w with
  | zero => exact ⟨hfull, fun _ _ => rfl⟩
  | succ left ih =>
      have hretry : (retrying id remote left w).fs = w.fs := retrying_full hfull
      have hdst := quotable_staged hbare hremote
      have hone : (attempted env id remote i size left w).2.fs.children (stagePlace id remote) ≠ [] := by
        obtain ⟨m, hm⟩ := List.exists_mem_of_ne_nil _ hfull
        refine List.ne_nil_of_mem (FileTree.mem_children.mpr (scp_kept hremote hdst ?_ : _ ≠ none)) (a := m)
        rw [hretry]
        exact FileTree.mem_children.mp hm
      have hothers : ∀ q ≠ stagePlace id remote ++ [baseOnly remote],
          (attempted env id remote i size left w).2.fs.node q = w.fs.node q := fun q hq => by
        rw [← hretry]
        refine node_scp_ne hremote hdst ?_
        rw [hretry, ← stagePlace, target, if_pos (isDir_of_children hfull)]
        exact hq
      rw [fetchAttempts_succ]
      split
      · exact ⟨hone, hothers⟩
      · obtain ⟨hlast, hrest⟩ := ih hone
        exact ⟨hlast, fun q hq => (hrest q hq).trans (hothers q hq)⟩

/-! ### A path without a name -/

theorem fetchAttempts_unnamed (hname : ¬ ProperName (baseOnly remote)) (h : baseOnly remote = [] →
      w.fs.isDir (stagePlace id remote) = true → w.fs.children (stagePlace id remote) ≠ []) :
    (fetchAttempts env id remote i size left w).2.fs = w.fs := by
  induction left generalizing w with
  | zero => rfl
  | succ left ih =>
      have hone : (attempted env id remote i size left w).2.fs = w.fs := by
        change ((retrying id remote left w).scp env i (3 - left) remote _).fs = w.fs
        rw [scp_unnamed hremote (quotable_staged hbare hremote) hname, retrying_unnamed hname h]
      rw [fetchAttempts_succ]
      split
      · exact hone
      · rw [ih (by rwa [hone]), hone]

end

/-! ## What a fetch finds in the stage -/

/-- Trees in which the same files can be fetched: the stage has the same directories with
entries. -/
structure StageAlike (id : Bytes) (t t' : FileTree) : Prop where
  stage : t'.node (stagePath id) = t.node (stagePath id)
  job : t'.node (jobPath id) = t.node (jobPath id)
  full : ∀ n, t'.children (stagePath id ++ [n]) = [] ↔ t.children (stagePath id ++ [n]) = []
  kept : ∀ n, t.children (stagePath id ++ [n]) ≠ [] →
    t'.node (stagePath id ++ [n]) = t.node (stagePath id ++ [n])

theorem statSize_unnamed (hid : ProperName id) (halike : StageAlike id t t')
    (hname : name = [] ∨ name = [46] ∨ name = [46, 46]) :
    statSize t' (join (stageDir id) name) = statSize t (join (stageDir id) name) := by
  have hslash : slash ∉ name := by
    rcases hname with rfl | rfl | rfl <;> decide
  have hplace : resolve (join (stageDir id) name) = stagePath id ∨
      resolve (join (stageDir id) name) = jobPath id := by
    rw [resolve_join _ hslash, resolve_stageDir hid]
    rcases hname with rfl | rfl | rfl
    · exact .inl rfl
    · exact .inl rfl
    · exact .inr rfl
  refine statSize_congr ?_ ?_
  · rcases hplace with heq | heq
    · rw [heq, halike.stage]
    · rw [heq, halike.job]
  · rw [resolve_dirPart _ hslash, resolve_stageDir hid]
    exact isDir_congr halike.stage

theorem fetchable_congr (hid : ProperName id) (halike : StageAlike id t t') {filled : Prop}
    (hslash : slash ∉ name) : Fetchable t' id filled name ↔ Fetchable t id filled name := by
  unfold Fetchable
  refine and_congr (by rw [isDir_congr halike.stage]) ?_
  split
  · rw [ne_eq, ne_eq, halike.full name]
    exact forall_congr' fun hfull => by rw [size_congr (halike.kept name hfull)]
  · next hname => rw [statSize_unnamed hid halike (not_proper hslash hname)]

theorem pathsSafe_congr (hid : ProperName id) (halike : StageAlike id t t') {filled : Prop}
    {paths : List Bytes} : pathsSafe t' id filled paths ↔ pathsSafe t id filled paths := by
  induction paths generalizing filled with
  | nil => exact Iff.rfl
  | cons remote rest ih =>
      refine and_congr_right fun _ => imp_congr ?_ ih
      exact fetchable_congr hid halike (baseOnly_noSlash remote)

theorem children_congr (h : ∀ x, t'.node (p ++ [x]) = t.node (p ++ [x])) :
    t'.children p = [] ↔ t.children p = [] := by
  simp only [List.eq_nil_iff_forall_not_mem, FileTree.mem_children, h]

theorem StageAlike.of_place (hnodes : ∀ q ≠ stagePath id ++ [n], t'.node q = t.node q)
    (hclear : t.children (stagePath id ++ [n]) = []) : StageAlike id t t' where
  stage := hnodes _ (by simp)
  job := hnodes _ (by simp [stagePath])
  full m := children_congr fun x => hnodes _ (by simp)
  kept m hm := hnodes _ fun heq => hm (heq ▸ hclear)

/-- Something comes into a directory with entries. -/
theorem StageAlike.of_entry (hnodes : ∀ q ≠ stagePath id ++ [n] ++ [x], t'.node q = t.node q)
    (hfull : t.children (stagePath id ++ [n]) ≠ []) (hfull' : t'.children (stagePath id ++ [n]) ≠ []) :
    StageAlike id t t' where
  stage := hnodes _ (by simp)
  job := hnodes _ (by simp [stagePath])
  full m := by
    by_cases hm : m = n
    · subst hm
      exact iff_of_false hfull' hfull
    · exact children_congr fun y => hnodes _ (by simp [hm])
  kept m _ := hnodes _ (by simp)

/-! ## A file that gets through -/

theorem node_opened_ne (hq : q ≠ stagePlace id remote) : (opened id remote w).fs.node q = w.fs.node q :=
  node_unlink_ne hq

theorem opened_full (h : w.fs.children (stagePlace id remote) ≠ []) : (opened id remote w).fs = w.fs :=
  unlink_full (w := w.report id "download" 0 _) h

theorem opened_empty (hname : ProperName (baseOnly remote))
    (hclear : w.fs.children (stagePlace id remote) = []) :
    (opened id remote w).fs.node (stagePlace id remote) = none := by
  rw [opened, World.unlink_fs (by rwa [baseOnly_staged]), FileTree.node_remove]
  exact if_pos ⟨rfl, hclear⟩

theorem opened_place (hid : ProperName id) (hname : ProperName (baseOnly remote))
    (hclear : w.fs.children (stagePlace id remote) = []) :
    (opened id remote w).fs.isDir (stagePlace id remote) = false := by
  by_contra hdir
  rcases FileTree.isDir_iff.mp (by simpa using hdir) with hroot | ⟨size, hnode⟩
  · exact stagePlace_ne_nil hid hroot
  · rw [opened_empty hname hclear] at hnode
    cases hnode

theorem opened_unnamed (hname : ¬ ProperName (baseOnly remote)) (h : baseOnly remote = [] →
      w.fs.isDir (stagePlace id remote) = true → w.fs.children (stagePlace id remote) ≠ []) :
    (opened id remote w).fs = w.fs := by
  refine unlink_unnamed (w := w.report id "download" 0 _) ?_ ?_
  · rwa [baseOnly_staged]
  · rwa [baseOnly_staged]

theorem opened_stage (hid : ProperName id) (hempty : baseOnly remote = [])
    (hdir : (opened id remote w).fs.isDir (stagePlace id remote) = true) :
    w.fs.children (stagePlace id remote) ≠ [] := by
  intro hclear
  have hwas : w.fs.isDir (stagePlace id remote) = true := by
    by_contra hnot
    have hgone : (opened id remote w).fs.isDir (stagePlace id remote) = false :=
      unlink_not_dir (w := w.report id "download" 0 _) (by simpa using hnot)
    rw [hgone] at hdir
    cases hdir
  have hremoved : (opened id remote w).fs = w.fs.remove (stagePlace id remote) := by
    rw [opened, World.unlink, if_pos (.inr ⟨by rw [baseOnly_staged, hempty], hwas⟩)]
    rfl
  rcases FileTree.isDir_iff.mp hdir with hroot | ⟨size, hnode⟩
  · exact stagePlace_ne_nil hid hroot
  · rw [hremoved, FileTree.node_remove, if_pos ⟨rfl, hclear⟩] at hnode
    cases hnode

/-- What a file that got through says about the stage, and how it leaves it. -/
structure Through (id name : Bytes) (t t' : FileTree) : Prop where
  fetchable : Fetchable t id (t.children (stagePath id) ≠ []) name
  alike : StageAlike id t t'
  filled : t'.children (stagePath id) ≠ [] ↔ t.children (stagePath id) ≠ [] ∨ ProperName name

section
variable (hid : ProperName id) (hbare : Bare id) (hremote : Quotable remote)
  (hok : (fetchOne env id i remote w).1 = true)
include hid hbare hremote hok

theorem through_named (hname : ProperName (baseOnly remote)) :
    Through id (baseOnly remote) w.fs (fetchOne env id i remote w).2.fs := by
  have hplace : stagePlace id remote = stagePath id ++ [baseOnly remote] := stagePlace_proper hid hname
  rw [fetchOne_eq hremote] at hok ⊢
  have hpos := fetchAttempts_lands sizeAnswer_ne_zero hok
  rw [statSize_proper _ hname, ← stagePlace] at hpos
  have hthere : (fetchAttempts env id remote i (sizeAnswer env i remote) 3 (opened id remote w)).2.fs.node
      (stagePath id ++ [baseOnly remote]) ≠ none := fun hnone => by
    rw [← hplace] at hnone
    rw [FileTree.size_none (stagePlace_ne_nil hid) hnone] at hpos
    cases hpos
  have hfilled := List.ne_nil_of_mem (FileTree.mem_children.mpr hthere)
  have halike : StageAlike id w.fs (fetchAttempts env id remote i (sizeAnswer env i remote) 3
      (opened id remote w)).2.fs ∧ (w.fs.children (stagePath id ++ [baseOnly remote]) ≠ [] →
        0 < w.fs.size (stagePath id ++ [baseOnly remote])) := by
    by_cases hclear : w.fs.children (stagePlace id remote) = []
    · have hothers := (@fetchAttempts_place (opened id remote w) env id remote i 3
        (sizeAnswer env i remote) hbare hremote (opened_place hid hname hclear)).2
      rw [← hplace]
      refine ⟨.of_place (n := baseOnly remote) (fun q hq => ?_) (hplace ▸ hclear), fun h => absurd hclear h⟩
      rw [← hplace] at hq
      exact (hothers q hq).trans (node_opened_ne hq)
    · have hopened : (opened id remote w).fs = w.fs := opened_full hclear
      obtain ⟨hfull, hothers⟩ := @fetchAttempts_full (opened id remote w) env id remote i 3
        (sizeAnswer env i remote) hbare hremote (by rwa [hopened])
      rw [hopened, hplace] at hothers
      rw [hplace] at hfull hclear hpos
      refine ⟨.of_entry hothers hclear hfull, fun _ => ?_⟩
      rwa [size_congr (hothers _ (by simp))] at hpos
  refine ⟨⟨?_, ?_⟩, halike.1, iff_of_true hfilled (.inr hname)⟩
  · rw [← isDir_congr halike.1.stage]
    exact FileTree.isDir_parent hthere
  · rw [if_pos hname]
    exact halike.2

theorem through_unnamed (hname : ¬ ProperName (baseOnly remote)) :
    Through id (baseOnly remote) w.fs (fetchOne env id i remote w).2.fs := by
  have hslash := baseOnly_noSlash remote
  have hplace : baseOnly remote = [] → stagePlace id remote = stagePath id := stagePlace_empty hid
  have hfilled : baseOnly remote = [] → (opened id remote w).fs.isDir (stagePlace id remote) = true →
      w.fs.children (stagePlace id remote) ≠ [] := fun hempty => opened_stage hid hempty
  rw [fetchOne_eq hremote] at hok ⊢
  have hpos := fetchAttempts_lands sizeAnswer_ne_zero hok
  have hlast : (fetchAttempts env id remote i (sizeAnswer env i remote) 3 (opened id remote w)).2.fs =
      (opened id remote w).fs :=
    fetchAttempts_unnamed hbare hremote hname fun hempty hdir =>
      (opened_full (hfilled hempty hdir)).symm ▸ hfilled hempty hdir
  rw [hlast] at hpos ⊢
  have hstage := (statSize_pos hpos).1
  rw [resolve_dirPart _ hslash, resolve_stageDir hid] at hstage
  have hfull : baseOnly remote = [] → w.fs.children (stagePlace id remote) ≠ [] := fun hempty =>
    hfilled hempty (hplace hempty ▸ hstage)
  rw [opened_unnamed hname fun hempty _ => hfull hempty] at hpos hstage ⊢
  refine ⟨⟨hstage, ?_⟩, ⟨rfl, rfl, fun _ => Iff.rfl, fun _ _ => rfl⟩, by simp [hname]⟩
  rw [if_neg hname]
  exact ⟨fun hempty => hplace hempty ▸ hfull hempty, hpos⟩

theorem fetchOne_through : Through id (baseOnly remote) w.fs (fetchOne env id i remote w).2.fs := by
  by_cases hname : ProperName (baseOnly remote)
  · exact through_named hid hbare hremote hok hname
  · exact through_unnamed hid hbare hremote hok hname

end

theorem StageAlike.made (hid : ProperName id) (hdir : t.isDir (stagePath id) = true) :
    StageAlike id t (t.mkdirs (steps (stageDir id))) := by
  have hsame : ∀ q, t.node q ≠ none → (t.mkdirs (steps (stageDir id))).node q = t.node q := fun q hq =>
    (FileTree.node_mkdirs t _ q).resolve_right fun hnew => hq hnew.1
  have hbelow : ∀ n, (t.mkdirs (steps (stageDir id))).node (stagePath id ++ [n]) =
      t.node (stagePath id ++ [n]) := fun n => node_mkdirs_away (entry_not_job hid (by decide) n)
  have hsome : ∀ p : Path, p ≠ [] → t.isDir p = true → t.node p ≠ none := fun p hp h => by
    obtain ⟨size, hnode⟩ := (FileTree.isDir_iff.mp h).resolve_left hp
    simp [hnode]
  have hstage : t.node (stagePath id) ≠ none := hsome _ (by simp [stagePath]) hdir
  refine ⟨hsame _ hstage, hsame _ (hsome _ (by simp [jobPath]) (FileTree.isDir_parent hstage)),
    fun n => children_congr fun x => node_mkdirs_away ?_, fun n _ => hbelow n⟩
  rw [stageDir, steps_jobDir hid (by decide)]
  simp [stagePath, jobPath]

theorem pathsSafe_made (hid : ProperName id) {paths : List Bytes}
    (h : pathsSafe (t.mkdirs (steps (stageDir id))) id
      ((t.mkdirs (steps (stageDir id))).children (stagePath id) ≠ []) paths) :
    pathsSafe t id (t.children (stagePath id) ≠ []) paths := by
  by_cases hdir : t.isDir (stagePath id) = true
  · have hchildren : (t.mkdirs (steps (stageDir id))).children (stagePath id) = [] ↔
        t.children (stagePath id) = [] :=
      children_congr fun n => node_mkdirs_away (entry_not_job hid (by decide) n)
    rw [pathsSafe_congr hid (.made hid hdir), ne_eq, hchildren] at h
    exact h
  · cases paths with
    | nil => trivial
    | cons remote rest => exact ⟨h.1, fun hfetch => absurd hfetch.1 hdir⟩

end QnxHypervisor.OtaUpdate
