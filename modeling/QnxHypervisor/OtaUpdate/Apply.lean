import QnxHypervisor.GuestManager.OneProcess
import QnxHypervisor.OtaUpdate.Effects

/-! # The apply job

What the three loops of `ota_apply_thread` do: which names are read, how far the
copies get and what they leave, and what the clean-up removes. Each is said in
terms of the tree before the job.
-/

namespace QnxHypervisor.OtaUpdate

open Foundation GuestManager HmsStatus

variable {w : World} {env : JobEnv} {id name : Bytes} {names : List Bytes} {t t' : FileTree}
  {p q : Path} {i n : Nat}

/-- A directory entry that the shell takes literally between quotes. -/
structure PlainName (name : Bytes) : Prop where
  proper : ProperName name
  quotable : Quotable name

instance (name : Bytes) : Decidable (PlainName name) :=
  decidable_of_iff (ProperName name ∧ Quotable name) ⟨fun h => ⟨h.1, h.2⟩, fun h => ⟨h.1, h.2⟩⟩

/-! ## Reading the names -/

theorem readStaged_ok {room : Nat} {listing : List Bytes}
    (h : readStaged room listing = .ok names) :
    names = (listing.filter fun name => name ≠ utf8 "." ∧ name ≠ utf8 "..").take room ∧
      ∀ name ∈ names, isControlFile name = false := by
  induction listing generalizing room names with
  | nil =>
      cases room <;>
      · cases h
        simp
  | cons entry rest ih =>
      cases room with
      | zero =>
          cases h
          simp
      | succ room =>
          unfold readStaged at h
          split at h
          · next hdot =>
            have hskip : ¬(entry ≠ utf8 "." ∧ entry ≠ utf8 "..") := by
              rintro ⟨h₁, h₂⟩
              exact hdot.elim h₁ h₂
            rw [List.filter_cons_of_neg (by simpa using hskip)]
            exact ih h
          · next hdot =>
            have hkeep : entry ≠ utf8 "." ∧ entry ≠ utf8 ".." := not_or.mp hdot
            split at h
            · cases h
            · next hcontrol =>
              cases hrest : readStaged room rest with
              | error e => simp [hrest, Except.map] at h
              | ok more =>
                  simp only [hrest, Except.map, Except.ok.injEq] at h
                  obtain ⟨htake, hplain⟩ := ih hrest
                  rw [List.filter_cons_of_pos (by simpa using hkeep), List.take_succ_cons, ← htake, ← h]
                  refine ⟨rfl, fun name hname => ?_⟩
                  rcases List.mem_cons.mp hname with rfl | hmem
                  · simpa using hcontrol
                  · exact hplain name hmem

theorem nodup_children (t : FileTree) (p : Path) : (t.children p).Nodup := by
  refine List.Nodup.filterMap (fun a a' b hb hb' => ?_) t.nodes.nodupKeys
  rw [Option.mem_def] at hb hb'
  have hlast : a = p ++ [b] := by grind
  have hlast' : a' = p ++ [b] := by grind
  rw [hlast, hlast']

/-! ## One copy -/

def CopyOutcome.stores : CopyOutcome → Bytes → Option Bytes
  | .done, c => some c
  | .cut k, c => some (c.take k)
  | .failed, _ => none

def copyTarget (t : FileTree) (id name : Bytes) : Path := target t (guestPath id ++ [name]) name

/-- What the i-th copy writes, if its target can be written. -/
def copyContent (env : JobEnv) (t : FileTree) (id : Bytes) (i : Nat) (name : Bytes) : Option Bytes :=
  (textAt t (stagePath id ++ [name])).bind (env.copied i).stores

def CopyEnds (env : JobEnv) (t : FileTree) (id : Bytes) (i : Nat) (name : Bytes) : Prop :=
  (∃ c, textAt t (stagePath id ++ [name]) = some c) ∧ env.copied i = .done ∧
    t.Writable (copyTarget t id name)

def CopyKeeps (env : JobEnv) (t : FileTree) (id : Bytes) (i : Nat) (name : Bytes) : Prop :=
  ∀ c, copyContent env t id i name = some c → t.Writable (copyTarget t id name) →
    t.node (copyTarget t id name) = some (.file c)

theorem regularAt_join (dir : Bytes) (hname : ProperName name) :
    regularAt t (join dir name) = textAt t (resolve dir ++ [name]) := by
  rw [regularAt, baseOnly_join _ hname.noSlash, if_pos hname, resolve_join_proper _ hname]

/-- The copy command of the loop. -/
def copyOne (env : JobEnv) (id : Bytes) (i : Nat) (name : Bytes) (w : World) : Int × World :=
  w.cp env i (join (stageDir id) name) (join (guestDir id) name)

section
variable (hid : PlainName id) (hname : PlainName name)
include hid hname

theorem copyOne_spec : ((copyOne env id i name w).1 = 0 ↔ CopyEnds env w.fs id i name) ∧
    (copyOne env id i name w).2.fs = match copyContent env w.fs id i name with
      | some c => w.fs.write (copyTarget w.fs id name) c
      | none => w.fs := by
  have hsrc : Quotable (join (stageDir id) name) := quotable_stageFile hid.quotable hname.quotable
  have hdst : Quotable (join (guestDir id) name) := quotable_guestFile hid.quotable hname.quotable
  have hcases := @World.cp_cases w env _ _ i hsrc hdst
  rw [regularAt_join _ hname.proper, resolve_stageDir hid.proper, baseOnly_join _ hname.proper.noSlash,
    resolve_join_proper _ hname.proper, resolve_guestDir hid.proper] at hcases
  unfold copyOne
  rcases hcases with ⟨c, htext, hdone, hwrite, heq⟩ | ⟨c, k, htext, hcut, heq⟩ | ⟨hnone, heq⟩
  · rw [heq]
    refine ⟨⟨fun _ => ⟨⟨c, htext⟩, hdone, hwrite⟩, fun _ => rfl⟩, ?_⟩
    simp [copyContent, htext, hdone, CopyOutcome.stores, World.put_fs, copyTarget]
  · rw [heq]
    refine ⟨⟨fun h => absurd (show (1 : Int) = 0 from h) (by decide), fun h => ?_⟩, ?_⟩
    · rw [h.2.1] at hcut
      cases hcut
    · simp [copyContent, htext, hcut, CopyOutcome.stores, World.put_fs, copyTarget]
  · rw [heq]
    refine ⟨⟨fun h => absurd (show (1 : Int) = 0 from h) (by decide), fun ⟨⟨c, htext⟩, hdone, hwrite⟩ => ?_⟩, ?_⟩
    · rcases hnone with hnone | hfailed | ⟨-, hnot⟩
      · rw [htext] at hnone
        cases hnone
      · rw [hdone] at hfailed
        cases hfailed
      · exact absurd hwrite hnot
    · rcases hnone with hnone | hfailed | ⟨hdone, hnot⟩
      · simp [copyContent, hnone]
      · cases htext : textAt w.fs (stagePath id ++ [name]) <;>
          simp [copyContent, htext, hfailed, CopyOutcome.stores]
      · cases htext : textAt w.fs (stagePath id ++ [name]) with
        | none => simp [copyContent, htext]
        | some c =>
            have hsame : w.fs.write (copyTarget w.fs id name) c = w.fs :=
              FileTree.write_eq_self hnot
            simp [copyContent, htext, hdone, CopyOutcome.stores, hsame]

theorem node_copyOne_ne (hq : q ≠ copyTarget w.fs id name) :
    (copyOne env id i name w).2.fs.node q = w.fs.node q := by
  rw [(copyOne_spec hid hname).2]
  split
  · rw [FileTree.node_write, if_neg fun h => hq h.1]
  · rfl

theorem isDir_copyOne (q : Path) : (copyOne env id i name w).2.fs.isDir q = w.fs.isDir q := by
  rw [(copyOne_spec hid hname).2]
  split
  · rw [FileTree.isDir_write]
  · rfl

theorem copyOne_keeps : (copyOne env id i name w).2.fs.node (copyTarget w.fs id name) =
    w.fs.node (copyTarget w.fs id name) ↔ CopyKeeps env w.fs id i name := by
  rw [(copyOne_spec hid hname).2]
  unfold CopyKeeps
  cases hcontent : copyContent env w.fs id i name with
  | none => simp
  | some c =>
      simp only [FileTree.node_write, true_and, Option.some.injEq, forall_eq']
      by_cases hwrite : w.fs.Writable (copyTarget w.fs id name)
      · simp [hwrite, eq_comm]
      · simp [hwrite]

theorem copyOne_writes (hends : CopyEnds env w.fs id i name) {c : Bytes}
    (hc : w.fs.node (stagePath id ++ [name]) = some (.file c)) :
    (copyOne env id i name w).2.fs.node (copyTarget w.fs id name) = some (.file c) := by
  obtain ⟨-, hdone, hwrite⟩ := hends
  have hcontent : copyContent env w.fs id i name = some c := by
    simp [copyContent, textAt_eq_some.mpr hc, hdone, CopyOutcome.stores]
  rw [(copyOne_spec hid hname).2, hcontent]
  simp [FileTree.node_write, hwrite]

end

/-! ## The copy loop -/

/-- All copies from index `i` on end with status 0. -/
def AllEnd (env : JobEnv) (t : FileTree) (id : Bytes) : Nat → List Bytes → Prop
  | _, [] => True
  | i, name :: rest => CopyEnds env t id i name ∧ AllEnd env t id (i + 1) rest

/-- The copies up to the first that fails leave their targets as they are. -/
def KeptUntilFailure (env : JobEnv) (t : FileTree) (id : Bytes) : Nat → List Bytes → Prop
  | _, [] => True
  | i, name :: rest => CopyKeeps env t id i name ∧
      (CopyEnds env t id i name → KeptUntilFailure env t id (i + 1) rest)

/-- The names given to the copies are literal, as far as the loop gets. -/
def LiteralUntilFailure (env : JobEnv) (t : FileTree) (id : Bytes) : Nat → List Bytes → Prop
  | _, [] => True
  | i, name :: rest => Quotable name ∧
      (CopyEnds env t id i name → LiteralUntilFailure env t id (i + 1) rest)

/-- The second tree has the first one's directories, staged files and copy targets. -/
structure Agree (t t' : FileTree) (id : Bytes) (names : List Bytes) : Prop where
  dirs : ∀ q, t'.isDir q = t.isDir q
  staged : ∀ name ∈ names, t'.node (stagePath id ++ [name]) = t.node (stagePath id ++ [name])
  targets : ∀ name ∈ names, t'.node (copyTarget t id name) = t.node (copyTarget t id name)

theorem copyTarget_congr (h : ∀ q, t'.isDir q = t.isDir q) :
    copyTarget t' id name = copyTarget t id name := by
  rw [copyTarget, target, h]
  rfl

theorem writable_congr (h : ∀ q, t'.isDir q = t.isDir q) : t'.Writable p ↔ t.Writable p := by
  simp only [FileTree.Writable, h]

namespace Agree

theorem content (h : Agree t t' id names) (hname : name ∈ names) :
    copyContent env t' id i name = copyContent env t id i name := by
  rw [copyContent, textAt, h.staged name hname]
  rfl

theorem ends (h : Agree t t' id names) (hname : name ∈ names) :
    CopyEnds env t' id i name ↔ CopyEnds env t id i name := by
  simp only [CopyEnds, textAt, h.staged name hname, copyTarget_congr h.dirs, writable_congr h.dirs]

theorem keeps (h : Agree t t' id names) (hname : name ∈ names) :
    CopyKeeps env t' id i name ↔ CopyKeeps env t id i name := by
  simp only [CopyKeeps, h.content hname, copyTarget_congr h.dirs, writable_congr h.dirs,
    h.targets name hname]

end Agree

theorem copyTarget_eq (t : FileTree) (id name : Bytes) :
    copyTarget t id name = guestPath id ++ [name] ∨
      copyTarget t id name = guestPath id ++ [name] ++ [name] := by
  unfold copyTarget target
  split
  · exact .inr rfl
  · exact .inl rfl

theorem copyTarget_ne {name' : Bytes} (h : name' ≠ name) : copyTarget t id name' ≠ copyTarget t' id name := by
  intro heq
  rcases copyTarget_eq t id name' with h₁ | h₁ <;> rcases copyTarget_eq t' id name with h₂ | h₂ <;>
  · rw [h₁, h₂] at heq
    simp [guestPath, h] at heq

theorem stage_ne_copyTarget (name' : Bytes) : stagePath id ++ [name'] ≠ copyTarget t id name := by
  rcases copyTarget_eq t id name with h | h
  · rw [h]
    exact stage_ne_guest _ _ _ _
  · rw [h, List.append_assoc]
    exact stage_ne_guest _ _ _ _

theorem metaPath_ne_copyTarget (h : name ≠ metaName) : metaPath id ≠ copyTarget t id name := by
  intro heq
  rcases copyTarget_eq t id name with h₁ | h₁ <;>
  · rw [h₁] at heq
    simp [metaPath, guestPath, h.symm] at heq

/-- The state in which the loop goes on after a copy. -/
def afterCopy (env : JobEnv) (id : Bytes) (n i : Nat) (name : Bytes) (w : World) : World :=
  (copyOne env id i name w).2.report id "apply" (Int32.ofNat ((i + 1) * 100 / n))
    (utf8 "Updated " ++ clipped 120 name)

theorem stage_ne_meta (name : Bytes) : stagePath id ++ [name] ≠ metaPath id := stage_ne_guest _ _ _ _

theorem allEnd_file (hall : AllEnd env t id i names) (hname : name ∈ names) :
    ∃ c, t.node (stagePath id ++ [name]) = some (.file c) := by
  induction names generalizing i with
  | nil => cases hname
  | cons first rest ih =>
      obtain ⟨⟨⟨c, hc⟩, -⟩, hrest⟩ := hall
      rcases List.mem_cons.mp hname with rfl | hmem
      · exact ⟨c, textAt_eq_some.mp hc⟩
      · exact ih hrest hmem

theorem copyStaged_cons (rest : List Bytes) :
    copyStaged env id n i (name :: rest) w =
      if (copyOne env id i name w).1 ≠ 0 then
        (false, (copyOne env id i name w).2.report id "failed" 0
          (utf8 "Failed to place file in guest directory"))
      else copyStaged env id n (i + 1) rest (afterCopy env id n i name w) := rfl

theorem Agree.afterCopy (hid : PlainName id) (hname : PlainName name) (hnew : name ∉ names)
    (h : Agree t w.fs id (name :: names)) :
    Agree t (afterCopy env id n i name w).fs id names := by
  change Agree t (copyOne env id i name w).2.fs id names
  refine ⟨fun q => (isDir_copyOne hid hname q).trans (h.dirs q), fun m hm => ?_, fun m hm => ?_⟩
  · rw [node_copyOne_ne hid hname (stage_ne_copyTarget m)]
    exact h.staged m (List.mem_cons_of_mem _ hm)
  · have hne : m ≠ name := by
      rintro rfl
      exact hnew hm
    rw [node_copyOne_ne hid hname (copyTarget_ne hne)]
    exact h.targets m (List.mem_cons_of_mem _ hm)

structure Turn (env : JobEnv) (t : FileTree) (id : Bytes) (i n : Nat) (name : Bytes) (rest : List Bytes)
    (w : World) : Prop where
  plain : PlainName name
  fresh : name ∉ rest
  ends : (copyOne env id i name w).1 = 0 ↔ CopyEnds env t id i name
  agree : Agree t (afterCopy env id n i name w).fs id rest
  proper : ∀ m ∈ rest, ProperName m
  literal : CopyEnds env t id i name → LiteralUntilFailure env t id (i + 1) rest
  nodup : rest.Nodup

section
variable (hid : PlainName id) (hproper : ∀ name ∈ names, ProperName name)
  (hliteral : LiteralUntilFailure env t id i names) (hnodup : names.Nodup) (hagree : Agree t w.fs id names)
include hid

theorem turn_of_cons {rest : List Bytes} (hproper : ∀ m ∈ name :: rest, ProperName m)
    (hliteral : LiteralUntilFailure env t id i (name :: rest)) (hnodup : (name :: rest).Nodup)
    (hagree : Agree t w.fs id (name :: rest)) : Turn env t id i n name rest w := by
  have hname : PlainName name := ⟨hproper name List.mem_cons_self, hliteral.1⟩
  obtain ⟨hnew, hrest⟩ := List.nodup_cons.mp hnodup
  exact ⟨hname, hnew, (copyOne_spec hid hname).1.trans (hagree.ends List.mem_cons_self),
    hagree.afterCopy hid hname hnew, fun m hm => hproper m (List.mem_cons_of_mem _ hm), hliteral.2, hrest⟩

include hproper hliteral hnodup hagree

theorem copyStaged_status : (copyStaged env id n i names w).1 = true ↔ AllEnd env t id i names := by
  induction names generalizing i w with
  | nil => simp [copyStaged, AllEnd]
  | cons name rest ih =>
      have hturn : Turn env t id i n name rest w := turn_of_cons hid hproper hliteral hnodup hagree
      rw [copyStaged_cons, AllEnd, ← hturn.ends]
      split
      · next hfail => simp [hfail]
      · next hzero =>
        rw [not_not] at hzero
        refine (ih hturn.proper (hturn.literal (hturn.ends.mp hzero)) hturn.nodup hturn.agree).trans ?_
        simp [hzero]

theorem copyStaged_host : (copyStaged env id n i names w).2.host = w.host := by
  induction names generalizing i w with
  | nil => rfl
  | cons name rest ih =>
      have hturn : Turn env t id i n name rest w := turn_of_cons hid hproper hliteral hnodup hagree
      have hone : (copyOne env id i name w).2.host = w.host :=
        World.cp_host (quotable_stageFile hid.quotable hturn.plain.quotable)
          (quotable_guestFile hid.quotable hturn.plain.quotable)
      rw [copyStaged_cons]
      split
      · exact hone
      · next hzero =>
        rw [not_not] at hzero
        exact (ih hturn.proper (hturn.literal (hturn.ends.mp hzero)) hturn.nodup hturn.agree).trans hone

theorem isDir_copyStaged (q : Path) : (copyStaged env id n i names w).2.fs.isDir q = w.fs.isDir q := by
  induction names generalizing i w with
  | nil => rfl
  | cons name rest ih =>
      have hturn : Turn env t id i n name rest w := turn_of_cons hid hproper hliteral hnodup hagree
      rw [copyStaged_cons]
      split
      · exact isDir_copyOne hid hturn.plain q
      · next hzero =>
        rw [not_not] at hzero
        rw [ih hturn.proper (hturn.literal (hturn.ends.mp hzero)) hturn.nodup hturn.agree]
        exact isDir_copyOne hid hturn.plain q

theorem node_copyStaged_ne (hq : ∀ name ∈ names, q ≠ copyTarget t id name) :
    (copyStaged env id n i names w).2.fs.node q = w.fs.node q := by
  induction names generalizing i w with
  | nil => rfl
  | cons name rest ih =>
      have hturn : Turn env t id i n name rest w := turn_of_cons hid hproper hliteral hnodup hagree
      have hone : (copyOne env id i name w).2.fs.node q = w.fs.node q := by
        apply node_copyOne_ne hid hturn.plain
        rw [copyTarget_congr hagree.dirs]
        exact hq name List.mem_cons_self
      rw [copyStaged_cons]
      split
      · exact hone
      · next hzero =>
        rw [not_not] at hzero
        exact (ih hturn.proper (hturn.literal (hturn.ends.mp hzero)) hturn.nodup hturn.agree
          fun m hm => hq m (List.mem_cons_of_mem _ hm)).trans hone

theorem copyStaged_writes (hall : AllEnd env t id i names) {c : Bytes} (hmem : name ∈ names)
    (hc : t.node (stagePath id ++ [name]) = some (.file c)) :
    (copyStaged env id n i names w).2.fs.node (copyTarget t id name) = some (.file c) := by
  induction names generalizing i w with
  | nil => cases hmem
  | cons first rest ih =>
      have hturn : Turn env t id i n first rest w := turn_of_cons hid hproper hliteral hnodup hagree
      obtain ⟨hends, hmore⟩ := hall
      have hends' : CopyEnds env w.fs id i first := (hagree.ends List.mem_cons_self).mpr hends
      have hnext := hturn.literal hends
      rw [copyStaged_cons, if_neg (not_not_intro (hturn.ends.mpr hends))]
      rcases List.mem_cons.mp hmem with rfl | hmem
      · have hkeep : ∀ m ∈ rest, copyTarget t id name ≠ copyTarget t id m := fun m hm => by
          apply copyTarget_ne
          rintro rfl
          exact hturn.fresh hm
        refine (node_copyStaged_ne hid hturn.proper hnext hturn.nodup hturn.agree hkeep).trans ?_
        rw [← copyTarget_congr hagree.dirs]
        exact copyOne_writes hid hturn.plain hends' ((hagree.staged name List.mem_cons_self).trans hc)
      · exact ih hturn.proper hnext hturn.nodup hturn.agree hmore hmem

theorem copyStaged_keeps :
    (∀ name ∈ names, (copyStaged env id n i names w).2.fs.node (copyTarget t id name) =
      t.node (copyTarget t id name)) ↔ KeptUntilFailure env t id i names := by
  induction names generalizing i w with
  | nil => simp [KeptUntilFailure]
  | cons name rest ih =>
      have hturn : Turn env t id i n name rest w := turn_of_cons hid hproper hliteral hnodup hagree
      -- the first target is decided by the first copy
      have hfirst : (copyOne env id i name w).2.fs.node (copyTarget t id name) =
          t.node (copyTarget t id name) ↔ CopyKeeps env t id i name := by
        rw [← hagree.keeps List.mem_cons_self, ← copyOne_keeps hid hturn.plain,
          copyTarget_congr hagree.dirs, hagree.targets name List.mem_cons_self]
      rw [KeptUntilFailure, ← hfirst, ← hturn.ends, copyStaged_cons, List.forall_mem_cons]
      split
      · next hfail =>
        exact and_congr_right fun _ => iff_of_true hturn.agree.targets fun h => absurd h hfail
      · next hzero =>
        rw [not_not] at hzero
        have hnext := hturn.literal (hturn.ends.mp hzero)
        have hkeep : ∀ m ∈ rest, copyTarget t id name ≠ copyTarget t id m := fun m hm => by
          apply copyTarget_ne
          rintro rfl
          exact hturn.fresh hm
        refine and_congr ?_ ?_
        · rw [node_copyStaged_ne hid hturn.proper hnext hturn.nodup hturn.agree hkeep]
          rfl
        · refine (ih hturn.proper hnext hturn.nodup hturn.agree).trans ?_
          simp [hzero]

end

/-! ## Reports of the loops -/

theorem copyStaged_succeeded :
    Succeeded id (copyStaged env id n i names w).2 ↔ Succeeded id w := by
  induction names generalizing i w with
  | nil => rfl
  | cons name rest ih =>
      have hone : Succeeded id (copyOne env id i name w).2 ↔ Succeeded id w :=
        Succeeded.congr World.cp_published
      rw [copyStaged_cons]
      split
      · exact (succeeded_report _ _ _).trans hone
      · exact ih.trans ((succeeded_report _ _ _).trans hone)

theorem copyStaged_failed : Failed id (copyStaged env id n i names w).2 ↔
    Failed id w ∨ (copyStaged env id n i names w).1 = false := by
  induction names generalizing i w with
  | nil => simp [copyStaged]
  | cons name rest ih =>
      have hone : Failed id (copyOne env id i name w).2 ↔ Failed id w :=
        Failed.congr World.cp_published
      rw [copyStaged_cons]
      split
      · exact iff_of_true (failed_reported _) (.inr rfl)
      · rw [ih]
        exact or_congr_left ((failed_report (by decide)).trans hone)

theorem restartGuest_failed (restart : Bool) :
    Failed id (restartGuest env id restart w) ↔ Failed id w := by
  cases restart with
  | false => exact failed_report (by decide)
  | true => exact (failed_report (by decide)).trans (failed_report (by decide))

theorem restartGuest_fs (restart : Bool) : (restartGuest env id restart w).fs =
    if restart then (w.call id (otaStartCb env.start id)).2.fs else w.fs := by
  cases restart <;> rfl

theorem restartGuest_writes (restart : Bool) : (restartGuest env id restart w).writes = w.writes := by
  cases restart <;> rfl

theorem node_restartGuest (hid : ProperName id) (hq : q ≠ metaPath id) (restart : Bool) :
    (restartGuest env id restart w).fs.node q = w.fs.node q := by
  rw [restartGuest_fs]
  split
  · exact World.node_call hid hq
  · rfl

/-! ## The clean-up loop -/

theorem unlinkStaged_host : (unlinkStaged id names w).host = w.host := by
  unfold unlinkStaged
  induction names generalizing w with
  | nil => rfl
  | cons name rest ih => exact ih.trans World.unlink_host

theorem unlinkStaged_writes : (unlinkStaged id names w).writes = w.writes := by
  unfold unlinkStaged
  induction names generalizing w with
  | nil => rfl
  | cons name rest ih => exact ih.trans World.unlink_writes

theorem unlinkStaged_published : (unlinkStaged id names w).published = w.published := by
  unfold unlinkStaged
  induction names generalizing w with
  | nil => rfl
  | cons name rest ih => exact ih.trans World.unlink_published

section
variable (hid : ProperName id) (hnames : ∀ name ∈ names, ProperName name)
include hid

theorem node_unlink (hname : ProperName name) :
    (w.unlink (join (stageDir id) name)).fs.node q =
      if q = stagePath id ++ [name] ∧ w.fs.children (stagePath id ++ [name]) = [] then none
      else w.fs.node q := by
  have hbase : ProperName (baseOnly (join (stageDir id) name)) :=
    (baseOnly_join _ hname.noSlash).symm ▸ hname
  rw [World.unlink_fs hbase, resolve_join_proper _ hname, resolve_stageDir hid, FileTree.node_remove]

include hnames

theorem node_unlinkStaged_ne (hq : ∀ name ∈ names, q ≠ stagePath id ++ [name]) :
    (unlinkStaged id names w).fs.node q = w.fs.node q := by
  unfold unlinkStaged
  induction names generalizing w with
  | nil => rfl
  | cons name rest ih =>
      have hone : (w.unlink (join (stageDir id) name)).fs.node q = w.fs.node q := by
        rw [node_unlink hid (hnames name List.mem_cons_self)]
        exact if_neg fun h => hq name List.mem_cons_self h.1
      rw [List.foldl_cons, ih (fun m hm => hnames m (List.mem_cons_of_mem _ hm))
        fun m hm => hq m (List.mem_cons_of_mem _ hm)]
      exact hone

theorem node_unlinkStaged_none (hq : w.fs.node q = none) :
    (unlinkStaged id names w).fs.node q = none := by
  unfold unlinkStaged
  induction names generalizing w with
  | nil => exact hq
  | cons name rest ih =>
      rw [List.foldl_cons]
      apply ih fun m hm => hnames m (List.mem_cons_of_mem _ hm)
      rw [node_unlink hid (hnames name List.mem_cons_self)]
      split
      · rfl
      · exact hq

theorem node_unlinkStaged_file {c : Bytes} (hmem : name ∈ names)
    (hfile : w.fs.node (stagePath id ++ [name]) = some (.file c)) :
    (unlinkStaged id names w).fs.node (stagePath id ++ [name]) = none := by
  induction names generalizing w with
  | nil => cases hmem
  | cons first rest ih =>
      have hrest := fun m hm => hnames m (List.mem_cons_of_mem first hm)
      have hfirst := node_unlink (w := w) (q := stagePath id ++ [name]) hid
        (hnames first List.mem_cons_self)
      change (unlinkStaged id rest (w.unlink (join (stageDir id) first))).fs.node _ = none
      by_cases heq : name = first
      · subst heq
        apply node_unlinkStaged_none hid hrest
        rw [hfirst, if_pos ⟨rfl, FileTree.children_file hfile (by simp)⟩]
      · apply ih hrest ((List.mem_cons.mp hmem).resolve_left heq)
        rw [hfirst, if_neg fun h => heq (by simpa using h.1), hfile]

end

/-! ## A small system -/

def smallTree (files : List (Path × Bytes)) : FileTree :=
  files.foldl (fun t file => t.write file.1 file.2)
    ([guestDir guestA, stageDir guestA, packageDir guestA].foldl (fun t dir => t.mkdirs (steps dir))
      .empty)

def recordOf (state : GuestState) (pid : Int32) : Guest :=
  { discoverOne (guestEntry guestA) none with state := state, pid := pid }

def hostWith (state : GuestState) (pid : Int32) : Host :=
  { bareHost.spawn 100 ⟨qvmCmdline [], some guestA⟩ with guests := [recordOf state pid] }

def serverWith (path content : Bytes) (h : ProperName (baseOnly path)) : Server where
  file := fun p => if p = path then some content else none
  stat := fun p => if p = path then some content.length else none
  named := by
    intro p hp
    by_cases heq : p = path
    · exact heq ▸ h
    · simp [heq] at hp
  statFile := by
    intro p c _ hc
    by_cases heq : p = path
    · simp only [heq, if_true, Option.some.injEq] at hc ⊢
      rw [hc]
    · simp [heq] at hc

def remoteFile : Bytes := utf8 "/up/disk.bin"

def calmEnv : JobEnv where
  server := serverWith remoteFile [1, 2, 3, 4] (by decide)
  shell := fun _ t procs => ⟨t, procs, [], 0⟩
  mkdirOk := true
  sized := fun _ => true
  stored := fun _ _ => some 4
  tar := ⟨fun _ _ => [], 0⟩
  copied := fun _ => .done
  listing := [utf8 "disk.bin"]
  killStore := storeOk
  start := startAs 101

/-- The guest directory's and the stage's `disk.bin`. -/
def installedDisk : Path := guestPath guestA ++ [utf8 "disk.bin"]
def stagedDisk : Path := stagePath guestA ++ [utf8 "disk.bin"]

end QnxHypervisor.OtaUpdate
