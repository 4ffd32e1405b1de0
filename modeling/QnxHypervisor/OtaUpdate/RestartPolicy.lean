import QnxHypervisor.OtaUpdate.ApplyPromise

/-! # Who restarts the guest

An apply job kills the guest first and decides about the restart after the copies.
With `--no-restart` and no image file among the staged ones the guest stays
killed, whatever the report says.
-/

namespace QnxHypervisor.OtaUpdate

open Foundation GuestManager HmsStatus

variable {w : World} {env : JobEnv} {id : Bytes} {names : List Bytes} {restart : Bool}

def ImageStaged (id : Bytes) (t : FileTree) : Prop :=
  ∃ name ∈ t.children (stagePath id), isImageFile name = true

/-- The policy: a restart that was asked for or that an image file forces ends with
a qvm begun after the last copy; without, running and stopped guests stay so. -/
structure RestartPolicy (env : JobEnv) (id : Bytes) (restart : Bool) (names : List Bytes)
    (w w' : World) : Prop where
  restarted : restart = true ∨ ImageStaged id w.fs →
    ∃ p, w'.host.Alive id p ∧ (copies env id names w).2.host.procs p = none
  running : restart = false → ¬ ImageStaged id w.fs → ∀ p, w.host.Alive id p → w'.host.Alive id p
  stays : restart = false → ¬ ImageStaged id w.fs → (∀ p, ¬ w.host.Alive id p) →
    ∀ p, ¬ w'.host.Alive id p
  told : restart = false → ¬ ImageStaged id w.fs →
    .otaProgress id (utf8 "restart") 100 (utf8 "Files replaced (guest left running)") ∈ w'.published

/-- The record that `ota_kill_cb` finds is RUNNING, with the pid of the guest's own qvm. -/
def KillsQvm (id : Bytes) (h : Host) : Prop :=
  ∃ g, findGuest h.guests id = some g ∧ g.state = .running ∧ 0 < g.pid ∧ h.Alive id g.pid

theorem stopped_alive_of_alive {p : Int32} (h : (stopped env id w).host.Alive id p) : w.host.Alive id p := by
  rw [stopped_alive] at h
  rcases otaKillCb_cases env.killStore id w.calls with ⟨-, hprocs, -⟩ | ⟨g, proc, -, -, -, -, hprocs, -⟩
  · rwa [Host.Alive, hprocs] at h
  · rw [Host.Alive, hprocs] at h
    obtain ⟨proc', hproc', hlaunched⟩ := h
    by_cases hp : p = g.pid
    · simp [hp] at hproc'
    · exact ⟨proc', by simpa [hp] using hproc', hlaunched⟩

/-- The qvms of the guest survive the kill unless it hits one. -/
theorem stopped_keeps_iff :
    (∀ p, w.host.Alive id p → (stopped env id w).host.Alive id p) ↔ ¬ KillsQvm id w.host := by
  rcases otaKillCb_cases env.killStore id w.calls with ⟨hnone, hprocs, -⟩ |
    ⟨g, proc, hfind, hrun, hpos, hproc, hprocs, -⟩
  · refine iff_of_true (fun p hp => ?_) ?_
    · rw [stopped_alive, Host.Alive, hprocs]
      exact hp
    · rintro ⟨g, hfind, hrun, hpos, proc, hproc, -⟩
      cases (hnone g hfind hrun hpos).symm.trans hproc
  · have hgone : ¬ (stopped env id w).host.Alive id g.pid := by
      rw [stopped_alive, Host.Alive, hprocs]
      simp
    refine ⟨fun hkept hkills => ?_, fun hnot p hp => ?_⟩
    · obtain ⟨g', hfind', -, -, halive⟩ := hkills
      obtain rfl : g = g' := Option.some.inj (hfind.symm.trans hfind')
      exact hgone (hkept _ halive)
    · have hne : p ≠ g.pid := by
        rintro rfl
        exact hnot ⟨g, hfind, hrun, hpos, hp⟩
      rw [stopped_alive, Host.Alive, hprocs, Function.update_of_ne hne]
      exact hp

/-- Copies, whatever the shell does with them, leave the table of guests. -/
theorem copyStaged_guests {i n : Nat} :
    (copyStaged env id n i names w).2.host.guests = w.host.guests := by
  induction names generalizing i w with
  | nil => rfl
  | cons name rest ih =>
      have hone : (copyOne env id i name w).2.host.guests = w.host.guests := World.cp_guests
      rw [copyStaged_cons]
      split
      · exact hone
      · exact ih.trans hone

theorem finished_restarted (hforce : restartAfter restart names = true)
    (hstart : (otaStartCb env.start id (copies env id names w).2.calls).1 = 0) :
    ∃ p, env.start.pid = some p ∧ (finished env id restart names w).host.Alive id p := by
  have hstop : ∀ g, findGuest (copies env id names w).2.calls.guests id = some g →
      g.state ≠ .running := by
    intro g hfind
    rw [World.calls_guests, copies, copyStaged_guests] at hfind
    exact otaKillCb_state (h := w.calls) hfind
  obtain ⟨p, hpid, halive, -⟩ := otaStartCb_started hstop hstart
  refine ⟨p, hpid, ?_⟩
  rw [finished, unlinkStaged_host, hforce]
  exact halive

theorem finished_left (hforce : restartAfter restart names = false) :
    (finished env id restart names w).host = (copies env id names w).2.host := by
  rw [finished, unlinkStaged_host, hforce]
  rfl

theorem restartAfter_iff (hn : Names env id names w.fs)
    (hfew : (w.fs.children (stagePath id)).length ≤ maxFiles) :
    restartAfter restart names = true ↔ restart = true ∨ ImageStaged id w.fs := by
  have himage : names.any isImageFile = true ↔ ImageStaged id w.fs := by
    rw [List.any_eq_true]
    exact exists_congr fun name => and_congr_left fun _ => ⟨hn.staged name, hn.all hfew name⟩
  rw [← himage]
  unfold restartAfter
  split
  · next h => simp [h]
  · next h => simp [h]

/-- The lifecycle callbacks succeed: a restart that is due ends with 0, under a pid
that the kernel had free. -/
structure CallbacksSucceed (env : JobEnv) (id : Bytes) (restart : Bool) (names : List Bytes)
    (w : World) : Prop where
  started : restartAfter restart names = true →
    (otaStartCb env.start id (copies env id names w).2.calls).1 = 0
  fresh : restartAfter restart names = true →
    ∀ p, env.start.pid = some p → (copies env id names w).2.host.procs p = none

theorem finished_told (hforce : restartAfter restart names = false) :
    .otaProgress id (utf8 "restart") 100 (utf8 "Files replaced (guest left running)") ∈
      (finished env id restart names w).published := by
  rw [finished, unlinkStaged_published, hforce]
  exact List.mem_append_right _ List.mem_cons_self

theorem applyThread_ended {fs : FileTree} {h : Host} (hb : Begins env id names (World.begin fs h)) :
    (Succeeded id (applyThread env id restart (World.begin fs h)) ↔
        (copies env id names (World.begin fs h)).1 = true) ∧
      ((copies env id names (World.begin fs h)).1 = true →
        ∃ msg, applyThread env id restart (World.begin fs h) =
          (finished env id restart names (World.begin fs h)).publish (.otaResult id true msg)) := by
  have hbefore : ¬ Succeeded id (World.begin fs h) := not_succeeded_begin fs h
  rcases applyThread_cases env id restart (World.begin fs h) with ⟨-, hnone⟩ | ⟨names', hb', hcourse⟩
  · exact absurd hb (hnone names)
  · obtain rfl : names = names' := by simpa using hb.read.symm.trans hb'.read
    rcases hcourse with ⟨hfalse, heq⟩ | ⟨htrue, msg, heq⟩
    · rw [heq, copies_succeeded, hfalse]
      exact ⟨iff_of_false hbefore Bool.false_ne_true, fun hend => absurd hend Bool.false_ne_true⟩
    · rw [heq]
      exact ⟨iff_of_true ⟨msg, by simp⟩ htrue, fun _ => ⟨msg, rfl⟩⟩

/-! ## Copies that can all end well -/

/-- The outcomes that the literal copies still to come depend on. -/
def LaterDone (env : JobEnv) (id : Bytes) : Nat → List Bytes → Prop
  | _, [] => True
  | i, name :: rest => (Quotable id ∧ Quotable name → env.copied i = .done) ∧ LaterDone env id (i + 1) rest

/-- Some shell lets all copies from index `i` on end with status 0: the literal ones end
well, and once the shell has read a line it can have made the files for the others. -/
def MayEnd (env : JobEnv) (t : FileTree) (id : Bytes) : Nat → List Bytes → Prop
  | _, [] => True
  | i, name :: rest =>
    Quotable id ∧ Quotable name ∧ CopyEnds env t id i name ∧ MayEnd env t id (i + 1) rest ∨
      ¬ (Quotable id ∧ Quotable name) ∧ LaterDone env id (i + 1) rest

section
variable {t : FileTree} {i n : Nat}

theorem laterDone_of_status (hid : ProperName id) (hproper : ∀ name ∈ names, ProperName name)
    (h : (copyStaged env id n i names w).1 = true) : LaterDone env id i names := by
  induction names generalizing i w with
  | nil => trivial
  | cons name rest ih =>
      rw [copyStaged_cons] at h
      split at h
      · cases h
      · next hzero =>
        rw [not_not] at hzero
        refine ⟨fun hline => ?_, ih (fun m hm => hproper m (List.mem_cons_of_mem _ hm)) h⟩
        have hname : PlainName name := ⟨hproper name List.mem_cons_self, hline.2⟩
        exact ((copyOne_spec ⟨hid, hline.1⟩ hname).1.mp hzero).2.1

theorem mayEnd_of_status (hid : ProperName id) (hproper : ∀ name ∈ names, ProperName name)
    (hnodup : names.Nodup) (hagree : Agree t w.fs id names)
    (h : (copyStaged env id n i names w).1 = true) : MayEnd env t id i names := by
  induction names generalizing i w with
  | nil => trivial
  | cons name rest ih =>
      rw [copyStaged_cons] at h
      split at h
      · cases h
      · next hzero =>
        rw [not_not] at hzero
        have hmore : ∀ m ∈ rest, ProperName m := fun m hm => hproper m (List.mem_cons_of_mem _ hm)
        obtain ⟨hnew, hrest⟩ := List.nodup_cons.mp hnodup
        by_cases hline : Quotable id ∧ Quotable name
        · have hplain : PlainName id := ⟨hid, hline.1⟩
          have hname : PlainName name := ⟨hproper name List.mem_cons_self, hline.2⟩
          have hends : CopyEnds env t id i name :=
            (hagree.ends List.mem_cons_self).mp ((copyOne_spec hplain hname).1.mp hzero)
          exact .inl ⟨hline.1, hline.2, hends,
            ih hmore hrest (hagree.afterCopy hplain hname hnew) h⟩
        · exact .inr ⟨hline, laterDone_of_status hid hmore h⟩

/-- With literal words alone it is the files and outcomes of the job that decide. -/
theorem allEnd_of_mayEnd (hid : Quotable id) (hnames : ∀ name ∈ names, Quotable name)
    (h : MayEnd env t id i names) : AllEnd env t id i names := by
  induction names generalizing i with
  | nil => trivial
  | cons name rest ih =>
      obtain ⟨hname, hrest⟩ := List.forall_mem_cons.mp hnames
      rcases h with ⟨-, -, hends, hmore⟩ | ⟨hline, -⟩
      · exact ⟨hends, ih hrest hmore⟩
      · exact absurd ⟨hid, hname⟩ hline

theorem literal_of_quotable (hnames : ∀ name ∈ names, Quotable name) :
    LiteralUntilFailure env t id i names := by
  induction names generalizing i with
  | nil => trivial
  | cons name rest ih =>
      obtain ⟨hname, hrest⟩ := List.forall_mem_cons.mp hnames
      exact ⟨hname, fun _ => ih hrest⟩

structure Ready (t : FileTree) (id : Bytes) (names : List Bytes) : Prop where
  staged : ∀ name ∈ names, ∃ c, textAt t (stagePath id ++ [name]) = some c
  writable : ∀ name ∈ names, t.Writable (copyTarget t id name)

theorem exists_ready (id : Bytes) (names : List Bytes) : ∃ t, Ready t id names := by
  obtain ⟨t, hguest, hfiles, hdirs⟩ := @FileTree.exists_files (stagePath id) (guestPath id) names
    fun name _ hpre => by simp [stagePath, guestPath, jobPath] at hpre
  refine ⟨t, fun name hname => ⟨[], textAt_eq_some.mpr (hfiles name hname)⟩, fun name _ => ?_⟩
  have hnot : t.isDir (guestPath id ++ [name]) = false := by
    rw [← Bool.not_eq_true]
    intro hdir
    rcases hdirs _ hdir with hpre | hpre
    · obtain ⟨rest, heq⟩ := hpre
      exact stage_ne_guest id id [] ([name] ++ rest) (by simp [← heq])
    · simpa using hpre.length_le
  rw [copyTarget, target, hnot]
  exact ⟨by simp [guestPath], by simpa [guestPath] using hguest, hnot⟩

variable {procs : Int32 → Option Proc} (hid : ProperName id) (hproper : ∀ name ∈ names, ProperName name)
  (hnodup : names.Nodup) (hshell : env.shell = endingIn t procs 0)
include hid hproper hnodup hshell

/-- From its first line on the shell has the files that all copies need. -/
theorem copyStaged_ready (hready : Ready t id names) (hagree : Agree t w.fs id names)
    (hprocs : w.host.procs = procs) (hdone : LaterDone env id i names) :
    (copyStaged env id n i names w).1 = true ∧ (copyStaged env id n i names w).2.host.procs = procs := by
  induction names generalizing i w with
  | nil => exact ⟨rfl, hprocs⟩
  | cons name rest ih =>
      obtain ⟨hfirst, hlater⟩ := hdone
      obtain ⟨hnew, hrest⟩ := List.nodup_cons.mp hnodup
      have hmore : ∀ m ∈ rest, ProperName m := fun m hm => hproper m (List.mem_cons_of_mem _ hm)
      have hready' : Ready t id rest := ⟨fun m hm => hready.staged m (List.mem_cons_of_mem _ hm),
        fun m hm => hready.writable m (List.mem_cons_of_mem _ hm)⟩
      by_cases hline : Quotable id ∧ Quotable name
      · have hplain : PlainName id := ⟨hid, hline.1⟩
        have hname : PlainName name := ⟨hproper name List.mem_cons_self, hline.2⟩
        have hends : CopyEnds env t id i name := ⟨hready.staged name List.mem_cons_self, hfirst hline,
          hready.writable name List.mem_cons_self⟩
        have hzero : (copyOne env id i name w).1 = 0 :=
          (copyOne_spec hplain hname).1.mpr ((hagree.ends List.mem_cons_self).mpr hends)
        rw [copyStaged_cons, if_neg (not_not_intro hzero)]
        refine ih hmore hrest hready' (hagree.afterCopy hplain hname hnew) ?_ hlater
        exact (congrArg Host.procs (World.cp_host (quotable_stageFile hline.1 hline.2)
          (quotable_guestFile hline.1 hline.2))).trans hprocs
      · obtain ⟨hone, hfs, hkept⟩ := copyOne_shell (w := w) (i := i) hshell hline
        rw [copyStaged_cons, if_neg (not_not_intro hone)]
        refine ih hmore hrest hready' ?_ hkept hlater
        rw [show (afterCopy env id n i name w).fs = t from hfs]
        exact ⟨fun _ => rfl, fun _ _ => rfl, fun _ _ => rfl⟩

theorem copyStaged_mayEnd {t₀ : FileTree} (hready : Ready t id names) (hagree : Agree t₀ w.fs id names)
    (hmay : MayEnd env t₀ id i names) (hread : ¬ (Quotable id ∧ ∀ name ∈ names, Quotable name))
    (hsome : names ≠ []) :
    (copyStaged env id n i names w).1 = true ∧ (copyStaged env id n i names w).2.host.procs = procs := by
  induction names generalizing i w with
  | nil => exact absurd rfl hsome
  | cons name rest ih =>
      obtain ⟨hnew, hrest⟩ := List.nodup_cons.mp hnodup
      have hmore : ∀ m ∈ rest, ProperName m := fun m hm => hproper m (List.mem_cons_of_mem _ hm)
      have hready' : Ready t id rest := ⟨fun m hm => hready.staged m (List.mem_cons_of_mem _ hm),
        fun m hm => hready.writable m (List.mem_cons_of_mem _ hm)⟩
      rcases hmay with ⟨hquote, hliteral, hends, hmay⟩ | ⟨hline, hlater⟩
      · have hplain : PlainName id := ⟨hid, hquote⟩
        have hname : PlainName name := ⟨hproper name List.mem_cons_self, hliteral⟩
        have hzero : (copyOne env id i name w).1 = 0 :=
          (copyOne_spec hplain hname).1.mpr ((hagree.ends List.mem_cons_self).mpr hends)
        have hread' : ¬ (Quotable id ∧ ∀ m ∈ rest, Quotable m) := fun h =>
          hread ⟨hquote, List.forall_mem_cons.mpr ⟨hliteral, h.2⟩⟩
        rw [copyStaged_cons, if_neg (not_not_intro hzero)]
        refine ih hmore hrest hready' (hagree.afterCopy hplain hname hnew) hmay hread' ?_
        rintro rfl
        exact hread' ⟨hquote, by simp⟩
      · obtain ⟨hone, hfs, hkept⟩ := copyOne_shell (w := w) (i := i) hshell hline
        rw [copyStaged_cons, if_neg (not_not_intro hone)]
        refine copyStaged_ready hid hmore hrest hshell hready' ?_ hkept hlater
        rw [show (afterCopy env id n i name w).fs = t from hfs]
        exact ⟨fun _ => rfl, fun _ _ => rfl, fun _ _ => rfl⟩

end

theorem mayEnd_withShell {t : FileTree} {i : Nat} (shell : Shell) :
    MayEnd { env with shell := shell } t id i names ↔ MayEnd env t id i names := by
  have hlater : ∀ {i} {names : List Bytes},
      LaterDone { env with shell := shell } id i names ↔ LaterDone env id i names := by
    intro i names
    induction names generalizing i with
    | nil => exact Iff.rfl
    | cons name rest ih => exact and_congr Iff.rfl ih
  induction names generalizing i with
  | nil => exact Iff.rfl
  | cons name rest ih =>
      exact or_congr (and_congr Iff.rfl (and_congr Iff.rfl (and_congr Iff.rfl ih)))
        (and_congr Iff.rfl hlater)

/-! ## The policy -/

/-- A restart is due, or nothing of the job can end a qvm of the guest or begin one: the kill
hits none and no line is left to the shell. Jobs that cannot succeed promise nothing. -/
def PolicyHolds (env : JobEnv) (id : Bytes) (restart : Bool) (names : List Bytes) (fs : FileTree)
    (h : Host) : Prop :=
  restart = true ∨ ImageStaged id fs ∨
    (MayEnd env fs id 0 names → ¬ KillsQvm id h ∧ Quotable id ∧ ∀ name ∈ names, Quotable name)

section
variable {fs : FileTree} {h : Host} (hn : Names env id names fs)
  (hb : Begins env id names (World.begin fs h))
  (hsucc : Succeeded id (applyThread env id restart (World.begin fs h)))
include hn hb hsucc

theorem policy_wanted (hcalls : CallbacksSucceed env id restart names (World.begin fs h))
    (hfew : (fs.children (stagePath id)).length ≤ maxFiles) (hwanted : restart = true ∨ ImageStaged id fs) :
    RestartPolicy env id restart names (World.begin fs h)
      (applyThread env id restart (World.begin fs h)) := by
  obtain ⟨hends, hcourse⟩ := applyThread_ended hb
  obtain ⟨msg, heq⟩ := hcourse (hends.mp hsucc)
  have hforce : restartAfter restart names = true :=
    (restartAfter_iff (w := World.begin fs h) hn hfew).mpr hwanted
  have honly : ∀ {q : Prop}, restart = false → ¬ ImageStaged id fs → q := fun hr hi =>
    absurd hwanted (by simp [hr, hi])
  rw [heq]
  refine ⟨fun _ => ?_, fun hr hi => honly hr hi, fun hr hi => honly hr hi, fun hr hi => honly hr hi⟩
  obtain ⟨p, hpid, halive⟩ := finished_restarted hforce (hcalls.started hforce)
  exact ⟨p, halive, hcalls.fresh hforce p hpid⟩

theorem policy_unwanted (hfew : (fs.children (stagePath id)).length ≤ maxFiles)
    (hwanted : ¬ (restart = true ∨ ImageStaged id fs)) :
    RestartPolicy env id restart names (World.begin fs h)
        (applyThread env id restart (World.begin fs h)) ↔
      (∀ p, h.Alive id p → (copies env id names (World.begin fs h)).2.host.Alive id p) ∧
        ((∀ p, ¬ h.Alive id p) → ∀ p, ¬ (copies env id names (World.begin fs h)).2.host.Alive id p) := by
  obtain ⟨hends, hcourse⟩ := applyThread_ended hb
  obtain ⟨msg, heq⟩ := hcourse (hends.mp hsucc)
  have hleft : restartAfter restart names = false := by
    rw [← Bool.not_eq_true, restartAfter_iff (w := World.begin fs h) hn hfew]
    exact hwanted
  obtain ⟨hfalse, himage⟩ := not_or.mp hwanted
  have hhost : ((finished env id restart names (World.begin fs h)).publish
      (.otaResult id true msg)).host = (copies env id names (World.begin fs h)).2.host :=
    finished_left hleft
  rw [heq]
  constructor
  · intro hpolicy
    have hrunning := hpolicy.running (by simpa using hfalse) himage
    have hstays := hpolicy.stays (by simpa using hfalse) himage
    rw [hhost] at hrunning hstays
    exact ⟨hrunning, hstays⟩
  · rintro ⟨hrunning, hstays⟩
    refine ⟨fun hw => absurd hw hwanted, fun _ _ => ?_, fun _ _ => ?_,
      fun _ _ => List.mem_append_left _ (finished_told hleft)⟩
    · rw [hhost]
      exact hrunning
    · rw [hhost]
      exact hstays

end

theorem shell_breaks_policy {fs : FileTree} {h : Host} (hid : ProperName id)
    (hn : Names env id names fs) (hb : Begins env id names (World.begin fs h))
    (hfew : (fs.children (stagePath id)).length ≤ maxFiles)
    (hwanted : ¬ (restart = true ∨ ImageStaged id fs)) (hmay : MayEnd env fs id 0 names)
    (hread : ¬ (Quotable id ∧ ∀ name ∈ names, Quotable name)) :
    ∃ shell, Succeeded id (applyThread { env with shell := shell } id restart (World.begin fs h)) ∧
      ¬ RestartPolicy { env with shell := shell } id restart names (World.begin fs h)
        (applyThread { env with shell := shell } id restart (World.begin fs h)) := by
  obtain ⟨t, hready⟩ := exists_ready id names
  obtain ⟨procs, hprocs⟩ : ∃ procs : Int32 → Option Proc,
      ¬ ((∀ p, h.Alive id p → ∃ proc, procs p = some proc ∧ proc.launchedFor = some id) ∧
        ((∀ p, ¬ h.Alive id p) → ∀ p, ¬ ∃ proc, procs p = some proc ∧ proc.launchedFor = some id)) := by
    by_cases halive : ∃ p, h.Alive id p
    · obtain ⟨p, hp⟩ := halive
      refine ⟨fun _ => none, fun hkept => ?_⟩
      obtain ⟨proc, hproc, -⟩ := hkept.1 p hp
      cases hproc
    · exact ⟨fun _ => some ⟨[], some id⟩, fun hkept => hkept.2 (not_exists.mp halive) 0 ⟨_, rfl, rfl⟩⟩
  refine ⟨endingIn t procs 0, ?_⟩
  generalize henv : { env with shell := endingIn t procs 0 } = env'
  have hshell : env'.shell = endingIn t procs 0 := by rw [← henv]
  have hb' : Begins env' id names (World.begin fs h) := by
    rw [← henv]
    exact ⟨hb.staged, hb.read, hb.some⟩
  have hn' : Names env' id names fs := by
    rw [← henv]
    exact ⟨hn.proper, hn.nodup, hn.control, hn.short, hn.staged, hn.all⟩
  have hmay' : MayEnd env' fs id 0 names := by rwa [← henv, mayEnd_withShell]
  obtain ⟨htrue, hleft⟩ : (copies env' id names (World.begin fs h)).1 = true ∧
      (copies env' id names (World.begin fs h)).2.host.procs = procs :=
    copyStaged_mayEnd hid hn.proper hn.nodup hshell hready
      (Names.agree (w := World.begin fs h) hn' hid) hmay' hread hb.some
  have hsucc : Succeeded id (applyThread env' id restart (World.begin fs h)) :=
    (applyThread_ended hb').1.mpr htrue
  refine ⟨hsucc, fun hpolicy => hprocs ?_⟩
  have hkept := (policy_unwanted hn' hb' hsucc hfew hwanted).mp hpolicy
  simp only [Host.Alive, hleft] at hkept
  exact hkept

/-- A successful job follows the policy, whatever a shell does with the words it has to
read, exactly when the condition holds. -/
theorem apply_restart_policy_iff {fs : FileTree} {h : Host} (hid : ProperName id)
    (hnamed : ∀ name ∈ fs.children (stagePath id), ProperName name) (hlist : env.Lists fs id)
    (hfew : (fs.children (stagePath id)).length ≤ maxFiles)
    (hb : Begins env id names (World.begin fs h)) :
    (∀ shell, CallbacksSucceed { env with shell := shell } id restart names (World.begin fs h) →
      Succeeded id (applyThread { env with shell := shell } id restart (World.begin fs h)) →
      RestartPolicy { env with shell := shell } id restart names (World.begin fs h)
        (applyThread { env with shell := shell } id restart (World.begin fs h))) ↔
      PolicyHolds env id restart names fs h := by
  have hn : Names env id names fs := names_of_begins (w := World.begin fs h) hid hnamed hlist hb
  have hnames : ∀ shell, Names { env with shell := shell } id names fs := fun shell =>
    ⟨hn.proper, hn.nodup, hn.control, hn.short, hn.staged, hn.all⟩
  have hbegins : ∀ shell, Begins { env with shell := shell } id names (World.begin fs h) := fun shell =>
    ⟨hb.staged, hb.read, hb.some⟩
  by_cases hwanted : restart = true ∨ ImageStaged id fs
  · refine iff_of_true (fun shell hcalls hsucc => ?_) (hwanted.imp_right .inl)
    exact policy_wanted (hnames shell) (hbegins shell) hsucc hcalls hfew hwanted
  · have hcalls : ∀ shell,
        CallbacksSucceed { env with shell := shell } id restart names (World.begin fs h) := fun shell =>
      have hleft : ¬ restartAfter restart names = true := by
        rwa [restartAfter_iff (w := World.begin fs h) hn hfew]
      ⟨fun hforce => absurd hforce hleft, fun hforce => absurd hforce hleft⟩
    -- with literal words the copies keep what the kill has left
    have hliteral : ∀ shell, Quotable id → (∀ name ∈ names, Quotable name) →
        (copies { env with shell := shell } id names (World.begin fs h)).2.host =
          (stopped { env with shell := shell } id (World.begin fs h)).host := fun shell hquote hquotes =>
      copies_host ⟨hid, hquote⟩ (hnames shell) (literal_of_quotable hquotes)
    constructor
    · intro hall
      refine .inr (.inr fun hmay => ?_)
      have hwords : Quotable id ∧ ∀ name ∈ names, Quotable name := by
        by_contra hread
        obtain ⟨shell, hsucc, hbreaks⟩ := shell_breaks_policy hid hn hb hfew hwanted hmay hread
        exact hbreaks (hall shell (hcalls shell) hsucc)
      refine ⟨?_, hwords⟩
      have hends : AllEnd env fs id 0 names := allEnd_of_mayEnd hwords.1 hwords.2 hmay
      have hsucc : Succeeded id (applyThread env id restart (World.begin fs h)) :=
        (applyThread_ended hb).1.mpr
          ((hn.copies_status ⟨hid, hwords.1⟩ (literal_of_quotable hwords.2)).mpr hends)
      have hkept := ((policy_unwanted hn hb hsucc hfew hwanted).mp (hall env.shell (hcalls _) hsucc)).1
      rw [hliteral env.shell hwords.1 hwords.2] at hkept
      exact (@stopped_keeps_iff (World.begin fs h) env id).mp hkept
    · rintro hholds shell - hsucc
      obtain ⟨hfalse, himage⟩ := not_or.mp hwanted
      have hmay : MayEnd env fs id 0 names := (mayEnd_withShell shell).mp
        (mayEnd_of_status hid hn.proper hn.nodup (Names.agree (w := World.begin fs h) (hnames shell) hid)
          ((applyThread_ended (hbegins shell)).1.mp hsucc))
      obtain ⟨hspared, hquote, hquotes⟩ := (hholds.resolve_left hfalse).resolve_left himage hmay
      rw [policy_unwanted (hnames shell) (hbegins shell) hsucc hfew hwanted, hliteral shell hquote hquotes]
      exact ⟨(@stopped_keeps_iff (World.begin fs h) _ id).mpr hspared,
        fun hnone p hp => hnone p (stopped_alive_of_alive hp)⟩

/-- A stopped guest, no restart asked for. -/
theorem apply_restart_policy_stopped :
    RestartPolicy calmEnv guestA false [utf8 "disk.bin"]
      (World.begin (smallTree [(stagedDisk, [1, 2])]) (hostWith .stopped 0))
      (applyThread calmEnv guestA false
        (World.begin (smallTree [(stagedDisk, [1, 2])]) (hostWith .stopped 0))) := by
  refine (@apply_restart_policy_iff calmEnv guestA [utf8 "disk.bin"] false
    (smallTree [(stagedDisk, [1, 2])]) (hostWith .stopped 0) (by decide) (by decide) (by decide)
    (by decide) ⟨by decide, by decide, by decide⟩).mpr (.inr (.inr fun _ => ⟨?_, by decide⟩))
    calmEnv.shell ⟨fun h => absurd h (by decide), fun h => absurd h (by decide)⟩
    ⟨utf8 "1 file(s) applied (no restart)", by decide⟩
  rintro ⟨g, hfind, hrun, -⟩
  obtain rfl : recordOf .stopped 0 = g := Option.some.inj hfind
  cases hrun

/-- The report says that the guest was left running; its qvm has been killed. -/
theorem apply_without_restart_stops_guest :
    ¬ ∀ (env : JobEnv) (id : Bytes) (restart : Bool) (names : List Bytes) (fs : FileTree) (h : Host),
      PlainName id → (∀ name ∈ fs.children (stagePath id), PlainName name) → env.Lists fs id →
      (fs.children (stagePath id)).length ≤ maxFiles → Begins env id names (World.begin fs h) →
      CallbacksSucceed env id restart names (World.begin fs h) →
      Succeeded id (applyThread env id restart (World.begin fs h)) →
      RestartPolicy env id restart names (World.begin fs h)
        (applyThread env id restart (World.begin fs h)) := by
  intro hall
  have hpolicy := hall calmEnv guestA false [utf8 "disk.bin"] (smallTree [(stagedDisk, [1, 2])])
    (hostWith .running 100) (by decide) (by decide) (by decide) (by decide)
    ⟨by decide, by decide, by decide⟩
    ⟨fun h => absurd h (by decide), fun h => absurd h (by decide)⟩
    ⟨utf8 "1 file(s) applied (no restart)", by decide⟩
  have halone : ¬ ImageStaged guestA (World.begin (smallTree [(stagedDisk, [1, 2])])
      (hostWith .running 100)).fs := by
    rintro ⟨name, hname, himage⟩
    obtain rfl : name = utf8 "disk.bin" := by
      have hchildren : (smallTree [(stagedDisk, [1, 2])]).children (stagePath guestA) =
        [utf8 "disk.bin"] := by decide
      simpa [hchildren] using (show name ∈ (smallTree [(stagedDisk, [1, 2])]).children
        (stagePath guestA) from hname)
    exact absurd himage (by decide)
  obtain ⟨proc, hproc, -⟩ := hpolicy.running rfl halone 100 ⟨_, rfl, rfl⟩
  have hgone : (applyThread calmEnv guestA false (World.begin (smallTree [(stagedDisk, [1, 2])])
    (hostWith .running 100))).host.procs 100 = none := by decide
  cases hgone.symm.trans hproc

end QnxHypervisor.OtaUpdate
