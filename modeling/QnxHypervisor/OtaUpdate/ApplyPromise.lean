import QnxHypervisor.OtaUpdate.Apply

/-! # What an apply job promises

Success: all that was staged is in the guest directory and the stage is empty.
Failure: nothing happened. The job keeps the first promise when the stage fits the
name table, the second when neither the kill nor a copy before the failure had an
effect.
-/

namespace QnxHypervisor.OtaUpdate

open Foundation GuestManager HmsStatus

variable {w w' : World} {env : JobEnv} {id name : Bytes} {names : List Bytes} {q : Path}
  {restart : Bool}

/-! ## The course of a job -/

/-- The state in which the copies begin: the guest has been stopped. -/
def stopped (env : JobEnv) (id : Bytes) (w : World) : World :=
  ((w.report id "restart" 0 (utf8 "Stopping guest before applying changes")).call id
    (otaKillCb env.killStore id)).2

def copies (env : JobEnv) (id : Bytes) (names : List Bytes) (w : World) : Bool × World :=
  copyStaged env id names.length 0 names (stopped env id w)

/-- The names that a job goes on with. -/
structure Begins (env : JobEnv) (id : Bytes) (names : List Bytes) (w : World) : Prop where
  staged : w.fs.isDir (resolve (stageDir id)) = true
  read : readStaged maxFiles env.listing = .ok names
  some : names ≠ []

/-- The end of a job whose copies all ended well. -/
def finished (env : JobEnv) (id : Bytes) (restart : Bool) (names : List Bytes) (w : World) : World :=
  unlinkStaged id names (restartGuest env id (restartAfter restart names) (copies env id names w).2)

theorem applyThread_cases (env : JobEnv) (id : Bytes) (restart : Bool) (w : World) :
    (∃ msg, applyThread env id restart w = w.report id "failed" 0 msg) ∧
        (∀ names, ¬ Begins env id names w) ∨
      ∃ names, Begins env id names w ∧
        ((copies env id names w).1 = false ∧ applyThread env id restart w = (copies env id names w).2 ∨
          (copies env id names w).1 = true ∧ ∃ msg, applyThread env id restart w =
            (finished env id restart names w).publish (.otaResult id true msg)) := by
  unfold applyThread
  split
  · next hdir => exact .inl ⟨⟨_, rfl⟩, fun names hb => hdir hb.staged⟩
  · next hdir =>
    have hstaged : w.fs.isDir (resolve (stageDir id)) = true := by simpa using hdir
    cases hread : readStaged maxFiles env.listing with
    | error name =>
        refine .inl ⟨⟨_, rfl⟩, fun names hb => ?_⟩
        have hok := hb.read
        rw [hread] at hok
        cases hok
    | ok names =>
        cases names with
        | nil =>
            refine .inl ⟨⟨_, rfl⟩, fun names hb => ?_⟩
            have hok := hb.read
            rw [hread] at hok
            cases hok
            exact hb.some rfl
        | cons first rest =>
            refine .inr ⟨first :: rest, ⟨hstaged, hread, by simp⟩, ?_⟩
            change _ ∧ (if ¬ (copies env id (first :: rest) w).1 = true then
              (copies env id (first :: rest) w).2 else _) = _ ∨ _ ∧ ∃ msg, (if ¬ (copies env id
              (first :: rest) w).1 = true then _ else (finished env id restart (first :: rest) w).publish
              (.otaResult id true _)) = _
            cases (copies env id (first :: rest) w).1 with
            | false => exact .inl ⟨rfl, rfl⟩
            | true => exact .inr ⟨rfl, _, rfl⟩

/-! ## The two promises -/

/-- All staged files are in the guest directory and none is left in the stage. -/
structure Complete (id : Bytes) (t t' : FileTree) : Prop where
  copied : ∀ name c, t.node (stagePath id ++ [name]) = some (.file c) →
    t'.node (guestPath id ++ [name]) = some (.file c)
  emptied : t'.children (stagePath id) = []

/-- The guest directory is as it was, and a guest with a qvm still has one. -/
structure Harmless (id : Bytes) (w w' : World) : Prop where
  unchanged : ∀ q, guestPath id <+: q → w'.fs.node q = w.fs.node q
  running : (∃ p, w.host.Alive id p) → ∃ p, w'.host.Alive id p

structure ApplyPromise (id : Bytes) (w w' : World) : Prop where
  success : Succeeded id w' → Complete id w.fs w'.fs
  failure : Failed id w' → Harmless id w w'

/-! ## When the job keeps them -/

def MetaKept (store : MetaEnv) (id : Bytes) (t : FileTree) : Prop :=
  ∀ text, metaSet store pidKey (utf8 "0") (textAt t (metaPath id)) = some text →
    t.Writable (metaPath id) → t.node (metaPath id) = some (.file text)

/-- The kill hits nobody, or it leaves the metadata file and the guest another qvm. -/
def KillHarmless (store : MetaEnv) (id : Bytes) (w : World) : Prop :=
  ∀ g proc, findGuest w.host.guests id = some g → g.state = .running → 0 < g.pid →
    w.host.procs g.pid = some proc →
    MetaKept store id w.fs ∧
      (proc.launchedFor = some id → ∃ p, p ≠ g.pid ∧ w.host.Alive id p)

/-- No name is beyond the table, and none is a subdirectory's. -/
structure AllFit (id : Bytes) (names : List Bytes) (t : FileTree) : Prop where
  few : (t.children (stagePath id)).length ≤ maxFiles
  noDir : ∀ name ∈ names, t.isDir (guestPath id ++ [name]) = false

/-- The condition on a job: the words of the copies it gets to are literal; when its copies
all end well, everything fits; when one fails, kill and copies so far have had no effect. -/
def ApplyHolds (env : JobEnv) (id : Bytes) (w : World) : Prop :=
  ∀ names, Begins env id names w →
    Quotable id ∧ LiteralUntilFailure env w.fs id 0 names ∧
    (AllEnd env w.fs id 0 names → AllFit id names w.fs) ∧
    (¬ AllEnd env w.fs id 0 names →
      KillHarmless env.killStore id w ∧ KeptUntilFailure env w.fs id 0 names)

/-! ## The names -/

/-- What the reading loop hands on, and where it comes from. -/
structure Names (env : JobEnv) (id : Bytes) (names : List Bytes) (t : FileTree) : Prop where
  proper : ∀ name ∈ names, ProperName name
  nodup : names.Nodup
  control : ∀ name ∈ names, isControlFile name = false
  short : names.length ≤ maxFiles
  staged : ∀ name ∈ names, name ∈ t.children (stagePath id)
  all : (t.children (stagePath id)).length ≤ maxFiles → ∀ name ∈ t.children (stagePath id), name ∈ names

theorem names_of_begins (hid : ProperName id)
    (hproper : ∀ name ∈ w.fs.children (stagePath id), ProperName name) (hlist : env.Lists w.fs id)
    (hb : Begins env id names w) : Names env id names w.fs := by
  obtain ⟨htake, hcontrol⟩ := readStaged_ok hb.read
  rw [JobEnv.Lists, resolve_stageDir hid] at hlist
  have hsub : ∀ name ∈ names, name ∈ w.fs.children (stagePath id) := fun name hname => by
    rw [htake] at hname
    exact hlist.mem_iff.mp (List.mem_of_mem_take hname)
  refine ⟨fun name hname => hproper name (hsub name hname), ?_, hcontrol, ?_, hsub, fun hfew name hname => ?_⟩
  · rw [htake]
    exact ((hlist.nodup_iff).mpr (nodup_children _ _)).take
  · rw [htake]
    exact List.length_take_le _ _
  · rw [htake, List.take_of_length_le (hlist.length_eq ▸ hfew)]
    exact hlist.mem_iff.mpr hname

namespace Names

variable {t : FileTree}

theorem ne_meta (h : Names env id names t) (hname : name ∈ names) : name ≠ metaName := by
  rintro rfl
  have hcontrol := h.control metaName hname
  rw [show isControlFile metaName = true by decide] at hcontrol
  cases hcontrol

theorem agree (h : Names env id names w.fs) (hid : ProperName id) :
    Agree w.fs (stopped env id w).fs id names := by
  refine ⟨fun q => World.isDir_call, fun name hname => ?_, fun name hname => ?_⟩
  · exact World.node_call hid (stage_ne_meta name)
  · exact World.node_call hid (metaPath_ne_copyTarget (h.ne_meta hname)).symm

theorem copies_status (h : Names env id names w.fs) (hid : PlainName id)
    (hliteral : LiteralUntilFailure env w.fs id 0 names) :
    (copies env id names w).1 = true ↔ AllEnd env w.fs id 0 names :=
  copyStaged_status hid h.proper hliteral h.nodup (h.agree hid.proper)

end Names

/-! ## The kill -/

theorem stopped_alive {p : Int32} : (stopped env id w).host.Alive id p ↔
    (otaKillCb env.killStore id w.calls).2.Alive id p := Iff.rfl

theorem killHarmless_iff (hid : ProperName id) : KillHarmless env.killStore id w ↔
    (stopped env id w).fs.node (metaPath id) = w.fs.node (metaPath id) ∧
      ((∃ p, w.host.Alive id p) → ∃ p, (stopped env id w).host.Alive id p) := by
  rcases otaKillCb_cases env.killStore id w.calls with ⟨hnone, hprocs, hmetas⟩ |
    ⟨g, proc, hfind, hrun, hpos, hproc, hprocs, hmetas⟩
  · have halive : ∀ p, (stopped env id w).host.Alive id p ↔ w.host.Alive id p := fun p => by
      rw [stopped_alive, Host.Alive, hprocs]
      rfl
    refine iff_of_true (fun g proc hfind hrun hpos hproc => ?_) ⟨?_, ?_⟩
    · cases (hnone g hfind hrun hpos).symm.trans hproc
    · exact World.node_call_same hid (congrFun hmetas id) _
    · simp [halive]
  · have halive : ∀ p, (stopped env id w).host.Alive id p ↔ p ≠ g.pid ∧ w.host.Alive id p := fun p => by
      rw [stopped_alive, Host.Alive, hprocs]
      by_cases hp : p = g.pid
      · simp [hp]
      · simp [hp, Host.Alive]
    have hself : w.host.Alive id g.pid ↔ proc.launchedFor = some id := by
      simp [Host.Alive, show w.host.procs g.pid = some proc from hproc]
    have hfiles : (stopped env id w).fs.node (metaPath id) = w.fs.node (metaPath id) ↔
        MetaKept env.killStore id w.fs := by
      refine (World.node_call_meta hid).trans ?_
      change (∀ text, (otaKillCb env.killStore id w.calls).2.metas id = some text → _) ↔ _
      rw [hmetas, Function.update_self, World.call_metas hid]
      rfl
    have hleft : ((∃ p, w.host.Alive id p) → ∃ p, (stopped env id w).host.Alive id p) ↔
        (proc.launchedFor = some id → ∃ p, p ≠ g.pid ∧ w.host.Alive id p) := by
      simp only [halive, ← hself]
      refine ⟨fun h hown => h ⟨_, hown⟩, fun h hex => ?_⟩
      obtain ⟨p, hp⟩ := hex
      by_cases heq : p = g.pid
      · exact h (heq ▸ hp)
      · exact ⟨p, heq, hp⟩
    rw [hfiles, hleft]
    refine ⟨fun h => h g proc hfind hrun hpos hproc, fun h g' proc' hfind' hrun' hpos' hproc' => ?_⟩
    obtain rfl : g = g' := Option.some.inj (hfind.symm.trans hfind')
    obtain rfl : proc = proc' := Option.some.inj (hproc.symm.trans hproc')
    exact h

/-! ## A job that fails -/

theorem node_stopped (hid : ProperName id) (hq : q ≠ metaPath id) :
    (stopped env id w).fs.node q = w.fs.node q := World.node_call hid hq

theorem guestPath_prefix_copyTarget (t : FileTree) : guestPath id <+: copyTarget t id name := by
  rcases copyTarget_eq t id name with h | h <;> rw [h]
  · exact List.prefix_append _ _
  · rw [List.append_assoc]
    exact List.prefix_append _ _

section
variable (hid : PlainName id) (hn : Names env id names w.fs)
  (hliteral : LiteralUntilFailure env w.fs id 0 names)
include hid hn hliteral

theorem node_copies_ne (hq : ∀ name ∈ names, q ≠ copyTarget w.fs id name) :
    (copies env id names w).2.fs.node q = (stopped env id w).fs.node q :=
  node_copyStaged_ne hid hn.proper hliteral hn.nodup (hn.agree hid.proper) hq

theorem copies_host : (copies env id names w).2.host = (stopped env id w).host :=
  copyStaged_host hid hn.proper hliteral hn.nodup (hn.agree hid.proper)

theorem harmless_iff : Harmless id w (copies env id names w).2 ↔
    KillHarmless env.killStore id w ∧ KeptUntilFailure env w.fs id 0 names := by
  have hhost : (copies env id names w).2.host = (stopped env id w).host := copies_host hid hn hliteral
  have hmeta : (copies env id names w).2.fs.node (metaPath id) =
      (stopped env id w).fs.node (metaPath id) :=
    node_copies_ne hid hn hliteral fun name hname => metaPath_ne_copyTarget (hn.ne_meta hname)
  rw [killHarmless_iff hid.proper,
    ← copyStaged_keeps (n := names.length) hid hn.proper hliteral hn.nodup (hn.agree hid.proper)]
  constructor
  · rintro ⟨hunchanged, hrunning⟩
    rw [hhost] at hrunning
    refine ⟨⟨?_, hrunning⟩, fun name _ => hunchanged _ (guestPath_prefix_copyTarget w.fs)⟩
    rw [← hmeta]
    exact hunchanged _ (List.prefix_append _ _)
  · rintro ⟨⟨hfile, hrunning⟩, htargets⟩
    refine ⟨fun q _ => ?_, by rwa [hhost]⟩
    by_cases htarget : ∃ name ∈ names, q = copyTarget w.fs id name
    · obtain ⟨name, hname, rfl⟩ := htarget
      exact htargets name hname
    · rw [node_copies_ne hid hn hliteral fun name hname heq => htarget ⟨name, hname, heq⟩]
      by_cases hq : q = metaPath id
      · rw [hq, hfile]
      · exact node_stopped hid.proper hq

omit hliteral

/-! ## A job that succeeds -/

theorem node_finished_ne (hq : q ≠ metaPath id) (hstage : ∀ name ∈ names, q ≠ stagePath id ++ [name]) :
    (finished env id restart names w).fs.node q = (copies env id names w).2.fs.node q := by
  rw [finished, node_unlinkStaged_ne hid.proper hn.proper hstage, node_restartGuest hid.proper hq]

theorem node_finished_guest (hname : name ∈ names) :
    (finished env id restart names w).fs.node (guestPath id ++ [name]) =
      (copies env id names w).2.fs.node (guestPath id ++ [name]) := by
  apply node_finished_ne hid hn
  · simpa [metaPath] using hn.ne_meta hname
  · exact fun m _ heq => stage_ne_guest _ _ _ _ heq.symm

include hliteral

theorem node_copies_stage (m : Bytes) :
    (copies env id names w).2.fs.node (stagePath id ++ [m]) = w.fs.node (stagePath id ++ [m]) := by
  rw [node_copies_ne hid hn hliteral fun name _ => stage_ne_copyTarget m,
    node_stopped hid.proper (stage_ne_meta m)]

theorem complete_iff (hall : AllEnd env w.fs id 0 names) :
    Complete id w.fs (finished env id restart names w).fs ↔ AllFit id names w.fs := by
  constructor
  · rintro ⟨hcopied, hemptied⟩
    have hall_names : ∀ name ∈ w.fs.children (stagePath id), name ∈ names := by
      intro name hname
      by_contra hout
      have hleft : (finished env id restart names w).fs.node (stagePath id ++ [name]) =
          w.fs.node (stagePath id ++ [name]) := by
        rw [node_finished_ne hid hn (stage_ne_meta name), node_copies_stage hid hn hliteral]
        rintro m hm heq
        obtain rfl : name = m := by simpa using heq
        exact hout hm
      have hmem := FileTree.mem_children.mpr (hleft ▸ FileTree.mem_children.mp hname)
      rw [hemptied] at hmem
      cases hmem
    refine ⟨?_, fun name hname => ?_⟩
    · have hsub := (nodup_children w.fs (stagePath id)).subperm hall_names
      exact hsub.length_le.trans hn.short
    · obtain ⟨c, hc⟩ := allEnd_file hall hname
      have hfile := hcopied name c hc
      rw [node_finished_guest hid hn hname] at hfile
      have hnot := FileTree.not_isDir_file hfile (by simp)
      rw [copies, isDir_copyStaged hid hn.proper hliteral hn.nodup (hn.agree hid.proper)] at hnot
      exact ((hn.agree hid.proper).dirs _).symm.trans hnot
  · rintro ⟨hfew, hnoDir⟩
    refine ⟨fun name c hc => ?_, List.eq_nil_iff_forall_not_mem.mpr fun name hname => ?_⟩
    · have hname : name ∈ names := hn.all hfew name (FileTree.mem_children.mpr (by simp [hc]))
      have htarget : copyTarget w.fs id name = guestPath id ++ [name] := by
        rw [copyTarget, target, hnoDir name hname]
        rfl
      rw [node_finished_guest hid hn hname, ← htarget]
      exact copyStaged_writes hid hn.proper hliteral hn.nodup (hn.agree hid.proper) hall hname hc
    · rw [FileTree.mem_children] at hname
      by_cases hmem : name ∈ names
      · obtain ⟨c, hc⟩ := allEnd_file hall hmem
        refine hname (node_unlinkStaged_file hid.proper hn.proper hmem (c := c) ?_)
        rw [node_restartGuest hid.proper (stage_ne_meta name), node_copies_stage hid hn hliteral, hc]
      · refine hmem (hn.all hfew name (FileTree.mem_children.mpr fun hnone => hname ?_))
        apply node_unlinkStaged_none hid.proper hn.proper
        rw [node_restartGuest hid.proper (stage_ne_meta name), node_copies_stage hid hn hliteral, hnone]

end

/-! ## The promises of a job -/

theorem not_succeeded_begin (fs : FileTree) (h : Host) : ¬ Succeeded id (World.begin fs h) := by
  rintro ⟨msg, hmem⟩
  cases hmem

theorem not_failed_begin (fs : FileTree) (h : Host) : ¬ Failed id (World.begin fs h) := by
  rintro ⟨msg, hmem⟩
  cases hmem

theorem copies_succeeded : Succeeded id (copies env id names w).2 ↔ Succeeded id w :=
  copyStaged_succeeded.trans (succeeded_report _ _ _)

theorem copies_failed : Failed id (copies env id names w).2 ↔
    Failed id w ∨ (copies env id names w).1 = false := by
  refine copyStaged_failed.trans (or_congr_left ?_)
  exact failed_report (by decide)

theorem literal_promise {fs : FileTree} {h : Host} (hid : PlainName id)
    (hn : Names env id names fs) (hb : Begins env id names (World.begin fs h))
    (hliteral : LiteralUntilFailure env fs id 0 names) :
    ApplyPromise id (World.begin fs h) (applyThread env id restart (World.begin fs h)) ↔
      (AllEnd env fs id 0 names → AllFit id names fs) ∧ (¬ AllEnd env fs id 0 names →
        KillHarmless env.killStore id (World.begin fs h) ∧ KeptUntilFailure env fs id 0 names) := by
  have hsuccess : ¬ Succeeded id (World.begin fs h) := not_succeeded_begin fs h
  have hfailure : ¬ Failed id (World.begin fs h) := not_failed_begin fs h
  obtain ⟨w, hw⟩ : ∃ w, w = World.begin fs h := ⟨_, rfl⟩
  obtain rfl : w.fs = fs := by
    rw [hw]
    rfl
  rw [← hw] at hb hsuccess hfailure ⊢
  have hstatus : (copies env id names w).1 = true ↔ AllEnd env w.fs id 0 names :=
    hn.copies_status hid hliteral
  rcases applyThread_cases env id restart w with ⟨-, hnone⟩ | ⟨names', hb', hcourse⟩
  · exact absurd hb (hnone names)
  · obtain rfl : names = names' := by simpa using hb.read.symm.trans hb'.read
    rcases hcourse with ⟨hfalse, heq⟩ | ⟨htrue, msg, heq⟩
    · have hnot : ¬ AllEnd env w.fs id 0 names := by simp [← hstatus, hfalse]
      have hfailed : Failed id (copies env id names w).2 := copies_failed.mpr (.inr hfalse)
      have hquiet : ¬ Succeeded id (copies env id names w).2 := fun hs =>
        hsuccess (copies_succeeded.mp hs)
      rw [heq, ← harmless_iff hid hn hliteral]
      exact ⟨fun hp => ⟨fun hall => absurd hall hnot, fun _ => hp.failure hfailed⟩,
        fun hp => ⟨fun hs => absurd hs hquiet, fun _ => hp.2 hnot⟩⟩
    · have hall : AllEnd env w.fs id 0 names := hstatus.mp htrue
      have hreported : ∀ w₁ : World, Succeeded id (w₁.publish (.otaResult id true msg)) :=
        fun w₁ => ⟨msg, by simp⟩
      have hquiet : ¬ Failed id ((finished env id restart names w).publish (.otaResult id true msg)) := by
        intro hf
        have hf' : Failed id (finished env id restart names w) := by simpa [Failed] using hf
        rw [finished, Failed.congr unlinkStaged_published, restartGuest_failed, copies_failed] at hf'
        rcases hf' with hold | hfalse
        · exact hfailure hold
        · rw [htrue] at hfalse
          cases hfalse
      have hcomplete : Complete id w.fs (finished env id restart names w).fs ↔ AllFit id names w.fs :=
        complete_iff hid hn hliteral hall
      rw [heq, ← hcomplete]
      exact ⟨fun hp => ⟨fun _ => hp.success (hreported _), fun hnot => absurd hall hnot⟩,
        fun hp => ⟨fun _ => hp.1 hall, fun hf => absurd hf hquiet⟩⟩

/-! ## Words that the shell reads -/

/-- Whatever line this shell gets, it ends with these files, processes and status. -/
def endingIn (t : FileTree) (procs : Int32 → Option Proc) (status : Int) : Shell :=
  fun _ _ _ => ⟨t, procs, [], status⟩

section
variable {t : FileTree} {procs : Int32 → Option Proc} {status : Int} {i n : Nat}
  (hshell : env.shell = endingIn t procs status)
include hshell

theorem copyOne_shell (hwords : ¬ (Quotable id ∧ Quotable name)) :
    (copyOne env id i name w).1 = status ∧ (copyOne env id i name w).2.fs = t ∧
      (copyOne env id i name w).2.host.procs = procs := by
  have hline : ¬ (Quotable (join (stageDir id) name) ∧ Quotable (join (guestDir id) name)) := fun h => by
    obtain ⟨hdir, hname⟩ := quotable_join.mp h.2
    exact hwords ⟨quotable_guestDir.mp hdir, hname⟩
  rw [copyOne, World.cp, if_pos hline, World.runShell, hshell]
  exact ⟨rfl, rfl, rfl⟩

/-- The loop ends with the first line that the shell gets to read. -/
theorem copyStaged_broken {t₀ : FileTree} (hid : ProperName id) (hstatus : status ≠ 0)
    (hproper : ∀ name ∈ names, ProperName name) (hnodup : names.Nodup) (hagree : Agree t₀ w.fs id names)
    (hsome : names ≠ []) (hwords : ¬ (Quotable id ∧ LiteralUntilFailure env t₀ id i names)) :
    (copyStaged env id n i names w).1 = false ∧ (copyStaged env id n i names w).2.fs = t := by
  induction names generalizing i w with
  | nil => exact absurd rfl hsome
  | cons name rest ih =>
      by_cases hline : Quotable id ∧ Quotable name
      · have hname : PlainName name := ⟨hproper name List.mem_cons_self, hline.2⟩
        have hplain : PlainName id := ⟨hid, hline.1⟩
        obtain ⟨hends, hnext⟩ : CopyEnds env t₀ id i name ∧ ¬ LiteralUntilFailure env t₀ id (i + 1) rest :=
          Classical.not_imp.mp fun h => hwords ⟨hline.1, hline.2, h⟩
        obtain ⟨hnew, hrest⟩ := List.nodup_cons.mp hnodup
        have hzero : (copyOne env id i name w).1 = 0 :=
          (copyOne_spec hplain hname).1.mpr ((hagree.ends List.mem_cons_self).mpr hends)
        rw [copyStaged_cons, if_neg (not_not_intro hzero)]
        refine ih (fun m hm => hproper m (List.mem_cons_of_mem _ hm)) hrest
          (hagree.afterCopy hplain hname hnew) ?_ fun h => hnext h.2
        rintro rfl
        exact hnext trivial
      · obtain ⟨hone, hfs, -⟩ := copyOne_shell (w := w) (i := i) hshell hline
        rw [copyStaged_cons, if_pos (hone ▸ hstatus)]
        exact ⟨rfl, hfs⟩

end

section
variable {t : FileTree} {i : Nat} (shell : Shell)

theorem allEnd_withShell :
    AllEnd { env with shell := shell } t id i names ↔ AllEnd env t id i names := by
  induction names generalizing i with
  | nil => exact Iff.rfl
  | cons name rest ih => exact and_congr Iff.rfl ih

theorem literal_withShell : LiteralUntilFailure { env with shell := shell } t id i names ↔
    LiteralUntilFailure env t id i names := by
  induction names generalizing i with
  | nil => exact Iff.rfl
  | cons name rest ih => exact and_congr Iff.rfl (imp_congr Iff.rfl ih)

theorem kept_withShell : KeptUntilFailure { env with shell := shell } t id i names ↔
    KeptUntilFailure env t id i names := by
  induction names generalizing i with
  | nil => exact Iff.rfl
  | cons name rest ih => exact and_congr Iff.rfl (imp_congr Iff.rfl ih)

end

/-- A shell that fails the copy can change the guest directory before. -/
theorem unsafe_names_break (hid : ProperName id) (hn : Names env id names w.fs)
    (hb : Begins env id names w)
    (hwords : ¬ (Quotable id ∧ LiteralUntilFailure env w.fs id 0 names)) :
    ∃ shell, ¬ ApplyPromise id w (applyThread { env with shell := shell } id restart w) := by
  obtain ⟨t, hother, -⟩ :=
    FileTree.exists_node_ne (p := metaPath id) (by simp [metaPath]) (w.fs.node (metaPath id))
  refine ⟨endingIn t w.host.procs 1, fun h => hother ?_⟩
  generalize henv : { env with shell := endingIn t w.host.procs 1 } = env' at h
  have hshell : env'.shell = endingIn t w.host.procs 1 := by rw [← henv]
  have hb' : Begins env' id names w := by
    rw [← henv]
    exact ⟨hb.staged, hb.read, hb.some⟩
  have hn' : Names env' id names w.fs := by
    rw [← henv]
    exact ⟨hn.proper, hn.nodup, hn.control, hn.short, hn.staged, hn.all⟩
  have hwords' : ¬ (Quotable id ∧ LiteralUntilFailure env' w.fs id 0 names) := by
    rwa [← henv, literal_withShell]
  have hbroken : (copies env' id names w).1 = false ∧ (copies env' id names w).2.fs = t :=
    copyStaged_broken hshell hid (by decide) hn.proper hn.nodup (hn'.agree hid) hb.some hwords'
  rcases applyThread_cases env' id restart w with ⟨-, hnone⟩ | ⟨names', hb'', hcourse⟩
  · exact absurd hb' (hnone names)
  · obtain rfl : names = names' := by simpa using hb'.read.symm.trans hb''.read
    rcases hcourse with ⟨-, heq⟩ | ⟨htrue, -⟩
    · rw [heq] at h
      have hfailed : Failed id (copies env' id names w).2 := copies_failed.mpr (.inr hbroken.1)
      have hsame := (h.failure hfailed).unchanged (metaPath id) (List.prefix_append _ _)
      rwa [hbroken.2] at hsame
    · rw [hbroken.1] at htrue
      cases htrue

end QnxHypervisor.OtaUpdate
