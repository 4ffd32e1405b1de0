import QnxHypervisor.MotorController.Pending

/-! # The config-file watcher

With `--watch` the loop stats the file about once a second and reloads when its
(mtime, size) has moved off the watcher's baseline. The file is edited from
outside between any two steps; what a version contains is a function of its
stamp, so different versions have different stamps.
-/

namespace QnxHypervisor.MotorController

open Foundation MotorWire MotorShm

/-! ## Source functions -/

/-- What `cfg_stat` reads of a file. -/
structure FileStamp where
  mtimeSec : Int
  mtimeNsec : Int
  size : Int
  deriving DecidableEq

structure CfgWatch where
  enabled : Bool
  lastStatSec : Int
  stamp : FileStamp
  haveBaseline : Bool
  triggerOnFirst : Bool

/-- `stat` fails on a missing file. -/
def cfgStat (file : Option FileStamp) : Option FileStamp := file

def cfgWatchSync (file : Option FileStamp) (w : CfgWatch) : CfgWatch :=
  if ¬ w.enabled then w
  else
    match cfgStat file with
    | none => w
    | some stamp => { w with stamp, haveBaseline := true }

def cfgWatchFired (file : Option FileStamp) (nowSec : Int) (w : CfgWatch) : Bool × CfgWatch :=
  if ¬ w.enabled then (false, w)
  else if nowSec = w.lastStatSec then (false, w)
  else
    let w := { w with lastStatSec := nowSec }
    match cfgStat file with
    | none => (false, w)
    | some stamp =>
        if ¬ w.haveBaseline then
          let w := { w with stamp, haveBaseline := true }
          if w.triggerOnFirst then (true, { w with triggerOnFirst := false }) else (false, w)
        else if stamp ≠ w.stamp then (true, { w with stamp })
        else (false, w)

/-! ## The loop around them -/

/-- Where `main` stands: before the first load, before the watcher's set-up
(with the first load's success), between two steps of an iteration, before the
load of a reload that is due, and before the re-baselining after it. -/
inductive WatchPhase where
  | starting
  | setup (loaded : Bool)
  | top
  | loading
  | syncing
  deriving DecidableEq

structure Watching where
  file : Option FileStamp
  phase : WatchPhase
  watch : CfgWatch
  ctrl : Option Controller
  /-- the version the last `config_load_file` read -/
  lastRead : Option FileStamp

inductive WatchEvent where
  | edit (file : Option FileStamp)
  | start (env : StartupEnv)
  | setup
  | tick (nowSec : Int) (sighup : Bool)
  | load (env : ReloadEnv)
  | sync
  | work (e : LoopEvent)

/-- The work of an iteration behind its reload. -/
def LoopEvent.isReload : LoopEvent → Bool
  | .reload _ _ => true
  | _ => false

def watchStep (content : FileStamp → Option Json) (s : Watching) : WatchEvent → Option Watching
  | .edit file => some { s with file }
  | .start env =>
      if s.phase = .starting then
        let doc := s.file.bind content
        (startup doc env).ctrl.map fun c =>
          { s with
            phase := .setup (configLoadFile doc).isSome, ctrl := some c, lastRead := s.file }
      else none
  | .setup =>
      match s.phase with
      | .setup true => some { s with phase := .top, watch := cfgWatchSync s.file s.watch }
      | .setup false =>
          some { s with phase := .top, watch := { s.watch with triggerOnFirst := true } }
      | _ => none
  | .tick nowSec sighup =>
      if s.phase = .top then
        let fired := cfgWatchFired s.file nowSec s.watch
        some { s with watch := fired.2, phase := if fired.1 || sighup then .loading else .top }
      else none
  | .load env =>
      if s.phase = .loading then
        s.ctrl.map fun c =>
          let r := handleReload (s.file.bind content) env c
          { s with
            ctrl := some r.ctrl, lastRead := s.file, phase := if r.rc = 0 then .syncing else .top }
      else none
  | .sync =>
      if s.phase = .syncing then
        some { s with watch := cfgWatchSync s.file s.watch, phase := .top }
      else none
  | .work e =>
      if s.phase = .top ∧ e.isReload = false then
        some { s with ctrl := s.ctrl.map (loopStep · e) }
      else none

/-- `--watch` is on; nothing is loaded yet. -/
structure WatchStart (s : Watching) : Prop where
  phase : s.phase = .starting
  enabled : s.watch.enabled = true
  fresh : s.watch.haveBaseline = false

def watchMachine (content : FileStamp → Option Json) : Machine Watching WatchEvent where
  initial := WatchStart
  step := watchStep content

theorem reachable_watch {content : FileStamp → Option Json}
    {ok : Watching → WatchEvent → Prop} {s s' : Watching} {e : WatchEvent}
    (hr : (watchMachine content).ReachableBy ok s) (hs : watchStep content s e = some s')
    (hok : ok s e) : (watchMachine content).ReachableBy ok s' :=
  hr.step hok hs

/-! ## What the watcher's functions do -/

theorem cfgWatchSync_some {w : CfgWatch} (h : w.enabled = true) (stamp : FileStamp) :
    cfgWatchSync (some stamp) w = { w with stamp, haveBaseline := true } := by
  simp [cfgWatchSync, cfgStat, h]

theorem cfgWatchSync_none (w : CfgWatch) : cfgWatchSync none w = w := by
  by_cases h : w.enabled = true <;> simp [cfgWatchSync, cfgStat, h]

/-- A stat that does not fire leaves the baseline as it is, unless there was none
to compare with and no first file to wait for. -/
theorem cfgWatchFired_cases (file : Option FileStamp) (nowSec : Int) (w : CfgWatch) :
    (cfgWatchFired file nowSec w).2.enabled = w.enabled ∧
    ((cfgWatchFired file nowSec w).1 = true ∧ (cfgWatchFired file nowSec w).2.haveBaseline = true ∨
    (cfgWatchFired file nowSec w).1 = false ∧
      (w.haveBaseline = true ∨ w.triggerOnFirst = true →
        (cfgWatchFired file nowSec w).2.stamp = w.stamp ∧
        (cfgWatchFired file nowSec w).2.haveBaseline = w.haveBaseline ∧
        (cfgWatchFired file nowSec w).2.triggerOnFirst = w.triggerOnFirst)) := by
  by_cases henabled : w.enabled = true
  · by_cases hnow : nowSec = w.lastStatSec
    · simp [cfgWatchFired, henabled, hnow]
    · cases file with
      | none => simp [cfgWatchFired, cfgStat, henabled, hnow]
      | some stamp =>
          by_cases hbase : w.haveBaseline = true
          · by_cases hmoved : stamp = w.stamp <;>
              simp [cfgWatchFired, cfgStat, henabled, hnow, hbase, hmoved]
          · by_cases hfirst : w.triggerOnFirst = true <;>
              simp [cfgWatchFired, cfgStat, henabled, hnow, hbase, hfirst]
  · simp [cfgWatchFired, henabled]

/-! ## The baseline and the last load -/

/-- The baseline is set to the version just loaded only: at the start-up and at
each re-baselining the file is still that version (or, after a reload, missing),
and no edit between two iterations puts back the baseline's version while the
last load read another one. -/
def Undisturbed (s : Watching) : WatchEvent → Prop
  | .setup => s.phase = .setup true → s.file = s.lastRead
  | .sync => s.file = none ∨ s.file = s.lastRead
  | .edit file => s.phase = .top → s.watch.haveBaseline = true → file = some s.watch.stamp →
      s.lastRead = file
  | _ => True

structure WatchInv (s : Watching) : Prop where
  enabled : s.watch.enabled = true
  loaded : s.phase = .setup true → s.lastRead ≠ none
  fresh : s.phase = .starting ∨ (∃ loaded, s.phase = .setup loaded) → s.watch.haveBaseline = false
  first : s.phase = .top ∨ s.phase = .loading ∨ s.phase = .syncing →
    s.watch.haveBaseline = true ∨ s.watch.triggerOnFirst = true
  baseline : s.phase = .top → s.watch.haveBaseline = true → s.file = some s.watch.stamp →
    s.lastRead = s.file

theorem watchInv_start {s : Watching} (h : WatchStart s) : WatchInv s := by
  refine ⟨h.enabled, ?_, fun _ => h.fresh, ?_, ?_⟩ <;> simp [h.phase]

theorem watchInv_edit {s : Watching} (h : WatchInv s) {file : Option FileStamp}
    (hok : s.phase = .top → s.watch.haveBaseline = true → file = some s.watch.stamp →
      s.lastRead = file) : WatchInv { s with file } :=
  ⟨h.enabled, h.loaded, h.fresh, h.first, hok⟩

theorem watchInv_setup {s : Watching} (h : WatchInv s) (hphase : s.phase = .setup true)
    (hok : s.file = s.lastRead) :
    WatchInv { s with phase := .top, watch := cfgWatchSync s.file s.watch } := by
  obtain ⟨stamp, hstamp⟩ := Option.ne_none_iff_exists'.mp (h.loaded hphase)
  have hfile : s.file = some stamp := hok.trans hstamp
  have hsync := cfgWatchSync_some h.enabled stamp
  refine ⟨?_, ?_, ?_, ?_, fun _ _ _ => hok.symm⟩ <;> simp [hfile, hsync, h.enabled]

theorem watchInv_tick {s : Watching} (h : WatchInv s) (hphase : s.phase = .top) (nowSec : Int)
    (sighup : Bool) :
    WatchInv { s with
      watch := (cfgWatchFired s.file nowSec s.watch).2
      phase := if (cfgWatchFired s.file nowSec s.watch).1 || sighup then .loading else .top } := by
  have hfirst := h.first (.inl hphase)
  obtain ⟨henabled, hfired | hquiet⟩ := cfgWatchFired_cases s.file nowSec s.watch
  · refine ⟨henabled.trans h.enabled, ?_, ?_, fun _ => .inl hfired.2, ?_⟩ <;> simp [hfired.1]
  · obtain ⟨hstamp, hbase, htrigger⟩ := hquiet.2 hfirst
    have hbaseline := h.baseline hphase
    refine ⟨henabled.trans h.enabled, ?_, ?_, ?_, ?_⟩
    · cases sighup <;> simp [hquiet.1]
    · cases sighup <;> simp [hquiet.1]
    · intro _
      simp only [hbase, htrigger]
      exact hfirst
    · intro _ hhave hfile
      simp only [hbase, hstamp] at hhave hfile
      exact hbaseline hhave hfile

theorem watchInv_load {s : Watching} (h : WatchInv s) (hphase : s.phase = .loading)
    (ctrl : Option Controller) (rc : Int) :
    WatchInv { s with
      ctrl, lastRead := s.file, phase := if rc = 0 then .syncing else .top } := by
  have hfirst := h.first (.inr (.inl hphase))
  refine ⟨h.enabled, ?_, ?_, fun _ => hfirst, fun _ _ _ => rfl⟩ <;>
    by_cases hrc : rc = 0 <;> simp [hrc]

theorem watchInv_sync {s : Watching} (h : WatchInv s) (hphase : s.phase = .syncing)
    (hok : s.file = none ∨ s.file = s.lastRead) :
    WatchInv { s with watch := cfgWatchSync s.file s.watch, phase := .top } := by
  have hfirst := h.first (.inr (.inr hphase))
  cases hfile : s.file with
  | none =>
      rw [cfgWatchSync_none]
      refine ⟨h.enabled, by simp, by simp, fun _ => hfirst, ?_⟩
      intro _ _ hsome
      cases hsome
  | some stamp =>
      rw [cfgWatchSync_some h.enabled]
      have hread : s.lastRead = s.file := by
        rcases hok with hnone | hsame
        · simp [hfile] at hnone
        · exact hsame.symm
      exact ⟨h.enabled, by simp, by simp, fun _ => .inl rfl, fun _ _ _ => hread.trans hfile⟩

theorem watchInv_step {content : FileStamp → Option Json} {s s' : Watching} {e : WatchEvent}
    (h : WatchInv s) (hok : Undisturbed s e) (hs : watchStep content s e = some s') :
    WatchInv s' := by
  cases e with
  | edit file =>
      obtain rfl := Option.some.inj hs
      exact watchInv_edit h hok
  | start env =>
      simp only [watchStep] at hs
      split at hs
      next hphase =>
        simp only [Option.map_eq_some_iff] at hs
        obtain ⟨c, -, rfl⟩ := hs
        refine ⟨h.enabled, ?_, fun _ => h.fresh (.inl hphase), by simp, by simp⟩
        intro hloaded hnone
        simp [show s.file = none from hnone, configLoadFile] at hloaded
      next => cases hs
  | setup =>
      cases hphase : s.phase with
      | setup loaded =>
          simp only [watchStep, hphase] at hs
          cases loaded with
          | true =>
              obtain rfl := Option.some.inj hs
              exact watchInv_setup h hphase (hok hphase)
          | false =>
              obtain rfl := Option.some.inj hs
              have hfresh := h.fresh (.inr ⟨false, hphase⟩)
              exact ⟨h.enabled, by simp, by simp, fun _ => .inr rfl, by simp [hfresh]⟩
      | starting | top | loading | syncing => simp [watchStep, hphase] at hs
  | tick nowSec sighup =>
      simp only [watchStep] at hs
      split at hs
      next hphase =>
        obtain rfl := Option.some.inj hs
        exact watchInv_tick h hphase nowSec sighup
      next => cases hs
  | load env =>
      simp only [watchStep] at hs
      split at hs
      next hphase =>
        simp only [Option.map_eq_some_iff] at hs
        obtain ⟨c, -, rfl⟩ := hs
        exact watchInv_load h hphase _ _
      next => cases hs
  | sync =>
      simp only [watchStep] at hs
      split at hs
      next hphase =>
        obtain rfl := Option.some.inj hs
        exact watchInv_sync h hphase hok
      next => cases hs
  | work e =>
      simp only [watchStep] at hs
      split at hs
      next =>
        obtain rfl := Option.some.inj hs
        exact ⟨h.enabled, h.loaded, h.fresh, h.first, h.baseline⟩
      next => cases hs

theorem watchInv_reachable {content : FileStamp → Option Json} {s : Watching}
    (h : (watchMachine content).ReachableBy Undisturbed s) : WatchInv s := by
  refine h.invariant (fun _ => watchInv_start) ?_
  intro s e s' _ hinv hok hs
  exact watchInv_step hinv hok hs

/-- In every run without an edit between a load and its re-baselining, a file
whose stamp is the baseline is the one the last load read. -/
theorem baseline_was_read {content : FileStamp → Option Json} {s : Watching}
    (h : (watchMachine content).ReachableBy Undisturbed s) (htop : s.phase = .top)
    (hbase : s.watch.haveBaseline = true) (hfile : s.file = some s.watch.stamp) :
    s.lastRead = s.file :=
  (watchInv_reachable h).baseline htop hbase hfile

/-! ## A start-up -/

/-- `--watch` is on and the file is there. -/
def watchedFile (stamp : FileStamp) : Watching where
  file := some stamp
  phase := .starting
  watch := { enabled := true, lastStatSec := 0, stamp := ⟨0, 0, 0⟩, haveBaseline := false
             triggerOnFirst := false }
  ctrl := none
  lastRead := none

theorem watchedFile_start (stamp : FileStamp) : WatchStart (watchedFile stamp) := ⟨rfl, rfl, rfl⟩

/-- A version asks for as many rows as its time stamp has seconds. -/
def rowsContent (stamp : FileStamp) : Option Json := some (blockRowsDoc stamp.mtimeSec.toNat)

theorem watchStep_start (stamp : FileStamp) (hpos : 1 ≤ stamp.mtimeSec.toNat)
    (hle : stamp.mtimeSec.toNat ≤ motorMaxRowsPerBlock) :
    ∃ s, watchStep rowsContent (watchedFile stamp) (.start faultlessStartup) = some s ∧
      s.file = some stamp ∧ s.phase = .setup true ∧ s.watch = (watchedFile stamp).watch ∧
      s.lastRead = some stamp := by
  obtain ⟨c, hc⟩ : ∃ c, (startup (some (blockRowsDoc stamp.mtimeSec.toNat))
      faultlessStartup).ctrl = some c := ⟨_, rfl⟩
  refine ⟨{ watchedFile stamp with
    phase := .setup true, ctrl := some c, lastRead := some stamp }, ?_, rfl, rfl, rfl, rfl⟩
  simp [watchStep, watchedFile, rowsContent, hc, load_blockRowsDoc hpos hle]

theorem watchStep_setup (content : FileStamp → Option Json) {s : Watching} {stamp : FileStamp}
    (hphase : s.phase = .setup true) (henabled : s.watch.enabled = true)
    (hfile : s.file = some stamp) :
    ∃ s', watchStep content s .setup = some s' ∧ s'.phase = .top ∧
      s'.watch.haveBaseline = true ∧ s'.watch.stamp = stamp ∧ s'.file = some stamp ∧
      s'.lastRead = s.lastRead := by
  refine ⟨{ s with phase := .top, watch := cfgWatchSync s.file s.watch }, ?_, rfl, ?_, ?_, hfile,
    rfl⟩
  · simp [watchStep, hphase]
  · simp [hfile, cfgWatchSync_some henabled]
  · simp [hfile, cfgWatchSync_some henabled]

/-- A start-up without an edit. -/
theorem started_baseline_was_read :
    ∃ s, (watchMachine rowsContent).ReachableBy Undisturbed s ∧ s.phase = .top ∧
      s.watch.haveBaseline = true ∧ s.file = some s.watch.stamp ∧ s.lastRead = s.file := by
  have hstart : (watchMachine rowsContent).ReachableBy Undisturbed (watchedFile ⟨100, 0, 40⟩) :=
    .initial (watchedFile_start _)
  obtain ⟨s, hs, hfile, hphase, hwatch, hread⟩ := watchStep_start ⟨100, 0, 40⟩
    (by decide) (by decide)
  have hs := reachable_watch hstart hs trivial
  obtain ⟨t, ht, htop, hbase, hstamp, htfile, -⟩ := watchStep_setup rowsContent hphase
    (by rw [hwatch]; rfl) hfile
  have ht := reachable_watch hs ht fun _ => hfile.trans hread.symm
  have hmatch : t.file = some t.watch.stamp := by rw [htfile, hstamp]
  exact ⟨t, ht, htop, hbase, hmatch, baseline_was_read ht htop hbase hmatch⟩

/-- An edit between the first load and the watcher's set-up becomes the baseline
without ever being read. -/
theorem edit_before_setup_is_lost :
    ¬ ∀ s : Watching, (watchMachine rowsContent).Reachable s → s.phase = .top →
      s.watch.haveBaseline = true → s.file = some s.watch.stamp → s.lastRead = s.file := by
  intro hall
  have hstart : (watchMachine rowsContent).Reachable (watchedFile ⟨100, 0, 40⟩) :=
    .initial (watchedFile_start _)
  obtain ⟨s, hs, -, hphase, hwatch, hread⟩ := watchStep_start ⟨100, 0, 40⟩
    (by decide) (by decide)
  have hs := reachable_watch hstart hs trivial
  have hedit := reachable_watch hs (e := .edit (some ⟨200, 0, 40⟩)) rfl trivial
  obtain ⟨t, ht, htop, hbase, hstamp, htfile, htread⟩ := watchStep_setup rowsContent
    (s := { s with file := some ⟨200, 0, 40⟩ }) hphase (by rw [hwatch]; rfl) rfl
  have ht := reachable_watch hedit ht trivial
  have hlost := hall t ht htop hbase (by rw [htfile, hstamp])
  rw [htread, htfile] at hlost
  have hsame := Option.some.inj (hread.symm.trans hlost)
  revert hsame
  decide

end QnxHypervisor.MotorController
