import QnxHypervisor.MotorController.SequenceAccounting
import QnxHypervisor.MotorPath.Monitor

/-! # The monitor beside the controller

One run of the controller process and of monitors that come and go: each event of
the controller's loop and each refresh is one step. What the monitor prints is
compared with the frames that the controller has let through.
-/

namespace QnxHypervisor.MotorPath

open Foundation MotorWire MotorShm MotorController ShmReader

/-! ## Joint runs -/

/-- A printed line, and how many frames were published before it. -/
structure Report where
  frames : Nat
  line : MonitorLine

structure Watched where
  ctrl : Controller
  monitor : Option Monitor
  /-- the received buffers whose frames were published, in order -/
  published : List XferBuffer
  /-- the lines of this monitor, behind an empty one that stands for its start -/
  log : List Report

inductive WatchedEvent where
  | loop (e : LoopEvent)
  /-- a monitor is started; its scratch block holds anything -/
  | attach (blk : BlockData MotorRow)
  | refresh

def publishes (c : Controller) : LoopEvent → Option XferBuffer
  | .exchange rx =>
      if validateFrame c.activeStm rx = .accepted ∧ freshSeq (frameHeader rx) c = true then some rx
      else none
  | _ => none

def watchedStep (s : Watched) : WatchedEvent → Option Watched
  | .loop e =>
      some
        { s with
          ctrl := loopStep s.ctrl e, published := s.published ++ (publishes s.ctrl e).toList }
  | .attach blk =>
      some
        { s with
          monitor := some (Monitor.attach s.ctrl.region.ring blk)
          log := [⟨s.published.length, ⟨none, 0, 0, 0, 0⟩⟩] }
  | .refresh =>
      s.monitor.map fun m =>
        let r := m.refresh s.ctrl.region
        { s with monitor := some r.1, log := s.log ++ [⟨s.published.length, r.2⟩] }

/-- A controller that has come through its start-up. -/
structure WatchedStart (s : Watched) : Prop where
  started : ∃ doc env, (startup doc env).ctrl = some s.ctrl
  alone : s.monitor = none ∧ s.published = [] ∧ s.log = []

def watchedMachine : Machine Watched WatchedEvent := ⟨WatchedStart, watchedStep⟩

/-- The 64-bit `write_pos` does not wrap. -/
def Room (s : Watched) (_ : WatchedEvent) : Prop := s.published.length + 1 < 2 ^ 64

instance (s : Watched) (e : WatchedEvent) : Decidable (Room s e) := inferInstanceAs (Decidable (_ < _))

/-! ## What the lines should say -/

def lastRow (rx : XferBuffer) : SnapshotData MotorRow :=
  ⟨(frameHeader rx).seq, (frameHeader rx).timestamp, (frameHeader rx).flags,
    rowAt rx ((frameHeader rx).nRows.toNat - 1)⟩

/-- A line after an earlier one: of the frames published in between the last 16 are
seen and the others dropped, and snapshot and last column are those of the newest. -/
structure Report.Follows (published : List XferBuffer) (a b : Report) : Prop where
  frames : a.frames ≤ b.frames
  wp : b.line.wp.toNat = b.frames
  seen : b.line.blocksSeen.toNat = a.line.blocksSeen.toNat + min (b.frames - a.frames) 16
  drops : b.line.drops.toNat = a.line.drops.toNat + (b.frames - a.frames - 16)
  snap : b.frames ≠ 0 → ∃ rx, published[b.frames - 1]? = some rx ∧ b.line.snap = some (lastRow rx)
  newest : a.frames < b.frames → ∃ rx, published[b.frames - 1]? = some rx ∧
    b.line.firstCurrent = ((rowAt rx 0).current.get 0).toUInt32

/-- Only well-formed frames are published, the controller has counted them, and the
lines of the monitor tell how many there were and which was the last. -/
structure Watched.Exact (s : Watched) : Prop where
  valid : ∀ rx ∈ s.published, FrameWellFormed rx
  framesOk : s.ctrl.st.framesOk.toNat = s.published.length
  lines : s.log.IsChain (Report.Follows s.published)

theorem Report.Follows.more {published : List XferBuffer} {a b : Report}
    (h : a.Follows published b) (later : List XferBuffer) : a.Follows (published ++ later) b where
  frames := h.frames
  wp := h.wp
  seen := h.seen
  drops := h.drops
  snap := fun hn => by
    obtain ⟨rx, hrx, hsnap⟩ := h.snap hn
    refine ⟨rx, ?_, hsnap⟩
    rw [List.getElem?_append_left (List.getElem?_eq_some_iff.mp hrx).1, hrx]
  newest := fun hlt => by
    obtain ⟨rx, hrx, hcurrent⟩ := h.newest hlt
    refine ⟨rx, ?_, hcurrent⟩
    rw [List.getElem?_append_left (List.getElem?_eq_some_iff.mp hrx).1, hrx]

/-! ## The invariant -/

/-- The ring holds the last 16 published frames and the snapshot the last one. -/
structure Shown (r : ShmRegion MotorRow) (published : List XferBuffer) : Prop where
  ready : RingReady r.ring
  even : r.snapshot.seqlock &&& 1 = 0
  count : r.ring.writePos.toNat = published.length
  blocks : ∀ k rx, published[k]? = some rx → published.length ≤ k + 16 →
    blockAt motorMaxRowsPerBlock r.ring k =
      blockOf motorMaxRowsPerBlock (frameHeader rx) (rowAt rx)
  snapshot : ∀ rx, published.getLast? = some rx → r.snapshot.toSnapshotData = lastRow rx

theorem Shown.init (rowSize : UInt32) (r : ShmRegion MotorRow) :
    Shown (motorShmRegionInit rowSize r) [] where
  ready := ringReady_init rowSize r
  even := (even_word_iff 0).mpr rfl
  count := rfl
  blocks := fun k rx h => by cases h
  snapshot := fun rx h => by cases h

theorem Shown.publish {r : ShmRegion MotorRow} {published : List XferBuffer} (h : Shown r published)
    (hroom : published.length + 1 < 2 ^ 64) (rx : XferBuffer) :
    Shown (publishedRegion rx r) (published ++ [rx]) := by
  have hcount := h.count
  constructor
  case ready => exact ringReady_publish h.ready _ _ _
  case even => exact even_add_two h.even
  case count =>
    simp only [publishedRegion, motorRingPublish, UInt64.toNat_add, List.length_append,
      List.length_singleton, hcount]
    exact Nat.mod_eq_of_lt hroom
  case blocks =>
    intro k rx' hk hrecent
    rw [List.length_append, List.length_singleton] at hrecent
    simp only [publishedRegion]
    rw [blockAt_publish h.ready]
    have hlt : k < published.length + 1 := by
      simpa using (List.getElem?_eq_some_iff.mp hk).1
    by_cases hlast : k = published.length
    · subst hlast
      rw [List.getElem?_concat_length] at hk
      obtain rfl := Option.some.inj hk
      rw [if_pos (by rw [hcount])]
    · -- at most 15 positions apart, so another slot
      rw [List.getElem?_append_left (by omega)] at hk
      rw [if_neg (by rw [hcount]; omega)]
      exact h.blocks k rx' hk (by omega)
  case snapshot =>
    intro rx' hlast
    rw [List.getLast?_concat] at hlast
    obtain rfl := Option.some.inj hlast
    rfl

/-- The monitor stands where its last line has left it. -/
structure Caught (m : Monitor) (last : Report) : Prop where
  readPos : m.readPos.toNat = last.frames
  seen : m.blocksSeen = last.line.blocksSeen
  drops : m.drops = last.line.drops
  few : m.blocksSeen.toNat + m.drops.toNat ≤ last.frames

structure Watched.Inv (s : Watched) : Prop where
  shown : Shown s.ctrl.region s.published
  exact : s.Exact
  short : s.published.length < 2 ^ 64
  caught : ∀ m, s.monitor = some m → ∃ last, s.log.getLast? = some last ∧ Caught m last ∧
    last.frames ≤ s.published.length

/-! ## Steps -/

theorem handleReload_region (doc : Option Json) (env : ReloadEnv) (c : Controller) :
    (handleReload doc env c).ctrl.region = c.region ∧
      (handleReload doc env c).ctrl.st.framesOk = c.st.framesOk := by
  unfold handleReload
  cases configLoadFile doc with
  | none => exact ⟨rfl, rfl⟩
  | some next =>
      simp only [reloadSpiTier, reloadPinTier, reloadStmTier]
      split <;> split <;> split <;> exact ⟨rfl, rfl⟩

theorem accept_framesOk (h : FrameHeader) (c : Controller) :
    (c.seqAccount.accept h.seq).framesOk =
      c.st.framesOk + if freshSeq h c = true then 1 else 0 := by
  have hzero := toInt_sub_eq_zero h.seq c.lastSeq
  unfold SeqAccount.accept freshSeq
  by_cases hlast : c.haveLast = true
  · by_cases hseq : h.seq = c.lastSeq
    · simp [Controller.seqAccount, hlast, hseq]
    · simp only [Controller.seqAccount, hlast, hzero, hseq, not_true_eq_false, if_false, decide_false,
        Bool.and_false, Bool.not_false, if_true]
      split <;> rfl
  · simp [Controller.seqAccount, hlast]

theorem loopStep_published (c : Controller) (e : LoopEvent) :
    (loopStep c e).region = (publishes c e).elim c.region (publishedRegion · c.region) ∧
      (loopStep c e).st.framesOk = c.st.framesOk + (publishes c e).elim 0 fun _ => 1 := by
  cases e with
  | reload doc env =>
      have hkept := handleReload_region doc env c
      exact ⟨hkept.1, hkept.2.trans (UInt64.add_zero _).symm⟩
  | noData interrupted => cases interrupted <;> exact ⟨rfl, (UInt64.add_zero _).symm⟩
  | exchangeFailed interrupted => cases interrupted <;> exact ⟨rfl, (UInt64.add_zero _).symm⟩
  | exchange rx =>
      have hregion := receiveFrame_region rx c
      have haccount := congrArg SeqAccount.framesOk (receiveFrame_account rx c)
      have hok : (receiveFrame rx c).seqAccount.framesOk = (receiveFrame rx c).st.framesOk := rfl
      rw [hok, acceptedSeq_exchange] at haccount
      simp only [loopStep, publishes, hregion, haccount]
      by_cases hv : validateFrame c.activeStm rx = .accepted
      · have hcount := accept_framesOk (frameHeader rx) c
        by_cases hfresh : freshSeq (frameHeader rx) c = true
        · simp [hv, hfresh, hcount]
        · simp [hv, hfresh, hcount]
      · simp only [hv, false_and, if_false, Option.elim_none, true_and, UInt64.add_zero]
        rfl

theorem publishes_valid {c : Controller} {e : LoopEvent} {rx : XferBuffer}
    (h : publishes c e = some rx) : FrameWellFormed rx := by
  cases e with
  | exchange rx' =>
      simp only [publishes] at h
      split at h
      · next hv =>
        obtain rfl := Option.some.inj h
        exact ((validateFrame_accepted_iff _ _).mp hv.1).1
      · cases h
  | _ => cases h

theorem blockOf_rows {rx : XferBuffer} (h : FrameWellFormed rx) :
    (blockOf motorMaxRowsPerBlock (frameHeader rx) (rowAt rx)).rows ≠ [] ∧
      firstCurrent (blockOf motorMaxRowsPerBlock (frameHeader rx) (rowAt rx)) =
        ((rowAt rx 0).current.get 0).toUInt32 := by
  have hpos : 0 < (clampRows motorMaxRowsPerBlock (frameHeader rx).nRows).toNat := by
    have hrows := h.rows_pos
    have hmax : 0 < motorMaxRowsPerBlock := by decide
    rw [clampRows_toNat]
    omega
  obtain ⟨n, hn⟩ : ∃ n, (clampRows motorMaxRowsPerBlock (frameHeader rx).nRows).toNat = n + 1 :=
    ⟨_, (Nat.succ_pred_eq_of_pos hpos).symm⟩
  constructor
  · simp [blockOf, hn]
  · simp [firstCurrent, blockOf, hn, List.range_succ_eq_map]

theorem WatchedStart.inv {s : Watched} (h : WatchedStart s) : s.Inv := by
  obtain ⟨doc, env, hstart⟩ := h.started
  obtain ⟨hmonitor, hpublished, hlog⟩ := h.alone
  have hctrl : ∃ leftover, s.ctrl.region = motorShmRegionInit (UInt32.ofNat motorRowBytes) leftover ∧
      s.ctrl.st = {} := by
    simp only [startup] at hstart
    split at hstart
    · cases hstart
    · split at hstart
      · cases hstart
      · split at hstart
        · cases hstart
        · rw [← Option.some.inj hstart]
          exact ⟨_, rfl, rfl⟩
  obtain ⟨leftover, hregion, hst⟩ := hctrl
  constructor
  case shown =>
    rw [hregion, hpublished]
    exact Shown.init _ _
  case exact =>
    constructor
    · simp [hpublished]
    · simp [hpublished, hst]
    · simp [hlog]
  case short => simp [hpublished]
  case caught => simp [hmonitor]

theorem Watched.Inv.loop {s : Watched} (h : s.Inv) (hroom : s.published.length + 1 < 2 ^ 64)
    (e : LoopEvent) :
    Watched.Inv
      { s with
        ctrl := loopStep s.ctrl e, published := s.published ++ (publishes s.ctrl e).toList } := by
  obtain ⟨hregion, hok⟩ := loopStep_published s.ctrl e
  constructor
  case shown =>
    rw [hregion]
    cases hp : publishes s.ctrl e with
    | none => simpa using h.shown
    | some rx => exact h.shown.publish hroom rx
  case exact =>
    constructor
    · intro rx hrx
      rcases List.mem_append.mp hrx with hold | hnew
      · exact h.exact.valid rx hold
      · exact publishes_valid (Option.mem_toList.mp hnew)
    · rw [hok, List.length_append]
      cases publishes s.ctrl e with
      | none => simpa using h.exact.framesOk
      | some rx =>
          show (s.ctrl.st.framesOk + 1).toNat = s.published.length + 1
          rw [UInt64.toNat_add, h.exact.framesOk]
          exact Nat.mod_eq_of_lt hroom
    · exact h.exact.lines.imp fun _ _ hab => hab.more _
  case short =>
    have hone : (publishes s.ctrl e).toList.length ≤ 1 := by
      cases publishes s.ctrl e <;> simp
    rw [List.length_append]
    omega
  case caught =>
    intro m hm
    obtain ⟨last, hlast, hcaught, hle⟩ := h.caught m hm
    refine ⟨last, hlast, hcaught, ?_⟩
    rw [List.length_append]
    omega

theorem Watched.Inv.attach {s : Watched} (h : s.Inv) (blk : BlockData MotorRow) :
    Watched.Inv
      { s with
        monitor := some (Monitor.attach s.ctrl.region.ring blk)
        log := [⟨s.published.length, ⟨none, 0, 0, 0, 0⟩⟩] } where
  shown := h.shown
  exact := ⟨h.exact.valid, h.exact.framesOk, List.isChain_singleton _⟩
  short := h.short
  caught := by
    rintro m ⟨⟩
    exact ⟨_, rfl, ⟨h.shown.count, rfl, rfl, Nat.zero_le _⟩, Nat.le_refl _⟩

theorem Watched.Inv.refresh {s : Watched} (h : s.Inv) {m : Monitor} (hm : s.monitor = some m) :
    Watched.Inv
      { s with
        monitor := some (m.refresh s.ctrl.region).1
        log := s.log ++ [⟨s.published.length, (m.refresh s.ctrl.region).2⟩] } := by
  obtain ⟨last, hlast, hcaught, hle⟩ := h.caught m hm
  have hcount := h.shown.count
  have hpos := hcaught.readPos
  have hfew := hcaught.few
  have hshort := h.short
  have hturn := Monitor.refresh_ready h.shown.ready h.shown.even (m := m) (by omega)
  rw [hcount, hpos] at hturn
  have hseen : (m.refresh s.ctrl.region).1.blocksSeen.toNat =
      m.blocksSeen.toNat + min (s.published.length - last.frames) 16 := by
    rw [hturn.blocksSeen, UInt64.toNat_add, UInt64.toNat_ofNat_of_lt' (by show _ < 2 ^ 64; omega)]
    exact Nat.mod_eq_of_lt (by omega)
  have hdrops : (m.refresh s.ctrl.region).1.drops.toNat =
      m.drops.toNat + (s.published.length - last.frames - 16) := by
    rw [hturn.drops, UInt64.toNat_add, UInt64.toNat_ofNat_of_lt' (by show _ < 2 ^ 64; omega)]
    exact Nat.mod_eq_of_lt (by omega)
  -- the block of the newest frame
  have hnewest : s.published.length ≠ 0 → ∃ rx, s.published[s.published.length - 1]? = some rx ∧
      s.published.getLast? = some rx ∧
      blockAt motorMaxRowsPerBlock s.ctrl.region.ring (s.published.length - 1) =
        blockOf motorMaxRowsPerBlock (frameHeader rx) (rowAt rx) := by
    intro hne
    obtain ⟨rx, hrx⟩ : ∃ rx, s.published[s.published.length - 1]? = some rx :=
      ⟨_, List.getElem?_eq_getElem (by omega)⟩
    exact ⟨rx, hrx, by rw [List.getLast?_eq_getElem?, hrx], h.shown.blocks _ rx hrx (by omega)⟩
  constructor
  case shown => exact h.shown
  case exact =>
    refine ⟨h.exact.valid, h.exact.framesOk, ?_⟩
    refine List.isChain_append.mpr ⟨h.exact.lines, List.isChain_singleton _, ?_⟩
    rintro a ha b ⟨⟩
    obtain rfl := Option.some.inj (hlast.symm.trans ha)
    constructor
    case frames => exact hle
    case wp =>
      simp only
      rw [hturn.wp, hcount]
    case seen =>
      simp only
      rw [hturn.counts.1, hseen, hcaught.seen]
    case drops =>
      simp only
      rw [hturn.counts.2, hdrops, hcaught.drops]
    case snap =>
      intro hne
      obtain ⟨rx, hrx, hrxlast, -⟩ := hnewest hne
      exact ⟨rx, hrx, hturn.snap.trans (congrArg some (h.shown.snapshot rx hrxlast))⟩
    case newest =>
      intro hlt
      simp only at hlt
      obtain ⟨rx, hrx, -, hblock⟩ := hnewest (by omega)
      have hvalid := h.exact.valid rx (List.mem_of_getElem? hrx)
      obtain ⟨hrows, hfirst⟩ := blockOf_rows hvalid
      refine ⟨rx, hrx, ?_⟩
      have hcolumn := hturn.newest (by omega)
      rw [hcount, hblock] at hcolumn
      exact (hcolumn hrows).trans hfirst
  case short => exact h.short
  case caught =>
    rintro m' ⟨⟩
    refine ⟨_, List.getLast?_concat, ?_, Nat.le_refl _⟩
    constructor
    case readPos =>
      rw [hturn.readPos]
      exact hcount
    case seen => exact hturn.counts.1.symm
    case drops => exact hturn.counts.2.symm
    case few =>
      rw [hseen, hdrops]
      simp only
      omega

theorem watched_inv {s : Watched} (h : watchedMachine.ReachableBy Room s) : s.Inv := by
  apply h.invariant (fun _ hs => hs.inv)
  intro s e s' _ hinv hroom hs
  cases e with
  | loop e =>
      obtain rfl := Option.some.inj hs
      exact hinv.loop hroom e
  | attach blk =>
      obtain rfl := Option.some.inj hs
      exact hinv.attach blk
  | refresh =>
      obtain ⟨m, hm, rfl⟩ := Option.map_eq_some_iff.mp hs
      exact hinv.refresh hm

/-- In every run the monitor's lines are exact, however its refreshes and the
controller's events alternate. -/
theorem monitor_exact {s : Watched} (h : watchedMachine.ReachableBy Room s) : s.Exact :=
  (watched_inv h).exact

def oneRowFrame : XferBuffer := wireFrame (dataHeader 7 0 0 1 0) fun _ => zeroRow

theorem publishes_oneRowFrame :
    publishes defaultController (.exchange oneRowFrame) = some oneRowFrame := by
  have haccepted : validateFrame defaultController.activeStm oneRowFrame = .accepted :=
    (validateFrame_accepted_iff _ _).mpr
      ⟨wireFrame_wellFormed _ rfl rfl (by decide) (by decide), by
        rw [oneRowFrame, frameHeader_wireFrame]
        rfl⟩
  rw [publishes, if_pos ⟨haccepted, rfl⟩]

/-- A monitor that is started, one frame and a refresh. -/
theorem monitor_exact_one_frame :
    ∃ s : Watched, s.published = [oneRowFrame] ∧ s.log.length = 2 ∧ s.Exact := by
  have hstart : watchedMachine.ReachableBy Room ⟨defaultController, none, [], []⟩ :=
    .initial ⟨⟨none, faultlessStartup, defaultController_startup⟩, rfl, rfl, rfl⟩
  have hattach := hstart.step (e := .attach zeroBlock.toBlockData) (by decide) rfl
  have hframe := hattach.step (e := .loop (.exchange oneRowFrame)) (by decide) rfl
  have hrefresh := hframe.step (e := .refresh)
    (by simp [Room, publishes_oneRowFrame]) rfl
  exact ⟨_, by simp [publishes_oneRowFrame], rfl, monitor_exact hrefresh⟩

end QnxHypervisor.MotorPath
