import QnxHypervisor.FrameRouter.Producer
import Mathlib.Data.List.Infix
import Mathlib.Data.Fin.VecNotation

/-! # No tearing

The host loads `front_index` and announces it in `host_reading_index` with two
accesses. A guest that publishes and chooses its next back buffer between them
may choose the one the host is about to copy.
-/

namespace QnxHypervisor.FrameRouter

open Foundation

variable {Row : Type} {height : Nat} {s s' : Router Row height} {idx : UInt32}

/-! ## Statements -/

/-- The guest does not write a buffer the host is copying. -/
def Apart (s : Router Row height) : Prop :=
  ∀ idx frame y y', s.guest = .writeRow idx frame y → s.host ≠ .copyRow idx y'

/-- Every frame on the display is one that was captured. -/
def PostsWhole (s : Router Row height) : Prop := ∀ f ∈ s.posted, ∃ i, (i, f) ∈ s.captured

/-- The buffer being announced has been filled before, and the guest has not
chosen it to fill it again. -/
def AnnouncesInTime (s : Router Row height) : RouterEvent Row height → Prop
  | .guest _ => True
  | .host => ∀ idx ∈ s.host.announces,
      idx ∈ s.captured.map Prod.fst ∧ s.guest.fills ≠ some idx

instance (s : Router Row height) (e : RouterEvent Row height) : Decidable (AnnouncesInTime s e) :=
  match e with
  | .guest _ => .isTrue trivial
  | .host => Option.decidableForallMem _

/-! ## The invariant -/

/-- The host has announced buffer `idx` and copied its first `y` rows. -/
structure Copying (idx : UInt32) (y : Nat) (s : Router Row height) : Prop where
  announced : s.hdr.hostReadingIndex = idx
  apart : s.guest.fills ≠ some idx
  whole : (idx, s.buffers idx) ∈ s.captured
  rows : SameRows y s.window (s.buffers idx)

def Host.Inv (s : Router Row height) : Prop :=
  match s.host with
  | .copyRow idx y => Copying idx y s
  | .post => ∃ i, (i, s.window) ∈ s.captured
  | _ => True

structure TearingInv (s : Router Row height) : Prop where
  producer : ProducerInv s
  host : Host.Inv s
  posts : PostsWhole s

theorem Guest.writes_fills {g : Guest Row height} (h : g.writes = some idx) :
    g.fills = some idx := by
  cases g with
  | writeRow back frame y => exact h
  | _ => cases h

theorem TearingInv.apart (h : TearingInv s) : Apart s := by
  intro idx frame y y' hguest hhost
  have hinv := h.host
  rw [Host.Inv, hhost] at hinv
  exact hinv.apart (by rw [hguest]; rfl)

/-! ## Steps -/

theorem Copying.guestStep {y : Nat} (h : Copying idx y s) (outcome : Option (Frame Row height)) :
    Copying idx y (guestStep outcome s) := by
  have hsame := guestStep_same outcome s
  have hbuffer := @guestStep_buffers _ _ s idx outcome h.apart
  refine ⟨hsame.hostReadingIndex.trans h.announced, ?_, ?_, ?_⟩
  · intro hfills
    rcases guestStep_fills hfills with hold | hne
    · exact h.apart hold
    · exact hne h.announced.symm
  · rw [hbuffer]
    exact (guestStep_captured outcome).subset h.whole
  · rw [hbuffer, hsame.window]
    exact h.rows

theorem TearingInv.guestStep (h : TearingInv s) (outcome : Option (Frame Row height)) :
    TearingInv (guestStep outcome s) := by
  have hsame := guestStep_same outcome s
  have hcaptured := (guestStep_captured (s := s) outcome).subset
  refine ⟨h.producer.guestStep outcome, ?_, ?_⟩
  · have hinv := h.host
    unfold Host.Inv at hinv ⊢
    rw [hsame.host]
    cases hhost : s.host <;> rw [hhost] at hinv
    case copyRow idx y => exact hinv.guestStep outcome
    case post =>
        obtain ⟨i, hi⟩ := hinv
        rw [hsame.window]
        exact ⟨i, hcaptured hi⟩
    all_goals trivial
  · intro f hf
    rw [hsame.posted] at hf
    obtain ⟨i, hi⟩ := h.posts f hf
    exact ⟨i, hcaptured hi⟩

/-- The last row makes the window a copy of the buffer. -/
theorem Copying.copyFrom {y : Nat} (h : Copying idx y s) : Host.Inv (s.copyFrom idx y) := by
  unfold Router.copyFrom
  split
  · exact ⟨h.announced, h.apart, h.whole, h.rows⟩
  · next hy =>
    refine ⟨idx, ?_⟩
    rw [h.rows.all hy]
    exact h.whole

theorem copyFrom_posted (idx : UInt32) (y : Nat) : (s.copyFrom idx y).posted = s.posted := by
  unfold Router.copyFrom
  split <;> rfl

theorem TearingInv.hostStep (h : TearingInv s) (hok : AnnouncesInTime s .host) :
    TearingInv (hostStep s) := by
  have hproducer := h.producer.host (hostStep_same s)
  have hinv := h.host
  unfold Host.Inv at hinv
  refine ⟨hproducer, ?_, ?_⟩
  · cases hhost : s.host <;> rw [hhost] at hinv <;> simp only [FrameRouter.hostStep, hhost]
    case check =>
        by_cases hseq : s.hdr.frameSeq ≠ s.lastSeq
        · rw [if_pos hseq]
          trivial
        · rw [if_neg hseq]
          trivial
    case announce idx =>
        obtain ⟨hfilled, hfree⟩ := hok idx (by rw [hhost]; rfl)
        refine Copying.copyFrom ⟨rfl, hfree, ?_, .zero _ _⟩
        exact (h.producer.whole idx hfilled).resolve_left fun hw => hfree (Guest.writes_fills hw)
    case copyRow idx y =>
        refine Copying.copyFrom ⟨hinv.announced, hinv.apart, hinv.whole, ?_⟩
        exact hinv.rows.succ rfl
    all_goals trivial
  · intro f hf
    rw [(hostStep_same s).captured]
    cases hhost : s.host <;> rw [hhost] at hinv <;> simp only [FrameRouter.hostStep, hhost] at hf
    case post =>
        rcases List.mem_append.mp hf with hf | hf
        · exact h.posts f hf
        · obtain rfl := List.mem_singleton.mp hf
          exact hinv
    case announce idx =>
        rw [copyFrom_posted] at hf
        exact h.posts f hf
    case copyRow idx y =>
        rw [copyFrom_posted] at hf
        exact h.posts f hf
    all_goals exact h.posts f hf

theorem tearingInv_reachable (h : (routerMachine Row height).ReachableBy AnnouncesInTime s) :
    TearingInv s := by
  refine h.invariant ?_ ?_
  · rintro s ⟨buffers, window, rfl⟩
    exact ⟨producerInv_start buffers window, trivial, fun f hf => by cases hf⟩
  · intro s e s' _ hinv hok hs
    cases e with
    | guest outcome =>
        obtain rfl := Option.some.inj hs
        exact hinv.guestStep outcome
    | host =>
        obtain rfl := Option.some.inj hs
        exact hinv.hostStep hok

/-- An announcement that is not in time for a buffer the guest has chosen: with
its next accesses both are in that buffer. -/
theorem late_announcement_meets (hheight : 0 < height) (hhost : s.host = .announce idx)
    (hguest : s.guest.fills = some idx) (frame : Frame Row height) :
    ¬ Apart (hostStep s) ∨ ¬ Apart (guestStep (some frame) (hostStep s)) := by
  have hcopy : (hostStep s).host = .copyRow idx ⟨0, hheight⟩ := by
    simp only [hostStep, hhost, Router.copyFrom, dif_pos hheight]
  have hsame := (hostStep_same s).guest
  cases hg : s.guest with
  | writeRow back f y =>
      rw [hg] at hguest hsame
      obtain rfl := Option.some.inj hguest
      exact .inl fun hapart => hapart _ _ _ _ hsame hcopy
  | capture back =>
      rw [hg] at hguest hsame
      obtain rfl := Option.some.inj hguest
      refine .inr fun hapart => hapart back frame ⟨0, hheight⟩ ⟨0, hheight⟩ ?_ ?_
      · simp only [guestStep, hsame, Router.fillFrom, dif_pos hheight]
      · exact (guestStep_same (some frame) (hostStep s)).host.trans hcopy
  | _ => rw [hg] at hguest; cases hguest

/-! ## Runs -/

/-- While every announcement is in time, guest and host never meet in a buffer
and every frame posted is one that was captured. -/
theorem announced_frames_are_whole
    (h : (routerMachine Row height).ReachableBy AnnouncesInTime s) : Apart s ∧ PostsWhole s :=
  ⟨(tearingInv_reachable h).apart, (tearingInv_reachable h).posts⟩

/-- Eight accesses: the guest captures these two rows and publishes them. -/
def publishTwoRows (top bottom : Nat) : List (RouterEvent Nat 2) :=
  List.replicate 8 (.guest (some ![top, bottom]))

/-- One frame published, then one poll of the host that copies and posts it. -/
theorem announced_frames_are_whole_once :
    ∃ s : Router Nat 2, (s.posted.map List.ofFn = [[11, 12]]) ∧ Apart s ∧ PostsWhole s := by
  have hstart : (routerMachine Nat 2).ReachableBy AnnouncesInTime
      (.start (fun _ _ => 0) fun _ => 0) := .initial ⟨_, _, rfl⟩
  obtain ⟨s, hreach, hs⟩ := hstart.after_any (publishTwoRows 11 12 ++ List.replicate 8 .host)
    (fun s => s.posted.map List.ofFn = [[11, 12]]) (by decide +kernel)
  exact ⟨s, of_decide_eq_true hs, announced_frames_are_whole hreach⟩

/-- The host loads the index of the first frame; the guest publishes the second
and has chosen the first one's buffer when the host announces it. -/
def lateAnnouncement : List (RouterEvent Nat 2) :=
  publishTwoRows 11 12 ++ List.replicate 3 .host ++ publishTwoRows 21 22 ++
    List.replicate 3 (.guest (some ![31, 32]))

/-- The host then posts a row of the third frame over one of the first. -/
theorem late_announcement_tears :
    (∃ s, (routerMachine Nat 2).Reachable s ∧ ¬ Apart s) ∧
      ∃ s, (routerMachine Nat 2).Reachable s ∧ ¬ PostsWhole s := by
  have hstart : (routerMachine Nat 2).Reachable (.start (fun _ _ => 0) fun _ => 0) :=
    .initial ⟨_, _, rfl⟩
  constructor
  · obtain ⟨s, hreach, hs⟩ := hstart.after_any lateAnnouncement
      (fun s => s.host = .announce 1 ∧ s.guest.fills = some 1) (by decide +kernel)
    obtain ⟨hhost, hguest⟩ := of_decide_eq_true hs
    have hannounced := hreach.step (e := .host) trivial rfl
    rcases late_announcement_meets (by decide) hhost hguest ![31, 32] with hmeet | hmeet
    · exact ⟨_, hannounced, hmeet⟩
    · exact ⟨_, hannounced.step (e := .guest (some ![31, 32])) trivial rfl, hmeet⟩
  · obtain ⟨s, hreach, hs⟩ := hstart.after_any
      (lateAnnouncement ++ [.host, .guest none, .host, .host, .host, .guest none])
      (fun s => s.posted.map List.ofFn = [[31, 12]] ∧
        s.captured.map (fun c => List.ofFn c.2) = [[11, 12], [21, 22], [31, 32]])
      (by decide +kernel)
    obtain ⟨hposted, hcaptured⟩ := of_decide_eq_true hs
    refine ⟨s, hreach, fun hwhole => ?_⟩
    have hmem : [31, 12] ∈ s.posted.map List.ofFn := by rw [hposted]; decide
    obtain ⟨f, hf, hrows⟩ := List.mem_map.mp hmem
    obtain ⟨i, hi⟩ := hwhole f hf
    have himage := List.mem_map_of_mem (f := fun c => List.ofFn c.2) hi
    rw [hcaptured, hrows] at himage
    exact absurd himage (by decide)

end QnxHypervisor.FrameRouter
