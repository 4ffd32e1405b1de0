import QnxHypervisor.FrameRouter.Producer
import Mathlib.Data.Fin.VecNotation

/-! # The last frame

The guest increments `frame_seq` and then stores `front_index`. A host that polls
between the two takes the new number and the old index, and will not look again
until the number changes.
-/

namespace QnxHypervisor.FrameRouter

open Foundation

variable {Row : Type} {height : Nat} {s s' t : Router Row height}

/-! ## Statements -/

/-- The host is about to poll, and will find nothing new while the guest is not
publishing. -/
structure QuietPoll (s : Router Row height) : Prop where
  host : s.host = .check
  seen : s.hdr.frameSeq = s.lastSeq
  guest : s.guest.publishing = false

/-- The frame posted last is the one published last, if any was. -/
def ShowsLast (s : Router Row height) : Prop :=
  ∀ f ∈ s.published.getLast?, s.posted.getLast? = some f

/-- Fewer than 2^32 increments of `frame_seq` from one poll to the next. -/
def FewFrames (s : Router Row height) : RouterEvent Row height → Prop
  | .guest _ => True
  | .host => s.host = .check → ∀ n ∈ s.polled, s.increments < n + UInt32.size

/-- `front_index` is not loaded between the guest's two stores when the host has
already read the new number; and the first poll does not find the number that
`last_seq` begins with. -/
def LoadsInOrder (s : Router Row height) : RouterEvent Row height → Prop
  | .guest _ => True
  | .host =>
      (s.host = .loadFront → s.guest.publishing = true → s.lastSeq ≠ s.hdr.frameSeq) ∧
        (s.host = .check → s.polled = none → s.hdr.frameSeq ≠ s.lastSeq)

def PollsInOrder (s : Router Row height) (e : RouterEvent Row height) : Prop :=
  FewFrames s e ∧ LoadsInOrder s e

/-- The guest makes no further publish. -/
def Stopped (s : Router Row height) : RouterEvent Row height → Prop
  | .guest _ => ∀ back frame seq, s.guest ≠ .storeSeq back frame seq
  | .host => True

/-- Runs that go on from this state. -/
def routerFrom (s : Router Row height) : Machine (Router Row height) (RouterEvent Row height) :=
  { routerMachine Row height with initial := fun t => t = s }

instance (s : Router Row height) (e : RouterEvent Row height) : Decidable (FewFrames s e) :=
  match e with
  | .guest _ => .isTrue trivial
  | .host => @instDecidableForall _ _ _ (Option.decidableForallMem _)

instance (s : Router Row height) (e : RouterEvent Row height) : Decidable (LoadsInOrder s e) :=
  match e with
  | .guest _ => .isTrue trivial
  | .host => inferInstanceAs (Decidable ((_ → _ → s.lastSeq ≠ s.hdr.frameSeq) ∧ (_ → _ → _)))

instance (s : Router Row height) (e : RouterEvent Row height) : Decidable (PollsInOrder s e) :=
  inferInstanceAs (Decidable (_ ∧ _))

/-! ## The invariant -/

/-- What the host holds when the publishes are those it counted with `last_seq`. -/
def HoldsLast (s : Router Row height) : Prop :=
  match s.host with
  | .loadSeq | .loadFront => True
  | .announce idx => idx = s.hdr.frontIndex
  | .copyRow idx y =>
      idx = s.hdr.frontIndex ∧ SameRows y s.window (s.buffers s.hdr.frontIndex)
  | .post => s.window = s.buffers s.hdr.frontIndex
  | .clear | .check => ShowsLast s

structure LastFrameInv (s : Router Row height) : Prop where
  producer : ProducerInv s
  bounded : ∀ n ∈ s.latched, n ≤ s.increments
  unpolled : s.polled = none → s.host = .check ∧ s.latched = none
  polled : ∀ p ∈ s.polled, p ≤ s.increments ∧
    (s.host ≠ .loadSeq → ∃ n, s.latched = some n ∧ p ≤ n ∧ s.lastSeq = UInt32.ofNat n)
  held : s.guest.publishing = true → s.latched = some s.increments → s.host = .loadFront
  shown : s.latched = some s.published.length → HoldsLast s

theorem lastFrameInv_start (buffers : UInt32 → Frame Row height) (window : Frame Row height) :
    LastFrameInv (.start buffers window) where
  producer := producerInv_start buffers window
  bounded := fun n hn => by cases hn
  unpolled := fun _ => ⟨rfl, rfl⟩
  polled := fun p hp => by cases hp
  held := fun h => by cases h
  shown := fun h => by cases h

theorem increments_of_idle (h : s.guest.publishing = false) :
    s.increments = s.published.length := by
  rw [Router.increments, h]
  rfl

theorem increments_of_publishing (h : s.guest.publishing = true) :
    s.increments = s.published.length + 1 := by
  rw [Router.increments, h]
  rfl

/-! ## Steps of the guest -/

/-- Counts below 2^32 apart are told apart by their last 32 bits. -/
theorem count_eq_of_seq_eq {m n : Nat} (hle : m ≤ n) (hlt : n < m + UInt32.size)
    (heq : UInt32.ofNat n = UInt32.ofNat m) : n = m := by
  have hmod := congrArg UInt32.toNat heq
  rw [UInt32.toNat_ofNat', UInt32.toNat_ofNat'] at hmod
  have hsize : UInt32.size = 2 ^ 32 := rfl
  omega

theorem ProducerInv.front_kept (h : ProducerInv s) : s.guest.fills ≠ some s.hdr.frontIndex := by
  intro hfills
  have hguest := h.guest
  unfold Guest.Inv at hguest
  cases hg : s.guest <;> rw [hg] at hguest hfills
  case capture back => exact hguest (Option.some.inj hfills)
  case writeRow back frame y => exact hguest.1 (Option.some.inj hfills)
  all_goals cases hfills

theorem fillFrom_idle (back : UInt32) (frame : Frame Row height) (y : Nat) :
    (s.fillFrom back frame y).guest.publishing = false := by
  unfold Router.fillFrom
  split <;> rfl

/-- A step of the guest that does not store `front_index`; unless it increments
`frame_seq`, it leaves that as well. -/
theorem guestStep_idle (outcome : Option (Frame Row height)) (h : s.guest.publishing = false) :
    ((guestStep outcome s).published = s.published ∧
      (guestStep outcome s).hdr.frontIndex = s.hdr.frontIndex) ∧
    (Stopped s (.guest outcome) → (guestStep outcome s).hdr.frameSeq = s.hdr.frameSeq ∧
      (guestStep outcome s).guest.publishing = false) := by
  unfold guestStep
  split
  case h_2 => dsimp only; split <;> exact ⟨⟨rfl, rfl⟩, fun _ => ⟨rfl, rfl⟩⟩
  case h_3 back _ =>
      cases outcome with
      | none => exact ⟨⟨rfl, rfl⟩, fun _ => ⟨rfl, rfl⟩⟩
      | some frame =>
          obtain ⟨hpublished, hhdr⟩ := fillFrom_publish (s := s) back frame 0
          exact ⟨⟨hpublished, congrArg FbShmHeader.frontIndex hhdr⟩,
            fun _ => ⟨congrArg FbShmHeader.frameSeq hhdr, fillFrom_idle back frame 0⟩⟩
  case h_4 back frame y _ =>
      obtain ⟨hpublished, hhdr⟩ :=
        fillFrom_publish (s := s.storeRow back y (frame y)) back frame (y + 1)
      exact ⟨⟨hpublished, congrArg FbShmHeader.frontIndex hhdr⟩,
        fun _ => ⟨congrArg FbShmHeader.frameSeq hhdr, fillFrom_idle back frame (y + 1)⟩⟩
  case h_6 back frame seq hg => exact ⟨⟨rfl, rfl⟩, fun hstopped => absurd hg (hstopped back frame seq)⟩
  case h_7 back frame hg =>
      rw [hg] at h
      cases h
  all_goals exact ⟨⟨rfl, rfl⟩, fun _ => ⟨rfl, rfl⟩⟩

theorem guestStep_publish (outcome : Option (Frame Row height)) (h : s.guest.publishing = true) :
    (guestStep outcome s).guest.publishing = false ∧
      (guestStep outcome s).published.length = s.published.length + 1 := by
  cases hg : s.guest with
  | storeFront back frame =>
      simp only [guestStep, hg]
      exact ⟨rfl, List.length_append⟩
  | _ => rw [hg] at h; cases h

theorem HoldsLast.guest (h : HoldsLast s) (hsame : SameHost s s')
    (hpublished : s'.published = s.published) (hfront : s'.hdr.frontIndex = s.hdr.frontIndex)
    (hbuffer : s'.buffers s.hdr.frontIndex = s.buffers s.hdr.frontIndex) : HoldsLast s' := by
  unfold HoldsLast ShowsLast at h ⊢
  rw [hsame.host, hsame.window, hsame.posted, hpublished, hfront, hbuffer]
  exact h

theorem LastFrameInv.guestStep (h : LastFrameInv s) (outcome : Option (Frame Row height)) :
    LastFrameInv (guestStep outcome s) := by
  have hsame := guestStep_same outcome s
  have hproducer := h.producer.guestStep outcome
  cases hpub : s.guest.publishing with
  | true =>
      obtain ⟨hidle, hlen⟩ := guestStep_publish outcome hpub
      have hcount : (FrameRouter.guestStep outcome s).increments = s.increments := by
        rw [increments_of_idle hidle, increments_of_publishing hpub, hlen]
      refine ⟨hproducer, ?_, ?_, ?_, ?_, ?_⟩
      · rw [hsame.latched, hcount]
        exact h.bounded
      · rw [hsame.polled, hsame.latched, hsame.host]
        exact h.unpolled
      · rw [hsame.polled, hsame.latched, hsame.host, hsame.lastSeq, hcount]
        exact h.polled
      · rw [hidle]
        rintro ⟨⟩
      · -- the host has read the new number and waits for the new index
        intro hlatched
        rw [hsame.latched, hlen, ← increments_of_publishing hpub] at hlatched
        have hhost := hsame.host.trans (h.held hpub hlatched)
        unfold HoldsLast
        rw [hhost]
        trivial
  | false =>
      obtain ⟨hpublished, hfront⟩ := (guestStep_idle outcome hpub).1
      have hbuffer := guestStep_buffers outcome h.producer.front_kept
      have hcount : s.increments ≤ (FrameRouter.guestStep outcome s).increments := by
        rw [increments_of_idle hpub, Router.increments, hpublished]
        exact Nat.le_add_right _ _
      refine ⟨hproducer, ?_, ?_, ?_, ?_, ?_⟩
      · intro n hn
        rw [hsame.latched] at hn
        exact Nat.le_trans (h.bounded n hn) hcount
      · rw [hsame.polled, hsame.latched, hsame.host]
        exact h.unpolled
      · intro p hp
        rw [hsame.polled] at hp
        rw [hsame.latched, hsame.host, hsame.lastSeq]
        exact ⟨Nat.le_trans (h.polled p hp).1 hcount, (h.polled p hp).2⟩
      · -- the number has just become one that the host has not read
        intro hpub' hlatched
        rw [increments_of_publishing hpub', hpublished, hsame.latched] at hlatched
        have hle := h.bounded _ hlatched
        rw [increments_of_idle hpub] at hle
        omega
      · rw [hsame.latched, hpublished]
        intro hlatched
        exact (h.shown hlatched).guest hsame hpublished hfront hbuffer

/-! ## Steps of the host -/

theorem SameGuest.increments (h : SameGuest s s') : s'.increments = s.increments := by
  rw [Router.increments, h.published, h.guest]
  rfl

theorem LastFrameInv.latched_of_equal (h : LastFrameInv s) (hok : PollsInOrder s .host)
    (hhost : s.host = .check) (heq : s.hdr.frameSeq = s.lastSeq) :
    s.latched = some s.increments := by
  cases hp : s.polled with
  | none => exact absurd heq (hok.2.2 hhost hp)
  | some p =>
      obtain ⟨hle, hlatched⟩ := h.polled p hp
      obtain ⟨n, hn, hpn, hlast⟩ := hlatched (by simp [hhost])
      have hfew := hok.1 hhost p hp
      have hseq : UInt32.ofNat s.increments = UInt32.ofNat n := by
        rw [← h.producer.seq, heq, hlast]
      rw [hn, count_eq_of_seq_eq (h.bounded n hn) (by omega) hseq]

/-- Steps between a poll and the next, `last_seq` read already. -/
theorem LastFrameInv.host (h : LastFrameInv s) (hsame : SameGuest s s')
    (hlast : s'.lastSeq = s.lastSeq) (hpolled : s'.polled = s.polled)
    (hlatched : s'.latched = s.latched) (hcheck : s.host ≠ .check) (hseq : s.host ≠ .loadSeq)
    (hheld : s.guest.publishing = true → s.latched ≠ some s.increments)
    (hshown : s.latched = some s.published.length → HoldsLast s') : LastFrameInv s' where
  producer := h.producer.host hsame
  bounded := by
    rw [hlatched, hsame.increments]
    exact h.bounded
  unpolled := by
    rw [hpolled]
    exact fun hnone => absurd (h.unpolled hnone).1 hcheck
  polled := by
    rw [hpolled, hlatched, hlast, hsame.increments]
    exact fun p hp => ⟨(h.polled p hp).1, fun _ => (h.polled p hp).2 hseq⟩
  held := by
    rw [hsame.guest, hlatched, hsame.increments]
    exact fun hpub heq => absurd heq (hheld hpub)
  shown := by
    rw [hlatched, hsame.published]
    exact hshown

theorem HoldsLast.copyFrom {y : Nat}
    (h : SameRows y s.window (s.buffers s.hdr.frontIndex)) :
    HoldsLast (s.copyFrom s.hdr.frontIndex y) := by
  unfold Router.copyFrom
  split
  · exact ⟨rfl, h⟩
  · next hy => exact h.all hy

theorem copyFrom_counts (idx : UInt32) (y : Nat) :
    (s.copyFrom idx y).lastSeq = s.lastSeq ∧ (s.copyFrom idx y).polled = s.polled ∧
      (s.copyFrom idx y).latched = s.latched := by
  unfold Router.copyFrom
  split <;> exact ⟨rfl, rfl, rfl⟩

theorem LastFrameInv.check (h : LastFrameInv s) (hok : PollsInOrder s .host)
    (hhost : s.host = .check) : LastFrameInv (hostStep s) := by
  have hsame := hostStep_same s
  have hnot : s.host ≠ .loadFront := by simp [hhost]
  have hheld : s.guest.publishing = true → s.latched ≠ some s.increments :=
    fun hpub heq => hnot (h.held hpub heq)
  simp only [hostStep, hhost] at hsame ⊢
  refine ⟨h.producer.host hsame, h.bounded, (fun hnone => by cases hnone), ?_,
    fun hpub heq => absurd heq (hheld hpub), ?_⟩
  · intro p hp
    obtain rfl := Option.some.inj hp
    refine ⟨Nat.le_refl _, fun hphase => ?_⟩
    by_cases heq : s.hdr.frameSeq = s.lastSeq
    · refine ⟨s.increments, h.latched_of_equal hok hhost heq, Nat.le_refl _, ?_⟩
      rw [← h.producer.seq]
      exact heq.symm
    · exact absurd (if_pos heq) hphase
  · intro hlatched
    by_cases heq : s.hdr.frameSeq = s.lastSeq
    · have hshown := h.shown hlatched
      unfold HoldsLast at hshown
      rw [hhost] at hshown
      rw [if_neg (not_not_intro heq)]
      exact hshown
    · rw [if_pos heq]
      trivial

theorem LastFrameInv.hostStep (h : LastFrameInv s) (hok : PollsInOrder s .host) :
    LastFrameInv (hostStep s) := by
  have hsame := hostStep_same s
  cases hhost : s.host
  case check => exact h.check hok hhost
  case loadSeq =>
      simp only [FrameRouter.hostStep, hhost] at hsame ⊢
      refine ⟨h.producer.host hsame, ?_, ?_, ?_, fun _ _ => rfl, fun _ => trivial⟩
      · intro n hn
        obtain rfl := Option.some.inj hn
        exact Nat.le_refl _
      · intro hnone
        have hcheck := (h.unpolled hnone).1
        rw [hhost] at hcheck
        cases hcheck
      · intro p hp
        exact ⟨(h.polled p hp).1, fun _ => ⟨s.increments, rfl, (h.polled p hp).1, h.producer.seq⟩⟩
  case loadFront =>
      have hheld : s.guest.publishing = true → s.latched ≠ some s.increments := by
        intro hpub heq
        cases hp : s.polled with
        | none =>
            rw [(h.unpolled hp).2] at heq
            cases heq
        | some p =>
            obtain ⟨n, hn, -, hlast⟩ := (h.polled p hp).2 (by simp [hhost])
            obtain rfl : n = s.increments := Option.some.inj (hn.symm.trans heq)
            exact hok.2.1 hhost hpub (hlast.trans h.producer.seq.symm)
      simp only [FrameRouter.hostStep, hhost] at hsame ⊢
      exact h.host hsame rfl rfl rfl (by simp [hhost]) (by simp [hhost]) hheld
        fun _ => rfl
  all_goals
    have hcheck : s.host ≠ .check := by simp [hhost]
    have hseq : s.host ≠ .loadSeq := by simp [hhost]
    have hfront : s.host ≠ .loadFront := by simp [hhost]
    have hheld : s.guest.publishing = true → s.latched ≠ some s.increments :=
      fun hpub heq => hfront (h.held hpub heq)
    have hshown := h.shown
    unfold HoldsLast at hshown
    rw [hhost] at hshown
    simp only [FrameRouter.hostStep, hhost] at hsame ⊢
  case announce idx =>
      obtain ⟨hlast, hpolled, hlatched⟩ := copyFrom_counts
        (s := ({ s with hdr := { s.hdr with hostReadingIndex := idx } } : Router Row height)) idx 0
      refine h.host hsame hlast hpolled hlatched hcheck hseq hheld fun heq => ?_
      obtain rfl : idx = s.hdr.frontIndex := hshown heq
      exact HoldsLast.copyFrom (.zero _ _)
  case copyRow idx y =>
      obtain ⟨hlast, hpolled, hlatched⟩ := copyFrom_counts (s := s.showRow idx y) idx (y + 1)
      refine h.host hsame hlast hpolled hlatched hcheck hseq hheld fun heq => ?_
      obtain ⟨rfl, hrows⟩ := hshown heq
      exact HoldsLast.copyFrom (hrows.succ rfl)
  case post =>
      refine h.host hsame rfl rfl rfl hcheck hseq hheld fun heq f hf => ?_
      rw [List.getLast?_concat, hshown heq, h.producer.front f hf]
  case clear => exact h.host hsame rfl rfl rfl hcheck hseq hheld hshown

theorem lastFrameInv_reachable (h : (routerMachine Row height).ReachableBy PollsInOrder s) :
    LastFrameInv s := by
  refine h.invariant ?_ ?_
  · rintro s ⟨buffers, window, rfl⟩
    exact lastFrameInv_start buffers window
  · intro s e s' _ hinv hok hs
    cases e with
    | guest outcome =>
        obtain rfl := Option.some.inj hs
        exact hinv.guestStep outcome
    | host =>
        obtain rfl := Option.some.inj hs
        exact hinv.hostStep hok

/-! ## After the last publish -/

/-- While the guest does not publish, polls go on to find nothing new. -/
structure Settled (s t : Router Row height) : Prop where
  poll : QuietPoll t
  published : t.published = s.published
  posted : t.posted = s.posted

theorem hostStep_settled (h : QuietPoll s) : Settled s (hostStep s) := by
  obtain ⟨hhost, hseen, hguest⟩ := h
  simp only [hostStep, hhost, if_neg (not_not_intro hseen)]
  exact ⟨⟨rfl, hseen, hguest⟩, rfl, rfl⟩

theorem guestStep_settled {outcome : Option (Frame Row height)} (h : QuietPoll s)
    (hstopped : Stopped s (.guest outcome)) : Settled s (guestStep outcome s) := by
  have hsame := guestStep_same outcome s
  obtain ⟨hhost, hseen, hguest⟩ := h
  obtain ⟨⟨hpublished, -⟩, hquiet⟩ := guestStep_idle outcome hguest
  obtain ⟨hseq, hidle⟩ := hquiet hstopped
  exact ⟨⟨hsame.host.trans hhost, hseq.trans (hseen.trans hsame.lastSeq.symm), hidle⟩,
    hpublished, hsame.posted⟩

theorem settled_reachable (h : QuietPoll s)
    (ht : (routerFrom (hostStep s)).ReachableBy Stopped t) : Settled s t := by
  refine ht.invariant ?_ ?_
  · rintro t rfl
    exact hostStep_settled h
  · intro t e t' _ hinv hstopped hs
    have hnext : Settled t t' := by
      cases e with
      | guest outcome =>
          obtain rfl := Option.some.inj hs
          exact guestStep_settled hinv.poll hstopped
      | host =>
          obtain rfl := Option.some.inj hs
          exact hostStep_settled hinv.poll
    exact ⟨hnext.poll, hnext.published.trans hinv.published, hnext.posted.trans hinv.posted⟩

/-! ## Runs -/

/-- After a poll that found nothing new, and until the guest publishes again, the
host has posted the frame published last. -/
theorem last_frame_is_shown (h : (routerMachine Row height).ReachableBy PollsInOrder s)
    (hok : PollsInOrder s .host) (hpoll : QuietPoll s)
    (ht : (routerFrom (hostStep s)).ReachableBy Stopped t) : ShowsLast t := by
  have hinv := lastFrameInv_reachable h
  have hsettled := settled_reachable hpoll ht
  have hlatched := hinv.latched_of_equal hok hpoll.host hpoll.seen
  rw [increments_of_idle hpoll.guest] at hlatched
  have hshown := hinv.shown hlatched
  unfold HoldsLast at hshown
  rw [hpoll.host] at hshown
  unfold ShowsLast
  rw [hsettled.published, hsettled.posted]
  exact hshown

def publishOneRow (row : Nat) : List (RouterEvent Nat 1) :=
  List.replicate 7 (.guest (some ![row]))

theorem last_frame_is_shown_one :
    ∃ t : Router Nat 1, t.published.map List.ofFn = [[11]] ∧ t.posted.map List.ofFn = [[11]] ∧
      ShowsLast t := by
  have hstart : (routerMachine Nat 1).ReachableBy PollsInOrder (.start (fun _ _ => 0) fun _ => 0) :=
    .initial ⟨_, _, rfl⟩
  obtain ⟨s, hreach, hs⟩ := hstart.after_any (publishOneRow 11 ++ List.replicate 7 .host)
    (fun s => s.published.map List.ofFn = [[11]] ∧ s.posted.map List.ofFn = [[11]] ∧
      PollsInOrder s .host ∧ s.host = .check ∧ s.hdr.frameSeq = s.lastSeq ∧
      s.guest.publishing = false) (by decide +kernel)
  obtain ⟨hpublished, hposted, hok, hhost, hseen, hguest⟩ := of_decide_eq_true hs
  have hpoll : QuietPoll s := ⟨hhost, hseen, hguest⟩
  have hsettled := hostStep_settled hpoll
  refine ⟨hostStep s, by rw [hsettled.published, hpublished], by rw [hsettled.posted, hposted], ?_⟩
  exact last_frame_is_shown hreach hok hpoll (.initial rfl)

/-- The host polls between the two stores of the second publish: it posts the
first frame again, and finds nothing new from then on. -/
theorem stale_index_hides_last_frame :
    ∃ s, (routerMachine Nat 1).ReachableBy FewFrames s ∧ FewFrames s .host ∧ QuietPoll s ∧
      ¬ ShowsLast (hostStep s) := by
  have hstart : (routerMachine Nat 1).ReachableBy FewFrames (.start (fun _ _ => 0) fun _ => 0) :=
    .initial ⟨_, _, rfl⟩
  obtain ⟨s, hreach, hs⟩ := hstart.after_any
    (publishOneRow 11 ++ List.replicate 7 .host ++ (publishOneRow 22).take 6 ++
      List.replicate 3 .host ++ [.guest none] ++ List.replicate 4 .host)
    (fun s => s.published.map List.ofFn = [[11], [22]] ∧ s.posted.map List.ofFn = [[11], [11]] ∧
      FewFrames s .host ∧ s.host = .check ∧ s.hdr.frameSeq = s.lastSeq ∧
      s.guest.publishing = false) (by decide +kernel)
  obtain ⟨hpublished, hposted, hfew, hhost, hseen, hguest⟩ := of_decide_eq_true hs
  have hpoll : QuietPoll s := ⟨hhost, hseen, hguest⟩
  have hsettled := hostStep_settled hpoll
  refine ⟨s, hreach, hfew, hpoll, fun hshows => ?_⟩
  unfold ShowsLast at hshows
  rw [hsettled.published, hsettled.posted] at hshows
  have hlast : (s.published.map List.ofFn).getLast? = some [22] := by rw [hpublished]; rfl
  rw [List.getLast?_map] at hlast
  obtain ⟨f, hf, hrow⟩ := Option.map_eq_some_iff.mp hlast
  have hposts : (s.posted.map List.ofFn).getLast? = some [22] := by
    rw [List.getLast?_map, hshows f hf, Option.map_some, hrow]
  rw [hposted] at hposts
  exact absurd hposts (by decide)

end QnxHypervisor.FrameRouter
