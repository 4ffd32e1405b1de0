import QnxHypervisor.MotorRecorder.Lifecycle

/-! # Every recording is finalised once

When no two of start, stop and shutdown overlap, the shared globals belong to the
recording started last and to whoever is working on it. The invariant has two
parts: the books on what has been done so far, and what the globals hold at each
point of the thread that is at work.
-/

namespace QnxHypervisor.MotorRecorder

open Foundation

/-! ## The books -/

def Act.number : Act → Nat
  | .joined _ n => n
  | .released _ n _ => n
  | .published n => n

/-- What the acts so far look like, whatever the threads are doing. -/
structure Booked (s : Life) : Prop where
  below : ∀ a ∈ s.acts, a.number < s.next
  once : s.acts.Nodup
  own : ∀ r n stopping, .released r n stopping ∈ s.acts → n = stopping
  began : ∀ n, s.began n = true → n < s.next
  older : ∀ n, s.began n = true → n ≠ s.latest → s.Complete n
  publishing : ∀ p, s.phase p = .publishing →
    s.target p < s.next ∧ .published (s.target p) ∉ s.acts
  apart : ∀ p, s.phase p = .publishing → s.phase p.other = .publishing →
    s.target p ≠ s.target p.other

namespace Life

variable {s : Life} {p q : Party} {φ : Phase} {r : Resource} {n : Nat} {a : Act}

theorem Complete.act (h : s.Complete n) : (s.act a).Complete n :=
  ⟨fun w => List.mem_append_left _ (h.1 w), fun r => List.mem_append_left _ (h.2 r)⟩

@[simp] theorem goto_phase_self : (s.goto p φ).phase p = φ := Function.update_self ..

theorem goto_phase_ne (h : q ≠ p) : (s.goto p φ).phase q = s.phase q := Function.update_of_ne h ..

@[simp] theorem hold_self : (s.hold r (some n)).held r = some n := Function.update_self ..

@[simp] theorem hold_none : (s.hold r none).held r = none := Function.update_self ..

theorem other_ne : p.other ≠ p := by cases p <;> decide

theorem eq_or_other (p q : Party) : q = p ∨ q = p.other := by cases p <;> cases q <;> decide

@[simp] theorem other_other : p.other.other = p := by cases p <;> rfl

end Life

namespace Booked

open Life

variable {s : Life} {p q : Party} {φ : Phase} {r : Resource} {n : Nat} {a : Act} {w : Worker}

theorem goto (h : Booked s) (hφ : φ ≠ .publishing) : Booked (s.goto p φ) := by
  have hphase : ∀ q, (s.goto p φ).phase q = .publishing → s.phase q = .publishing := by
    intro q hq
    by_cases heq : q = p
    · subst heq
      rw [goto_phase_self] at hq
      exact absurd hq hφ
    · rwa [goto_phase_ne heq] at hq
  exact ⟨h.below, h.once, h.own, h.began, h.older, fun q hq => h.publishing q (hphase q hq),
    fun q hq hq' => h.apart q (hphase q hq) (hphase _ hq')⟩

theorem aim (h : Booked s) (hp : s.phase p ≠ .publishing) : Booked (s.aim p) := by
  have htarget : ∀ q, s.phase q = .publishing → (s.aim p).target q = s.target q := by
    intro q hq
    refine Function.update_of_ne ?_ ..
    rintro rfl
    exact hp hq
  refine ⟨h.below, h.once, h.own, h.began, h.older, fun q hq => ?_, fun q hq hq' => ?_⟩
  · change (s.aim p).target q < s.next ∧ Act.published ((s.aim p).target q) ∉ s.acts
    rw [htarget q hq]
    exact h.publishing q hq
  · rw [htarget q hq, htarget _ hq']
    exact h.apart q hq hq'

/-- Something is done for a recording for the first time. -/
theorem act (h : Booked s) (hnew : a ∉ s.acts) (hbelow : a.number < s.next)
    (hown : ∀ r n stopping, a = .released r n stopping → n = stopping)
    (hpub : ∀ p, s.phase p = .publishing → a ≠ .published (s.target p)) : Booked (s.act a) := by
  refine ⟨fun b hb => ?_, List.nodup_append.mpr ⟨h.once, by simp, ?_⟩,
    fun r n stopping hmem => ?_, h.began, fun n hb hn => (h.older n hb hn).act, fun p hp => ?_, h.apart⟩
  · rcases List.mem_append.mp hb with hold | hone
    · exact h.below b hold
    · rw [List.mem_singleton.mp hone]
      exact hbelow
  · rintro b hb c hc rfl
    exact hnew (List.mem_singleton.mp hc ▸ hb)
  · rcases List.mem_append.mp hmem with hold | hone
    · exact h.own r n stopping hold
    · exact hown r n stopping (List.mem_singleton.mp hone).symm
  · obtain ⟨hlt, hnot⟩ := h.publishing p hp
    refine ⟨hlt, fun hmem => ?_⟩
    rcases List.mem_append.mp hmem with hold | hone
    · exact hnot hold
    · exact hpub p hp (List.mem_singleton.mp hone).symm

theorem open_next (h : Booked s) (hlatest : s.began s.latest = true → s.Complete s.latest) :
    Booked { s with next := s.next + 1 } := by
  refine ⟨fun a ha => Nat.lt_succ_of_lt (h.below a ha), h.once, h.own,
    fun n hb => Nat.lt_succ_of_lt (h.began n hb), fun n hb _ => ?_,
    fun p hp => ⟨Nat.lt_succ_of_lt (h.publishing p hp).1, (h.publishing p hp).2⟩, h.apart⟩
  by_cases hn : n = s.latest
  · subst hn
    exact hlatest hb
  · exact h.older n hb hn

/-- `g_recording` is set. -/
theorem begin (h : Booked s) (hpos : 0 < s.next) (b : Bool) :
    Booked { s with recording := b, began := Function.update s.began s.latest true } := by
  have hlatest : s.latest < s.next := Nat.sub_lt hpos Nat.one_pos
  refine ⟨h.below, h.once, h.own, fun n hb => ?_, fun n hb hn => ?_, h.publishing, h.apart⟩
  · by_cases heq : n = s.latest
    · exact heq ▸ hlatest
    · exact h.began n ((Function.update_of_ne heq ..).symm.trans hb)
  · exact h.older n ((Function.update_of_ne hn ..).symm.trans hb) hn

theorem goto_publishing (h : Booked s) (hlt : s.target p < s.next)
    (hnot : .published (s.target p) ∉ s.acts)
    (hother : s.phase p.other = .publishing → s.target p.other ≠ s.target p) :
    Booked (s.goto p .publishing) := by
  refine ⟨h.below, h.once, h.own, h.began, h.older, fun q hq => ?_, fun q hq hq' => ?_⟩
  · rcases eq_or_other p q with rfl | rfl
    · exact ⟨hlt, hnot⟩
    · exact h.publishing _ ((goto_phase_ne other_ne).symm.trans hq)
  · rcases eq_or_other p q with rfl | rfl
    · exact (hother ((goto_phase_ne other_ne).symm.trans hq')).symm
    · rw [other_other]
      exact hother ((goto_phase_ne other_ne).symm.trans hq)

end Booked

/-! ## Who is at work -/

namespace Life

variable {s : Life} {p q : Party} {φ : Phase} {r : Resource} {n : Nat} {a : Act} {w : Worker}
  {todo : List Resource} {why : Why}

/-- Nothing has been done for the recording, nor is about to be. -/
structure Untouched (s : Life) (n : Nat) : Prop where
  acts : ∀ a ∈ s.acts, a.number ≠ n
  publishing : ∀ p, s.phase p = .publishing → s.target p ≠ n

/-- The recording's stop metadata have not been published, nor are about to be. -/
structure Unpublished (s : Life) (n : Nat) : Prop where
  acts : .published n ∉ s.acts
  publishing : ∀ p, s.phase p = .publishing → s.target p ≠ n

theorem Untouched.unpublished (h : s.Untouched n) : s.Unpublished n :=
  ⟨fun hmem => h.acts _ hmem rfl, h.publishing⟩

/-- Nothing is being recorded, and all that was is finalised. -/
structure Idle (s : Life) : Prop where
  recording : s.recording = false
  held : ∀ r, s.held r = none
  complete : s.began s.latest = true → s.Complete s.latest

/-- A start has got these resources so far. -/
structure Preparing (s : Life) (got : List Resource) : Prop where
  recording : s.recording = false
  pos : 0 < s.next
  began : s.began s.latest = false
  held : ∀ r, s.held r = if r ∈ got then some s.latest else none
  untouched : s.Untouched s.latest

/-- The recording started last has all its resources. -/
structure Underway (s : Life) : Prop where
  recording : s.recording = true
  pos : 0 < s.next
  began : s.began s.latest = true
  held : ∀ r, s.held r = some s.latest
  untouched : s.Untouched s.latest

/-- A stop has joined these workers so far. -/
structure Joining (s : Life) (p : Party) (joined : List Worker) : Prop where
  recording : s.recording = false
  pos : 0 < s.next
  began : s.began s.latest = true
  held : ∀ r, s.held r = some s.latest
  threads : ∀ w, s.thread w = some s.latest
  target : s.target p = s.latest
  unpublished : s.Unpublished s.latest
  joined : ∀ w, .joined w s.latest ∈ s.acts ↔ w ∈ joined
  unreleased : ∀ r stopping, .released r s.latest stopping ∉ s.acts

/-- These resources are still to be released. -/
structure Releasing (s : Life) (p : Party) (todo : List Resource) : Prop where
  recording : s.recording = false
  pos : 0 < s.next
  target : s.target p = s.latest
  held : ∀ r, s.held r = none ∨ s.held r = some s.latest
  left : ∀ r, s.held r ≠ none → r ∈ todo
  nodup : todo.Nodup
  unreleased : ∀ r ∈ todo, .released r s.latest s.latest ∉ s.acts
  began : s.began s.latest = true → (∀ w, .joined w s.latest ∈ s.acts) ∧
    ∀ r, (r ∈ todo → s.held r ≠ none) ∧ (r ∉ todo → .released r s.latest s.latest ∈ s.acts)
  unpublished : s.Unpublished s.latest

/-- What the globals hold while the thread is at that point. -/
def Stage (s : Life) (p : Party) : Phase → Prop
  | .opening => s.Idle
  | .queueing => s.Preparing [.file]
  | .connecting => s.Preparing [.queue, .file]
  | .allocReader => s.Preparing [.shm, .queue, .file]
  | .allocWriter => s.Preparing [.shm, .queue, .file] ∨ s.Preparing [.reader, .shm, .queue, .file]
  | .flagging => s.Preparing cleanupOrder
  | .creatingReader => s.Underway
  | .creatingWriter => s.Underway ∧ s.thread .reader = some s.latest
  | .lowering _ => s.Underway ∧ (∀ w, s.thread w = some s.latest) ∧ s.target p = s.latest
  | .joiningReader _ => s.Joining p []
  | .joiningWriter _ => s.Joining p [.reader]
  | .releasing _ todo => s.Releasing p todo
  | .clearing _ r todo => (s.hold r none).Releasing p todo
  | _ => False

/-- No thread is at work. -/
def Resting (s : Life) : Prop :=
  if s.recording then s.Underway ∧ ∀ w, s.thread w = some s.latest else s.Idle

/-- One thread at most is at work, and none once `main` is gone. -/
structure Ordered (s : Life) : Prop where
  control : (∃ p, (s.phase p).busy = true ∧ (s.phase p.other).busy = false ∧ s.Stage p (s.phase p)) ∨
    (∀ p, (s.phase p).busy = false) ∧ s.Resting
  gone : s.phase .main = .gone → s.recording = false ∧ (s.phase .mqtt).busy = false

/-! ## The other thread's steps -/

/-- A step of a thread that is not at work: it may publish. -/
structure Beside (s s' : Life) (q : Party) : Prop where
  recording : s'.recording = s.recording
  held : s'.held = s.held
  thread : s'.thread = s.thread
  next : s'.next = s.next
  began : s'.began = s.began
  target : s'.target q = s.target q
  acts : ∃ more, s'.acts = s.acts ++ more ∧
    ∀ a ∈ more, ∃ p, s.phase p = .publishing ∧ a = .published (s.target p)
  publishing : ∀ p, s'.phase p = .publishing → s.phase p = .publishing ∧ s'.target p = s.target p

section
variable {s' : Life} {got : List Resource} {joined : List Worker}

theorem Beside.latest (h : Beside s s' q) : s'.latest = s.latest := congrArg (· - 1) h.next

theorem Beside.mem_acts (h : Beside s s' q) (ha : a ∈ s'.acts) :
    a ∈ s.acts ∨ ∃ p, s.phase p = .publishing ∧ a = .published (s.target p) := by
  obtain ⟨more, hacts, hmore⟩ := h.acts
  rw [hacts] at ha
  exact (List.mem_append.mp ha).imp_right (hmore a)

theorem Beside.acts_mono (h : Beside s s' q) (ha : a ∈ s.acts) : a ∈ s'.acts := by
  obtain ⟨more, hacts, -⟩ := h.acts
  rw [hacts]
  exact List.mem_append_left _ ha

theorem Beside.joined_iff (h : Beside s s' q) : .joined w n ∈ s'.acts ↔ .joined w n ∈ s.acts := by
  refine ⟨fun ha => (h.mem_acts ha).resolve_right ?_, h.acts_mono⟩
  rintro ⟨p, -, heq⟩
  cases heq

theorem Beside.released_iff {stopping : Nat} (h : Beside s s' q) :
    .released r n stopping ∈ s'.acts ↔ .released r n stopping ∈ s.acts := by
  refine ⟨fun ha => (h.mem_acts ha).resolve_right ?_, h.acts_mono⟩
  rintro ⟨p, -, heq⟩
  cases heq

theorem Complete.beside (hs : s.Complete n) (h : Beside s s' q) : s'.Complete n :=
  ⟨fun w => h.acts_mono (hs.1 w), fun r => h.acts_mono (hs.2 r)⟩

theorem Untouched.beside (hs : s.Untouched n) (h : Beside s s' q) : s'.Untouched n := by
  refine ⟨fun a ha => ?_, fun p hp => ?_⟩
  · rcases h.mem_acts ha with hold | ⟨p, hp, rfl⟩
    · exact hs.acts a hold
    · exact hs.publishing p hp
  · obtain ⟨hwas, htarget⟩ := h.publishing p hp
    rw [htarget]
    exact hs.publishing p hwas

theorem Unpublished.beside (hs : s.Unpublished n) (h : Beside s s' q) : s'.Unpublished n := by
  refine ⟨fun ha => ?_, fun p hp => ?_⟩
  · rcases h.mem_acts ha with hold | ⟨p, hp, heq⟩
    · exact hs.acts hold
    · obtain rfl : n = s.target p := by simpa using heq
      exact hs.publishing p hp rfl
  · obtain ⟨hwas, htarget⟩ := h.publishing p hp
    rw [htarget]
    exact hs.publishing p hwas

theorem Idle.beside (hs : s.Idle) (h : Beside s s' q) : s'.Idle := by
  refine ⟨h.recording.trans hs.recording, fun r => ?_, fun hb => ?_⟩
  · rw [h.held]
    exact hs.held r
  · rw [h.latest] at hb ⊢
    rw [h.began] at hb
    exact (hs.complete hb).beside h

theorem Preparing.beside (hs : s.Preparing got) (h : Beside s s' q) : s'.Preparing got := by
  refine ⟨h.recording.trans hs.recording, ?_, ?_, fun r => ?_, ?_⟩
  · rw [h.next]
    exact hs.pos
  · rw [h.began, h.latest]
    exact hs.began
  · rw [h.held, h.latest]
    exact hs.held r
  · rw [h.latest]
    exact hs.untouched.beside h

theorem Underway.beside (hs : s.Underway) (h : Beside s s' q) : s'.Underway := by
  refine ⟨h.recording.trans hs.recording, ?_, ?_, fun r => ?_, ?_⟩
  · rw [h.next]
    exact hs.pos
  · rw [h.began, h.latest]
    exact hs.began
  · rw [h.held, h.latest]
    exact hs.held r
  · rw [h.latest]
    exact hs.untouched.beside h

theorem Joining.beside (hs : s.Joining q joined) (h : Beside s s' q) : s'.Joining q joined := by
  refine ⟨h.recording.trans hs.recording, ?_, ?_, fun r => ?_, fun w => ?_, ?_, ?_, fun w => ?_,
    fun r stopping => ?_⟩
  · rw [h.next]
    exact hs.pos
  · rw [h.began, h.latest]
    exact hs.began
  · rw [h.held, h.latest]
    exact hs.held r
  · rw [h.thread, h.latest]
    exact hs.threads w
  · rw [h.target, h.latest]
    exact hs.target
  · rw [h.latest]
    exact hs.unpublished.beside h
  · rw [h.latest, h.joined_iff]
    exact hs.joined w
  · rw [h.latest, h.released_iff]
    exact hs.unreleased r stopping

theorem Releasing.beside (hs : s.Releasing q todo) (h : Beside s s' q) : s'.Releasing q todo := by
  have hlatest := h.latest
  refine ⟨h.recording.trans hs.recording, ?_, ?_, fun r => ?_, fun r hr => ?_, hs.nodup,
    fun r hr => ?_, fun hb => ⟨fun w => ?_, fun r => ⟨fun hr => ?_, fun hr => ?_⟩⟩, ?_⟩
  · rw [h.next]
    exact hs.pos
  · rw [h.target, hlatest]
    exact hs.target
  · rw [h.held, hlatest]
    exact hs.held r
  · rw [h.held] at hr
    exact hs.left r hr
  · rw [hlatest, h.released_iff]
    exact hs.unreleased r hr
  · rw [h.began, hlatest] at hb
    rw [hlatest, h.joined_iff]
    exact (hs.began hb).1 w
  · rw [h.began, hlatest] at hb
    rw [h.held]
    exact ((hs.began hb).2 r).1 hr
  · rw [h.began, hlatest] at hb
    rw [hlatest, h.released_iff]
    exact ((hs.began hb).2 r).2 hr
  · rw [hlatest]
    exact hs.unpublished.beside h

theorem Beside.hold (h : Beside s s' q) : Beside (s.hold r none) (s'.hold r none) q :=
  ⟨h.recording, by change Function.update s'.held r none = _; rw [h.held]; rfl, h.thread, h.next,
    h.began, h.target, h.acts, h.publishing⟩

theorem Stage.beside (hs : s.Stage q φ) (h : Beside s s' q) : s'.Stage q φ := by
  cases φ with
  | opening => exact Idle.beside hs h
  | queueing => exact Preparing.beside hs h
  | connecting => exact Preparing.beside hs h
  | allocReader => exact Preparing.beside hs h
  | allocWriter => exact hs.imp (·.beside h) (·.beside h)
  | flagging => exact Preparing.beside hs h
  | creatingReader => exact Underway.beside hs h
  | creatingWriter =>
      refine ⟨hs.1.beside h, ?_⟩
      rw [h.thread, h.latest]
      exact hs.2
  | lowering why =>
      refine ⟨hs.1.beside h, fun w => ?_, ?_⟩
      · rw [h.thread, h.latest]
        exact hs.2.1 w
      · rw [h.target, h.latest]
        exact hs.2.2
  | joiningReader why => exact Joining.beside hs h
  | joiningWriter why => exact Joining.beside hs h
  | releasing why todo => exact Releasing.beside hs h
  | clearing why r todo => exact Releasing.beside hs h.hold
  | idle | testing | arming | publishing | gone => exact hs

theorem Resting.beside (hs : s.Resting) (h : Beside s s' q) : s'.Resting := by
  unfold Resting at hs ⊢
  rw [h.recording]
  split
  · next hrec =>
    rw [if_pos hrec] at hs
    refine ⟨hs.1.beside h, fun w => ?_⟩
    rw [h.thread, h.latest]
    exact hs.2 w
  · next hrec =>
    rw [if_neg hrec] at hs
    exact hs.beside h

theorem beside_goto (hφ : φ ≠ .publishing) : Beside s (s.goto p φ) q := by
  refine ⟨rfl, rfl, rfl, rfl, rfl, rfl, ⟨[], (List.append_nil _).symm, fun a ha => by cases ha⟩,
    fun p' hp' => ⟨?_, rfl⟩⟩
  by_cases heq : p' = p
  · subst heq
    rw [goto_phase_self] at hp'
    exact absurd hp' hφ
  · rwa [goto_phase_ne heq] at hp'

theorem beside_aim (hp : s.phase p ≠ .publishing) (hq : q ≠ p) : Beside s (s.aim p) q := by
  refine ⟨rfl, rfl, rfl, rfl, rfl, Function.update_of_ne hq ..,
    ⟨[], (List.append_nil _).symm, fun a ha => by cases ha⟩, fun p' hp' => ⟨hp', ?_⟩⟩
  refine Function.update_of_ne ?_ ..
  rintro rfl
  exact hp hp'

theorem beside_publish (hp : s.phase p = .publishing) :
    Beside s ((s.act (.published (s.target p))).goto p .idle) q := by
  refine ⟨rfl, rfl, rfl, rfl, rfl, rfl, ⟨[.published (s.target p)], rfl, fun a ha => ?_⟩,
    fun p' hp' => ⟨?_, rfl⟩⟩
  · exact ⟨p, hp, List.mem_singleton.mp ha⟩
  · by_cases heq : p' = p
    · subst heq
      exact hp
    · rwa [goto_phase_ne heq] at hp'

end

/-! ## The steps of the thread at work -/

section
variable {s' : Life} {got more : List Resource} {joined : List Worker}

theorem Idle.opened (h : s.Idle) (hb : Booked s) :
    ({ s with next := s.next + 1 }.hold .file (some s.next)).Preparing [.file] := by
  refine ⟨h.recording, Nat.succ_pos _, ?_, fun r => ?_, fun a ha => Nat.ne_of_lt (hb.below a ha),
    fun p hp => Nat.ne_of_lt (hb.publishing p hp).1⟩
  · change s.began s.next = false
    by_contra hbegan
    exact absurd (hb.began s.next (by simpa using hbegan)) (Nat.lt_irrefl _)
  · by_cases hr : r = .file
    · subst hr
      simp [hold, latest]
    · simpa [hold, hr] using h.held r

theorem Preparing.acquire (h : s.Preparing got) (r : Resource) :
    (s.hold r (some s.latest)).Preparing (r :: got) := by
  refine ⟨h.recording, h.pos, h.began, fun r' => ?_, h.untouched.acts, h.untouched.publishing⟩
  by_cases hr : r' = r
  · subst hr
    simp [hold, latest]
  · simpa [hold, hr, latest] using h.held r'

theorem Preparing.missed (h : s.Preparing got) (hr : r ∉ got) : (s.hold r none).Preparing got := by
  refine ⟨h.recording, h.pos, h.began, fun r' => ?_, h.untouched.acts, h.untouched.publishing⟩
  by_cases heq : r' = r
  · subst heq
    simp [hold, hr]
  · simpa [hold, heq, latest] using h.held r'

theorem Preparing.congr (h : s.Preparing got) (hsame : ∀ r, r ∈ got ↔ r ∈ more) : s.Preparing more :=
  ⟨h.recording, h.pos, h.began, fun r => by simpa [hsame] using h.held r, h.untouched⟩

theorem Preparing.giveUp (h : s.Preparing got) (hp : s.phase p ≠ .publishing)
    (hsub : ∀ r ∈ got, r ∈ todo) (hnodup : todo.Nodup) : (s.giveUp p todo).Releasing p todo := by
  have haim : (s.aim p).target p = s.latest := Function.update_self ..
  have huntouched : (s.aim p).Untouched s.latest := by
    refine ⟨h.untouched.acts, fun q hq => ?_⟩
    have hne : q ≠ p := by
      rintro rfl
      exact hp hq
    change Function.update s.target p s.latest q ≠ s.latest
    rw [Function.update_of_ne hne]
    exact h.untouched.publishing q hq
  have hreleasing : (s.aim p).Releasing p todo := by
    refine ⟨h.recording, h.pos, haim, fun r => ?_, fun r hr => hsub r ?_, hnodup,
      fun r _ hmem => h.untouched.acts _ hmem rfl, fun hb => ?_, huntouched.unpublished⟩
    · change s.held r = none ∨ s.held r = some s.latest
      rw [h.held r]
      split
      · exact .inr rfl
      · exact .inl rfl
    · by_contra hnot
      exact hr ((h.held r).trans (if_neg hnot))
    · cases h.began.symm.trans hb
  exact hreleasing.beside (beside_goto (by simp))

theorem Preparing.flag (h : s.Preparing cleanupOrder) :
    Underway { s with recording := true, began := Function.update s.began s.latest true } := by
  refine ⟨rfl, h.pos, Function.update_self .., fun r => ?_, h.untouched.acts, h.untouched.publishing⟩
  rw [h.held r, if_pos (by cases r <;> decide)]
  rfl

theorem Underway.lower (h : s.Underway) (hthreads : ∀ w, s.thread w = some s.latest)
    (htarget : s.target p = s.latest) : Joining { s with recording := false } p [] :=
  ⟨rfl, h.pos, h.began, h.held, hthreads, htarget,
    ⟨fun hmem => h.untouched.acts _ hmem rfl, h.untouched.publishing⟩,
    fun w => ⟨fun hmem => absurd rfl (h.untouched.acts _ hmem), fun hw => by cases hw⟩,
    fun r stopping hmem => h.untouched.acts _ hmem rfl⟩

theorem Joining.join (h : s.Joining p joined) (hb : Booked s) (hw : w ∉ joined)
    (hj : s.join w = some s') : s' = s.act (.joined w s.latest) ∧ Booked s' ∧ s'.Joining p (w :: joined) := by
  simp only [Life.join, h.threads w] at hj
  split at hj
  · cases hj
  · obtain rfl := Option.some.inj hj
    have hnew : .joined w s.latest ∉ s.acts := fun hmem => hw ((h.joined w).mp hmem)
    have hmem : ∀ a, a ∈ (s.act (.joined w s.latest)).acts ↔ a ∈ s.acts ∨ a = .joined w s.latest :=
      fun a => List.mem_append.trans (or_congr_right List.mem_singleton)
    refine ⟨rfl, hb.act hnew (Nat.sub_lt h.pos Nat.one_pos) (fun _ _ _ heq => by cases heq)
      (fun _ _ heq => by cases heq), ⟨h.recording, h.pos, h.began, h.held, h.threads, h.target,
      ⟨fun ha => ?_, h.unpublished.publishing⟩, fun w' => ?_, fun r stopping ha => ?_⟩⟩
    · exact h.unpublished.acts (((hmem _).mp ha).resolve_right nofun)
    · change .joined w' s.latest ∈ (s.act (.joined w s.latest)).acts ↔ _
      rw [hmem, h.joined w', List.mem_cons, or_comm]
      simp
    · exact h.unreleased r stopping (((hmem _).mp ha).resolve_right nofun)

theorem Joining.release (h : s.Joining p [.writer, .reader]) : s.Releasing p cleanupOrder := by
  refine ⟨h.recording, h.pos, h.target, fun r => .inr (h.held r), fun r _ => by cases r <;> decide,
    by decide, fun r _ => h.unreleased r _, fun _ => ⟨fun w => (h.joined w).mpr (by cases w <;> decide),
    fun r => ⟨fun _ hnone => ?_, fun hr => absurd (by cases r <;> decide) hr⟩⟩, h.unpublished⟩
  cases (h.held r).symm.trans hnone

theorem Releasing.skip (h : s.Releasing p (r :: todo)) (hr : s.held r = none) : s.Releasing p todo := by
  refine ⟨h.recording, h.pos, h.target, h.held, fun r' hr' => ?_, h.nodup.of_cons,
    fun r' hr' => h.unreleased r' (List.mem_cons_of_mem _ hr'), fun hb => ?_, h.unpublished⟩
  · refine (List.mem_cons.mp (h.left r' hr')).resolve_left ?_
    rintro rfl
    exact hr' hr
  · exact absurd hr (((h.began hb).2 r).1 List.mem_cons_self)

theorem Releasing.release (h : s.Releasing p (r :: todo)) (hb : Booked s) (hr : s.held r = some n) :
    Booked (s.act (.released r n (s.target p))) ∧
      ((s.act (.released r n (s.target p))).hold r none).Releasing p todo := by
  obtain rfl : n = s.latest := by
    rcases h.held r with hnone | hsome
    · cases hnone.symm.trans hr
    · exact Option.some.inj (hr.symm.trans hsome)
  rw [h.target]
  have hnew := h.unreleased r List.mem_cons_self
  have hmem : ∀ a, a ∈ (s.act (.released r s.latest s.latest)).acts ↔
      a ∈ s.acts ∨ a = .released r s.latest s.latest :=
    fun a => List.mem_append.trans (or_congr_right List.mem_singleton)
  have hheld : ∀ r', r' ≠ r → ((s.act (.released r s.latest s.latest)).hold r none).held r' = s.held r' :=
    fun r' hne => Function.update_of_ne hne ..
  have hself : ((s.act (.released r s.latest s.latest)).hold r none).held r = none :=
    Function.update_self ..
  obtain ⟨hrest, hnodup⟩ := List.nodup_cons.mp h.nodup
  refine ⟨hb.act hnew (Nat.sub_lt h.pos Nat.one_pos) (fun _ _ _ heq => by cases heq; rfl)
    (fun _ _ heq => by cases heq), ⟨h.recording, h.pos, h.target, fun r' => ?_, fun r' hr' => ?_,
    hnodup, fun r' hr' ha => ?_, fun hbegan => ⟨fun w => (hmem _).mpr (.inl ((h.began hbegan).1 w)),
      fun r' => ⟨fun hr' => ?_, fun hr' => (hmem _).mpr ?_⟩⟩,
    ⟨fun ha => h.unpublished.acts (((hmem _).mp ha).resolve_right nofun), h.unpublished.publishing⟩⟩⟩
  · by_cases heq : r' = r
    · exact .inl (heq ▸ hself)
    · rw [hheld r' heq]
      exact h.held r'
  · have hne : r' ≠ r := by
      rintro rfl
      exact hr' hself
    rw [hheld r' hne] at hr'
    exact (List.mem_cons.mp (h.left r' hr')).resolve_left hne
  · rcases (hmem _).mp ha with hold | heq
    · exact h.unreleased r' (List.mem_cons_of_mem _ hr') hold
    · obtain ⟨rfl, -⟩ : r' = r ∧ _ := by simpa using heq
      exact hrest hr'
  · have hne : r' ≠ r := by
      rintro rfl
      exact hrest hr'
    rw [hheld r' hne]
    exact ((h.began hbegan).2 r').1 (List.mem_cons_of_mem _ hr')
  · by_cases heq : r' = r
    · exact .inr (by rw [heq]; rfl)
    · exact .inl (((h.began hbegan).2 r').2 fun hcons => (List.mem_cons.mp hcons).elim heq hr')

theorem Releasing.done (h : s.Releasing p []) : s.Idle := by
  refine ⟨h.recording, fun r => ?_, fun hb => ⟨(h.began hb).1, fun r => ((h.began hb).2 r).2 nofun⟩⟩
  by_contra hr
  cases h.left r hr

/-- The thread at work has made its step. -/
structure Moved (s s' : Life) (p : Party) : Prop where
  booked : Booked s'
  other : s'.phase p.other = s.phase p.other
  stage : (s'.phase p).busy = true ∧ s'.Stage p (s'.phase p) ∨ (s'.phase p).busy = false ∧ s'.Resting
  gone : s'.phase p = .gone → s'.recording = false

theorem moved_on {t : Life} (hb : Booked t) (ht : t.phase = s.phase) (hbusy : φ.busy = true)
    (hstage : t.Stage p φ) : Moved s (t.goto p φ) p := by
  have hne : φ ≠ .publishing := by
    rintro rfl
    cases hbusy
  refine ⟨hb.goto hne, ?_, .inl ?_, fun hgone => ?_⟩
  · rw [goto_phase_ne other_ne, ht]
  · rw [goto_phase_self]
    exact ⟨hbusy, hstage.beside (beside_goto hne)⟩
  · rw [goto_phase_self] at hgone
    rw [hgone] at hbusy
    cases hbusy

theorem moved_off {t : Life} (hb : Booked (t.goto p φ)) (ht : t.phase = s.phase)
    (hidle : φ.busy = false) (hrest : (t.goto p φ).Resting) (hgone : φ = .gone → t.recording = false) :
    Moved s (t.goto p φ) p := by
  refine ⟨hb, ?_, .inr ?_, fun h => ?_⟩
  · rw [goto_phase_ne other_ne, ht]
  · rw [goto_phase_self]
    exact ⟨hidle, hrest⟩
  · rw [goto_phase_self] at h
    exact hgone h

theorem Idle.resting {t : Life} (h : t.Idle) : (t.goto p φ).Resting := by
  rw [Resting, if_neg (by simp [goto, h.recording])]
  exact ⟨h.recording, h.held, fun hb => ⟨(h.complete hb).1, (h.complete hb).2⟩⟩

theorem create_self : (s.create w).thread w = some (s.create w).latest := Function.update_self ..

theorem Underway.create (h : s.Underway) (w : Worker) : (s.create w).Underway :=
  ⟨h.recording, h.pos, h.began, h.held, h.untouched.acts, h.untouched.publishing⟩

theorem booked_create (h : Booked s) (w : Worker) : Booked (s.create w) :=
  ⟨h.below, h.once, h.own, h.began, h.older, h.publishing, h.apart⟩

theorem booked_hold (h : Booked s) (r : Resource) (n : Option Nat) : Booked (s.hold r n) :=
  ⟨h.below, h.once, h.own, h.began, h.older, h.publishing, h.apart⟩

theorem moved_giveUp {t : Life} {got todo : List Resource} (hphase : s.phase p ≠ .publishing)
    (hb : Booked t) (ht : t.phase = s.phase) (hprep : t.Preparing got) (hsub : ∀ r ∈ got, r ∈ todo)
    (hnodup : todo.Nodup) : Moved s (t.giveUp p todo) p := by
  have htp : t.phase p ≠ .publishing := ht ▸ hphase
  have hreleasing := hprep.giveUp htp hsub hnodup
  refine ⟨(hb.aim htp).goto (by simp), ?_, .inl ?_, fun hgone => ?_⟩
  · change Function.update t.phase p _ p.other = _
    rw [Function.update_of_ne other_ne, ht]
  · rw [giveUp, goto_phase_self]
    exact ⟨rfl, hreleasing⟩
  · rw [giveUp, goto_phase_self] at hgone
    cases hgone

theorem moved_allocWriter (hb : Booked s) (hφ : s.phase p = .allocWriter)
    (hstage : s.Stage p .allocWriter) {ok : Bool} (hs : s.partyStep p ok = some s') :
    Moved s s' p := by
  have hphase : s.phase p ≠ .publishing := hφ ▸ nofun
  have hbt : ∀ n, Booked (s.hold .writer n) := fun n => booked_hold hb _ n
  simp only [partyStep, hφ] at hs
  rcases hstage with hprep | hprep
  · have hreader : ∀ n, (s.hold .writer n).held .reader = none := fun n => hprep.held .reader
    rw [if_pos (.inl (hreader _))] at hs
    obtain rfl := Option.some.inj hs
    cases ok with
    | true =>
        exact moved_giveUp hphase (hbt _) rfl (hprep.acquire .writer) (by decide) (by decide)
    | false =>
        exact moved_giveUp hphase (hbt _) rfl (hprep.missed (r := .writer) (by decide)) (by decide)
          (by decide)
  · have hreader : (s.hold .writer (some s.latest)).held .reader = some s.latest := hprep.held .reader
    cases ok with
    | true =>
        rw [if_pos rfl, hreader, hold_self, if_neg (by simp)] at hs
        obtain rfl := Option.some.inj hs
        exact moved_on (hbt _) rfl rfl ((hprep.acquire .writer).congr fun r => by cases r <;> decide)
    | false =>
        rw [if_pos (.inr hold_none)] at hs
        obtain rfl := Option.some.inj hs
        exact moved_giveUp hphase (hbt _) rfl (hprep.missed (r := .writer) (by decide)) (by decide)
          (by decide)

/-- Nothing is left to release: a stop goes on to publish what it stopped. -/
theorem moved_released (hb : Booked s) (hreleasing : s.Releasing p []) (why : Why) :
    Moved s (s.goto p (afterRelease why)) p := by
  have hidle := hreleasing.done
  have hrest : (s.goto p (afterRelease why)).Resting := hidle.resting
  cases why with
  | stop =>
      refine moved_off (hb.goto_publishing ?_ ?_ fun hother => ?_) rfl rfl hrest nofun
      · rw [hreleasing.target]
        exact Nat.sub_lt hreleasing.pos Nat.one_pos
      · rw [hreleasing.target]
        exact hreleasing.unpublished.acts
      · rw [hreleasing.target]
        exact hreleasing.unpublished.publishing _ hother
  | shutdown => exact moved_off (hb.goto nofun) rfl rfl hrest fun _ => hidle.recording
  | failed => exact moved_off (hb.goto nofun) rfl rfl hrest nofun

theorem work_step (hb : Booked s) (hbusy : (s.phase p).busy = true) (hstage : s.Stage p (s.phase p))
    {ok : Bool} (hs : s.partyStep p ok = some s') : Moved s s' p := by
  have hphase : s.phase p ≠ .publishing := by
    intro hp
    rw [hp] at hbusy
    cases hbusy
  cases hφ : s.phase p with
  | opening =>
      rw [hφ] at hstage
      have hidle : s.Idle := hstage
      simp only [partyStep, hφ] at hs
      split at hs <;> obtain rfl := Option.some.inj hs
      · refine moved_on (booked_hold (hb.open_next hidle.complete) _ _) rfl rfl ?_
        exact hidle.opened hb
      · exact moved_off (hb.goto (by simp)) rfl rfl hidle.resting nofun
  | queueing =>
      rw [hφ] at hstage
      have hprep : s.Preparing [.file] := hstage
      simp only [partyStep, hφ] at hs
      split at hs <;> obtain rfl := Option.some.inj hs
      · exact moved_on (booked_hold hb _ _) rfl rfl (hprep.acquire .queue)
      · exact moved_giveUp hphase hb rfl hprep (fun r hr => hr) (by decide)
  | connecting =>
      rw [hφ] at hstage
      have hprep : s.Preparing [.queue, .file] := hstage
      simp only [partyStep, hφ] at hs
      split at hs <;> obtain rfl := Option.some.inj hs
      · exact moved_on (booked_hold hb _ _) rfl rfl (hprep.acquire .shm)
      · exact moved_giveUp hphase hb rfl hprep (fun r hr => hr) (by decide)
  | allocReader =>
      rw [hφ] at hstage
      have hprep : s.Preparing [.shm, .queue, .file] := hstage
      simp only [partyStep, hφ] at hs
      obtain rfl := Option.some.inj hs
      refine moved_on (booked_hold hb _ _) rfl rfl ?_
      cases ok with
      | true => exact .inr (hprep.acquire .reader)
      | false => exact .inl (hprep.missed (by decide))
  | allocWriter =>
      rw [hφ] at hstage
      exact moved_allocWriter hb hφ hstage hs
  | flagging =>
      rw [hφ] at hstage
      have hprep : s.Preparing cleanupOrder := hstage
      simp only [partyStep, hφ] at hs
      obtain rfl := Option.some.inj hs
      exact moved_on (hb.begin hprep.pos true) rfl rfl hprep.flag
  | creatingReader =>
      rw [hφ] at hstage
      have hup : s.Underway := hstage
      simp only [partyStep, hφ] at hs
      obtain rfl := Option.some.inj hs
      exact moved_on (booked_create hb _) rfl rfl ⟨hup.create _, create_self⟩
  | creatingWriter =>
      rw [hφ] at hstage
      obtain ⟨hup, hreader⟩ : s.Underway ∧ s.thread .reader = some s.latest := hstage
      simp only [partyStep, hφ] at hs
      obtain rfl := Option.some.inj hs
      refine moved_off ((booked_create hb _).goto (by simp)) rfl rfl ?_ nofun
      have hrest : (s.create .writer).Resting := by
        rw [Resting, if_pos (show (s.create .writer).recording = true from hup.recording)]
        refine ⟨hup.create _, fun w => ?_⟩
        cases w with
        | reader => exact hreader
        | writer => exact create_self
      exact hrest.beside (q := p) (beside_goto (by simp))
  | lowering why =>
      rw [hφ] at hstage
      obtain ⟨hup, hthreads, htarget⟩ : s.Underway ∧ (∀ w, s.thread w = some s.latest) ∧
        s.target p = s.latest := hstage
      simp only [partyStep, hφ] at hs
      obtain rfl := Option.some.inj hs
      exact moved_on ⟨hb.below, hb.once, hb.own, hb.began, hb.older, hb.publishing, hb.apart⟩ rfl rfl
        (hup.lower hthreads htarget)
  | joiningReader why =>
      rw [hφ] at hstage
      have hjoining : s.Joining p [] := hstage
      simp only [partyStep, hφ] at hs
      obtain ⟨t, hjoin, rfl⟩ := Option.map_eq_some_iff.mp hs
      obtain ⟨rfl, hbt, hjoined⟩ := hjoining.join hb (by decide) hjoin
      exact moved_on hbt rfl rfl hjoined
  | joiningWriter why =>
      rw [hφ] at hstage
      have hjoining : s.Joining p [.reader] := hstage
      simp only [partyStep, hφ] at hs
      obtain ⟨t, hjoin, rfl⟩ := Option.map_eq_some_iff.mp hs
      obtain ⟨rfl, hbt, hjoined⟩ := hjoining.join hb (by decide) hjoin
      exact moved_on hbt rfl rfl hjoined.release
  | releasing why todo =>
      rw [hφ] at hstage
      have hreleasing : s.Releasing p todo := hstage
      cases todo with
      | nil =>
          simp only [partyStep, hφ] at hs
          obtain rfl := Option.some.inj hs
          exact moved_released hb hreleasing why
      | cons r todo =>
          simp only [partyStep, hφ] at hs
          split at hs
          · next hheld =>
            obtain rfl := Option.some.inj hs
            exact moved_on hb rfl rfl (hreleasing.skip hheld)
          · next n hheld =>
            obtain rfl := Option.some.inj hs
            obtain ⟨hbt, hrest⟩ := hreleasing.release hb hheld
            exact moved_on hbt rfl rfl hrest
  | clearing why r todo =>
      rw [hφ] at hstage
      simp only [partyStep, hφ] at hs
      obtain rfl := Option.some.inj hs
      exact moved_on (booked_hold hb _ _) rfl rfl hstage
  | idle | testing | arming | publishing | gone =>
      rw [hφ] at hbusy
      cases hbusy

/-! ## All steps -/

theorem Ordered.moved (ho : s.Ordered) (hbusy : (s.phase p).busy = true) (hm : Moved s s' p) :
    s'.Ordered := by
  have hother : (s.phase p.other).busy = false := by
    rcases ho.control with ⟨q, hq, hqo, -⟩ | ⟨hall, -⟩
    · rcases eq_or_other p q with rfl | rfl
      · exact hqo
      · rw [other_other] at hqo
        cases hqo.symm.trans hbusy
    · exact hall _
  refine ⟨?_, fun hgone => ?_⟩
  · rcases hm.stage with ⟨hb, hstage⟩ | ⟨hidle, hrest⟩
    · exact .inl ⟨p, hb, by rwa [hm.other], hstage⟩
    · refine .inr ⟨fun q => ?_, hrest⟩
      rcases eq_or_other p q with rfl | rfl
      · exact hidle
      · rwa [hm.other]
  · cases p with
    | main => exact ⟨hm.gone hgone, (congrArg Phase.busy hm.other).trans hother⟩
    | mqtt =>
        have hwas : s.phase .main = .gone := (hm.other).symm.trans hgone
        cases (ho.gone hwas).2.symm.trans hbusy

/-- A thread that is not at work makes a step that begins none. -/
theorem Ordered.beside (ho : s.Ordered) (hp : (s.phase p).busy = false)
    (hp' : (s'.phase p).busy = false) (hother : s'.phase p.other = s.phase p.other)
    (hbeside : ∀ q, Beside s s' q)
    (hgone : s'.phase .main = .gone → s'.recording = false ∧ (s'.phase .mqtt).busy = false) :
    s'.Ordered := by
  refine ⟨?_, hgone⟩
  rcases ho.control with ⟨q, hq, hqo, hstage⟩ | ⟨hall, hrest⟩
  · rcases eq_or_other p q with rfl | rfl
    · cases hp.symm.trans hq
    · refine .inl ⟨p.other, by rwa [hother], by rwa [other_other], ?_⟩
      rw [hother]
      exact hstage.beside (hbeside _)
  · refine .inr ⟨fun q => ?_, hrest.beside (hbeside p)⟩
    rcases eq_or_other p q with rfl | rfl
    · exact hp'
    · rw [hother]
      exact hall _

theorem Ordered.same (ho : s.Ordered) (hphase : s'.phase = s.phase) (hbeside : ∀ q, Beside s s' q) :
    s'.Ordered := by
  have hrec := (hbeside .main).recording
  refine ⟨?_, fun hgone => ?_⟩
  · rw [hphase]
    rcases ho.control with ⟨q, hq, hqo, hstage⟩ | ⟨hall, hrest⟩
    · exact .inl ⟨q, hq, hqo, hstage.beside (hbeside q)⟩
    · exact .inr ⟨hall, hrest.beside (hbeside .main)⟩
  · rw [hphase] at hgone ⊢
    rw [hrec]
    exact ho.gone hgone

theorem ordered_begin {t : Life} (hbusy : φ.busy = true) (hother : (t.phase p.other).busy = false)
    (hmain : t.phase .main ≠ .gone) (hstage : (t.goto p φ).Stage p φ) : (t.goto p φ).Ordered := by
  refine ⟨.inl ⟨p, ?_, ?_, ?_⟩, fun hgone => ?_⟩
  · rwa [goto_phase_self]
  · rwa [goto_phase_ne other_ne]
  · rwa [goto_phase_self]
  · cases p with
    | main =>
        rw [goto_phase_self] at hgone
        rw [hgone] at hbusy
        cases hbusy
    | mqtt => exact absurd ((goto_phase_ne (by decide)).symm.trans hgone) hmain

/-- With nobody at work the flag tells what the globals hold. -/
theorem Ordered.resting (ho : s.Ordered) (hall : ∀ q, (s.phase q).busy = false) : s.Resting := by
  rcases ho.control with ⟨q, hq, -⟩ | ⟨-, hrest⟩
  · cases (hall q).symm.trans hq
  · exact hrest

theorem Ordered.underway (ho : s.Ordered) (hall : ∀ q, (s.phase q).busy = false)
    (hrec : s.recording = true) : s.Underway ∧ ∀ w, s.thread w = some s.latest := by
  have hrest := ho.resting hall
  rwa [Resting, if_pos hrec] at hrest

theorem Ordered.idle (ho : s.Ordered) (hall : ∀ q, (s.phase q).busy = false)
    (hrec : s.recording = false) : s.Idle := by
  have hrest := ho.resting hall
  rwa [Resting, if_neg (by simp [hrec])] at hrest

theorem not_busy_of (hp : (s.phase p).busy = false) (hother : (s.phase p.other).busy = false) (q : Party) :
    (s.phase q).busy = false := by
  rcases eq_or_other p q with rfl | rfl
  · exact hp
  · exact hother

/-- A stop goes on past its test: nobody else is at work, and the flag is up. -/
theorem ordered_lower (hb : Booked s) (ho : s.Ordered) (hp : (s.phase p).busy = false)
    (hpub : s.phase p ≠ .publishing) (hother : (s.phase p.other).busy = false)
    (hrec : s.recording = true) (why : Why) :
    Booked ((s.aim p).goto p (.lowering why)) ∧ ((s.aim p).goto p (.lowering why)).Ordered := by
  obtain ⟨hup, hthreads⟩ := ho.underway (not_busy_of hp hother) hrec
  have hbeside : Beside s ((s.aim p).goto p (.lowering why)) p.other :=
    { beside_aim hpub other_ne with
      publishing := fun q hq => by
        have hq' := (beside_goto (s := s.aim p) (q := q) (show Phase.lowering why ≠ .publishing by simp)).publishing q hq
        exact (beside_aim hpub other_ne).publishing q hq'.1 }
  refine ⟨(hb.aim hpub).goto (by simp), ordered_begin rfl hother (fun hgone => ?_) ?_⟩
  · cases hrec.symm.trans (ho.gone hgone).1
  · exact ⟨hup.beside hbeside, hthreads, Function.update_self ..⟩

theorem booked_publish (hb : Booked s) (hp : s.phase p = .publishing) :
    Booked ((s.act (.published (s.target p))).goto p .idle) := by
  obtain ⟨hlt, hnew⟩ := hb.publishing p hp
  have hidle : Booked (s.goto p .idle) := hb.goto (by simp)
  have hdone : Booked ((s.goto p .idle).act (.published (s.target p))) := by
    refine hidle.act hnew hlt (fun _ _ _ heq => by cases heq) fun q hq heq => ?_
    rcases eq_or_other p q with rfl | rfl
    · rw [goto_phase_self] at hq
      cases hq
    · rw [goto_phase_ne other_ne] at hq
      exact hb.apart p hp hq (by simpa [goto] using heq)
  exact hdone

theorem ordered_party (hb : Booked s) (ho : s.Ordered) {ok : Bool} (hok : NoOverlap s (.step p ok))
    (hs : s.partyStep p ok = some s') : Booked s' ∧ s'.Ordered := by
  by_cases hbusy : (s.phase p).busy = true
  · have hmoved := work_step hb hbusy (by
      rcases ho.control with ⟨q, hq, hqo, hstage⟩ | ⟨hall, -⟩
      · rcases eq_or_other p q with rfl | rfl
        · exact hstage
        · rw [other_other] at hqo
          cases hqo.symm.trans hbusy
      · cases (hall p).symm.trans hbusy) hs
    exact ⟨hmoved.booked, ho.moved hbusy hmoved⟩
  · have hp : (s.phase p).busy = false := by simpa using hbusy
    have hgone : ∀ φ, φ.busy = false → φ ≠ .gone → ∀ t : Life, t.phase = s.phase → t.recording = s.recording →
        (t.goto p φ).phase .main = .gone →
          (t.goto p φ).recording = false ∧ ((t.goto p φ).phase .mqtt).busy = false := by
      intro φ hφ hne t ht hrec h
      cases p with
      | main =>
          rw [goto_phase_self] at h
          exact absurd h hne
      | mqtt =>
          rw [goto_phase_ne (by decide), ht] at h
          rw [goto_phase_self]
          exact ⟨hrec.trans (ho.gone h).1, hφ⟩
    cases hφ : s.phase p with
    | testing =>
        simp only [partyStep, hφ] at hs
        split at hs <;> obtain rfl := Option.some.inj hs
        · next hrec => exact ordered_lower hb ho hp (by simp [hφ]) (hok hφ hrec) hrec .stop
        · refine ⟨hb.goto (by simp), ho.beside hp (by rw [goto_phase_self]; rfl) (goto_phase_ne other_ne)
            (fun q => beside_goto (by simp)) (hgone .idle rfl (by simp) s rfl rfl)⟩
    | arming =>
        simp only [partyStep, hφ] at hs
        obtain rfl := Option.some.inj hs
        exact ⟨hb.goto (by simp), ho.beside hp (by rw [goto_phase_self]; rfl) (goto_phase_ne other_ne)
          (fun q => beside_goto (by simp)) (hgone .idle rfl (by simp) s rfl rfl)⟩
    | publishing =>
        simp only [partyStep, hφ] at hs
        obtain rfl := Option.some.inj hs
        refine ⟨booked_publish hb hφ, ho.beside hp (by rw [goto_phase_self]; rfl)
          (goto_phase_ne other_ne) (fun q => beside_publish hφ)
          (hgone .idle rfl (by simp) (s.act (.published (s.target p))) rfl rfl)⟩
    | idle =>
        simp only [partyStep, hφ] at hs
        cases hs
    | gone =>
        simp only [partyStep, hφ] at hs
        cases hs
    | opening | queueing | connecting | allocReader | allocWriter | flagging | creatingReader
    | creatingWriter | lowering | joiningReader | joiningWriter | releasing | clearing =>
        rw [hφ] at hp
        cases hp

theorem ordered_step {e : LifeEvent} (hb : Booked s) (ho : s.Ordered) (hok : NoOverlap s e)
    (hs : lifeStep s e = some s') : Booked s' ∧ s'.Ordered := by
  have hsame : ∀ q, Beside s s q := fun q => ⟨rfl, rfl, rfl, rfl, rfl, rfl,
    ⟨[], (List.append_nil _).symm, fun a ha => by cases ha⟩, fun _ hp => ⟨hp, rfl⟩⟩
  cases e with
  | start =>
      simp only [lifeStep] at hs
      split at hs
      · cases hs
      · next hidle =>
        have hmqtt : s.phase .mqtt = .idle := not_not.mp hidle
        split at hs <;> obtain rfl := Option.some.inj hs
        · exact ⟨hb, ho⟩
        · next hrec =>
          have hfalse : s.recording = false := by simpa using hrec
          obtain ⟨hmain, hgone⟩ := hok hfalse
          have hall := not_busy_of (s := s) (p := .mqtt) (by rw [hmqtt]; rfl) hmain
          exact ⟨hb.goto (by simp), ordered_begin rfl hmain hgone
            ((ho.idle hall hfalse).beside (q := .mqtt) (beside_goto (by simp)))⟩
  | stop =>
      simp only [lifeStep] at hs
      split at hs
      · cases hs
      · next hidle =>
        obtain rfl := Option.some.inj hs
        have hmqtt : s.phase .mqtt = .idle := not_not.mp hidle
        refine ⟨hb.goto (by simp), ho.beside (p := .mqtt) (by rw [hmqtt]; rfl) (by rw [goto_phase_self]; rfl)
          (goto_phase_ne other_ne) (fun q => beside_goto (by simp)) fun hgone => ?_⟩
        rw [goto_phase_ne (by decide)] at hgone
        exact ⟨(ho.gone hgone).1, by rw [goto_phase_self]; rfl⟩
  | check =>
      simp only [lifeStep] at hs
      split at hs
      · cases hs
      · next hidle =>
        obtain rfl := Option.some.inj hs
        have hmain : s.phase .main = .idle := by simpa using (not_or.mp hidle).1
        refine ⟨hb.goto (by simp), ho.beside (p := .main) (by rw [hmain]; rfl) (by rw [goto_phase_self]; rfl)
          (goto_phase_ne other_ne) (fun q => beside_goto (by simp)) fun hgone => ?_⟩
        rw [goto_phase_self] at hgone
        cases hgone
  | signal =>
      obtain rfl := Option.some.inj hs
      exact ⟨⟨hb.below, hb.once, hb.own, hb.began, hb.older, hb.publishing, hb.apart⟩,
        ho.same rfl fun q => { hsame q with }⟩
  | shutdown =>
      simp only [lifeStep] at hs
      split at hs
      · cases hs
      · next hidle =>
        have hmain : s.phase .main = .idle := by simpa using (not_or.mp hidle).1
        have hmqtt : (s.phase Party.main.other).busy = false := hok
        split at hs <;> obtain rfl := Option.some.inj hs
        · next hrec =>
          exact ordered_lower hb ho (by rw [hmain]; rfl) (by simp [hmain]) hmqtt hrec .shutdown
        · next hrec =>
          refine ⟨hb.goto (by simp), ho.beside (p := .main) (by rw [hmain]; rfl)
            (by rw [goto_phase_self]; rfl) (goto_phase_ne other_ne) (fun q => beside_goto (by simp))
            fun _ => ⟨by simpa [goto] using hrec, ?_⟩⟩
          rw [goto_phase_ne (by decide)]
          exact hmqtt
  | step p ok => exact ordered_party hb ho hok hs
  | exit w n =>
      simp only [lifeStep] at hs
      split at hs
      · obtain rfl := Option.some.inj hs
        exact ⟨⟨hb.below, hb.once, hb.own, hb.began, hb.older, hb.publishing, hb.apart⟩,
          ho.same rfl fun q => { hsame q with }⟩
      · cases hs

theorem ordered_start (h : LifeStart s) : Booked s ∧ s.Ordered := by
  have hnone : ∀ a, a ∉ s.acts := fun a ha => by
    rw [h.acts] at ha
    cases ha
  have hidle : ∀ p, s.phase p ≠ .publishing := fun p hp => by
    cases (h.phase p).symm.trans hp
  refine ⟨⟨fun a ha => absurd ha (hnone a), by rw [h.acts]; exact List.nodup_nil,
    fun _ _ _ ha => absurd ha (hnone _), fun n hb => ?_, fun n hb => ?_, fun p hp => absurd hp (hidle p),
    fun p hp => absurd hp (hidle p)⟩, .inr ⟨fun p => by rw [h.phase p]; rfl, ?_⟩, fun hgone => ?_⟩
  · cases (h.began n).symm.trans hb
  · cases (h.began n).symm.trans hb
  · rw [Resting, if_neg (by simp [h.recording])]
    exact ⟨h.recording, h.held, fun hb => by cases (h.began _).symm.trans hb⟩
  · cases (h.phase .main).symm.trans hgone

end

end Life

open Life

theorem recordings_finalised_once {s : Life} (h : lifeMachine.ReachableBy NoOverlap s) : Finalised s := by
  obtain ⟨hb, ho⟩ := h.invariant (fun _ hstart => ordered_start hstart)
    fun _ _ _ _ hinv hok hs => ordered_step hinv.1 hinv.2 hok hs
  refine ⟨hb.once, hb.own, fun hall n hbegan hnot => ?_⟩
  by_cases hn : n = s.latest
  · cases hrec : s.recording with
    | false =>
        subst hn
        exact (ho.idle hall hrec).complete hbegan
    | true =>
        refine absurd ⟨hrec, hn, fun hgone => ?_⟩ hnot
        cases hrec.symm.trans (ho.gone hgone).1
  · exact hb.older n hbegan hn

/-! ## Two runs -/

/-- Before the first command. -/
def noRecording : Life where
  running := true
  recording := false
  held := fun _ => none
  thread := fun _ => none
  live := fun _ _ => false
  next := 0
  began := fun _ => false
  phase := fun _ => .idle
  target := fun _ => 0
  acts := []

theorem noRecording_start : lifeMachine.initial noRecording :=
  ⟨rfl, fun _ => rfl, rfl, fun _ => rfl, fun _ => rfl, rfl⟩

def startSteps : List LifeEvent := .start :: List.replicate 9 (.step .mqtt true)

/-- Both workers leave their loops. -/
def exits : List LifeEvent := [.exit .reader 0, .exit .writer 0]

/-- A recording is started and stopped. -/
theorem recording_finalised_once : ∃ s : Life, .published 0 ∈ s.acts ∧ Finalised s := by
  have hbegin : lifeMachine.ReachableBy NoOverlap noRecording := .initial noRecording_start
  obtain ⟨s, hreach, hpublished⟩ := hbegin.after_any (startSteps ++ [.stop, .step .mqtt true, .step .mqtt true] ++ exits ++
      List.replicate 14 (.step .mqtt true)) (fun s => decide (.published 0 ∈ s.acts)) (by decide)
  exact ⟨s, of_decide_eq_true hpublished, recordings_finalised_once hreach⟩

/-- The timer and a stop command both find the flag up. -/
theorem two_stops_join_twice : ¬ ∀ s : Life, lifeMachine.Reachable s → Finalised s := by
  intro hall
  have hbegin : lifeMachine.Reachable noRecording := .initial noRecording_start
  obtain ⟨s, hreach, htwice⟩ := hbegin.after_any (startSteps ++ [.stop, .check, .step .mqtt true, .step .main true,
      .step .mqtt true, .step .main true] ++ exits ++ [.step .mqtt true, .step .main true])
    (fun s => decide (¬ s.acts.Nodup)) (by decide)
  exact of_decide_eq_true htwice (hall s hreach).once

end QnxHypervisor.MotorRecorder
