import QnxHypervisor.FrameRouter.Router

/-! # The producer

What the guest keeps true of the buffers, whatever the host does, and which
buffers a step of it may touch.
-/

namespace QnxHypervisor.FrameRouter

open Foundation

variable {Row : Type} {height : Nat} {s s' : Router Row height} {idx : UInt32}

/-! ## Buffers under a step of the guest -/

theorem fillFrom_fills (back : UInt32) (frame : Frame Row height) (y : Nat) {b : UInt32}
    (h : (s.fillFrom back frame y).guest.fills = some b) : b = back := by
  unfold Router.fillFrom at h
  split at h
  · exact (Option.some.inj h).symm
  · cases h

theorem fillFrom_buffers (back : UInt32) (frame : Frame Row height) (y : Nat) :
    (s.fillFrom back frame y).buffers = s.buffers := by
  unfold Router.fillFrom
  split <;> rfl

theorem fillFrom_publish (back : UInt32) (frame : Frame Row height) (y : Nat) :
    (s.fillFrom back frame y).published = s.published ∧ (s.fillFrom back frame y).hdr = s.hdr := by
  unfold Router.fillFrom
  split <;> exact ⟨rfl, rfl⟩

theorem fillFrom_captured (back : UInt32) (frame : Frame Row height) (y : Nat) :
    s.captured <+: (s.fillFrom back frame y).captured := by
  unfold Router.fillFrom
  split
  · exact List.prefix_rfl
  · exact List.prefix_append _ _

theorem guestStep_fills {outcome : Option (Frame Row height)} {b : UInt32}
    (h : (guestStep outcome s).guest.fills = some b) :
    s.guest.fills = some b ∨ b ≠ s.hdr.hostReadingIndex := by
  unfold guestStep at h
  split at h
  case h_2 front hguest =>
      dsimp only at h
      split at h
      · cases h
      · obtain rfl := Option.some.inj h
        exact .inr (backIndex_spec front s.hdr.hostReadingIndex).2.1
  case h_3 back hguest =>
      cases outcome with
      | none => cases h
      | some frame =>
          rw [fillFrom_fills back frame 0 h, hguest]
          exact .inl rfl
  case h_4 back frame y hguest =>
      rw [fillFrom_fills back frame (y + 1) h, hguest]
      exact .inl rfl
  all_goals cases h

theorem guestStep_buffers (outcome : Option (Frame Row height)) (h : s.guest.fills ≠ some idx) :
    (guestStep outcome s).buffers idx = s.buffers idx := by
  unfold guestStep
  split
  case h_2 => dsimp only; split <;> rfl
  case h_3 back _ =>
      cases outcome with
      | none => rfl
      | some frame => exact congrFun (fillFrom_buffers back frame 0) idx
  case h_4 back frame y hguest =>
      have hne : idx ≠ back := by
        rintro rfl
        exact h (by rw [hguest]; rfl)
      have hsame := fillFrom_buffers (s := s.storeRow back y (frame y)) back frame (y + 1)
      exact (congrFun hsame idx).trans (Function.update_of_ne hne _ _)
  all_goals rfl

theorem guestStep_captured (outcome : Option (Frame Row height)) :
    s.captured <+: (guestStep outcome s).captured := by
  unfold guestStep
  split
  case h_2 => dsimp only; split <;> exact List.prefix_rfl
  case h_3 back _ =>
      cases outcome with
      | none => exact List.prefix_rfl
      | some frame => exact fillFrom_captured back frame 0
  case h_4 back frame y _ =>
      exact fillFrom_captured (s := s.storeRow back y (frame y)) back frame (y + 1)
  all_goals exact List.prefix_rfl

/-! ## The invariant -/

structure Filled (back : UInt32) (frame : Frame Row height) (s : Router Row height) : Prop where
  apart : back ≠ s.hdr.frontIndex
  content : s.buffers back = frame

def Guest.Inv (s : Router Row height) : Prop :=
  match s.guest with
  | .loadFront => True
  | .loadReading front => front = s.hdr.frontIndex
  | .capture back => back ≠ s.hdr.frontIndex
  | .writeRow back frame y => back ≠ s.hdr.frontIndex ∧ SameRows y (s.buffers back) frame
  | .loadSeq back frame => Filled back frame s
  | .storeSeq back frame seq => Filled back frame s ∧ seq = s.hdr.frameSeq
  | .storeFront back frame => Filled back frame s

/-- The front buffer holds the frame published last, and a buffer that was ever
filled holds a capture unless it is being written again. -/
structure ProducerInv (s : Router Row height) : Prop where
  guest : Guest.Inv s
  front : ∀ f ∈ s.published.getLast?, s.buffers s.hdr.frontIndex = f
  seq : s.hdr.frameSeq = UInt32.ofNat s.increments
  whole : ∀ i ∈ s.captured.map Prod.fst,
    s.guest.writes = some i ∨ (i, s.buffers i) ∈ s.captured

theorem producerInv_start (buffers : UInt32 → Frame Row height) (window : Frame Row height) :
    ProducerInv (.start buffers window) where
  guest := trivial
  front := fun f hf => by cases hf
  seq := rfl
  whole := fun i hi => by cases hi

theorem ProducerInv.host (h : ProducerInv s) (hsame : SameGuest s s') : ProducerInv s' := by
  obtain ⟨hseq, hfront, hbuffers, hguest, hcaptured, hpublished⟩ := hsame
  refine ⟨?_, ?_, ?_, ?_⟩
  · have hinv := h.guest
    unfold Guest.Inv at hinv ⊢
    rw [hguest]
    cases hg : s.guest <;> rw [hg] at hinv <;> simp only [hfront, hbuffers, hseq]
    all_goals first
      | exact hinv
      | exact ⟨hfront ▸ hinv.apart, hbuffers ▸ hinv.content⟩
      | exact ⟨⟨hfront ▸ hinv.1.apart, hbuffers ▸ hinv.1.content⟩, hinv.2⟩
  · rw [hpublished, hbuffers, hfront]
    exact h.front
  · rw [hseq, Router.increments, hpublished, hguest]
    exact h.seq
  · rw [hcaptured, hbuffers, hguest]
    exact h.whole

theorem ProducerInv.fillFrom {back : UInt32} {frame : Frame Row height} {y : Nat}
    (happart : back ≠ s.hdr.frontIndex) (hrows : SameRows y (s.buffers back) frame)
    (hfront : ∀ f ∈ s.published.getLast?, s.buffers s.hdr.frontIndex = f)
    (hseq : s.hdr.frameSeq = UInt32.ofNat s.published.length)
    (hwhole : ∀ i ∈ s.captured.map Prod.fst, i = back ∨ (i, s.buffers i) ∈ s.captured) :
    ProducerInv (s.fillFrom back frame y) := by
  unfold Router.fillFrom
  split
  · refine ⟨⟨happart, hrows⟩, hfront, hseq, ?_⟩
    intro i hi
    rcases hwhole i hi with rfl | hmem
    · exact .inl rfl
    · exact .inr hmem
  · next hy =>
    have hfilled : s.buffers back = frame := hrows.all hy
    refine ⟨⟨happart, hfilled⟩, hfront, hseq, ?_⟩
    intro i hi
    right
    change (i, s.buffers i) ∈ s.captured ++ [(back, frame)]
    by_cases hback : i = back
    · rw [hback, hfilled]
      exact List.mem_append_right _ (List.mem_singleton.mpr rfl)
    · rw [List.map_append] at hi
      rcases List.mem_append.mp hi with hi | hi
      · exact List.mem_append_left _ ((hwhole i hi).resolve_left hback)
      · exact absurd (List.mem_singleton.mp hi) hback

theorem ProducerInv.guestStep (h : ProducerInv s) (outcome : Option (Frame Row height)) :
    ProducerInv (guestStep outcome s) := by
  have hguest := h.guest
  have hseq := h.seq
  have hwhole := h.whole
  unfold Guest.Inv at hguest
  unfold Router.increments at hseq
  cases hg : s.guest <;> rw [hg] at hguest hseq hwhole <;> simp only [FrameRouter.guestStep, hg]
  case loadFront => exact ⟨rfl, h.front, hseq, hwhole⟩
  case loadReading front =>
      split
      · exact ⟨trivial, h.front, hseq, hwhole⟩
      · refine ⟨?_, h.front, hseq, hwhole⟩
        have hfront : front = s.hdr.frontIndex := hguest
        have hne := (backIndex_spec front s.hdr.hostReadingIndex).1
        exact fun heq => hne (heq.trans hfront.symm)
  case capture back =>
      cases outcome with
      | none => exact ⟨trivial, h.front, hseq, hwhole⟩
      | some frame =>
          refine ProducerInv.fillFrom hguest (.zero _ _) h.front hseq fun i hi => ?_
          exact .inr ((hwhole i hi).resolve_left (by rintro ⟨⟩))
  case writeRow back frame y =>
      refine ProducerInv.fillFrom hguest.1 ?_ ?_ hseq fun i hi => ?_
      · change SameRows _ (Function.update s.buffers back _ back) frame
        rw [Function.update_self]
        exact hguest.2.succ rfl
      · intro f hf
        exact (Function.update_of_ne hguest.1.symm _ _).trans (h.front f hf)
      · by_cases hback : i = back
        · exact .inl hback
        · have hmem := (hwhole i hi).resolve_left fun heq => hback (Option.some.inj heq).symm
          refine .inr ?_
          change (i, Function.update s.buffers back _ i) ∈ s.captured
          rw [Function.update_of_ne hback]
          exact hmem
  case loadSeq back frame =>
      exact ⟨⟨⟨hguest.apart, hguest.content⟩, rfl⟩, h.front, hseq, hwhole⟩
  case storeSeq back frame seq =>
      refine ⟨⟨hguest.1.apart, hguest.1.content⟩, h.front, ?_, hwhole⟩
      change seq + 1 = UInt32.ofNat (s.published.length + 1)
      have hnow : seq = UInt32.ofNat s.published.length := hguest.2.trans hseq
      rw [hnow, UInt32.ofNat_add]
      rfl
  case storeFront back frame =>
      refine ⟨trivial, ?_, ?_, hwhole⟩
      · intro f hf
        obtain rfl : frame = f := by simpa using hf
        exact hguest.content
      · change s.hdr.frameSeq = UInt32.ofNat ((s.published ++ [frame]).length + 0)
        rw [List.length_append, hseq]
        rfl

end QnxHypervisor.FrameRouter
