import QnxHypervisor.Foundation.Machine
import Mathlib.Logic.Function.Basic

/-! # The frame router

One producer loop of `fb_guest` and one consumer loop of `fb_host` over an
initialised header. Every load and store of the header is a step of its own, and
so is every row copied. Beside the memory stands what has happened so far: the
captures that are complete, the frames published and posted, and how many
increments of `frame_seq` the host had seen at its last poll and when it last
read its `last_seq`.
-/

namespace QnxHypervisor.FrameRouter

open Foundation

abbrev Frame (Row : Type) (height : Nat) := Fin height → Row

def fbMaxBuffers : Nat := 3

def fbInvalidIndex : UInt32 := 0xFFFFFFFF

structure FbShmHeader where
  frameSeq : UInt32
  frontIndex : UInt32
  hostReadingIndex : UInt32
deriving DecidableEq

/-- The header as the guest leaves it before it stores the magic. -/
def initialHeader : FbShmHeader :=
  { frameSeq := 0, frontIndex := 0, hostReadingIndex := fbInvalidIndex }

/-- The next access of the producer loop. -/
inductive Guest (Row : Type) (height : Nat) where
  | loadFront
  | loadReading (front : UInt32)
  | capture (back : UInt32)
  | writeRow (back : UInt32) (frame : Frame Row height) (y : Fin height)
  | loadSeq (back : UInt32) (frame : Frame Row height)
  | storeSeq (back : UInt32) (frame : Frame Row height) (seq : UInt32)
  | storeFront (back : UInt32) (frame : Frame Row height)

/-- The next access of the consumer loop. -/
inductive Host (height : Nat) where
  | check
  | loadSeq
  | loadFront
  | announce (idx : UInt32)
  | copyRow (idx : UInt32) (y : Fin height)
  | post
  | clear
deriving DecidableEq

structure Router (Row : Type) (height : Nat) where
  hdr : FbShmHeader
  buffers : UInt32 → Frame Row height
  guest : Guest Row height
  host : Host height
  lastSeq : UInt32
  window : Frame Row height
  captured : List (UInt32 × Frame Row height)
  published : List (Frame Row height)
  posted : List (Frame Row height)
  polled : Option Nat
  latched : Option Nat

/-- A step of the guest brings the outcome of its capture, should it make one. -/
inductive RouterEvent (Row : Type) (height : Nat) where
  | guest (outcome : Option (Frame Row height))
  | host

variable {Row : Type} {height : Nat}

/-- The first buffer that is neither of the two. -/
def backIndex (front reading : UInt32) : UInt32 :=
  ((List.range fbMaxBuffers).map UInt32.ofNat).find? (fun i => i ≠ front ∧ i ≠ reading)
    |>.getD fbInvalidIndex

namespace Guest

/-- The buffer it has chosen and not yet filled. -/
def fills : Guest Row height → Option UInt32
  | .capture back | .writeRow back _ _ => some back
  | _ => none

/-- The buffer whose rows it is writing. -/
def writes : Guest Row height → Option UInt32
  | .writeRow back _ _ => some back
  | _ => none

/-- Between its stores to `frame_seq` and to `front_index`. -/
def publishing : Guest Row height → Bool
  | .storeFront _ _ => true
  | _ => false

end Guest

def Host.announces : Host height → Option UInt32
  | .announce idx => some idx
  | _ => none

namespace Router

/-- How often `frame_seq` has been incremented. -/
def increments (s : Router Row height) : Nat :=
  s.published.length + s.guest.publishing.toNat

/-- The guest at row `y` of its back buffer, or behind the last one. -/
def fillFrom (back : UInt32) (frame : Frame Row height) (y : Nat) (s : Router Row height) :
    Router Row height :=
  if h : y < height then { s with guest := .writeRow back frame ⟨y, h⟩ }
  else { s with guest := .loadSeq back frame, captured := s.captured ++ [(back, frame)] }

/-- The host at row `y` of its copy, or behind the last one. -/
def copyFrom (idx : UInt32) (y : Nat) (s : Router Row height) : Router Row height :=
  if h : y < height then { s with host := .copyRow idx ⟨y, h⟩ } else { s with host := .post }

def storeRow (back : UInt32) (y : Fin height) (row : Row) (s : Router Row height) :
    Router Row height :=
  { s with buffers := Function.update s.buffers back (Function.update (s.buffers back) y row) }

def showRow (idx : UInt32) (y : Fin height) (s : Router Row height) : Router Row height :=
  { s with window := Function.update s.window y (s.buffers idx y) }

end Router

def guestStep (outcome : Option (Frame Row height)) (s : Router Row height) : Router Row height :=
  match s.guest with
  | .loadFront => { s with guest := .loadReading s.hdr.frontIndex }
  | .loadReading front =>
      let back := backIndex front s.hdr.hostReadingIndex
      if back = fbInvalidIndex then { s with guest := .loadFront }
      else { s with guest := .capture back }
  | .capture back =>
      match outcome with
      | none => { s with guest := .loadFront }
      | some frame => s.fillFrom back frame 0
  | .writeRow back frame y => (s.storeRow back y (frame y)).fillFrom back frame (y + 1)
  | .loadSeq back frame => { s with guest := .storeSeq back frame s.hdr.frameSeq }
  | .storeSeq back frame seq =>
      { s with hdr := { s.hdr with frameSeq := seq + 1 }, guest := .storeFront back frame }
  | .storeFront back frame =>
      { s with
        hdr := { s.hdr with frontIndex := back }
        guest := .loadFront
        published := s.published ++ [frame] }

def hostStep (s : Router Row height) : Router Row height :=
  match s.host with
  | .check =>
      { s with
        host := if s.hdr.frameSeq ≠ s.lastSeq then .loadSeq else .check
        polled := some s.increments }
  | .loadSeq =>
      { s with lastSeq := s.hdr.frameSeq, host := .loadFront, latched := some s.increments }
  | .loadFront => { s with host := .announce s.hdr.frontIndex }
  | .announce idx =>
      ({ s with hdr := { s.hdr with hostReadingIndex := idx } } : Router Row height).copyFrom idx 0
  | .copyRow idx y => (s.showRow idx y).copyFrom idx (y + 1)
  | .post => { s with host := .clear, posted := s.posted ++ [s.window] }
  | .clear => { s with hdr := { s.hdr with hostReadingIndex := fbInvalidIndex }, host := .check }

/-- Both loops before their first pass; the buffers may hold anything. -/
def Router.start (buffers : UInt32 → Frame Row height) (window : Frame Row height) :
    Router Row height :=
  { hdr := initialHeader, buffers, guest := .loadFront, host := .check
    lastSeq := 0xFFFFFFFF, window
    captured := [], published := [], posted := [], polled := none, latched := none }

def routerMachine (Row : Type) (height : Nat) :
    Machine (Router Row height) (RouterEvent Row height) where
  initial s := ∃ buffers window, s = .start buffers window
  step s
    | .guest outcome => some (guestStep outcome s)
    | .host => some (hostStep s)

/-! ## The back buffer -/

/-- With three buffers there is always one to write. -/
theorem backIndex_spec (front reading : UInt32) :
    backIndex front reading ≠ front ∧ backIndex front reading ≠ reading ∧
      backIndex front reading < 3 := by
  have hrange : (List.range fbMaxBuffers).map UInt32.ofNat = [0, 1, 2] := rfl
  rw [backIndex, hrange]
  cases hfind : [(0 : UInt32), 1, 2].find? (fun i => i ≠ front ∧ i ≠ reading) with
  | some i =>
      have hmem := List.mem_of_find?_eq_some hfind
      have hpred := List.find?_some hfind
      refine ⟨(of_decide_eq_true hpred).1, (of_decide_eq_true hpred).2, ?_⟩
      simp only [List.mem_cons, List.not_mem_nil, or_false] at hmem
      rcases hmem with rfl | rfl | rfl <;> decide
  | none =>
      have hnone := List.find?_eq_none.mp hfind
      simp only [List.mem_cons, List.not_mem_nil, or_false, forall_eq_or_imp, forall_eq,
        decide_eq_true_eq, not_and, ne_eq, Decidable.not_not] at hnone
      obtain ⟨h0, h1, h2⟩ := hnone
      grind

/-! ## Frames row by row -/

/-- The first `y` rows of `f` are those of `g`. -/
def SameRows (y : Nat) (f g : Frame Row height) : Prop := ∀ r : Fin height, r.val < y → f r = g r

theorem SameRows.zero (f g : Frame Row height) : SameRows 0 f g :=
  fun _ h => absurd h (Nat.not_lt_zero _)

theorem SameRows.all {y : Nat} {f g : Frame Row height} (h : SameRows y f g) (hy : ¬ y < height) :
    f = g :=
  funext fun r => h r (Nat.lt_of_lt_of_le r.isLt (Nat.not_lt.mp hy))

theorem SameRows.succ {y : Fin height} {f g : Frame Row height} (h : SameRows y.val f g) {row : Row}
    (hrow : row = g y) : SameRows (y.val + 1) (Function.update f y row) g := by
  intro r hr
  by_cases heq : r = y
  · rw [heq, Function.update_self, hrow]
  · rw [Function.update_of_ne heq]
    have hne : r.val ≠ y.val := fun hval => heq (Fin.ext hval)
    exact h r (by omega)

/-! ## What a step leaves alone -/

/-- The fields only the guest stores to. -/
structure SameGuest (s s' : Router Row height) : Prop where
  frameSeq : s'.hdr.frameSeq = s.hdr.frameSeq
  frontIndex : s'.hdr.frontIndex = s.hdr.frontIndex
  buffers : s'.buffers = s.buffers
  guest : s'.guest = s.guest
  captured : s'.captured = s.captured
  published : s'.published = s.published

/-- The fields only the host stores to. -/
structure SameHost (s s' : Router Row height) : Prop where
  hostReadingIndex : s'.hdr.hostReadingIndex = s.hdr.hostReadingIndex
  host : s'.host = s.host
  lastSeq : s'.lastSeq = s.lastSeq
  window : s'.window = s.window
  posted : s'.posted = s.posted
  polled : s'.polled = s.polled
  latched : s'.latched = s.latched

theorem copyFrom_same (s : Router Row height) (idx : UInt32) (y : Nat) :
    SameGuest s (s.copyFrom idx y) := by
  unfold Router.copyFrom
  split <;> exact ⟨rfl, rfl, rfl, rfl, rfl, rfl⟩

theorem fillFrom_same (s : Router Row height) (back : UInt32) (frame : Frame Row height) (y : Nat) :
    SameHost s (s.fillFrom back frame y) := by
  unfold Router.fillFrom
  split <;> exact ⟨rfl, rfl, rfl, rfl, rfl, rfl, rfl⟩

theorem hostStep_same (s : Router Row height) : SameGuest s (hostStep s) := by
  unfold hostStep
  split
  case h_4 idx _ =>
      obtain ⟨h1, h2, h3, h4, h5, h6⟩ := copyFrom_same
        ({ s with hdr := { s.hdr with hostReadingIndex := idx } } : Router Row height) idx 0
      exact ⟨h1, h2, h3, h4, h5, h6⟩
  case h_5 idx y _ =>
      obtain ⟨h1, h2, h3, h4, h5, h6⟩ := copyFrom_same (s.showRow idx y) idx (y + 1)
      exact ⟨h1, h2, h3, h4, h5, h6⟩
  all_goals exact ⟨rfl, rfl, rfl, rfl, rfl, rfl⟩

theorem guestStep_same (outcome : Option (Frame Row height)) (s : Router Row height) :
    SameHost s (guestStep outcome s) := by
  unfold guestStep
  split
  case h_2 => dsimp only; split <;> exact ⟨rfl, rfl, rfl, rfl, rfl, rfl, rfl⟩
  case h_3 back _ =>
      cases outcome with
      | none => exact ⟨rfl, rfl, rfl, rfl, rfl, rfl, rfl⟩
      | some frame => exact fillFrom_same s back frame 0
  case h_4 back frame y _ =>
      obtain ⟨h1, h2, h3, h4, h5, h6, h7⟩ :=
        fillFrom_same (s.storeRow back y (frame y)) back frame (y + 1)
      exact ⟨h1, h2, h3, h4, h5, h6, h7⟩
  all_goals exact ⟨rfl, rfl, rfl, rfl, rfl, rfl, rfl⟩

end QnxHypervisor.FrameRouter
