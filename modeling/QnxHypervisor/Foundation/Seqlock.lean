import Mathlib.Algebra.Group.Nat.Defs
import Mathlib.Data.List.Basic
import Mathlib.Tactic.TypeStar

/-! # Sequence locks

One writer brackets its stores to some data by two stores of a 32-bit word, which
is odd in between; a reader copies the data and believes the copy when it finds
the same even word before and after. Writer and readers take turns after every
single load and store.
-/

namespace QnxHypervisor.Foundation

variable {D O : Type*}

/-! ## Words -/

theorem even_word_iff (w : UInt32) : w &&& 1 = 0 ↔ w.toNat % 2 = 0 := by
  rw [← UInt32.toNat_inj, UInt32.toNat_and]
  show w.toNat &&& 1 = 0 ↔ _
  rw [Nat.and_one_is_mod]

theorem even_add_two {w : UInt32} (h : w &&& 1 = 0) : (w + 2) &&& 1 = 0 := by
  rw [even_word_iff] at h ⊢
  rw [UInt32.toNat_add]
  show (w.toNat + 2) % 2 ^ 32 % 2 = 0
  omega

/-! ## Cells -/

/-- A sequence word and the data it guards. The last two fields are history: how
many writes are complete, and whether one is under way. -/
structure Cell (D : Type*) where
  word : UInt32
  data : D
  commits : Nat
  busy : Bool

namespace Cell

variable {c c' : Cell D}

/-- The word is the number of stores made to it, modulo its width. -/
def Counts (c : Cell D) : Prop := c.word = UInt32.ofNat (2 * c.commits + c.busy.toNat)

theorem Counts.even_iff (h : c.Counts) : c.word &&& 1 = 0 ↔ c.busy = false := by
  rw [even_word_iff, h, UInt32.toNat_ofNat']
  cases c.busy <;> simp

/-- Fewer than 2^31 writes cannot bring the word back to where it was. -/
theorem Counts.unchanged (h : c.Counts) {opened : Nat}
    (hword : c.word = UInt32.ofNat (2 * opened)) (hle : opened ≤ c.commits)
    (hwindow : c.commits < opened + 2 ^ 31) : c.commits = opened ∧ c.busy = false := by
  have hmod : (2 * c.commits + c.busy.toNat) % 2 ^ 32 = 2 * opened % 2 ^ 32 := by
    rw [h] at hword
    have hnat := congrArg UInt32.toNat hword
    rwa [UInt32.toNat_ofNat', UInt32.toNat_ofNat'] at hnat
  cases hbusy : c.busy <;> simp only [hbusy, Bool.toNat_false, Bool.toNat_true] at hmod
  · exact ⟨by omega, rfl⟩
  · omega

/-- What the writer does to a cell between two steps of a reader: the data of a
cell at rest change only together with the number of writes. -/
structure Evolves (c c' : Cell D) : Prop where
  commits_le : c.commits ≤ c'.commits
  settled : c'.commits = c.commits → c'.busy = false → c.busy = false ∧ c'.data = c.data

theorem Evolves.refl (c : Cell D) : c.Evolves c := ⟨Nat.le_refl _, fun _ h => ⟨h, rfl⟩⟩

def stored (stores : List (D → D)) (d : D) : D := stores.foldl (fun d store => store d) d

theorem stored_append (stores later : List (D → D)) (d : D) :
    stored (stores ++ later) d = stored later (stored stores d) := List.foldl_append

/-- A whole write, seen from outside. -/
def write (stores : List (D → D)) (c : Cell D) : Cell D where
  word := c.word + 2
  data := stored stores c.data
  commits := c.commits + 1
  busy := false

end Cell

/-! ## The writer -/

/-- The access to the cell that a write makes next. -/
inductive Writer (D : Type*) where
  | load (stores : List (D → D))
  | announce (s0 : UInt32) (stores : List (D → D))
  | storing (s0 : UInt32) (stores : List (D → D))

namespace Writer

variable {c c' : Cell D} {w w' : Writer D} {Q : D → Prop}

/-- One access; no writer is left once the word is even again. -/
def step (c : Cell D) : Writer D → Cell D × Option (Writer D)
  | .load stores => (c, some (.announce c.word stores))
  | .announce s0 stores => ({ c with word := s0 + 1, busy := true }, some (.storing s0 stores))
  | .storing s0 (store :: stores) => ({ c with data := store c.data }, some (.storing s0 stores))
  | .storing s0 [] => ({ c with word := s0 + 2, commits := c.commits + 1, busy := false }, none)

/-- The cell as the writer left it, and data satisfying `Q` at the end. -/
def Inv (Q : D → Prop) (c : Cell D) : Writer D → Prop
  | .load stores => c.busy = false ∧ ∀ d, Q (Cell.stored stores d)
  | .announce s0 stores =>
      c.busy = false ∧ c.word = s0 ∧ ∀ d, Q (Cell.stored stores d)
  | .storing s0 stores =>
      c.busy = true ∧ c.word = s0 + 1 ∧ Q (Cell.stored stores c.data)

/-- An access that is not the last completes no write. -/
theorem step_some (hcounts : c.Counts) (hinv : w.Inv Q c) (hs : w.step c = (c', some w')) :
    c'.Counts ∧ w'.Inv Q c' ∧ c'.commits = c.commits ∧
      (c'.busy = false → c.busy = false ∧ c'.data = c.data) := by
  cases w with
  | load stores =>
      cases hs
      exact ⟨hcounts, ⟨hinv.1, rfl, hinv.2⟩, rfl, fun h => ⟨h, rfl⟩⟩
  | announce s0 stores =>
      obtain ⟨hbusy, hword, hend⟩ := hinv
      cases hs
      refine ⟨?_, ⟨rfl, rfl, hend c.data⟩, rfl, fun h => by cases h⟩
      show s0 + 1 = UInt32.ofNat (2 * c.commits + 1)
      rw [← hword, hcounts, hbusy]
      exact (UInt32.ofNat_add (2 * c.commits) 1).symm
  | storing s0 stores =>
      obtain ⟨hbusy, hword, hend⟩ := hinv
      cases stores with
      | nil => cases hs
      | cons store stores =>
          cases hs
          exact ⟨hcounts, ⟨hbusy, hword, hend⟩, rfl, fun h => by simp [hbusy] at h⟩

/-- The last access completes the write. -/
theorem step_none (hcounts : c.Counts) (hinv : w.Inv Q c) (hs : w.step c = (c', none)) :
    c'.Counts ∧ c'.busy = false ∧ c'.commits = c.commits + 1 ∧ Q c'.data := by
  cases w with
  | load stores => cases hs
  | announce s0 stores => cases hs
  | storing s0 stores =>
      obtain ⟨hbusy, hword, hend⟩ := hinv
      cases stores with
      | cons store stores => cases hs
      | nil =>
          cases hs
          refine ⟨?_, rfl, rfl, hend⟩
          have hodd : s0 + 1 = UInt32.ofNat (2 * c.commits + 1) := by
            rw [← hword, hcounts, hbusy]
            rfl
          show s0 + 2 = UInt32.ofNat (2 * (c.commits + 1))
          rw [show s0 + 2 = s0 + 1 + 1 by rw [UInt32.add_assoc]; rfl, hodd,
            show 2 * (c.commits + 1) = (2 * c.commits + 1) + 1 by omega]
          exact (UInt32.ofNat_add (2 * c.commits + 1) 1).symm

theorem evolves (hcounts : c.Counts) (hinv : w.Inv Q c) {rest : Option (Writer D)}
    (hs : w.step c = (c', rest)) : c.Evolves c' := by
  rcases rest with _ | w'
  · obtain ⟨-, -, hcommits, -⟩ := step_none hcounts hinv hs
    exact ⟨by simp [hcommits], fun hsame => by simp [hcommits] at hsame⟩
  · obtain ⟨-, -, hcommits, hsettled⟩ := step_some hcounts hinv hs
    exact ⟨Nat.le_of_eq hcommits.symm, fun _ => hsettled⟩

/-- The accesses of a writer nobody interrupts. -/
inductive Finishes : Cell D → Writer D → Cell D → Prop
  | last {b b' : Cell D} {v : Writer D} (hs : step b v = (b', none)) : Finishes b v b'
  | next {b b' b'' : Cell D} {v v' : Writer D} (hs : step b v = (b', some v'))
      (ht : Finishes b' v' b'') : Finishes b v b''

theorem storing_finishes (s0 : UInt32) (stores : List (D → D)) (c : Cell D) :
    Finishes c (.storing s0 stores)
      { word := s0 + 2, data := Cell.stored stores c.data
        commits := c.commits + 1, busy := false } := by
  induction stores generalizing c with
  | nil => exact .last rfl
  | cons store stores ih => exact .next rfl (ih { c with data := store c.data })

theorem load_finishes (stores : List (D → D)) (c : Cell D) :
    Finishes c (.load stores) (c.write stores) :=
  .next rfl (.next rfl (storing_finishes c.word stores { c with word := c.word + 1, busy := true }))

end Writer

/-! ## Readers -/

/-- A copying pass over the data; each load is a step of its own. -/
inductive Loads (D O : Type*) where
  | ret (out : O)
  | load (k : D → Loads D O)

/-- The pass over data that do not change. -/
def Loads.run : Loads D O → D → O
  | .ret out, _ => out
  | .load k, d => (k d).run d

/-- A pass under way after reading the word `s1`. The last two fields are
history: what the output held before, and the number of writes at that moment. -/
structure Attempt (D O : Type*) where
  s1 : UInt32
  rest : Loads D O
  before : O
  opened : Nat

/-- The access to the cell that a read makes next, with its remaining tries. -/
inductive Reader (D O : Type*) where
  | opening (left : Nat) (out : O)
  | copying (left : Nat) (a : Attempt D O)
  | returned (ok : Bool) (out : O)

namespace Reader

variable {copy : O → Loads D O} {c c' : Cell D} {r r' : Reader D O}

def running : Reader D O → Bool
  | .returned _ _ => false
  | _ => true

def step (copy : O → Loads D O) (c : Cell D) : Reader D O → Reader D O
  | .opening 0 out => .returned false out
  | .opening (left + 1) out =>
      let s1 := c.word
      if s1 &&& 1 ≠ 0 then .opening left out
      else .copying left { s1, rest := copy out, before := out, opened := c.commits }
  | .copying left a =>
      match a.rest with
      | .load k => .copying left { a with rest := k c.data }
      | .ret out =>
          let s2 := c.word
          if a.s1 = s2 then .returned true out else .opening left out
  | .returned ok out => .returned ok out

/-- The next step of the reader begins a pass. -/
def enters (c : Cell D) : Reader D O → Bool
  | .opening (_ + 1) _ => c.word &&& 1 = 0
  | _ => false

inductive Move (copy : O → Loads D O) (c : Cell D) : Reader D O → Reader D O → Prop
  | exhausted (out : O) : Move copy c (.opening 0 out) (.returned false out)
  | wait (left : Nat) (out : O) (hodd : c.word &&& 1 ≠ 0) :
      Move copy c (.opening (left + 1) out) (.opening left out)
  | enter (left : Nat) (out : O) (heven : c.word &&& 1 = 0) :
      Move copy c (.opening (left + 1) out)
        (.copying left { s1 := c.word, rest := copy out, before := out, opened := c.commits })
  | load (left : Nat) (a : Attempt D O) (k : D → Loads D O) (hrest : a.rest = .load k) :
      Move copy c (.copying left a) (.copying left { a with rest := k c.data })
  | accept (left : Nat) (a : Attempt D O) (out : O) (hrest : a.rest = .ret out)
      (hsame : a.s1 = c.word) : Move copy c (.copying left a) (.returned true out)
  | reject (left : Nat) (a : Attempt D O) (out : O) (hrest : a.rest = .ret out)
      (hchanged : a.s1 ≠ c.word) : Move copy c (.copying left a) (.opening left out)
  | stay (ok : Bool) (out : O) : Move copy c (.returned ok out) (.returned ok out)

theorem step_move (copy : O → Loads D O) (c : Cell D) (r : Reader D O) :
    Move copy c r (r.step copy c) := by
  cases r with
  | opening left out =>
      cases left with
      | zero => exact .exhausted out
      | succ left =>
          by_cases heven : c.word &&& 1 = 0
          · simpa [step, heven] using (Move.enter left out heven : Move copy c _ _)
          · simpa [step, heven] using (Move.wait left out heven : Move copy c _ _)
  | copying left a =>
      cases hrest : a.rest with
      | load k => simpa [step, hrest] using Move.load left a k hrest
      | ret out =>
          by_cases hsame : a.s1 = c.word
          · simpa [step, hrest, hsame] using Move.accept left a out hrest hsame
          · simpa [step, hrest, hsame] using Move.reject left a out hrest hsame
  | returned ok out => exact .stay ok out

/-- As long as the cell is as it was when the pass began, what is left of the
pass completes a copy of it. -/
def Inv (copy : O → Loads D O) (c : Cell D) : Reader D O → Prop
  | .copying _ a =>
      a.s1 = UInt32.ofNat (2 * a.opened) ∧ a.opened ≤ c.commits ∧
        (c.commits = a.opened → c.busy = false →
          a.rest.run c.data = (copy a.before).run c.data)
  | _ => True

/-- Fewer than 2^31 writes were completed since the pass under way began. -/
def Window (c : Cell D) : Reader D O → Prop
  | .copying _ a => c.commits < a.opened + 2 ^ 31
  | _ => True

theorem window_of_not_running (h : r.running = false) : r.Window c := by
  cases r with
  | opening left out => trivial
  | copying left a => cases h
  | returned ok out => trivial

/-- The writer keeps the invariant of a reader. -/
theorem Inv.evolve (h : r.Inv copy c) (he : c.Evolves c') : r.Inv copy c' := by
  cases r with
  | opening left out => trivial
  | returned ok out => trivial
  | copying left a =>
      obtain ⟨hs1, hle, hrest⟩ := h
      refine ⟨hs1, Nat.le_trans hle he.commits_le, ?_⟩
      -- writes are only counted up, so a cell that is as it was has been so since
      intro hsame hidle
      have hcommits := he.commits_le
      obtain ⟨hidle, hdata⟩ := he.settled (by omega) hidle
      rw [hdata]
      exact hrest (by omega) hidle

theorem Inv.step (hcounts : c.Counts) (h : r.Inv copy c) : (r.step copy c).Inv copy c := by
  have hmove := step_move copy c r
  generalize r.step copy c = r' at hmove
  cases hmove with
  | exhausted out => trivial
  | wait left out hodd => trivial
  | enter left out heven =>
      refine ⟨?_, Nat.le_refl _, fun _ _ => rfl⟩
      have hidle := hcounts.even_iff.mp heven
      show c.word = _
      rw [hcounts, hidle]
      rfl
  | load left a k hrest =>
      obtain ⟨hs1, hle, hcopy⟩ := h
      refine ⟨hs1, hle, fun hsame hidle => ?_⟩
      rw [← hcopy hsame hidle, hrest]
      rfl
  | accept left a out hrest hsame => trivial
  | reject left a out hrest hchanged => trivial
  | stay ok out => exact h

theorem Inv.believed (h : r.Inv copy c) (hcounts : c.Counts) (hwindow : r.Window c)
    (hrunning : r.running = true) {out : O} (hstep : r.step copy c = .returned true out) :
    ∃ left a, r = .copying left a ∧ c.commits = a.opened ∧ c.busy = false ∧
      out = (copy a.before).run c.data := by
  have hmove := step_move copy c r
  rw [hstep] at hmove
  cases hmove with
  | accept left a _ hrest hsame =>
      obtain ⟨hs1, hle, hcopy⟩ := h
      obtain ⟨hcommits, hidle⟩ := hcounts.unchanged (hsame.symm.trans hs1) hle hwindow
      refine ⟨left, a, rfl, hcommits, hidle, ?_⟩
      rw [← hcopy hcommits hidle, hrest]
      rfl
  | stay _ _ => cases hrunning

/-- The steps of a reader nobody interrupts. -/
inductive Runs (copy : O → Loads D O) (c : Cell D) : Reader D O → Reader D O → Prop
  | done (ok : Bool) (out : O) : Runs copy c (.returned ok out) (.returned ok out)
  | opening {left : Nat} {out : O} {r' : Reader D O}
      (ht : Runs copy c (step copy c (.opening left out)) r') : Runs copy c (.opening left out) r'
  | copying {left : Nat} {a : Attempt D O} {r' : Reader D O}
      (hwindow : (Reader.copying left a).Window c)
      (ht : Runs copy c (step copy c (.copying left a)) r') : Runs copy c (.copying left a) r'

theorem copying_runs (copy : O → Loads D O) (c : Cell D) (left : Nat) (a : Attempt D O)
    (hsame : a.s1 = c.word) (hopened : a.opened = c.commits) :
    Runs copy c (.copying left a) (.returned true (a.rest.run c.data)) := by
  obtain ⟨s1, rest, before, opened⟩ := a
  have hwindow : c.commits < opened + 2 ^ 31 := by
    have : opened = c.commits := hopened
    omega
  induction rest with
  | ret out =>
      refine .copying hwindow ?_
      have haccept : step copy c (.copying left ⟨s1, .ret out, before, opened⟩) =
          .returned true out := if_pos hsame
      rw [haccept]
      exact .done true out
  | load k ih => exact .copying hwindow (ih c.data hsame hopened)

/-- Uninterrupted, a cell at rest is read at the first try. -/
theorem opening_runs (copy : O → Loads D O) (c : Cell D) (left : Nat) (out : O)
    (heven : c.word &&& 1 = 0) :
    Runs copy c (.opening (left + 1) out) (.returned true ((copy out).run c.data)) := by
  refine .opening ?_
  have henter : step copy c (.opening (left + 1) out) =
      .copying left { s1 := c.word, rest := copy out, before := out, opened := c.commits } := by
    simp [step, heven]
  rw [henter]
  exact copying_runs copy c left _ rfl rfl

theorem odd_runs (copy : O → Loads D O) (c : Cell D) (left : Nat) (out : O)
    (hodd : c.word &&& 1 ≠ 0) : Runs copy c (.opening left out) (.returned false out) := by
  induction left with
  | zero => exact .opening (.done false out)
  | succ left ih =>
      refine .opening ?_
      have hwait : step copy c (.opening (left + 1) out) = .opening left out := if_pos hodd
      rw [hwait]
      exact ih

end Reader

end QnxHypervisor.Foundation
