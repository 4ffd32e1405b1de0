import QnxHypervisor.GuestShell.Session

/-! # The slot table and the descriptor ledger

Three invariants over parts of the shell state. The table: an occupied slot and
the unfinished reader of its session belong to each other. Standard output: the
reader owns it until it leaves its loop, and closes it there. Standard input:
it is in the slot while the session is alive, then with one pending
`shell_close`, then closed, and in one of these places only.
-/

namespace QnxHypervisor.GuestShell

open Foundation GuestManager HmsStatus

variable {slots slots' : SlotIx → ShellSlot} {readers : Nat → Option Reader}
  {closers : Nat → Option Closer} {owner owner' : Fd → Option FdOwner}
  {closed : List (Option FdOwner)}

/-- The read loop is not left for good: the output is still open. -/
def ReaderPhase.Serving : ReaderPhase → Prop
  | .testing | .reading _ | .leaving => True
  | .announcing | .releasing | .done => False

/-- How often a session's pipe end was closed. -/
def hits (closed : List (Option FdOwner)) (k : Nat) (e : PipeEnd) : Nat :=
  closed.count (some (.session k e))

/-- A `shell_close` of session `k` still has to close its standard input. -/
def Pending (closers : Nat → Option Closer) (k : Nat) : Prop :=
  ∃ j c, closers j = some c ∧ c.session = k ∧ c.inFd ≠ none

theorem pending_update {c k : Nat} {d : Option Closer}
    (hold : ∀ x, closers c = some x → x.session = k → x.inFd = none)
    (hnew : ∀ x, d = some x → x.session = k → x.inFd = none) :
    Pending (Function.update closers c d) k ↔ Pending closers k := by
  unfold Pending
  constructor
  · rintro ⟨j, x, hj, hx, hne⟩
    by_cases hjc : j = c
    · subst hjc
      rw [Function.update_self] at hj
      exact absurd (hnew x hj hx) hne
    · rw [Function.update_of_ne hjc] at hj
      exact ⟨j, x, hj, hx, hne⟩
  · rintro ⟨j, x, hj, hx, hne⟩
    have hjc : j ≠ c := by
      rintro rfl
      exact hne (hold x hj hx)
    exact ⟨j, x, by rw [Function.update_of_ne hjc, hj], hx, hne⟩

/-! ## The three invariants -/

structure TableInv (slots : SlotIx → ShellSlot) (readers : Nat → Option Reader) : Prop where
  taken : ∀ i, ¬ (slots i).Free →
    ∃ p, readers (slots i).session = some ⟨i, p⟩ ∧ p ≠ .done
  reader : ∀ k i p, readers k = some ⟨i, p⟩ → p ≠ .done →
    (slots i).session = k ∧ (slots i).guestId ≠ []
  ended : ∀ k i p, readers k = some ⟨i, p⟩ → ¬ p.Serving → p ≠ .done → (slots i).alive = false
  distinct : ∀ i j g, (slots i).Serves g → (slots j).Serves g → i = j

structure StdoutInv (slots : SlotIx → ShellSlot) (readers : Nat → Option Reader)
    (owner : Fd → Option FdOwner) (closed : List (Option FdOwner)) : Prop where
  held : ∀ k i p, readers k = some ⟨i, p⟩ → p.Serving → hits closed k .stdout = 0 ∧
    ∃ fd, (slots i).outFd = some fd ∧ owner fd = some (.session k .stdout) ∧
      ∀ fd', p = .reading fd' → fd' = fd
  gone : ∀ k i p, readers k = some ⟨i, p⟩ → ¬ p.Serving → hits closed k .stdout = 1

structure StdinInv (slots : SlotIx → ShellSlot) (readers : Nat → Option Reader)
    (closers : Nat → Option Closer) (owner : Fd → Option FdOwner)
    (closed : List (Option FdOwner)) : Prop where
  held : ∀ k i p, readers k = some ⟨i, p⟩ → p ≠ .done → (slots i).alive = true →
    hits closed k .stdin = 0 ∧ ¬ Pending closers k ∧
      ∃ fd, (slots i).inFd = some fd ∧ owner fd = some (.session k .stdin)
  emptied : ∀ k i p, readers k = some ⟨i, p⟩ → p ≠ .done → (slots i).alive = false →
    (slots i).inFd = none
  gone : ∀ k i p, readers k = some ⟨i, p⟩ → p = .done ∨ (slots i).alive = false →
    Pending closers k ∧ hits closed k .stdin = 0 ∨ ¬ Pending closers k ∧ hits closed k .stdin = 1
  pending : ∀ j c fd, closers j = some c → c.inFd = some fd →
    owner fd = some (.session c.session .stdin)
  alone : ∀ j j' c c', closers j = some c → closers j' = some c' → c.session = c'.session →
    c.inFd ≠ none → c'.inFd ≠ none → j = j'

/-! ## Changes that do not touch a session's descriptors -/

/-- The slots agree in all but the process and the time of the last activity. -/
def SameSlots (slots slots' : SlotIx → ShellSlot) : Prop :=
  ∀ i, (slots' i).guestId = (slots i).guestId ∧ (slots' i).alive = (slots i).alive ∧
    (slots' i).inFd = (slots i).inFd ∧ (slots' i).outFd = (slots i).outFd ∧
    (slots' i).session = (slots i).session

theorem sameSlots_refl (slots : SlotIx → ShellSlot) : SameSlots slots slots :=
  fun _ => ⟨rfl, rfl, rfl, rfl, rfl⟩

theorem sameSlots_activity (slots : SlotIx → ShellSlot) (i : SlotIx) (now : Int) :
    SameSlots slots (Function.update slots i { slots i with lastActivity := now }) := by
  intro j
  by_cases h : j = i
  · subst h
    simp
  · simp [Function.update_of_ne h]

def KeepsEnds (e : PipeEnd) (owner owner' : Fd → Option FdOwner) : Prop :=
  ∀ fd k, owner fd = some (.session k e) → owner' fd = some (.session k e)

theorem keepsEnds_update {e : PipeEnd} {fd : Fd} {o : Option FdOwner}
    (h : ∀ k, owner fd ≠ some (.session k e)) :
    KeepsEnds e owner (Function.update owner fd o) := by
  intro fd' k howner
  have hne : fd' ≠ fd := by
    rintro rfl
    exact h k howner
  rw [Function.update_of_ne hne, howner]

theorem TableInv.congr (h : TableInv slots readers) (hs : SameSlots slots slots') :
    TableInv slots' readers where
  taken := by
    intro i hi
    obtain ⟨hg, ha, -, -, hk⟩ := hs i
    rw [hk]
    exact h.taken i (by simpa [ShellSlot.Free, hg, ha] using hi)
  reader := by
    intro k i p hr hp
    obtain ⟨hg, -, -, -, hk⟩ := hs i
    rw [hg, hk]
    exact h.reader k i p hr hp
  ended := by
    intro k i p hr hserv hp
    rw [(hs i).2.1]
    exact h.ended k i p hr hserv hp
  distinct := by
    intro i j g hi hj
    refine h.distinct i j g ?_ ?_
    · simpa [ShellSlot.Serves, (hs i).1, (hs i).2.1] using hi
    · simpa [ShellSlot.Serves, (hs j).1, (hs j).2.1] using hj

theorem StdoutInv.congr {closed' : List (Option FdOwner)} (h : StdoutInv slots readers owner closed)
    (hs : SameSlots slots slots') (ho : KeepsEnds .stdout owner owner')
    (hc : ∀ k, hits closed' k .stdout = hits closed k .stdout) :
    StdoutInv slots' readers owner' closed' where
  held := by
    intro k i p hr hserv
    obtain ⟨hzero, fd, hfd, howner, hread⟩ := h.held k i p hr hserv
    exact ⟨(hc k).trans hzero, fd, (hs i).2.2.2.1.trans hfd, ho fd k howner, hread⟩
  gone := fun k i p hr hserv => (hc k).trans (h.gone k i p hr hserv)

theorem StdinInv.congr {closed' : List (Option FdOwner)}
    (h : StdinInv slots readers closers owner closed) (hs : SameSlots slots slots')
    (ho : KeepsEnds .stdin owner owner') (hc : ∀ k, hits closed' k .stdin = hits closed k .stdin) :
    StdinInv slots' readers closers owner' closed' where
  held := by
    intro k i p hr hp ha
    rw [(hs i).2.1] at ha
    obtain ⟨hzero, hpend, fd, hfd, howner⟩ := h.held k i p hr hp ha
    exact ⟨(hc k).trans hzero, hpend, fd, (hs i).2.2.1.trans hfd, ho fd k howner⟩
  emptied := by
    intro k i p hr hp ha
    rw [(hs i).2.1] at ha
    exact (hs i).2.2.1.trans (h.emptied k i p hr hp ha)
  gone := by
    intro k i p hr hend
    rw [(hs i).2.1] at hend
    rw [hc k]
    exact h.gone k i p hr hend
  pending := fun j c fd hj hfd => ho fd _ (h.pending j c fd hj hfd)
  alone := h.alone

/-! ## Closing a pipe end -/

@[simp] theorem hits_append (closed : List (Option FdOwner)) (o : Option FdOwner) (k : Nat)
    (e : PipeEnd) :
    hits (closed ++ [o]) k e = hits closed k e + if o = some (.session k e) then 1 else 0 := by
  simp [hits, List.count_append, List.count_singleton]

/-- Closing one end frees its number and leaves the numbers of all other ends. -/
theorem owner_after_close {fd fd' : Fd} {k k' : Nat} {e e' : PipeEnd}
    (h : owner fd = some (.session k e)) (h' : owner fd' = some (.session k' e'))
    (hne : k' ≠ k ∨ e' ≠ e) : Function.update owner fd none fd' = some (.session k' e') := by
  have hfd : fd' ≠ fd := by
    rintro rfl
    rw [h] at h'
    simp only [Option.some.injEq, FdOwner.session.injEq] at h'
    rcases hne with hk | he
    · exact hk h'.1.symm
    · exact he h'.2.symm
  rw [Function.update_of_ne hfd, h']

/-! ## Moves of a reader -/

section Moves

variable {k : Nat} {i : SlotIx} {p p' : ReaderPhase}

theorem TableInv.only_reader (h : TableInv slots readers) (hr : readers k = some ⟨i, p⟩)
    (hp : p ≠ .done) {k' : Nat} (hr' : readers k' = some ⟨i, p'⟩) (hp' : p' ≠ .done) : k' = k :=
  (h.reader k' i p' hr' hp').1.symm.trans (h.reader k i p hr hp).1

theorem TableInv.move (h : TableInv slots readers) (hr : readers k = some ⟨i, p⟩) (hp : p ≠ .done)
    (hp' : p' ≠ .done) (hend : ¬ p'.Serving → (slots i).alive = false) :
    TableInv slots (Function.update readers k (some ⟨i, p'⟩)) where
  taken := by
    intro j hj
    obtain ⟨q, hq, hqd⟩ := h.taken j hj
    by_cases hk : (slots j).session = k
    · rw [hk, hr] at hq
      obtain ⟨rfl, -⟩ : i = j ∧ p = q := by simpa using hq
      exact ⟨p', by rw [hk, Function.update_self], hp'⟩
    · exact ⟨q, by rw [Function.update_of_ne hk, hq], hqd⟩
  reader := by
    have hold := h.reader
    simp only [Function.update_apply]
    grind
  ended := by
    have hold := h.ended
    simp only [Function.update_apply]
    grind
  distinct := h.distinct

theorem StdoutInv.move (h : StdoutInv slots readers owner closed) (hr : readers k = some ⟨i, p⟩)
    (hserv : p'.Serving ↔ p.Serving) (hread : ∀ fd, p' = .reading fd → (slots i).outFd = some fd) :
    StdoutInv slots (Function.update readers k (some ⟨i, p'⟩)) owner closed where
  held := by
    have hold := h.held
    simp only [Function.update_apply]
    grind
  gone := by
    have hold := h.gone
    simp only [Function.update_apply]
    grind

theorem StdinInv.move (h : StdinInv slots readers closers owner closed)
    (hr : readers k = some ⟨i, p⟩) (hp : p ≠ .done) (hend : p' = .done → (slots i).alive = false) :
    StdinInv slots (Function.update readers k (some ⟨i, p'⟩)) closers owner closed where
  held := by
    have hold := h.held
    simp only [Function.update_apply]
    grind
  emptied := by
    have hold := h.emptied
    simp only [Function.update_apply]
    grind
  gone := by
    have hold := h.gone
    simp only [Function.update_apply]
    grind
  pending := h.pending
  alone := h.alone

end Moves

/-! ## A new session -/

section Open

variable {n : Nat} {i : SlotIx} {slot : ShellSlot} {inW outR : Fd}

theorem TableInv.free_unused (h : TableInv slots readers) (hfree : (slots i).Free) {k : Nat}
    {p : ReaderPhase} (hr : readers k = some ⟨i, p⟩) : p = .done := by
  by_contra hp
  exact (h.reader k i p hr hp).2 hfree.2

theorem TableInv.open (h : TableInv slots readers) (hfree : (slots i).Free)
    (hnew : readers n = none) (hn : slot.session = n) (hid : slot.guestId ≠ [])
    (hserve : ∀ j, ¬ (slots j).Serves slot.guestId) :
    TableInv (Function.update slots i slot) (Function.update readers n (some ⟨i, .testing⟩)) where
  taken := by
    intro j hj
    by_cases hji : j = i
    · subst hji
      exact ⟨.testing, by simp [hn], by simp⟩
    · rw [Function.update_of_ne hji] at hj ⊢
      obtain ⟨p, hp, hpd⟩ := h.taken j hj
      have hk : (slots j).session ≠ n := by
        intro hk
        rw [hk, hnew] at hp
        cases hp
      exact ⟨p, by rw [Function.update_of_ne hk, hp], hpd⟩
  reader := by
    have hold := h.reader
    have hunused := fun k p => h.free_unused (k := k) (p := p) hfree
    simp only [Function.update_apply]
    grind
  ended := by
    have hold := h.ended
    have hunused := fun k p => h.free_unused (k := k) (p := p) hfree
    simp only [Function.update_apply]
    grind [ReaderPhase.Serving]
  distinct := by
    have hold := h.distinct
    simp only [Function.update_apply]
    grind [ShellSlot.Serves]

theorem StdoutInv.open (h : StdoutInv slots readers owner closed) (ht : TableInv slots readers)
    (hfree : (slots i).Free) (hout : slot.outFd = some outR)
    (ho : KeepsEnds .stdout owner owner') (hown : owner' outR = some (.session n .stdout))
    (hhits : hits closed n .stdout = 0) :
    StdoutInv (Function.update slots i slot) (Function.update readers n (some ⟨i, .testing⟩)) owner'
      closed where
  held := by
    have hold := h.held
    have hunused := fun k p => ht.free_unused (k := k) (p := p) hfree
    simp only [Function.update_apply, KeepsEnds] at ho ⊢
    grind [ReaderPhase.Serving]
  gone := by
    have hold := h.gone
    simp only [Function.update_apply]
    grind [ReaderPhase.Serving]

theorem StdinInv.open (h : StdinInv slots readers closers owner closed)
    (ht : TableInv slots readers) (hfree : (slots i).Free)
    (hin : slot.inFd = some inW) (ho : KeepsEnds .stdin owner owner')
    (hown : owner' inW = some (.session n .stdin)) (hhits : hits closed n .stdin = 0)
    (hpend : ¬ Pending closers n) (halive : slot.alive = true) :
    StdinInv (Function.update slots i slot) (Function.update readers n (some ⟨i, .testing⟩)) closers
      owner' closed where
  held := by
    have hold := h.held
    have hunused := fun k p => ht.free_unused (k := k) (p := p) hfree
    simp only [Function.update_apply, KeepsEnds] at ho ⊢
    grind
  emptied := by
    have hold := h.emptied
    have hunused := fun k p => ht.free_unused (k := k) (p := p) hfree
    simp only [Function.update_apply]
    grind
  gone := by
    have hold := h.gone
    have hunused := fun k p => ht.free_unused (k := k) (p := p) hfree
    simp only [Function.update_apply]
    grind
  pending := fun j c fd hj hfd => ho fd _ (h.pending j c fd hj hfd)
  alone := h.alone

end Open

/-! ## The end of a session -/

section Ending

variable {k c : Nat} {i : SlotIx} {p : ReaderPhase} {slot : ShellSlot} {fd : Fd} {pid : Nat}

theorem TableInv.retire (h : TableInv slots readers) (ha : slot.alive = false)
    (hg : slot.guestId = (slots i).guestId) (hk : slot.session = (slots i).session) :
    TableInv (Function.update slots i slot) readers where
  taken := by
    intro j hj
    by_cases hji : j = i
    · subst hji
      rw [Function.update_self] at hj ⊢
      rw [hk]
      exact h.taken j fun hfree => hj ⟨ha, hg.trans hfree.2⟩
    · rw [Function.update_of_ne hji] at hj ⊢
      exact h.taken j hj
  reader := by
    have hold := h.reader
    simp only [Function.update_apply]
    grind
  ended := by
    have hold := h.ended
    simp only [Function.update_apply]
    grind
  distinct := by
    have hold := h.distinct
    simp only [Function.update_apply]
    grind [ShellSlot.Serves]

theorem TableInv.release (h : TableInv slots readers) (hr : readers k = some ⟨i, p⟩)
    (hp : p ≠ .done) (ha : (slots i).alive = false) (ha' : slot.alive = false)
    (hg : slot.guestId = []) :
    TableInv (Function.update slots i slot) (Function.update readers k (some ⟨i, .done⟩)) where
  taken := by
    intro j hj
    by_cases hji : j = i
    · subst hji
      rw [Function.update_self] at hj
      exact absurd ⟨ha', hg⟩ hj
    · rw [Function.update_of_ne hji] at hj ⊢
      obtain ⟨q, hq, hqd⟩ := h.taken j hj
      have hk : (slots j).session ≠ k := by
        intro hk
        rw [hk, hr] at hq
        obtain ⟨rfl, -⟩ : i = j ∧ p = q := by simpa using hq
        exact hji rfl
      exact ⟨q, by rw [Function.update_of_ne hk, hq], hqd⟩
  reader := by
    have hold := h.reader
    simp only [Function.update_apply]
    grind
  ended := by
    have hold := h.ended
    simp only [Function.update_apply]
    grind
  distinct := by
    have hold := h.distinct
    simp only [Function.update_apply]
    grind [ShellSlot.Serves]

theorem StdoutInv.sameOut (h : StdoutInv slots readers owner closed)
    (hout : slot.outFd = (slots i).outFd) :
    StdoutInv (Function.update slots i slot) readers owner closed where
  held := by
    have hold := h.held
    simp only [Function.update_apply]
    grind
  gone := h.gone

theorem StdoutInv.leave (h : StdoutInv slots readers owner closed) (ht : TableInv slots readers)
    (hr : readers k = some ⟨i, .leaving⟩) (hfd : (slots i).outFd = some fd) :
    StdoutInv (Function.update slots i slot) (Function.update readers k (some ⟨i, .announcing⟩))
      (Function.update owner fd none) (closed ++ [owner fd]) where
  held := by
    obtain ⟨hzero, fd', hfd', howner, -⟩ := h.held k i _ hr trivial
    obtain rfl : fd = fd' := Option.some.inj (hfd.symm.trans hfd')
    intro k' i' p' hr' hserv
    by_cases hk : k' = k
    · subst hk
      rw [Function.update_self] at hr'
      obtain ⟨rfl, rfl⟩ : i = i' ∧ ReaderPhase.announcing = p' := by simpa using hr'
      exact absurd hserv (by simp [ReaderPhase.Serving])
    · rw [Function.update_of_ne hk] at hr'
      obtain ⟨hzero', fd₂, hfd₂, howner₂, hread⟩ := h.held k' i' p' hr' hserv
      have hne : i' ≠ i := by
        rintro rfl
        have hp' : p' ≠ .done := fun h => by simp [h, ReaderPhase.Serving] at hserv
        exact hk (ht.only_reader hr (by simp) hr' hp')
      refine ⟨?_, fd₂, by rw [Function.update_of_ne hne, hfd₂],
        owner_after_close howner howner₂ (.inl hk), hread⟩
      rw [hits_append, howner, if_neg (by simpa using fun h => hk h.symm), hzero']
  gone := by
    obtain ⟨hzero, fd', hfd', howner, -⟩ := h.held k i _ hr trivial
    obtain rfl : fd = fd' := Option.some.inj (hfd.symm.trans hfd')
    intro k' i' p' hr' hserv
    rw [hits_append, howner]
    by_cases hk : k' = k
    · subst hk
      rw [hzero, if_pos rfl]
    · rw [Function.update_of_ne hk] at hr'
      rw [if_neg (by simpa using fun h => hk h.symm), h.gone k' i' p' hr' hserv]

/-- `shell_close` takes the input out of the slot. -/
theorem StdinInv.close (h : StdinInv slots readers closers owner closed)
    (ht : TableInv slots readers) (hr : readers k = some ⟨i, p⟩) (hp : p ≠ .done)
    (halive : (slots i).alive = true) (hnew : closers c = none) (ha : slot.alive = false)
    (hin : slot.inFd = none) :
    StdinInv (Function.update slots i slot) readers
      (Function.update closers c (some ⟨k, (slots i).inFd, pid⟩)) owner closed := by
  obtain ⟨hzero, hpend, fd, hfd, howner⟩ := h.held k i p hr hp halive
  have hsame : ∀ k' p', readers k' = some ⟨i, p'⟩ → p' ≠ .done → k' = k := fun _ _ =>
    ht.only_reader hr hp
  have hother : ∀ k', k' ≠ k →
      (Pending (Function.update closers c (some ⟨k, (slots i).inFd, pid⟩)) k' ↔
        Pending closers k') := by
    intro k' hk'
    refine pending_update (fun x hx => by rw [hnew] at hx; cases hx) fun x hx hxk => ?_
    cases hx
    exact absurd hxk.symm hk'
  have hpend_self : Pending (Function.update closers c (some ⟨k, (slots i).inFd, pid⟩)) k :=
    ⟨c, _, Function.update_self .., rfl, by simp [hfd]⟩
  constructor
  · have hold := h.held
    simp only [Function.update_apply] at hother ⊢
    grind
  · have hold := h.emptied
    simp only [Function.update_apply]
    grind
  · intro k' i' p' hr' hend
    by_cases hk : k' = k
    · subst hk
      exact .inl ⟨hpend_self, hzero⟩
    · rw [hother k' hk]
      refine h.gone k' i' p' hr' ?_
      by_cases hi : i' = i
      · subst hi
        by_contra hno
        exact hk (hsame k' p' hr' fun hd => hno (.inl hd))
      · rwa [Function.update_of_ne hi] at hend
  · have hold := h.pending
    simp only [Function.update_apply]
    grind
  · have hold := h.alone
    simp only [Function.update_apply]
    unfold Pending at hpend
    grind

theorem StdinInv.finish (h : StdinInv slots readers closers owner closed)
    (hc : closers c = some ⟨k, some fd, pid⟩) :
    StdinInv slots readers (Function.update closers c (some ⟨k, none, pid⟩))
      (Function.update owner fd none) (closed ++ [owner fd]) := by
  have howner : owner fd = some (.session k .stdin) := h.pending c _ fd hc rfl
  have hpend : Pending closers k := ⟨c, _, hc, rfl, by simp⟩
  have hlast : ¬ Pending (Function.update closers c (some ⟨k, none, pid⟩)) k := by
    rintro ⟨j, d, hj, hd, hne⟩
    by_cases hjc : j = c
    · subst hjc
      rw [Function.update_self] at hj
      cases hj
      exact hne rfl
    · rw [Function.update_of_ne hjc] at hj
      exact hjc (h.alone j c d _ hj hc hd hne (by simp))
  have hother : ∀ k', k' ≠ k →
      (Pending (Function.update closers c (some ⟨k, none, pid⟩)) k' ↔ Pending closers k') := by
    intro k' hk'
    refine pending_update (fun x hx hxk => ?_) fun x hx _ => ?_
    · rw [hc] at hx
      cases hx
      exact absurd hxk.symm hk'
    · cases hx
      rfl
  constructor
  · intro k' i' p' hr' hp' ha'
    obtain ⟨hzero, hno, fd', hfd', howner'⟩ := h.held k' i' p' hr' hp' ha'
    have hk : k' ≠ k := by
      rintro rfl
      exact hno hpend
    refine ⟨?_, fun hp => hno ((hother k' hk).mp hp), fd', hfd',
      owner_after_close howner howner' (.inl hk)⟩
    rw [hits_append, howner, if_neg (by simpa using fun h => hk h.symm), hzero]
  · exact h.emptied
  · intro k' i' p' hr' hend
    rw [hits_append, howner]
    by_cases hk : k' = k
    · subst hk
      rcases h.gone k' i' p' hr' hend with ⟨-, hzero⟩ | ⟨hno, -⟩
      · exact .inr ⟨hlast, by rw [hzero, if_pos rfl]⟩
      · exact absurd hpend hno
    · rw [hother k' hk, if_neg (by simpa using fun h => hk h.symm)]
      exact h.gone k' i' p' hr' hend
  · intro j d fd' hj hfd'
    by_cases hjc : j = c
    · subst hjc
      rw [Function.update_self] at hj
      cases hj
      cases hfd'
    · rw [Function.update_of_ne hjc] at hj
      refine owner_after_close howner (h.pending j d fd' hj hfd') (.inl fun hk => hjc ?_)
      exact h.alone j c d _ hj hc hk (by simp [hfd']) (by simp)
  · have hold := h.alone
    simp only [Function.update_apply]
    grind

/-- A `shell_close` call that is done with its descriptor ends. -/
theorem StdinInv.forget (h : StdinInv slots readers closers owner closed)
    (hc : closers c = some ⟨k, none, pid⟩) :
    StdinInv slots readers (Function.update closers c none) owner closed := by
  have hsame : ∀ k', Pending (Function.update closers c none) k' ↔ Pending closers k' := by
    intro k'
    refine pending_update (fun x hx _ => ?_) fun x hx => by cases hx
    rw [hc] at hx
    cases hx
    rfl
  constructor
  · intro k' i' p' hr' hp' ha'
    rw [hsame]
    exact h.held k' i' p' hr' hp' ha'
  · exact h.emptied
  · intro k' i' p' hr' hend
    rw [hsame]
    exact h.gone k' i' p' hr' hend
  · have hold := h.pending
    simp only [Function.update_apply]
    grind
  · have hold := h.alone
    simp only [Function.update_apply]
    grind

theorem StdinInv.sameIn (h : StdinInv slots readers closers owner closed)
    (ha : slot.alive = (slots i).alive) (hin : slot.inFd = (slots i).inFd) :
    StdinInv (Function.update slots i slot) readers closers owner closed where
  held := by
    have hold := h.held
    simp only [Function.update_apply]
    grind
  emptied := by
    have hold := h.emptied
    simp only [Function.update_apply]
    grind
  gone := by
    have hold := h.gone
    simp only [Function.update_apply]
    grind
  pending := h.pending
  alone := h.alone

theorem StdinInv.drop (h : StdinInv slots readers closers owner closed)
    (ht : TableInv slots readers) (hr : readers k = some ⟨i, p⟩) (hp : p ≠ .done)
    (halive : (slots i).alive = true) (hfd : (slots i).inFd = some fd) (ha : slot.alive = false)
    (hin : slot.inFd = none) :
    StdinInv (Function.update slots i slot) readers closers (Function.update owner fd none)
      (closed ++ [owner fd]) := by
  obtain ⟨hzero, hpend, fd', hfd', howner⟩ := h.held k i p hr hp halive
  obtain rfl : fd = fd' := Option.some.inj (hfd.symm.trans hfd')
  have hsame : ∀ k' p', readers k' = some ⟨i, p'⟩ → p' ≠ .done → k' = k := fun _ _ =>
    ht.only_reader hr hp
  constructor
  · intro k' i' p' hr' hp' ha'
    have hi : i' ≠ i := by
      rintro rfl
      rw [Function.update_self, ha] at ha'
      cases ha'
    rw [Function.update_of_ne hi] at ha' ⊢
    obtain ⟨hzero', hno, fd₂, hfd₂, howner₂⟩ := h.held k' i' p' hr' hp' ha'
    have hk : k' ≠ k := by
      rintro rfl
      rw [hr] at hr'
      cases hr'
      exact hi rfl
    refine ⟨?_, hno, fd₂, hfd₂, owner_after_close howner howner₂ (.inl hk)⟩
    rw [hits_append, howner, if_neg (by simpa using fun h => hk h.symm), hzero']
  · have hold := h.emptied
    simp only [Function.update_apply]
    grind
  · intro k' i' p' hr' hend
    rw [hits_append, howner]
    by_cases hk : k' = k
    · subst hk
      exact .inr ⟨hpend, by rw [hzero, if_pos rfl]⟩
    · rw [if_neg (by simpa using fun h => hk h.symm)]
      refine h.gone k' i' p' hr' ?_
      by_cases hi : i' = i
      · subst hi
        by_contra hno
        exact hk (hsame k' p' hr' fun hd => hno (.inl hd))
      · rwa [Function.update_of_ne hi] at hend
  · intro j d fd₂ hj hfd₂
    refine owner_after_close howner (h.pending j d fd₂ hj hfd₂) (.inl fun hk => hpend ?_)
    exact ⟨j, d, hj, hk, by simp [hfd₂]⟩
  · exact h.alone

end Ending

end QnxHypervisor.GuestShell
