import Mathlib.Data.Fintype.Card
import QnxHypervisor.GuestShell.Ledger

/-! # The slot invariant of the shell sessions

The ledger invariants hold together in every state that the opener, the
readers, the monitor and any number of writes and closes can reach.
-/

namespace QnxHypervisor.GuestShell

open Foundation GuestManager HmsStatus

/-! ## The opener's own descriptors -/

/-- Different numbers that only the opener knows. -/
def Owned (owner : Fd → Option FdOwner) (fds : List Fd) : Prop :=
  fds.Nodup ∧ ∀ fd ∈ fds, owner fd = some .opener

/-- A guest the check of `shell_open` has let through. -/
structure Checked (slots : SlotIx → ShellSlot) (g : Guest) : Prop where
  id : g.id.bytes ≠ []
  unserved : ∀ j, ¬ (slots j).Serves g.id.bytes

def OpenerOk (slots : SlotIx → ShellSlot) (owner : Fd → Option FdOwner) : Opener → Prop
  | .idle | .opened _ => True
  | .checked g => Checked slots g
  | .piped g inR inW outR outW => Checked slots g ∧ Owned owner [inR, inW, outR, outW]
  | .forked g _ inW outR rest => Checked slots g ∧ Owned owner (inW :: outR :: rest)
  | .failing rest => Owned owner rest

/-- No slot starts to serve a guest and the opener's numbers stay its own. -/
structure OpenerFrame (slots slots' : SlotIx → ShellSlot) (owner owner' : Fd → Option FdOwner) :
    Prop where
  serves : ∀ j g, (slots' j).Serves g → (slots j).Serves g
  owner : ∀ fd, owner fd = some .opener → owner' fd = some .opener

theorem OpenerOk.frame {slots slots' : SlotIx → ShellSlot} {owner owner' : Fd → Option FdOwner}
    {o : Opener} (h : OpenerOk slots owner o) (hf : OpenerFrame slots slots' owner owner') :
    OpenerOk slots' owner' o := by
  have hchecked : ∀ g, Checked slots g → Checked slots' g := fun g hg =>
    ⟨hg.id, fun j hj => hg.unserved j (hf.serves j _ hj)⟩
  have howned : ∀ fds, Owned owner fds → Owned owner' fds := fun fds hfds =>
    ⟨hfds.1, fun fd hfd => hf.owner fd (hfds.2 fd hfd)⟩
  cases o with
  | idle => trivial
  | opened g => trivial
  | checked g => exact hchecked g h
  | piped g inR inW outR outW => exact ⟨hchecked g h.1, howned _ h.2⟩
  | forked g pid inW outR rest => exact ⟨hchecked g h.1, howned _ h.2⟩
  | failing rest => exact howned rest h

theorem Owned.perm {owner : Fd → Option FdOwner} {fds fds' : List Fd} (h : Owned owner fds)
    (hp : fds.Perm fds') : Owned owner fds' :=
  ⟨hp.nodup_iff.mp h.1, fun fd hfd => h.2 fd (hp.mem_iff.mpr hfd)⟩

/-- Closing the first of the opener's numbers leaves it the others. -/
theorem Owned.close {owner : Fd → Option FdOwner} {fd : Fd} {rest : List Fd}
    (h : Owned owner (fd :: rest)) : Owned (Function.update owner fd none) rest := by
  obtain ⟨hnew, hnodup⟩ := List.nodup_cons.mp h.1
  refine ⟨hnodup, fun fd' hfd' => ?_⟩
  have hne : fd' ≠ fd := by
    rintro rfl
    exact hnew hfd'
  rw [Function.update_of_ne hne]
  exact h.2 fd' (List.mem_cons_of_mem _ hfd')

/-! ## The invariant -/

structure SlotInv (s : ShellState) : Prop where
  table : TableInv s.slots s.readers
  stdout : StdoutInv s.slots s.readers s.owner s.closed
  stdin : StdinInv s.slots s.readers s.closers s.owner s.closed
  fresh : ∀ k, s.sessions ≤ k →
    s.readers k = none ∧ ¬ Pending s.closers k ∧ ∀ e, hits s.closed k e = 0
  started : ∀ k, k < s.sessions → s.readers k ≠ none
  freshCall : ∀ j, s.closeCalls ≤ j → s.closers j = none
  opener : OpenerOk s.slots s.owner s.opener
  clean : ∀ o ∈ s.closed, o = some .opener ∨ ∃ k e, o = some (.session k e)

theorem shellStart_inv {s : ShellState} (h : ShellStart s) : SlotInv s where
  table :=
    { taken := fun i hi => absurd (h.slots i) hi
      reader := fun k i p hr => by simp [h.readers] at hr
      ended := fun k i p hr => by simp [h.readers] at hr
      distinct := fun i j g hi => by
        have hdead := (h.slots i).1
        rw [hi.1] at hdead
        cases hdead }
  stdout :=
    { held := fun k i p hr => by simp [h.readers] at hr
      gone := fun k i p hr => by simp [h.readers] at hr }
  stdin :=
    { held := fun k i p hr => by simp [h.readers] at hr
      emptied := fun k i p hr => by simp [h.readers] at hr
      gone := fun k i p hr => by simp [h.readers] at hr
      pending := fun j c fd hj => by simp [h.closers] at hj
      alone := fun j j' c c' hj => by simp [h.closers] at hj }
  fresh := fun k _ => ⟨h.readers k, fun ⟨j, c, hj, _⟩ => by simp [h.closers] at hj,
    fun e => by simp [hits, h.closed]⟩
  started := fun k hk => by simp [h.sessions] at hk
  freshCall := fun j _ => h.closers j
  opener := by
    rw [h.opener]
    trivial
  clean := by simp [h.closed]

/-- Steps that leave the sessions' table and descriptors alone. -/
theorem SlotInv.quiet {s s' : ShellState} (h : SlotInv s) (hslots : SameSlots s.slots s'.slots)
    (hreaders : s'.readers = s.readers) (hclosers : s'.closers = s.closers)
    (hsessions : s'.sessions = s.sessions) (hcalls : s'.closeCalls = s.closeCalls)
    (howner : ∀ e, KeepsEnds e s.owner s'.owner)
    (hclosed : s'.closed = s.closed ∨ s'.closed = s.closed ++ [some .opener])
    (hopener : OpenerOk s'.slots s'.owner s'.opener) : SlotInv s' := by
  have hhits : ∀ k e, hits s'.closed k e = hits s.closed k e := by
    intro k e
    rcases hclosed with hc | hc <;> simp [hc]
  constructor
  · rw [hreaders]
    exact h.table.congr hslots
  · rw [hreaders]
    exact h.stdout.congr hslots (howner .stdout) fun k => hhits k _
  · rw [hreaders, hclosers]
    exact h.stdin.congr hslots (howner .stdin) fun k => hhits k _
  · rw [hsessions, hreaders, hclosers]
    intro k hk
    obtain ⟨hr, hp, hz⟩ := h.fresh k hk
    exact ⟨hr, hp, fun e => (hhits k e).trans (hz e)⟩
  · rw [hsessions, hreaders]
    exact h.started
  · rw [hcalls, hclosers]
    exact h.freshCall
  · exact hopener
  · intro o ho
    rcases hclosed with hc | hc
    · exact h.clean o (hc ▸ ho)
    · rw [hc] at ho
      rcases List.mem_append.mp ho with ho | ho
      · exact h.clean o ho
      · exact .inl (List.mem_singleton.mp ho)

theorem SlotInv.openerMove {s : ShellState} (h : SlotInv s) {o : Opener}
    (ho : OpenerOk s.slots s.owner o) : SlotInv { s with opener := o } :=
  h.quiet (sameSlots_refl _) rfl rfl rfl rfl (fun _ _ _ h => h) (.inl rfl) ho

theorem SlotInv.own {s : ShellState} (h : SlotInv s) {fd : Fd} {o : Option FdOwner}
    (hfree : s.owner fd = none ∨ s.owner fd = some .other) (ho : o ≠ none ∨ s.owner fd ≠ none) :
    SlotInv { s with owner := Function.update s.owner fd o } := by
  refine h.quiet (sameSlots_refl _) rfl rfl rfl rfl (fun e => ?_) (.inl rfl) ?_
  · refine keepsEnds_update fun k hk => ?_
    rcases hfree with hf | hf <;> simp [hf] at hk
  · refine h.opener.frame ⟨fun _ _ h => h, fun fd' hfd' => ?_⟩
    have hne : fd' ≠ fd := by
      rintro rfl
      rcases hfree with hf | hf <;> simp [hf] at hfd'
    simpa [Function.update_of_ne hne] using hfd'

/-! ## Steps of the opener -/

section Steps

variable {s : ShellState} {g : Guest} {k : Nat} {i : SlotIx} {p p' : ReaderPhase}

theorem findAlive_none (slots : SlotIx → ShellSlot) (guestId : Bytes) :
    findAlive slots guestId = none ↔ ∀ j, ¬ (slots j).Serves guestId := by
  simp [findAlive]

theorem findAlive_serves {slots : SlotIx → ShellSlot} {guestId : Bytes}
    (h : findAlive slots guestId = some i) : (slots i).Serves guestId := by
  simpa using List.find?_some h

theorem findFree_free {slots : SlotIx → ShellSlot} (h : findFree slots = some i) :
    (slots i).Free := by
  simpa using List.find?_some h

theorem SameSlots.frame {slots slots' : SlotIx → ShellSlot} (h : SameSlots slots slots')
    (owner : Fd → Option FdOwner) : OpenerFrame slots slots' owner owner where
  serves := fun j g hj => by simpa [ShellSlot.Serves, (h j).1, (h j).2.1] using hj
  owner := fun _ h => h

theorem openCheck_inv (h : SlotInv s) (hid : g.id.bytes ≠ []) : SlotInv (openCheck g s) := by
  unfold openCheck
  split
  · exact h
  · split
    · exact h
    · next hnone =>
      rw [Option.not_isSome_iff_eq_none, findAlive_none] at hnone
      exact h.openerMove ⟨hid, hnone⟩

theorem openPipes_eq (g : Guest) (inR inW outR outW : Fd) (s : ShellState) :
    openPipes g inR inW outR outW s =
      { s with
        owner := Function.update (Function.update (Function.update (Function.update s.owner inR
          (some .opener)) inW (some .opener)) outR (some .opener)) outW (some .opener)
        opener := .piped g inR inW outR outW } := by
  simp only [openPipes, ShellState.own]

theorem openPipes_inv {inR inW outR outW : Fd} (h : SlotInv s) (ho : s.opener = .checked g)
    (hfresh : FreshFds s [inR, inW, outR, outW]) : SlotInv (openPipes g inR inW outR outW s) := by
  obtain ⟨hnodup, hnone⟩ := hfresh
  simp only [List.mem_cons, List.not_mem_nil, or_false, forall_eq_or_imp, forall_eq] at hnone
  have hchecked : Checked s.slots g := by simpa [ho, OpenerOk] using h.opener
  rw [openPipes_eq]
  refine h.quiet (sameSlots_refl _) rfl rfl rfl rfl (fun e fd k hfd => ?_) (.inl rfl)
    ⟨hchecked, hnodup, ?_⟩
  · simp only [Function.update_apply]
    grind
  · simp only [Function.update_apply]
    grind

theorem openNoPipes_inv {inR inW : Fd} (h : SlotInv s) (hfresh : FreshFds s [inR, inW]) :
    SlotInv { (s.own inR .other).own inW .other with opener := .idle } := by
  obtain ⟨hnodup, hnone⟩ := hfresh
  have hne : inW ≠ inR := by
    rintro rfl
    simp at hnodup
  have hfirst : SlotInv (s.own inR .other) :=
    h.own (.inl (hnone inR (by simp))) (.inl (by simp))
  have hfree : (s.own inR .other).owner inW = none := by
    simpa [ShellState.own, Function.update_of_ne hne] using hnone inW (by simp)
  have hsecond : SlotInv ((s.own inR .other).own inW .other) :=
    hfirst.own (.inl hfree) (.inl (by simp))
  exact hsecond.openerMove trivial

theorem openClose_inv {fd : Fd} {o : Opener} (h : SlotInv s) (hfd : s.owner fd = some .opener)
    (ho : OpenerOk s.slots (Function.update s.owner fd none) o) :
    SlotInv { s.closeFd fd with opener := o } := by
  refine h.quiet (sameSlots_refl _) rfl rfl rfl rfl (fun e => ?_) (.inr ?_) ho
  · exact keepsEnds_update fun k hk => by simp [hfd] at hk
  · simp [ShellState.closeFd, hfd]

/-! ## A session begins -/

theorem StdoutInv.unused {slots : SlotIx → ShellSlot} {readers : Nat → Option Reader}
    {owner : Fd → Option FdOwner} {closed : List (Option FdOwner)} {slot : ShellSlot}
    (h : StdoutInv slots readers owner closed) (ht : TableInv slots readers)
    (hfree : (slots i).Free) : StdoutInv (Function.update slots i slot) readers owner closed where
  held := by
    have hold := h.held
    have hunused := fun k p => ht.free_unused (k := k) (p := p) hfree
    simp only [Function.update_apply]
    grind [ReaderPhase.Serving]
  gone := h.gone

theorem StdinInv.unused {slots : SlotIx → ShellSlot} {readers : Nat → Option Reader}
    {closers : Nat → Option Closer} {owner : Fd → Option FdOwner}
    {closed : List (Option FdOwner)} {slot : ShellSlot}
    (h : StdinInv slots readers closers owner closed) (ht : TableInv slots readers)
    (hfree : (slots i).Free) :
    StdinInv (Function.update slots i slot) readers closers owner closed where
  held := by
    have hold := h.held
    have hunused := fun k p => ht.free_unused (k := k) (p := p) hfree
    simp only [Function.update_apply]
    grind
  emptied := by
    have hold := h.emptied
    have hunused := fun k p => ht.free_unused (k := k) (p := p) hfree
    simp only [Function.update_apply]
    grind
  gone := by
    have hold := h.gone
    have hunused := fun k p => ht.free_unused (k := k) (p := p) hfree
    simp only [Function.update_apply]
    grind
  pending := h.pending
  alone := h.alone

theorem openSlot_inv {pid : Nat} {inW outR : Fd} {now : Int} {threadOk : Bool} (h : SlotInv s)
    (ho : s.opener = .forked g pid inW outR []) :
    SlotInv (openSlot g pid inW outR now threadOk s) := by
  obtain ⟨hchecked, hnodup, howned⟩ : Checked s.slots g ∧ Owned s.owner [inW, outR] := by
    simpa [ho, OpenerOk] using h.opener
  have hin : s.owner inW = some .opener := howned inW (by simp)
  have hout : s.owner outR = some .opener := howned outR (by simp)
  have hne : inW ≠ outR := by simpa using hnodup
  unfold openSlot
  split
  · exact h.openerMove ⟨hnodup, howned⟩
  · next i hfind =>
    have hfree := findFree_free hfind
    obtain ⟨hnoreader, hnopending, hnohits⟩ := h.fresh s.sessions le_rfl
    have hkeeps : ∀ e, KeepsEnds e s.owner (Function.update (Function.update s.owner inW
        (some (.session s.sessions .stdin))) outR (some (.session s.sessions .stdout))) := by
      intro e fd k hfd
      simp only [Function.update_apply]
      grind
    split
    · refine ⟨?_, ?_, ?_, ?_, fun k hk => ?_, h.freshCall, trivial, h.clean⟩
      · exact h.table.open hfree hnoreader rfl hchecked.id hchecked.unserved
      · exact h.stdout.open h.table hfree rfl (hkeeps .stdout)
          (by simp [ShellState.own, ShellState.setReader, ShellState.setSlot]) (hnohits .stdout)
      · refine h.stdin.open h.table hfree rfl (hkeeps .stdin) ?_ (hnohits .stdin) hnopending rfl
        simp [ShellState.own, ShellState.setReader, ShellState.setSlot, Function.update_of_ne hne]
      · intro k hk
        obtain ⟨hr, hp, hz⟩ := h.fresh k (Nat.le_of_succ_le hk)
        have hks : k ≠ s.sessions := Nat.ne_of_gt hk
        exact ⟨by simpa [ShellState.own, ShellState.setReader, ShellState.setSlot,
          Function.update_of_ne hks] using hr, hp, hz⟩
      · by_cases hks : k = s.sessions
        · simp [ShellState.own, ShellState.setReader, ShellState.setSlot, hks]
        · have hold := h.started k (Nat.lt_of_le_of_ne (Nat.le_of_lt_succ hk) hks)
          simpa [ShellState.own, ShellState.setReader, ShellState.setSlot,
            Function.update_of_ne hks] using hold
    · -- the reader thread could not be started: the slot stays free
      refine ⟨?_, h.stdout.unused h.table hfree, h.stdin.unused h.table hfree, h.fresh,
        h.started, h.freshCall, ⟨hnodup, howned⟩, h.clean⟩
      exact h.table.retire rfl hfree.2.symm rfl

/-! ## Writes and closes -/

theorem SlotInv.published (h : SlotInv s) (messages : List StatusMessage) :
    SlotInv { s with published := messages } :=
  h.quiet (sameSlots_refl _) rfl rfl rfl rfl (fun _ _ _ h => h) (.inl rfl) h.opener

theorem SlotInv.monitored (h : SlotInv s) (left : Option (List Bytes)) :
    SlotInv { s with monitor := left } :=
  h.quiet (sameSlots_refl _) rfl rfl rfl rfl (fun _ _ _ h => h) (.inl rfl) h.opener

theorem SlotInv.activity (h : SlotInv s) (i : SlotIx) (now : Int) :
    SlotInv (s.setSlot i { s.slots i with lastActivity := now }) := by
  have hsame := sameSlots_activity s.slots i now
  exact h.quiet hsame rfl rfl rfl rfl (fun _ _ _ h => h) (.inl rfl) (h.opener.frame (hsame.frame _))

theorem shellWrite_inv {guestId : Bytes} {ok : Bool} {now : Int} (h : SlotInv s) :
    SlotInv (shellWrite guestId ok now s) := by
  unfold shellWrite
  split
  · exact h
  · next i _ =>
    split
    · exact h.activity i now
    · exact h

theorem SlotInv.opened (h : SlotInv s) {r : Reader} (hr : s.readers k = some r) :
    k < s.sessions := by
  by_contra hk
  rw [(h.fresh k (Nat.le_of_not_lt hk)).1] at hr
  cases hr

theorem shellClose_inv {guestId : Bytes} (h : SlotInv s) : SlotInv (shellClose guestId s) := by
  unfold shellClose
  split
  · exact h
  · next i hfind =>
    have halive : (s.slots i).alive = true := (findAlive_serves hfind).1
    have htaken : ¬ (s.slots i).Free := fun hfree => by
      rw [hfree.1] at halive
      cases halive
    obtain ⟨p, hr, hp⟩ := h.table.taken i htaken
    have hnew : s.closers s.closeCalls = none := h.freshCall _ le_rfl
    refine ⟨h.table.retire rfl rfl rfl, h.stdout.sameOut rfl,
      h.stdin.close h.table hr hp halive hnew rfl rfl, fun k hk => ?_, h.started, fun j hj => ?_,
      h.opener.frame ⟨fun j g => ?_, fun _ h => h⟩, h.clean⟩
    · obtain ⟨hnone, hpend, hz⟩ := h.fresh k hk
      refine ⟨hnone, ?_, hz⟩
      rwa [pending_update (fun x hx => by rw [hnew] at hx; cases hx) fun x hx hxk => ?_]
      cases hx
      exact absurd (h.opened hr) (Nat.not_lt.mpr (hk.trans_eq hxk.symm))
    · have hjc : j ≠ s.closeCalls := Nat.ne_of_gt hj
      simpa [Function.update_of_ne hjc] using h.freshCall j (Nat.le_of_succ_le hj)
    · simp only [ShellState.setSlot, Function.update_apply]
      grind [ShellSlot.Serves]

/-- Closing ends of opened sessions concerns neither later sessions nor the opener. -/
structure CloseFrame (sessions : Nat) (owner owner' : Fd → Option FdOwner)
    (closed closed' : List (Option FdOwner)) : Prop where
  hits : ∀ k e, sessions ≤ k → hits closed' k e = hits closed k e
  opener : ∀ fd, owner fd = some .opener → owner' fd = some .opener
  clean : ∀ o ∈ closed', o ∈ closed ∨ ∃ k e, o = some (.session k e)

theorem closeFrame_end {sessions : Nat} {owner : Fd → Option FdOwner} {fd : Fd} {e : PipeEnd}
    (closed : List (Option FdOwner)) (howner : owner fd = some (.session k e))
    (hk : k < sessions) :
    CloseFrame sessions owner (Function.update owner fd none) closed (closed ++ [owner fd]) where
  hits := by
    intro k' e' hk'
    have hne : k ≠ k' := Nat.ne_of_lt (hk.trans_le hk')
    simp [howner, hne]
  opener := by
    intro fd' hfd'
    have hne : fd' ≠ fd := by
      rintro rfl
      rw [howner] at hfd'
      cases hfd'
    rw [Function.update_of_ne hne, hfd']
  clean := by
    intro o ho
    rcases List.mem_append.mp ho with ho | ho
    · exact .inl ho
    · exact .inr ⟨k, e, (List.mem_singleton.mp ho).trans howner⟩

theorem CloseFrame.trans {sessions : Nat} {o₁ o₂ o₃ : Fd → Option FdOwner}
    {c₁ c₂ c₃ : List (Option FdOwner)} (h₁ : CloseFrame sessions o₁ o₂ c₁ c₂)
    (h₂ : CloseFrame sessions o₂ o₃ c₂ c₃) : CloseFrame sessions o₁ o₃ c₁ c₃ where
  hits k e hk := (h₂.hits k e hk).trans (h₁.hits k e hk)
  opener fd hfd := h₂.opener fd (h₁.opener fd hfd)
  clean o ho := (h₂.clean o ho).elim (h₁.clean o) .inr

theorem SlotInv.closeFrame (h : SlotInv s) {owner' : Fd → Option FdOwner}
    {closed' : List (Option FdOwner)}
    (hf : CloseFrame s.sessions s.owner owner' s.closed closed') :
    (∀ k, s.sessions ≤ k → ∀ e, hits closed' k e = 0) ∧
      (∀ o ∈ closed', o = some .opener ∨ ∃ k e, o = some (.session k e)) :=
  ⟨fun k hk e => (hf.hits k e hk).trans ((h.fresh k hk).2.2 e), fun o ho =>
    (hf.clean o ho).elim (h.clean o) .inr⟩

theorem closerClose_inv {j fd pid : Nat} (h : SlotInv s) (hc : s.closers j = some ⟨k, some fd, pid⟩) :
    SlotInv { s.closeFd fd with closers := Function.update s.closers j (some ⟨k, none, pid⟩) } := by
  have howner : s.owner fd = some (.session k .stdin) := h.stdin.pending j _ fd hc rfl
  have hpend : Pending s.closers k := ⟨j, _, hc, rfl, by simp⟩
  have hopened : k < s.sessions := by
    by_contra hk
    exact (h.fresh k (Nat.le_of_not_lt hk)).2.1 hpend
  have hframe := closeFrame_end s.closed howner hopened
  obtain ⟨hz, hclean⟩ := h.closeFrame hframe
  refine ⟨h.table, ?_, h.stdin.finish hc, fun k' hk' => ⟨(h.fresh k' hk').1, ?_, hz k' hk'⟩,
    h.started, fun j' hj' => ?_, h.opener.frame ⟨fun _ _ h => h, hframe.opener⟩, hclean⟩
  · refine h.stdout.congr (sameSlots_refl _) (keepsEnds_update fun k' => by simp [howner]) ?_
    intro k'
    simp [ShellState.closeFd, howner]
  · rw [pending_update (fun x hx hxk => ?_) fun x hx _ => ?_]
    · exact (h.fresh k' hk').2.1
    · rw [hc] at hx
      cases hx
      exact absurd hxk (Nat.ne_of_lt (hopened.trans_le hk'))
    · cases hx
      rfl
  · have hjj : j' ≠ j := by
      rintro rfl
      rw [h.freshCall j' hj'] at hc
      cases hc
    simpa [Function.update_of_ne hjj] using h.freshCall j' hj'

theorem closerKill_inv {j pid : Nat} (h : SlotInv s) (hc : s.closers j = some ⟨k, none, pid⟩) :
    SlotInv { s with closers := Function.update s.closers j none } := by
  refine ⟨h.table, h.stdout, h.stdin.forget hc, fun k' hk' => ?_, h.started, fun j' hj' => ?_,
    h.opener, h.clean⟩
  · obtain ⟨hnone, hno, hz⟩ := h.fresh k' hk'
    refine ⟨hnone, ?_, hz⟩
    rwa [pending_update (fun x hx _ => ?_) fun x hx => by cases hx]
    rw [hc] at hx
    cases hx
    rfl
  · by_cases hjj : j' = j
    · simp [hjj]
    · simpa [Function.update_of_ne hjj] using h.freshCall j' hj'

/-! ## Steps of a reader -/

theorem SlotInv.freshUpdate (h : SlotInv s) {r r' : Reader} (hr : s.readers k = some r) (k' : Nat)
    (hk' : s.sessions ≤ k') : Function.update s.readers k (some r') k' = none := by
  have hne : k' ≠ k := fun hk => absurd (h.opened (hk ▸ hr)) (Nat.not_lt.mpr hk')
  rw [Function.update_of_ne hne]
  exact (h.fresh k' hk').1

theorem SlotInv.startedUpdate (h : SlotInv s) {r : Reader} (k' : Nat) (hk' : k' < s.sessions) :
    Function.update s.readers k (some r) k' ≠ none := by
  by_cases hk : k' = k
  · simp [hk]
  · rw [Function.update_of_ne hk]
    exact h.started k' hk'

theorem SlotInv.readerMove (h : SlotInv s) (hr : s.readers k = some ⟨i, p⟩) (hp : p ≠ .done)
    (hp' : p' ≠ .done) (hserv : p'.Serving ↔ p.Serving)
    (hread : ∀ fd, p' = .reading fd → (s.slots i).outFd = some fd) :
    SlotInv (s.setReader k ⟨i, p'⟩) where
  table := h.table.move hr hp hp' fun hs => h.table.ended k i p hr (mt hserv.mpr hs) hp
  stdout := h.stdout.move hr hserv hread
  stdin := h.stdin.move hr hp fun hd => absurd hd hp'
  fresh k' hk' := ⟨h.freshUpdate hr k' hk', (h.fresh k' hk').2⟩
  started := h.startedUpdate
  freshCall := h.freshCall
  opener := h.opener
  clean := h.clean

theorem readerForward_inv {fd : Fd} {chunk : Bytes} {now : Int} (h : SlotInv s)
    (hr : s.readers k = some ⟨i, .reading fd⟩) : SlotInv (readerForward k i chunk now s) := by
  refine SlotInv.readerMove (p := .reading fd) ((h.published _).activity i now) hr (by simp)
    (by simp) (by simp [ReaderPhase.Serving]) (by simp)

/-- The session's slot behind its read loop. -/
def leftSlot (slot : ShellSlot) : ShellSlot :=
  { slot with alive := false, outFd := none, inFd := none, pid := 0 }

theorem readerLeave_inv (h : SlotInv s) (hr : s.readers k = some ⟨i, .leaving⟩) :
    SlotInv (readerLeave k i s) := by
  obtain ⟨-, fdOut, hfdOut, hownerOut, -⟩ := h.stdout.held k i _ hr trivial
  have htable : TableInv (Function.update s.slots i (leftSlot (s.slots i)))
      (Function.update s.readers k (some ⟨i, .announcing⟩)) := by
    have hretired : TableInv (Function.update s.slots i (leftSlot (s.slots i))) s.readers :=
      h.table.retire rfl rfl rfl
    refine hretired.move hr (by simp) (by simp) fun _ => ?_
    simp [leftSlot]
  have hstdout : StdoutInv (Function.update s.slots i (leftSlot (s.slots i)))
      (Function.update s.readers k (some ⟨i, .announcing⟩)) (Function.update s.owner fdOut none)
      (s.closed ++ [s.owner fdOut]) := h.stdout.leave h.table hr hfdOut
  have hstdin : StdinInv s.slots s.readers s.closers (Function.update s.owner fdOut none)
      (s.closed ++ [s.owner fdOut]) := by
    refine h.stdin.congr (sameSlots_refl _) (keepsEnds_update fun k' => by simp [hownerOut]) ?_
    intro k'
    simp [hownerOut]
  have hserves : ∀ j g, (Function.update s.slots i (leftSlot (s.slots i)) j).Serves g →
      (s.slots j).Serves g := by
    simp only [Function.update_apply]
    grind [ShellSlot.Serves, leftSlot]
  have hopened := h.opened hr
  have hframe := closeFrame_end s.closed hownerOut hopened
  cases hfdIn : (s.slots i).inFd with
  | none =>
    have hdead : (s.slots i).alive = false := by
      by_contra halive
      obtain ⟨-, -, fd, hfd, -⟩ := h.stdin.held k i _ hr (by simp) (by simpa using halive)
      rw [hfdIn] at hfd
      cases hfd
    have hleave : readerLeave k i s = ((s.closeFd fdOut).setSlot i (leftSlot (s.slots i))).setReader
        k ⟨i, .announcing⟩ := by
      simp [readerLeave, hfdOut, hfdIn, ShellState.closeFd?, leftSlot]
    rw [hleave]
    obtain ⟨hz, hclean⟩ := h.closeFrame hframe
    refine ⟨htable, hstdout, ?_, fun k' hk' => ⟨h.freshUpdate hr k' hk', (h.fresh k' hk').2.1,
      hz k' hk'⟩, h.startedUpdate, h.freshCall, h.opener.frame ⟨hserves, hframe.opener⟩, hclean⟩
    have hleft : StdinInv (Function.update s.slots i (leftSlot (s.slots i))) s.readers s.closers
        (Function.update s.owner fdOut none) (s.closed ++ [s.owner fdOut]) :=
      hstdin.sameIn hdead.symm hfdIn.symm
    exact hleft.move hr (by simp) (by simp)
  | some fdIn =>
    have halive : (s.slots i).alive = true := by
      by_contra hdead
      have hnone := h.stdin.emptied k i _ hr (by simp) (by simpa using hdead)
      rw [hfdIn] at hnone
      cases hnone
    obtain ⟨-, -, fd, hfd, howner⟩ := hstdin.held k i _ hr (by simp) halive
    obtain rfl : fdIn = fd := Option.some.inj (hfdIn.symm.trans hfd)
    have hleave : readerLeave k i s = (((s.closeFd fdOut).closeFd fdIn).setSlot i
        (leftSlot (s.slots i))).setReader k ⟨i, .announcing⟩ := by
      simp [readerLeave, hfdOut, hfdIn, ShellState.closeFd?, leftSlot]
    rw [hleave]
    have hframe₂ := hframe.trans (closeFrame_end _ howner hopened)
    obtain ⟨hz, hclean⟩ := h.closeFrame hframe₂
    refine ⟨htable, ?_, ?_, fun k' hk' => ⟨h.freshUpdate hr k' hk', (h.fresh k' hk').2.1,
      hz k' hk'⟩, h.startedUpdate, h.freshCall, h.opener.frame ⟨hserves, hframe₂.opener⟩, hclean⟩
    · refine hstdout.congr (sameSlots_refl _) (keepsEnds_update fun k' => by simp [howner]) ?_
      intro k'
      have hsame : hits (s.closed ++ [s.owner fdOut] ++ [Function.update s.owner fdOut none fdIn])
          k' .stdout = hits (s.closed ++ [s.owner fdOut]) k' .stdout := by
        rw [hits_append, howner]
        simp
      exact hsame
    · have hleft : StdinInv (Function.update s.slots i (leftSlot (s.slots i))) s.readers s.closers
          (Function.update (Function.update s.owner fdOut none) fdIn none)
          (s.closed ++ [s.owner fdOut] ++ [Function.update s.owner fdOut none fdIn]) :=
        hstdin.drop h.table hr (by simp) halive hfdIn rfl rfl
      exact hleft.move hr (by simp) (by simp)

theorem readerAnnounce_inv (h : SlotInv s) (hr : s.readers k = some ⟨i, .announcing⟩) :
    SlotInv (readerAnnounce k i s) := by
  refine SlotInv.readerMove (p := .announcing) (h.published _) hr (by simp) (by simp) ?_ (by simp)
  simp [ReaderPhase.Serving]

theorem readerRelease_inv (h : SlotInv s) (hr : s.readers k = some ⟨i, .releasing⟩) :
    SlotInv (readerRelease k i s) := by
  have hdead : (s.slots i).alive = false :=
    h.table.ended k i _ hr (by simp [ReaderPhase.Serving]) (by simp)
  refine ⟨h.table.release hr (by simp) hdead hdead rfl, ?_, ?_,
    fun k' hk' => ⟨h.freshUpdate hr k' hk', (h.fresh k' hk').2⟩, h.startedUpdate, h.freshCall,
    h.opener.frame ⟨fun j g => ?_, fun _ h => h⟩, h.clean⟩
  · exact StdoutInv.move (p := .releasing) (h.stdout.sameOut rfl) hr
      (by simp [ReaderPhase.Serving]) (by simp)
  · refine StdinInv.move (p := .releasing) (h.stdin.sameIn rfl rfl) hr (by simp) fun _ => ?_
    simpa [readerRelease, ShellState.setReader, ShellState.setSlot] using hdead
  · simp only [readerRelease, ShellState.setReader, ShellState.setSlot, Function.update_apply]
    grind [ShellSlot.Serves]

/-! ## Every step keeps the invariant -/

theorem openerStep_inv {s' : ShellState} {e : ShellEvent} (h : SlotInv s)
    (hs : openerStep s e = some s') : SlotInv s' := by
  have hopener := h.opener
  unfold openerStep at hs
  split at hs
  case h_1 g =>
    split at hs
    · split at hs
      · cases hs
      · next hid =>
        obtain rfl := Option.some.inj hs
        exact openCheck_inv h hid
    · cases hs
  case h_2 inR inW outR outW =>
    split at hs
    · next g ho =>
      split at hs
      · next hfresh =>
        obtain rfl := Option.some.inj hs
        exact openPipes_inv h ho hfresh
      · cases hs
    · cases hs
  case h_3 left =>
    split at hs
    · obtain rfl := Option.some.inj hs
      exact h.openerMove trivial
    · split at hs
      · next hfresh =>
        obtain rfl := Option.some.inj hs
        exact openNoPipes_inv h hfresh
      · cases hs
    · cases hs
  case h_4 pid =>
    split at hs
    · next g inR inW outR outW ho =>
      obtain rfl := Option.some.inj hs
      rw [ho] at hopener
      exact h.openerMove ⟨hopener.1, hopener.2.perm
        ((List.Perm.swap inW inR _).trans ((List.Perm.swap outR inR _).cons inW))⟩
    · cases hs
  case h_5 =>
    split at hs
    · next g inR inW outR outW ho =>
      obtain rfl := Option.some.inj hs
      rw [ho] at hopener
      exact h.openerMove hopener.2
    · cases hs
  case h_6 =>
    split at hs
    · next g pid inW outR fd rest ho =>
      obtain rfl := Option.some.inj hs
      rw [ho] at hopener
      have howned : Owned s.owner (fd :: inW :: outR :: rest) := hopener.2.perm
        (((List.Perm.swap fd outR rest).cons inW).trans (List.Perm.swap fd inW _))
      exact openClose_inv h (howned.2 fd (by simp)) ⟨hopener.1, howned.close⟩
    · next fd rest ho =>
      obtain rfl := Option.some.inj hs
      rw [ho] at hopener
      exact openClose_inv h (hopener.2 fd (by simp)) hopener.close
    · cases hs
  case h_7 now threadOk =>
    split at hs
    · next g pid inW outR ho =>
      obtain rfl := Option.some.inj hs
      exact openSlot_inv h ho
    · cases hs
  case h_8 =>
    split at hs
    · obtain rfl := Option.some.inj hs
      exact h.openerMove trivial
    · cases hs
  case h_9 monitorOk =>
    split at hs
    · obtain rfl := Option.some.inj hs
      exact h.quiet (sameSlots_refl _) rfl rfl rfl rfl (fun _ _ _ h => h) (.inl rfl) trivial
    · cases hs
  case h_10 => cases hs

theorem readerStep_inv {s' : ShellState} {e : ShellEvent} (h : SlotInv s)
    (hs : readerStep s e = some s') : SlotInv s' := by
  unfold readerStep at hs
  split at hs
  case h_1 k =>
    split at hs
    · next i hr =>
      split at hs
      · split at hs
        · next fd hfd =>
          obtain rfl := Option.some.inj hs
          refine h.readerMove hr (by simp) (by simp) (by simp [ReaderPhase.Serving]) ?_
          rintro fd' ⟨⟩
          exact hfd
        · obtain rfl := Option.some.inj hs
          exact h.readerMove hr (by simp) (by simp) (by simp [ReaderPhase.Serving]) (by simp)
      · obtain rfl := Option.some.inj hs
        exact h.readerMove hr (by simp) (by simp) (by simp [ReaderPhase.Serving]) (by simp)
    · cases hs
  case h_2 k answer =>
    split at hs
    · next i fd hr =>
      cases answer with
      | data chunk now =>
        obtain rfl := Option.some.inj hs
        exact readerForward_inv h hr
      | interrupted | ended =>
        obtain rfl := Option.some.inj hs
        exact h.readerMove hr (by simp) (by simp) (by simp [ReaderPhase.Serving]) (by simp)
    · cases hs
  case h_3 k =>
    split at hs
    · next i hr =>
      obtain rfl := Option.some.inj hs
      exact readerLeave_inv h hr
    · cases hs
  case h_4 k =>
    split at hs
    · next i hr =>
      obtain rfl := Option.some.inj hs
      exact readerAnnounce_inv h hr
    · cases hs
  case h_5 k =>
    split at hs
    · next i hr =>
      obtain rfl := Option.some.inj hs
      exact readerRelease_inv h hr
    · cases hs
  case h_6 => cases hs

theorem slotInv_step {s' : ShellState} {e : ShellEvent} (h : SlotInv s)
    (hs : shellStep s e = some s') : SlotInv s' := by
  unfold shellStep at hs
  split at hs
  case h_1 guestId ok now =>
    obtain rfl := Option.some.inj hs
    exact shellWrite_inv h
  case h_2 guestId =>
    obtain rfl := Option.some.inj hs
    exact shellClose_inv h
  case h_3 j =>
    split at hs
    · next k fd pid hc =>
      obtain rfl := Option.some.inj hs
      exact closerClose_inv h hc
    · cases hs
  case h_4 j =>
    split at hs
    · next k pid hc =>
      obtain rfl := Option.some.inj hs
      exact closerKill_inv h hc
    · cases hs
  case h_5 now =>
    split at hs
    · obtain rfl := Option.some.inj hs
      exact h.monitored _
    · cases hs
  case h_6 =>
    split at hs
    · obtain rfl := Option.some.inj hs
      exact (shellClose_inv h).monitored _
    · cases hs
  case h_7 fd =>
    split at hs
    · next hnone =>
      obtain rfl := Option.some.inj hs
      exact h.own (.inl hnone) (.inl (by simp))
    · cases hs
  case h_8 fd =>
    split at hs
    · next hother =>
      obtain rfl := Option.some.inj hs
      exact h.own (.inr hother) (.inr (by simp [hother]))
    · cases hs
  case h_9 =>
    rcases Option.or_eq_some_iff.mp hs with ho | ⟨-, hr⟩
    · exact openerStep_inv h ho
    · exact readerStep_inv h hr

theorem slotInv_reachable (h : shellMachine.Reachable s) : SlotInv s :=
  h.invariant (fun _ => shellStart_inv) fun _ _ _ _ hinv _ hs => slotInv_step hinv hs

end Steps

/-! ## What the sessions promise -/

/-- The reader thread of session `k` works on slot `i` and has not finished. -/
def WorksOn (s : ShellState) (k : Nat) (i : SlotIx) : Prop :=
  ∃ p, s.readers k = some ⟨i, p⟩ ∧ p ≠ .done

/-- Who may still use a descriptor number of session `k`: `shell_write` through
an alive slot, the reader until it has left its loop, a pending `shell_close`. -/
inductive Holds (s : ShellState) : Nat → PipeEnd → Fd → Prop
  | writer {i : SlotIx} {fd : Fd} (halive : (s.slots i).alive = true)
      (hfd : (s.slots i).inFd = some fd) : Holds s (s.slots i).session .stdin fd
  | loop {k : Nat} {i : SlotIx} {p : ReaderPhase} {fd : Fd} (hr : s.readers k = some ⟨i, p⟩)
      (hserv : p.Serving) (hfd : (s.slots i).outFd = some fd) : Holds s k .stdout fd
  | read {k : Nat} {i : SlotIx} {fd : Fd} (hr : s.readers k = some ⟨i, .reading fd⟩) :
      Holds s k .stdout fd
  | closer {j : Nat} {c : Closer} {fd : Fd} (hc : s.closers j = some c) (hfd : c.inFd = some fd) :
      Holds s c.session .stdin fd

structure SlotsSound (s : ShellState) : Prop where
  bounded : ∀ ks : List Nat, ks.Nodup → (∀ k ∈ ks, ∃ i, WorksOn s k i) →
    ks.length ≤ shellMaxSessions
  served : ∀ i, ¬ (s.slots i).Free → ∃! k, WorksOn s k i
  handOver : ∀ i, (s.slots i).Free → ∀ k p, s.readers k = some ⟨i, p⟩ → p = .done
  distinct : ∀ i j, (s.slots i).alive = true → (s.slots j).alive = true →
    (s.slots i).guestId = (s.slots j).guestId → i = j
  atMostOnce : ∀ k e, hits s.closed k e ≤ 1
  once : ∀ k i, s.readers k = some ⟨i, .done⟩ → ¬ Pending s.closers k →
    ∀ e, hits s.closed k e = 1
  /-- no `close` hits a number that is free or stands for something else -/
  closedOwn : ∀ o ∈ s.closed, o = some .opener ∨ ∃ k e, o = some (.session k e)
  held : ∀ k e fd, Holds s k e fd → s.owner fd = some (.session k e)

theorem TableInv.bounded {slots : SlotIx → ShellSlot} {readers : Nat → Option Reader}
    (h : TableInv slots readers) (ks : List Nat) (hnodup : ks.Nodup)
    (hks : ∀ k ∈ ks, ∃ i p, readers k = some ⟨i, p⟩ ∧ p ≠ .done) :
    ks.length ≤ shellMaxSessions := by
  have hsub : ks ⊆ (List.finRange shellMaxSessions).map fun i => (slots i).session := by
    intro k hk
    obtain ⟨i, p, hr, hp⟩ := hks k hk
    exact List.mem_map.mpr ⟨i, List.mem_finRange i, (h.reader k i p hr hp).1⟩
  simpa using (List.subperm_of_subset hnodup hsub).length_le

section Sound

variable {s : ShellState}

theorem SlotInv.ended_hits (h : SlotInv s) {k : Nat} {i : SlotIx}
    (hr : s.readers k = some ⟨i, .done⟩) (hpend : ¬ Pending s.closers k) (e : PipeEnd) :
    hits s.closed k e = 1 := by
  cases e with
  | stdin =>
    rcases h.stdin.gone k i _ hr (.inl rfl) with ⟨hp, -⟩ | ⟨-, hone⟩
    · exact absurd hp hpend
    · exact hone
  | stdout => exact h.stdout.gone k i _ hr (by simp [ReaderPhase.Serving])

theorem SlotInv.hits_le (h : SlotInv s) (k : Nat) (e : PipeEnd) : hits s.closed k e ≤ 1 := by
  by_cases hk : s.sessions ≤ k
  · exact ((h.fresh k hk).2.2 e).trans_le zero_le_one
  · obtain ⟨⟨i, p⟩, hr⟩ := Option.ne_none_iff_exists'.mp (h.started k (Nat.lt_of_not_le hk))
    cases e with
    | stdin =>
      by_cases hover : p = .done ∨ (s.slots i).alive = false
      · rcases h.stdin.gone k i p hr hover with ⟨-, hzero⟩ | ⟨-, hone⟩
        · exact hzero.trans_le zero_le_one
        · exact hone.le
      · rw [not_or] at hover
        exact (h.stdin.held k i p hr hover.1 (by simpa using hover.2)).1.trans_le zero_le_one
    | stdout =>
      by_cases hserv : p.Serving
      · exact (h.stdout.held k i p hr hserv).1.trans_le zero_le_one
      · exact (h.stdout.gone k i p hr hserv).le

/-- Every holder's number is open and still stands for the holder's pipe end. -/
theorem SlotInv.held (h : SlotInv s) {k : Nat} {e : PipeEnd} {fd : Fd} (hh : Holds s k e fd) :
    s.owner fd = some (.session k e) := by
  cases hh with
  | @writer i fd halive hfd =>
    have htaken : ¬ (s.slots i).Free := fun hfree => by
      rw [hfree.1] at halive
      cases halive
    obtain ⟨p, hr, hp⟩ := h.table.taken i htaken
    obtain ⟨-, -, fd', hfd', howner⟩ := h.stdin.held _ i p hr hp halive
    rwa [Option.some.inj (hfd.symm.trans hfd')]
  | loop hr hserv hfd =>
    obtain ⟨-, fd', hfd', howner, -⟩ := h.stdout.held _ _ _ hr hserv
    rwa [Option.some.inj (hfd.symm.trans hfd')]
  | read hr =>
    obtain ⟨-, fd', -, howner, hread⟩ := h.stdout.held _ _ _ hr trivial
    rwa [hread _ rfl]
  | closer hc hfd => exact h.stdin.pending _ _ _ hc hfd

theorem slots_sound (h : shellMachine.Reachable s) : SlotsSound s := by
  have hinv := slotInv_reachable h
  refine ⟨fun ks hnodup hks => ?_, fun i hi => ?_, fun i hfree k p hr => ?_,
    fun i j hi hj hid => ?_, hinv.hits_le, fun k i hr hpend => hinv.ended_hits hr hpend,
    hinv.clean, fun k e fd hh => hinv.held hh⟩
  · exact hinv.table.bounded ks hnodup hks
  · obtain ⟨p, hr, hp⟩ := hinv.table.taken i hi
    refine ⟨(s.slots i).session, ⟨p, hr, hp⟩, ?_⟩
    rintro k ⟨q, hq, hqd⟩
    exact (hinv.table.reader k i q hq hqd).1.symm
  · exact hinv.table.free_unused hfree hr
  · exact hinv.table.distinct i j (s.slots j).guestId ⟨hi, hid⟩ ⟨hj, rfl⟩

end Sound

def bareShell : ShellState where
  slots := fun _ => ⟨[], 0, none, none, false, 0, 0⟩
  opener := .idle
  readers := fun _ => none
  sessions := 0
  closers := fun _ => none
  closeCalls := 0
  monitor := none
  owner := fun _ => none
  closed := []
  published := []

theorem bareShell_start : ShellStart bareShell := by
  refine ⟨fun i => ⟨rfl, rfl⟩, rfl, fun _ => rfl, rfl, fun _ => rfl, rfl, fun _ => .inl rfl, rfl, rfl⟩

def shellGuest : Guest where
  id := .fit 32 (utf8 "vm1")
  name := .fit 64 (utf8 "vm1")
  type := .linux
  state := .running
  pid := 7
  confPath := .fit 256 []
  bootPath := .fit 256 []
  rootfsPath := .fit 256 []
  ip := .fit 64 (utf8 "10.0.0.2")
  sshUser := .fit 64 (utf8 "root")
  sshPassword := .fit 128 []
  sshKey := .fit 512 []
  sshPort := 22

/-- A session that is open, closed by a `shell_close` and still read from. -/
theorem slots_sound_closing :
    ∃ (s : ShellState) (i : SlotIx),
      (s.slots i).alive = false ∧ ¬ (s.slots i).Free ∧ SlotsSound s := by
  have hstart : shellMachine.Reachable bareShell := .initial bareShell_start
  have hcheck := hstart.step (e := .openCheck shellGuest) trivial rfl
  have hpipes := hcheck.step (e := .openPipes 3 4 5 6) trivial rfl
  have hfork := hpipes.step (e := .openFork 100) trivial rfl
  have hclose := hfork.step (e := .openClose) trivial rfl
  have hclosed := hclose.step (e := .openClose) trivial rfl
  have hslot := hclosed.step (e := .openSlot 0 true) trivial rfl
  have hend := hslot.step (e := .close (utf8 "vm1")) trivial rfl
  exact ⟨_, ⟨0, by decide⟩, by rfl, by decide, slots_sound hend⟩

end QnxHypervisor.GuestShell
