import QnxHypervisor.GuestShell.Slots
import QnxHypervisor.GuestShell.Steps

/-! # Descriptors that children inherit

No descriptor is closed on `exec`: a child of HMS holds whatever was open at its
fork, but for what it closes itself. The write ends of the session pipes are
followed through the HMS process and its children. A pair is the two pipes of one
`shell_open`; `read` reports the end of the output only when no process holds the
write end of its pipe any more.
-/

namespace QnxHypervisor.GuestShell

open Foundation GuestManager HmsStatus

/-! ## Processes -/

structure WriteEnd where
  pair : Nat
  pipe : PipeEnd
  deriving DecidableEq

structure Child where
  /-- the pair of the session whose ssh child this is -/
  ssh : Option Nat
  held : List WriteEnd
  deriving DecidableEq

structure Processes where
  shell : ShellState
  pairs : Nat
  /-- the pair of a session -/
  pairOf : Nat → Nat
  /-- the write ends open in HMS, with their descriptor numbers -/
  writeEnds : List (Fd × WriteEnd)
  children : List Child
  /-- the pairs whose ssh child has exited -/
  exited : List Nat

inductive ProcessEvent where
  | shell (e : ShellEvent)
  /-- `run_cmd`, `pull_file` or `guest_start` forks -/
  | fork
  /-- a child exits -/
  | exit (n : Nat)

namespace Processes

def heldByChild (s : Processes) (w : WriteEnd) : Prop := ∃ c ∈ s.children, w ∈ c.held

def heldByHms (s : Processes) (w : WriteEnd) : Prop := ∃ fd, (fd, w) ∈ s.writeEnds

instance (s : Processes) (w : WriteEnd) : Decidable (s.heldByChild w) :=
  inferInstanceAs (Decidable (∃ c ∈ s.children, w ∈ c.held))

instance (s : Processes) (w : WriteEnd) : Decidable (s.heldByHms w) :=
  decidable_of_iff (w ∈ s.writeEnds.map (·.2)) (by simp [heldByHms])

/-- `read` reports the end only when nobody can write any more. -/
def answers (s : Processes) : ShellEvent → Bool
  | .readerRead k .ended =>
      decide (¬ s.heldByHms ⟨s.pairOf k, .stdout⟩ ∧ ¬ s.heldByChild ⟨s.pairOf k, .stdout⟩)
  | _ => true

/-- The ssh child of the pair just made: it closes both of its own pipes but for the
copies on its standard descriptors. -/
def sshChild (s : Processes) : Child :=
  let own := s.pairs - 1
  ⟨some own, (s.writeEnds.map (·.2)).filter (fun w => w.pair != own) ++ [⟨own, .stdout⟩]⟩

/-- Pipes made, processes forked and slots taken in a step of the shell. -/
def watch (s : Processes) : ShellEvent → Processes
  | .openPipes _ inW _ outW =>
      { s with
        pairs := s.pairs + 1
        writeEnds := s.writeEnds ++ [(inW, ⟨s.pairs, .stdin⟩), (outW, ⟨s.pairs, .stdout⟩)] }
  | .openFork _ => { s with children := s.children ++ [s.sshChild] }
  | .openSlot _ true => { s with pairOf := Function.update s.pairOf s.shell.sessions (s.pairs - 1) }
  | _ => s

/-- What is closed now is gone. -/
def settle (s : Processes) (shell : ShellState) : Processes :=
  { s with shell, writeEnds := s.writeEnds.filter fun p => (shell.owner p.1).isSome }

def step (s : Processes) : ProcessEvent → Option Processes
  | .shell e =>
      if s.answers e then (shellStep s.shell e).map fun shell => (s.watch e).settle shell else none
  | .fork => some { s with children := s.children ++ [⟨none, s.writeEnds.map (·.2)⟩] }
  | .exit n =>
      match s.children[n]? with
      | none => none
      | some c => some { s with
          children := s.children.eraseIdx n
          exited := s.exited ++ c.ssh.toList }

end Processes

structure ProcessStart (s : Processes) : Prop where
  shell : ShellStart s.shell
  pairs : s.pairs = 0
  writeEnds : s.writeEnds = []
  children : s.children = []
  exited : s.exited = []

def processMachine : Machine Processes ProcessEvent := ⟨ProcessStart, Processes.step⟩

/-! ## What should hold -/

/-- The steps of a reader whose `read` reports the end. -/
def readerEnd (k : Nat) : List ProcessEvent :=
  [.shell (.readerRead k .ended), .shell (.readerLeave k), .shell (.readerAnnounce k),
    .shell (.readerRelease k)]

structure PipesEnd (s : Processes) : Prop where
  /-- once HMS has closed its end of a session's standard input, only the session's
  ssh child holds one -/
  stdin : ∀ k < s.shell.sessions, 0 < hits s.shell.closed k .stdin →
    ¬ s.heldByHms ⟨s.pairOf k, .stdin⟩ ∧
      ∀ c ∈ s.children, ⟨s.pairOf k, .stdin⟩ ∈ c.held → c.ssh = some (s.pairOf k)
  /-- once the ssh child has exited, nobody holds the write end of its output -/
  stdout : ∀ k < s.shell.sessions, s.pairOf k ∈ s.exited →
    ¬ s.heldByHms ⟨s.pairOf k, .stdout⟩ ∧ ¬ s.heldByChild ⟨s.pairOf k, .stdout⟩
  /-- the waiting reader then gets its end of file and gives the slot back -/
  released : ∀ k < s.shell.sessions, s.pairOf k ∈ s.exited →
    ∀ i fd, s.shell.readers k = some ⟨i, .reading fd⟩ →
      ∃ s', processMachine.after (fun _ _ => True) (readerEnd k) s = some s' ∧
        (s'.shell.slots i).Free

/-- At every fork HMS holds no write end of another session's pipes. -/
def ForksAlone (s : Processes) : ProcessEvent → Prop
  | .shell (.openFork _) => ∀ p ∈ s.writeEnds, p.2.pair = s.pairs - 1
  | .fork => s.writeEnds = []
  | _ => True

instance (s : Processes) : (e : ProcessEvent) → Decidable (ForksAlone s e)
  | .shell (.openFork _) => inferInstanceAs (Decidable (∀ p ∈ s.writeEnds, p.2.pair = s.pairs - 1))
  | .fork => inferInstanceAs (Decidable (s.writeEnds = []))
  | .shell (.openCheck _) | .shell (.openPipes ..) | .shell (.openNoPipes _) | .shell .openNoFork
  | .shell .openClose | .shell (.openSlot ..) | .shell .openFailed | .shell (.openAnnounce _)
  | .shell (.write ..) | .shell (.close _) | .shell (.closerClose _) | .shell (.closerKill _)
  | .shell (.readerTest _) | .shell (.readerRead ..) | .shell (.readerLeave _)
  | .shell (.readerAnnounce _) | .shell (.readerRelease _) | .shell (.monitorSample _)
  | .shell .monitorClose | .shell (.otherOpen _) | .shell (.otherClose _) | .exit _ => isTrue trivial

/-! ## One descriptor for an end -/

/-- A session's end has one open descriptor until it is closed, and none after. -/
structure Single (s : ShellState) : Prop where
  started : ∀ fd k e, s.owner fd = some (.session k e) → k < s.sessions
  unclosed : ∀ fd k e, s.owner fd = some (.session k e) → hits s.closed k e = 0
  unique : ∀ fd fd' k e, s.owner fd = some (.session k e) → s.owner fd' = some (.session k e) →
    fd = fd'

namespace Single

variable {s : ShellState} {fd : Fd} {o : Option FdOwner}

theorem closeFd (h : Single s) (fd : Fd) : Single (s.closeFd fd) where
  started := by
    intro fd' k e ho
    by_cases hfd : fd' = fd
    · simp [ShellState.closeFd, hfd] at ho
    · simp only [ShellState.closeFd, Function.update_of_ne hfd] at ho
      exact h.started fd' k e ho
  unclosed := by
    intro fd' k e ho
    by_cases hfd : fd' = fd
    · simp [ShellState.closeFd, hfd] at ho
    · simp only [ShellState.closeFd, Function.update_of_ne hfd] at ho
      have hne : s.owner fd ≠ some (.session k e) := fun heq => hfd (h.unique _ _ k e ho heq)
      simp [ShellState.closeFd, h.unclosed fd' k e ho, hne]
  unique := by
    intro fd' fd'' k e ho ho'
    by_cases hfd : fd' = fd
    · simp [ShellState.closeFd, hfd] at ho
    · by_cases hfd' : fd'' = fd
      · simp [ShellState.closeFd, hfd'] at ho'
      · simp only [ShellState.closeFd, Function.update_of_ne hfd,
          Function.update_of_ne hfd'] at ho ho'
        exact h.unique fd' fd'' k e ho ho'

theorem closeFd? (h : Single s) (fd : Option Fd) : Single (s.closeFd? fd) := by
  cases fd with
  | none => exact h
  | some fd => exact h.closeFd fd

/-- A number goes to or comes from another part of the process. -/
theorem update (h : Single s) (ho : ∀ k e, o ≠ some (.session k e)) :
    Single { s with owner := Function.update s.owner fd o } where
  started := by
    intro fd' k e ho'
    by_cases hfd : fd' = fd
    · simp only [hfd, Function.update_self] at ho'
      exact absurd ho' (ho k e)
    · simp only [Function.update_of_ne hfd] at ho'
      exact h.started fd' k e ho'
  unclosed := by
    intro fd' k e ho'
    by_cases hfd : fd' = fd
    · simp only [hfd, Function.update_self] at ho'
      exact absurd ho' (ho k e)
    · simp only [Function.update_of_ne hfd] at ho'
      exact h.unclosed fd' k e ho'
  unique := by
    intro fd' fd'' k e ho' ho''
    by_cases hfd : fd' = fd
    · simp only [hfd, Function.update_self] at ho'
      exact absurd ho' (ho k e)
    · by_cases hfd' : fd'' = fd
      · simp only [hfd', Function.update_self] at ho''
        exact absurd ho'' (ho k e)
      · simp only [Function.update_of_ne hfd, Function.update_of_ne hfd'] at ho' ho''
        exact h.unique fd' fd'' k e ho' ho''

theorem same {s' : ShellState} (h : Single s) (ho : s'.owner = s.owner) (hc : s'.closed = s.closed)
    (hn : s'.sessions = s.sessions) : Single s' where
  started := by
    rw [ho, hn]
    exact h.started
  unclosed := by
    rw [ho, hc]
    exact h.unclosed
  unique := by
    rw [ho]
    exact h.unique

theorem slot {g : Guest} {pid : Nat} {inW outR : Fd} {now : Int} {threadOk : Bool} (h : Single s)
    (hinv : SlotInv s) (ho : s.opener = .forked g pid inW outR []) :
    Single (openSlot g pid inW outR now threadOk s) := by
  have hopener := hinv.opener
  rw [ho] at hopener
  obtain ⟨-, hnodup, -⟩ := hopener
  have hne : inW ≠ outR := by simpa using hnodup
  unfold openSlot
  split
  · exact h.same rfl rfl rfl
  · dsimp only
    split
    · -- what a number stands for afterwards
      have howner : ∀ fd k e, Function.update (Function.update s.owner inW
          (some (.session s.sessions .stdin))) outR (some (.session s.sessions .stdout)) fd =
            some (.session k e) →
          k = s.sessions ∧ fd = (match e with | .stdin => inW | .stdout => outR) ∨
            s.owner fd = some (.session k e) := by
        intro fd k e hfd
        by_cases hout : fd = outR
        · subst hout
          simp only [Function.update_self, Option.some.injEq, FdOwner.session.injEq] at hfd
          obtain ⟨rfl, rfl⟩ := hfd
          exact .inl ⟨rfl, rfl⟩
        · rw [Function.update_of_ne hout] at hfd
          by_cases hin : fd = inW
          · subst hin
            simp only [Function.update_self, Option.some.injEq, FdOwner.session.injEq] at hfd
            obtain ⟨rfl, rfl⟩ := hfd
            exact .inl ⟨rfl, rfl⟩
          · rw [Function.update_of_ne hin] at hfd
            exact .inr hfd
      constructor
      case started =>
        intro fd k e hfd
        obtain ⟨rfl, -⟩ | hold := howner fd k e hfd
        · exact Nat.lt_succ_self _
        · exact Nat.lt_succ_of_lt (h.started fd k e hold)
      case unclosed =>
        intro fd k e hfd
        obtain ⟨rfl, -⟩ | hold := howner fd k e hfd
        · exact (hinv.fresh _ le_rfl).2.2 e
        · exact h.unclosed fd k e hold
      case unique =>
        intro fd fd' k e hfd hfd'
        obtain ⟨rfl, heq⟩ | hold := howner fd k e hfd
        · obtain ⟨-, heq'⟩ | hold' := howner fd' _ e hfd'
          · rw [heq, heq']
          · exact absurd (h.started fd' _ e hold') (Nat.lt_irrefl _)
        · obtain ⟨rfl, -⟩ | hold' := howner fd' k e hfd'
          · exact absurd (h.started fd _ e hold) (Nat.lt_irrefl _)
          · exact h.unique fd fd' k e hold hold'
    · exact h.same rfl rfl rfl

theorem step {s' : ShellState} {e : ShellEvent} (h : Single s) (hinv : SlotInv s)
    (hs : ShellStep s e s') : Single s' := by
  cases hs with
  | write => exact h.same (by simp) (by simp) (by simp)
  | close => exact h.same (by simp) (by simp) (by simp)
  | @closerClose j k fd pid hc => exact (h.closeFd fd).same rfl rfl rfl
  | closerKill hc => exact h.same rfl rfl rfl
  | monitorSample hm => exact h.same rfl rfl rfl
  | monitorClose hm => exact h.same (by simp) (by simp) (by simp)
  | otherOpen hfd => exact (h.update (by simp)).same rfl rfl rfl
  | otherClose hfd => exact h.update (by simp)
  | opener ho =>
      cases ho with
      | @check g ho hid =>
          obtain heq | heq := openCheck_eq s g
          · rwa [heq]
          · rw [heq]
            exact h.same rfl rfl rfl
      | pipes ho hfresh =>
          have hopener : ∀ k e, some FdOwner.opener ≠ some (.session k e) := by simp
          exact ((((h.update hopener).update hopener).update hopener).update hopener).same rfl rfl rfl
      | noPipes ho => exact h.same rfl rfl rfl
      | leakedPipe ho hfresh =>
          have hother : ∀ k e, some FdOwner.other ≠ some (.session k e) := by simp
          exact ((h.update hother).update hother).same rfl rfl rfl
      | fork ho => exact h.same rfl rfl rfl
      | noFork ho => exact h.same rfl rfl rfl
      | closeParent ho => exact (h.closeFd _).same rfl rfl rfl
      | closeFailed ho => exact (h.closeFd _).same rfl rfl rfl
      | slot ho => exact h.slot hinv ho
      | failed ho => exact h.same rfl rfl rfl
      | announce ho => exact h.same rfl rfl rfl
  | reader hr =>
      cases hr with
      | leave hr => exact ((h.closeFd? _).closeFd? _).same rfl rfl rfl
      | _ => exact h.same rfl rfl rfl

end Single

/-! ## Where the write ends are -/

/-- Between its pipes and its slot, or on its way out. -/
def Opener.active : Opener → Bool
  | .piped .. | .forked .. | .failing _ => true
  | .idle | .checked _ | .opened _ => false

def Opener.isPiped : Opener → Bool
  | .piped .. => true
  | _ => false

/-- The numbers of the opener's own write ends. -/
def Opener.Keeps (fd : Fd) (e : PipeEnd) : Opener → Prop
  | .piped _ _ inW _ outW => e = .stdin ∧ fd = inW ∨ e = .stdout ∧ fd = outW
  | .forked _ _ inW _ close => e = .stdin ∧ fd = inW ∨ e = .stdout ∧ fd ∈ close
  | .failing close => fd ∈ close
  | .idle | .checked _ | .opened _ => False

/-- A write end open in HMS is a session's standard input or one of the opener's. -/
def EndOf (s : Processes) (fd : Fd) (w : WriteEnd) : Prop :=
  (∃ k < s.shell.sessions, s.shell.owner fd = some (.session k .stdin) ∧ w = ⟨s.pairOf k, .stdin⟩) ∨
    s.shell.owner fd = some .opener ∧ w.pair + 1 = s.pairs ∧ s.shell.opener.Keeps fd w.pipe

def Processes.sshPairs (s : Processes) : List Nat := s.children.filterMap Child.ssh ++ s.exited

structure Tracked (s : Processes) : Prop where
  ends : ∀ p ∈ s.writeEnds, EndOf s p.1 p.2
  pairs : ∀ k < s.shell.sessions, s.pairOf k < s.pairs ∧
    (s.shell.opener.active = true → s.pairOf k + 1 < s.pairs)
  active : s.shell.opener.active = true → 0 < s.pairs
  distinct : ∀ k < s.shell.sessions, ∀ k' < s.shell.sessions, s.pairOf k = s.pairOf k' → k = k'
  children : ∀ c ∈ s.children, ∀ w ∈ c.held, c.ssh = some w.pair ∧ w.pipe = .stdout
  once : s.sshPairs.Nodup
  forked : ∀ p ∈ s.sshPairs, p < s.pairs ∧ (s.shell.opener.isPiped = true → p + 1 < s.pairs)

theorem ProcessStart.tracked {s : Processes} (h : ProcessStart s) : Tracked s := by
  have hopener := h.shell.opener
  have hsessions := h.shell.sessions
  constructor
  case ends => simp [h.writeEnds]
  case pairs => simp [hsessions]
  case active => simp [hopener, Opener.active]
  case distinct => simp [hsessions]
  case children => simp [h.children]
  case once => simp [Processes.sshPairs, h.children, h.exited]
  case forked => simp [Processes.sshPairs, h.children, h.exited]

theorem closeFd_kept {s : ShellState} {fd fd' : Fd} {o : FdOwner} (ho : s.owner fd = some o)
    (hopen : (s.closeFd fd').owner fd ≠ none) : (s.closeFd fd').owner fd = some o := by
  by_cases hfd : fd = fd'
  · simp [ShellState.closeFd, hfd] at hopen
  · simpa [ShellState.closeFd, Function.update_of_ne hfd] using ho

theorem closeFd?_kept {s : ShellState} {fd : Fd} {fd' : Option Fd} {o : FdOwner}
    (ho : s.owner fd = some o) (hopen : (s.closeFd? fd').owner fd ≠ none) :
    (s.closeFd? fd').owner fd = some o := by
  cases fd' with
  | none => exact ho
  | some fd' => exact closeFd_kept ho hopen

theorem own_kept {s : ShellState} {fd fd' : Fd} {o o' : FdOwner} (ho : s.owner fd = some o)
    (hfree : s.owner fd' = none) : (s.own fd' o').owner fd = some o := by
  have hne : fd ≠ fd' := by
    rintro rfl
    rw [hfree] at ho
    cases ho
  simpa [ShellState.own, Function.update_of_ne hne] using ho

/-- An open number goes on to stand for the same, but for what a new session gets. -/
theorem owner_kept {s s' : ShellState} {e : ShellEvent} (hs : ShellStep s e s')
    (hslot : ∀ now ok, e ≠ .openSlot now ok) {fd : Fd} {o : FdOwner} (ho : s.owner fd = some o)
    (hopen : s'.owner fd ≠ none) : s'.owner fd = some o := by
  cases hs with
  | write => simpa using ho
  | close => simpa using ho
  | closerClose hc => exact closeFd_kept ho hopen
  | closerKill hc => exact ho
  | monitorSample hm => exact ho
  | monitorClose hm => simpa using ho
  | otherOpen hfd => exact own_kept ho hfd
  | otherClose hfd => exact closeFd_kept ho hopen
  | opener h =>
      cases h with
      | @check g hidle hid =>
          obtain heq | heq := openCheck_eq s g <;> rw [heq] <;> exact ho
      | @pipes g inR inW outR outW hchecked hfresh =>
          obtain ⟨hnodup, hfree⟩ := hfresh
          simp only [List.nodup_cons, List.mem_cons, List.not_mem_nil, or_false, not_or,
            List.nodup_nil, and_true, not_false_eq_true] at hnodup hfree
          have hne : ∀ fd', (fd' = inR ∨ fd' = inW ∨ fd' = outR ∨ fd' = outW) → fd ≠ fd' := by
            rintro fd' hfd' rfl
            rw [hfree _ hfd'] at ho
            cases ho
          simp only [openPipes, ShellState.own]
          rw [Function.update_of_ne (hne _ (by simp)), Function.update_of_ne (hne _ (by simp)),
            Function.update_of_ne (hne _ (by simp)), Function.update_of_ne (hne _ (by simp))]
          exact ho
      | noPipes hchecked => exact ho
      | @leakedPipe g inR inW hchecked hfresh =>
          have hne : ∀ fd', (fd' = inR ∨ fd' = inW) → fd ≠ fd' := by
            rintro fd' hfd' rfl
            rw [hfresh.2 _ (by simpa using hfd')] at ho
            cases ho
          simp only [ShellState.own]
          rw [Function.update_of_ne (hne _ (by simp)), Function.update_of_ne (hne _ (by simp))]
          exact ho
      | fork hpiped => exact ho
      | noFork hpiped => exact ho
      | closeParent hforked => exact closeFd_kept ho hopen
      | closeFailed hfailing => exact closeFd_kept ho hopen
      | slot hforked => exact absurd rfl (hslot _ _)
      | failed hfailing => exact ho
      | announce hopened => exact ho
  | reader h =>
      cases h with
      | @leave k i hr =>
          have hfirst : (s.closeFd? (s.slots i).outFd).owner fd ≠ none := by
            intro hnone
            apply hopen
            change ((s.closeFd? (s.slots i).outFd).closeFd? (s.slots i).inFd).owner fd = none
            cases (s.slots i).inFd with
            | none => exact hnone
            | some fd' =>
                by_cases hfd : fd = fd'
                · simp [ShellState.closeFd?, ShellState.closeFd, hfd]
                · simpa [ShellState.closeFd?, ShellState.closeFd, Function.update_of_ne hfd]
                    using hnone
          exact closeFd?_kept (closeFd?_kept ho hfirst) hopen
      | _ => exact ho

theorem mem_settle {s : Processes} {shell : ShellState} {p : Fd × WriteEnd} :
    p ∈ (s.settle shell).writeEnds ↔ p ∈ s.writeEnds ∧ shell.owner p.1 ≠ none := by
  simp [Processes.settle, Option.isSome_iff_ne_none]

section Steps

variable {s : Processes} {shell : ShellState} {e : ShellEvent}

theorem Tracked.quiet (h : Tracked s) (hs : ShellStep s.shell e shell)
    (hslot : ∀ now ok, e ≠ .openSlot now ok) (hsessions : shell.sessions = s.shell.sessions)
    (hactive : shell.opener.active = true → s.shell.opener.active = true)
    (hpiped : shell.opener.isPiped = true → s.shell.opener.isPiped = true)
    (hkeeps : ∀ fd e, shell.owner fd = some .opener → s.shell.opener.Keeps fd e →
      shell.opener.Keeps fd e) : Tracked (s.settle shell) where
  ends := by
    rintro ⟨fd, w⟩ hp
    obtain ⟨hmem, hopen⟩ := mem_settle.mp hp
    obtain ⟨k, hk, ho, hw⟩ | ⟨ho, hpair, hkeep⟩ := h.ends _ hmem
    · exact .inl ⟨k, hsessions ▸ hk, owner_kept hs hslot ho hopen, hw⟩
    · have ho' := owner_kept hs hslot ho hopen
      exact .inr ⟨ho', hpair, hkeeps fd _ ho' hkeep⟩
  pairs := fun k hk => ⟨(h.pairs k (hsessions ▸ hk)).1,
    fun ha => (h.pairs k (hsessions ▸ hk)).2 (hactive ha)⟩
  active := fun ha => h.active (hactive ha)
  distinct := fun k hk k' hk' => h.distinct k (hsessions ▸ hk) k' (hsessions ▸ hk')
  children := h.children
  once := h.once
  forked := fun p hp => ⟨(h.forked p hp).1, fun hpi => (h.forked p hp).2 (hpiped hpi)⟩

theorem Tracked.pipes {g : Guest} {inR inW outR outW : Fd} (h : Tracked s)
    (ho : s.shell.opener = .checked g) (hfresh : FreshFds s.shell [inR, inW, outR, outW]) :
    Tracked ((s.watch (.openPipes inR inW outR outW)).settle
      (openPipes g inR inW outR outW s.shell)) := by
  have hstep : ShellStep s.shell (.openPipes inR inW outR outW) _ := .opener (.pipes ho hfresh)
  have hnodup := hfresh.1
  simp only [List.nodup_cons, List.mem_cons, List.not_mem_nil, or_false, not_or,
    List.nodup_nil, and_true, not_false_eq_true] at hnodup
  have hin : (openPipes g inR inW outR outW s.shell).owner inW = some .opener := by
    simp [openPipes, ShellState.own, Function.update_of_ne hnodup.2.1.2,
      Function.update_of_ne hnodup.2.1.1]
  have hout : (openPipes g inR inW outR outW s.shell).owner outW = some .opener := by
    simp [openPipes, ShellState.own]
  have hsessions : (openPipes g inR inW outR outW s.shell).sessions = s.shell.sessions := by
    rw [openPipes_eq]
  have hopener : (openPipes g inR inW outR outW s.shell).opener = .piped g inR inW outR outW := by
    rw [openPipes_eq]
  generalize openPipes g inR inW outR outW s.shell = shell at hstep hin hout hsessions hopener ⊢
  constructor
  case ends =>
    rintro ⟨fd, w⟩ hp
    obtain ⟨hmem, hopen⟩ := mem_settle.mp hp
    simp only [Processes.watch, List.mem_append, List.mem_cons, List.not_mem_nil, or_false,
      Prod.mk.injEq] at hmem
    simp only [EndOf, Processes.settle, hsessions, hopener]
    obtain hold | ⟨rfl, rfl⟩ | ⟨rfl, rfl⟩ := hmem
    · obtain ⟨k, hk, howner, hw⟩ | ⟨-, -, hkeep⟩ := h.ends _ hold
      · exact .inl ⟨k, hk, owner_kept hstep (by simp) howner hopen, hw⟩
      · rw [ho] at hkeep
        exact hkeep.elim
    · exact .inr ⟨hin, rfl, .inl ⟨rfl, rfl⟩⟩
    · exact .inr ⟨hout, rfl, .inr ⟨rfl, rfl⟩⟩
  case pairs =>
    intro k hk
    simp only [Processes.settle, hsessions] at hk
    have hlt := (h.pairs k hk).1
    exact ⟨Nat.lt_succ_of_lt hlt, fun _ => Nat.succ_lt_succ hlt⟩
  case active => exact fun _ => Nat.succ_pos _
  case distinct =>
    simp only [Processes.settle, hsessions]
    exact h.distinct
  case children => exact h.children
  case once => exact h.once
  case forked =>
    intro p hp
    have hlt := (h.forked p hp).1
    exact ⟨Nat.lt_succ_of_lt hlt, fun _ => Nat.succ_lt_succ hlt⟩

/-- The ssh child inherits nothing but its own. -/
theorem Tracked.fork {g : Guest} {pid : Nat} {inR inW outR outW : Fd} (h : Tracked s)
    (ho : s.shell.opener = .piped g inR inW outR outW)
    (hok : ∀ p ∈ s.writeEnds, p.2.pair = s.pairs - 1) :
    Tracked ((s.watch (.openFork pid)).settle
      { s.shell with opener := .forked g pid inW outR [inR, outW] }) := by
  have hpos : 0 < s.pairs := h.active (by simp [ho, Opener.active])
  have hchild : s.sshChild = ⟨some (s.pairs - 1), [⟨s.pairs - 1, .stdout⟩]⟩ := by
    have hnone : (s.writeEnds.map (·.2)).filter (fun w => w.pair != s.pairs - 1) = [] := by
      rw [List.filter_eq_nil_iff]
      intro w hw
      obtain ⟨p, hp, rfl⟩ := List.mem_map.mp hw
      simp [hok p hp]
    simp [Processes.sshChild, hnone]
  have hpairs : ∀ p, p ∈ (({ s with children := s.children ++ [s.sshChild] } : Processes)).sshPairs ↔
      p ∈ s.sshPairs ∨ p = s.pairs - 1 := by
    intro p
    simp only [Processes.sshPairs, hchild, List.filterMap_append, List.mem_append]
    simp only [List.filterMap_cons, List.filterMap_nil, List.mem_singleton]
    tauto
  constructor
  case ends =>
    rintro ⟨fd, w⟩ hp
    obtain ⟨hmem, -⟩ := mem_settle.mp hp
    obtain hsession | ⟨howner, hpair, hkeep⟩ := h.ends _ hmem
    · exact .inl hsession
    · rw [ho] at hkeep
      refine .inr ⟨howner, hpair, ?_⟩
      obtain hin | ⟨hpipe, hfd⟩ := hkeep
      · exact .inl hin
      · exact .inr ⟨hpipe, List.mem_cons_of_mem _ (List.mem_singleton.mpr hfd)⟩
  case pairs =>
    intro k hk
    have hp := h.pairs k hk
    exact ⟨hp.1, fun _ => hp.2 (by simp [ho, Opener.active])⟩
  case active => exact fun _ => hpos
  case distinct => exact h.distinct
  case children =>
    intro c hc w hw
    obtain hc | hc := List.mem_append.mp hc
    · exact h.children c hc w hw
    · rw [List.mem_singleton] at hc
      subst hc
      rw [hchild] at hw ⊢
      rw [List.mem_singleton] at hw
      subst hw
      exact ⟨rfl, rfl⟩
  case once =>
    have hnew : s.pairs - 1 ∉ s.sshPairs := by
      intro hmem
      have hlt := (h.forked _ hmem).2 (by simp [ho, Opener.isPiped])
      omega
    have hperm : (({ s with children := s.children ++ [s.sshChild] } : Processes)).sshPairs.Perm
        ((s.pairs - 1) :: s.sshPairs) := by
      simp only [Processes.sshPairs, hchild, List.filterMap_append, List.filterMap_cons,
        List.filterMap_nil, List.append_assoc, List.singleton_append]
      exact List.perm_middle
    exact hperm.nodup_iff.mpr (List.nodup_cons.mpr ⟨hnew, h.once⟩)
  case forked =>
    intro p hp
    obtain hold | rfl := (hpairs p).mp hp
    · exact ⟨(h.forked p hold).1, by simp [Processes.settle, Opener.isPiped]⟩
    · exact ⟨Nat.sub_lt hpos Nat.one_pos, by simp [Processes.settle, Opener.isPiped]⟩

theorem Tracked.take {g : Guest} {pid : Nat} {inW outR : Fd} {now : Int} {i : SlotIx}
    (h : Tracked s) (hinv : SlotInv s.shell) (ho : s.shell.opener = .forked g pid inW outR [])
    (hi : findFree s.shell.slots = some i) :
    Tracked ((s.watch (.openSlot now true)).settle (openSlot g pid inW outR now true s.shell)) := by
  have hopener := hinv.opener
  rw [ho] at hopener
  obtain ⟨-, hnodup, howned⟩ := hopener
  have hne : inW ≠ outR := by simpa using hnodup
  have hpos : 0 < s.pairs := h.active (by simp [ho, Opener.active])
  have hlast : ∀ k < s.shell.sessions, s.pairOf k + 1 < s.pairs := fun k hk =>
    (h.pairs k hk).2 (by simp [ho, Opener.active])
  have hold : ∀ k < s.shell.sessions,
      Function.update s.pairOf s.shell.sessions (s.pairs - 1) k = s.pairOf k := fun k hk =>
    Function.update_of_ne (Nat.ne_of_lt hk) _ _
  have hsessions : (openSlot g pid inW outR now true s.shell).sessions = s.shell.sessions + 1 := by
    simp [openSlot, hi]
  have hafter : (openSlot g pid inW outR now true s.shell).opener = .opened g := by
    simp [openSlot, hi]
  have howner : ∀ fd, fd ≠ outR → (openSlot g pid inW outR now true s.shell).owner fd =
      if fd = inW then some (.session s.shell.sessions .stdin) else s.shell.owner fd := by
    intro fd hfd
    simp only [openSlot, hi, if_true, ShellState.setSlot, ShellState.setReader, ShellState.own]
    rw [Function.update_of_ne hfd, Function.update_apply]
  -- the opener's numbers are nobody else's
  have hopener : ∀ fd, fd = inW ∨ fd = outR → s.shell.owner fd = some .opener := fun fd hfd =>
    howned fd (by simpa using hfd)
  constructor
  case ends =>
    rintro ⟨fd, w⟩ hp
    obtain ⟨hmem, -⟩ := mem_settle.mp hp
    change EndOf _ fd w
    unfold EndOf
    simp only [Processes.settle, Processes.watch, hsessions, hafter]
    obtain ⟨k, hk, hfd, hw⟩ | ⟨hfd, hpair, hkeep⟩ := h.ends _ hmem
    · have hin : fd ≠ inW := by
        rintro rfl
        rw [hopener _ (.inl rfl)] at hfd
        cases hfd
      have hout : fd ≠ outR := by
        rintro rfl
        rw [hopener _ (.inr rfl)] at hfd
        cases hfd
      refine .inl ⟨k, Nat.lt_succ_of_lt hk, ?_, by rw [hold k hk]; exact hw⟩
      rw [howner fd hout, if_neg hin]
      exact hfd
    · rw [ho] at hkeep
      obtain ⟨hpipe, rfl⟩ | ⟨-, hnone⟩ := hkeep
      · refine .inl ⟨s.shell.sessions, Nat.lt_succ_self _, ?_, ?_⟩
        · rw [howner fd hne, if_pos rfl]
        · obtain ⟨pair, pipe⟩ := w
          simp only at hpair hpipe
          simp only [Function.update_self, WriteEnd.mk.injEq]
          exact ⟨by omega, hpipe⟩
      · cases hnone
  case pairs =>
    intro k hk
    simp only [Processes.settle, Processes.watch, hafter, hsessions] at hk ⊢
    refine ⟨?_, by simp [Opener.active]⟩
    obtain hlt | rfl := Nat.lt_succ_iff_lt_or_eq.mp hk
    · rw [hold k hlt]
      exact (h.pairs k hlt).1
    · rw [Function.update_self]
      omega
  case active => simp [Processes.settle, hafter, Opener.active]
  case distinct =>
    intro k hk k' hk' heq
    simp only [Processes.settle, Processes.watch, hsessions] at hk hk' heq
    obtain hlt | rfl := Nat.lt_succ_iff_lt_or_eq.mp hk
    · obtain hlt' | rfl := Nat.lt_succ_iff_lt_or_eq.mp hk'
      · rw [hold k hlt, hold k' hlt'] at heq
        exact h.distinct k hlt k' hlt' heq
      · rw [hold k hlt, Function.update_self] at heq
        have := hlast k hlt
        omega
    · obtain hlt' | rfl := Nat.lt_succ_iff_lt_or_eq.mp hk'
      · rw [hold k' hlt', Function.update_self] at heq
        have := hlast k' hlt'
        omega
      · rfl
  case children => exact h.children
  case once => exact h.once
  case forked =>
    intro p hp
    exact ⟨(h.forked p hp).1, by simp [Processes.settle, hafter, Opener.isPiped]⟩

theorem Tracked.refused {g : Guest} {pid : Nat} {inW outR : Fd} {now : Int} {threadOk : Bool}
    (h : Tracked s) (ho : s.shell.opener = .forked g pid inW outR [])
    (hrefused : threadOk = false ∨ findFree s.shell.slots = none) :
    Tracked ((s.watch (.openSlot now threadOk)).settle
      (openSlot g pid inW outR now threadOk s.shell)) := by
  have hafter : (openSlot g pid inW outR now threadOk s.shell).opener = .failing [inW, outR] ∧
      (openSlot g pid inW outR now threadOk s.shell).owner = s.shell.owner ∧
      (openSlot g pid inW outR now threadOk s.shell).sessions = s.shell.sessions := by
    unfold openSlot
    split
    · exact ⟨rfl, rfl, rfl⟩
    · next i hi =>
      obtain rfl | hnone := hrefused
      · exact ⟨rfl, rfl, rfl⟩
      · rw [hi] at hnone
        cases hnone
  obtain ⟨hopener, howner, hsessions⟩ := hafter
  have hold : ∀ k < s.shell.sessions,
      (s.watch (.openSlot now threadOk)).pairOf k = s.pairOf k := by
    intro k hk
    cases threadOk with
    | true => exact Function.update_of_ne (Nat.ne_of_lt hk) _ _
    | false => rfl
  have hwatch : (s.watch (.openSlot now threadOk)).pairs = s.pairs ∧
      (s.watch (.openSlot now threadOk)).writeEnds = s.writeEnds ∧
      (s.watch (.openSlot now threadOk)).children = s.children ∧
      (s.watch (.openSlot now threadOk)).exited = s.exited := by
    cases threadOk <;> exact ⟨rfl, rfl, rfl, rfl⟩
  obtain ⟨hpairs, hends, hchildren, hexited⟩ := hwatch
  have hactive : s.shell.opener.active = true := by simp [ho, Opener.active]
  constructor
  case ends =>
    rintro ⟨fd, w⟩ hp
    obtain ⟨hmem, -⟩ := mem_settle.mp hp
    rw [hends] at hmem
    change EndOf _ fd w
    unfold EndOf
    simp only [Processes.settle, hopener, howner, hsessions, hpairs]
    obtain ⟨k, hk, hfd, hw⟩ | ⟨hfd, hpair, hkeep⟩ := h.ends _ hmem
    · exact .inl ⟨k, hk, hfd, by rw [hold k hk]; exact hw⟩
    · rw [ho] at hkeep
      refine .inr ⟨hfd, hpair, ?_⟩
      obtain ⟨-, rfl⟩ | ⟨-, hnone⟩ := hkeep
      · simp [Opener.Keeps]
      · cases hnone
  case pairs =>
    intro k hk
    simp only [Processes.settle, hsessions, hpairs] at hk ⊢
    rw [hold k hk]
    exact ⟨(h.pairs k hk).1, fun _ => (h.pairs k hk).2 hactive⟩
  case active =>
    intro _
    simpa only [Processes.settle, hpairs] using h.active hactive
  case distinct =>
    intro k hk k' hk' heq
    simp only [Processes.settle, hsessions] at hk hk' heq
    rw [hold k hk, hold k' hk'] at heq
    exact h.distinct k hk k' hk' heq
  case children =>
    simp only [Processes.settle, hchildren]
    exact h.children
  case once =>
    simp only [Processes.sshPairs, Processes.settle, hchildren, hexited]
    exact h.once
  case forked =>
    simp only [Processes.sshPairs, Processes.settle, hchildren, hexited, hpairs, hopener]
    exact fun p hp => ⟨(h.forked p hp).1, by simp [Opener.isPiped]⟩

theorem Tracked.still (h : Tracked s) (hs : ShellStep s.shell e shell)
    (hslot : ∀ now ok, e ≠ .openSlot now ok) (hsessions : shell.sessions = s.shell.sessions)
    (hopener : shell.opener = s.shell.opener) : Tracked (s.settle shell) :=
  h.quiet hs hslot hsessions (fun ha => hopener ▸ ha) (fun hp => hopener ▸ hp)
    fun _ _ _ hkeep => hopener ▸ hkeep

theorem Tracked.openerStep (h : Tracked s) (hinv : SlotInv s.shell)
    (hok : ForksAlone s (.shell e)) (hs : OpenerStep s.shell e shell) :
    Tracked ((s.watch e).settle shell) := by
  have hstep : ShellStep s.shell e shell := .opener hs
  cases hs with
  | @check g ho hid =>
      obtain heq | heq := openCheck_eq s.shell g
      · rw [heq] at hstep ⊢
        exact h.still hstep (by simp) rfl rfl
      · rw [heq] at hstep ⊢
        exact h.quiet hstep (by simp) rfl (by simp [Opener.active]) (by simp [Opener.isPiped])
          (by simp [ho, Opener.Keeps])
  | pipes ho hfresh => exact h.pipes ho hfresh
  | noPipes ho =>
      exact h.quiet hstep (by simp) rfl (by simp [Opener.active]) (by simp [Opener.isPiped])
        (by simp [ho, Opener.Keeps])
  | leakedPipe ho hfresh =>
      exact h.quiet hstep (by simp) rfl (by simp [Opener.active]) (by simp [Opener.isPiped])
        (by simp [ho, Opener.Keeps])
  | fork ho => exact h.fork ho hok
  | noFork ho =>
      apply h.quiet hstep (by simp) rfl (by simp [ho, Opener.active]) (by simp [Opener.isPiped])
      intro fd e _ hkeep
      rw [ho] at hkeep
      obtain ⟨-, rfl⟩ | ⟨-, rfl⟩ := hkeep <;> simp [Opener.Keeps]
  | @closeParent g pid inW outR fd rest ho =>
      apply h.quiet hstep (by simp) rfl (by simp [ho, Opener.active]) (by simp [Opener.isPiped])
      intro fd' e hfd' hkeep
      rw [ho] at hkeep
      obtain hin | ⟨hpipe, hmem⟩ := hkeep
      · exact .inl hin
      · have hne : fd' ≠ fd := by
          rintro rfl
          simp [ShellState.closeFd] at hfd'
        exact .inr ⟨hpipe, List.mem_of_ne_of_mem hne hmem⟩
  | @closeFailed fd rest ho =>
      apply h.quiet hstep (by simp) rfl (by simp [ho, Opener.active]) (by simp [Opener.isPiped])
      intro fd' e hfd' hkeep
      rw [ho] at hkeep
      have hne : fd' ≠ fd := by
        rintro rfl
        simp [ShellState.closeFd] at hfd'
      exact List.mem_of_ne_of_mem hne hkeep
  | @slot g pid inW outR now threadOk ho =>
      cases hi : findFree s.shell.slots with
      | none => exact h.refused ho (.inr hi)
      | some i =>
          cases threadOk with
          | true => exact h.take hinv ho hi
          | false => exact h.refused ho (.inl rfl)
  | failed ho =>
      exact h.quiet hstep (by simp) rfl (by simp [Opener.active]) (by simp [Opener.isPiped])
        (by simp [ho, Opener.Keeps])
  | announce ho =>
      exact h.quiet hstep (by simp) rfl (by simp [openAnnounce, Opener.active])
        (by simp [openAnnounce, Opener.isPiped]) (by simp [ho, Opener.Keeps])

theorem Tracked.shellStep (h : Tracked s) (hinv : SlotInv s.shell)
    (hok : ForksAlone s (.shell e)) (hs : ShellStep s.shell e shell) :
    Tracked ((s.watch e).settle shell) := by
  have hstep := hs
  cases hs with
  | write => exact h.still hstep (by simp) (by simp) (by simp)
  | close => exact h.still hstep (by simp) (by simp) (by simp)
  | closerClose hc => exact h.still hstep (by simp) rfl rfl
  | closerKill hc => exact h.still hstep (by simp) rfl rfl
  | monitorSample hm => exact h.still hstep (by simp) rfl rfl
  | monitorClose hm => exact h.still hstep (by simp) (by simp) (by simp)
  | otherOpen hfd => exact h.still hstep (by simp) rfl rfl
  | otherClose hfd => exact h.still hstep (by simp) rfl rfl
  | opener ho => exact h.openerStep hinv hok ho
  | reader hr =>
      cases hr with
      | leave hr =>
          exact h.still hstep (by simp)
            (by simp [readerLeave, ShellState.setReader, ShellState.setSlot])
            (by simp [readerLeave, ShellState.setReader, ShellState.setSlot])
      | _ => exact h.still hstep (by simp) rfl rfl

theorem Tracked.otherFork (h : Tracked s) (hok : s.writeEnds = []) :
    Tracked { s with children := s.children ++ [⟨none, s.writeEnds.map (·.2)⟩] } where
  ends := h.ends
  pairs := h.pairs
  active := h.active
  distinct := h.distinct
  children := by
    intro c hc w hw
    obtain hc | hc := List.mem_append.mp hc
    · exact h.children c hc w hw
    · rw [List.mem_singleton] at hc
      subst hc
      simp [hok] at hw
  once := by simpa [Processes.sshPairs] using h.once
  forked := by simpa [Processes.sshPairs] using h.forked

theorem Tracked.childExit (h : Tracked s) {n : Nat} {c : Child} (hc : s.children[n]? = some c) :
    Tracked { s with
      children := s.children.eraseIdx n
      exited := s.exited ++ c.ssh.toList } := by
  obtain ⟨hn, rfl⟩ := List.getElem?_eq_some_iff.mp hc
  have hperm : (({ s with
      children := s.children.eraseIdx n
      exited := s.exited ++ (s.children[n]).ssh.toList } : Processes)).sshPairs.Perm s.sshPairs := by
    have hsplit := (List.getElem_cons_eraseIdx_perm hn).filterMap Child.ssh
    simp only [Processes.sshPairs]
    refine List.Perm.trans ?_ (hsplit.append_right s.exited)
    cases hssh : (s.children[n]).ssh with
    | none => simp [hssh]
    | some p =>
        simp only [hssh, List.filterMap_cons, Option.toList_some]
        rw [← List.append_assoc]
        exact List.perm_append_singleton _ _
  constructor
  case ends => exact h.ends
  case pairs => exact h.pairs
  case active => exact h.active
  case distinct => exact h.distinct
  case children => exact fun c hc => h.children c (List.mem_of_mem_eraseIdx hc)
  case once => exact hperm.nodup_iff.mpr h.once
  case forked => exact fun p hp => h.forked p (hperm.mem_iff.mp hp)

end Steps

/-! ## Runs -/

structure ProcessInv (s : Processes) : Prop where
  slots : SlotInv s.shell
  single : Single s.shell
  tracked : Tracked s

theorem ProcessInv.step {s s' : Processes} {e : ProcessEvent} (h : ProcessInv s)
    (hok : ForksAlone s e) (hs : processMachine.step s e = some s') : ProcessInv s' := by
  simp only [processMachine, Processes.step] at hs
  cases e with
  | shell e =>
      dsimp only at hs
      split at hs
      · obtain ⟨shell, hshell, rfl⟩ := Option.map_eq_some_iff.mp hs
        have hspec := shellStep_spec hshell
        exact ⟨slotInv_step h.slots hshell, h.single.step h.slots hspec,
          h.tracked.shellStep h.slots hok hspec⟩
      · cases hs
  | fork =>
      cases hs
      exact ⟨h.slots, h.single, h.tracked.otherFork hok⟩
  | exit n =>
      dsimp only at hs
      split at hs
      · cases hs
      · next c hc =>
        cases hs
        exact ⟨h.slots, h.single, h.tracked.childExit hc⟩

theorem ProcessStart.single {s : Processes} (h : ProcessStart s) : Single s.shell := by
  have hnone : ∀ fd k e, s.shell.owner fd ≠ some (.session k e) := by
    intro fd k e ho
    obtain hfree | hother := h.shell.owner fd
    · rw [hfree] at ho
      cases ho
    · rw [hother] at ho
      cases ho
  exact ⟨fun fd k e ho => absurd ho (hnone fd k e), fun fd k e ho => absurd ho (hnone fd k e),
    fun fd _ k e ho => absurd ho (hnone fd k e)⟩

theorem processInv_of_reachable {s : Processes} (h : processMachine.ReachableBy ForksAlone s) :
    ProcessInv s := by
  induction h with
  | initial hs => exact ⟨shellStart_inv hs.shell, hs.single, hs.tracked⟩
  | step _ hok hs ih => exact ih.step hok hs

section Ends

variable {s : Processes} {k : Nat}

theorem Opener.Keeps.active {o : Opener} {fd : Fd} {e : PipeEnd} (h : o.Keeps fd e) :
    o.active = true := by
  cases o with
  | piped | forked | failing => rfl
  | _ => exact h.elim

theorem ProcessInv.not_opener (h : ProcessInv s) (hk : k < s.shell.sessions) {fd : Fd} {e : PipeEnd}
    (hpair : s.pairOf k + 1 = s.pairs) : ¬ s.shell.opener.Keeps fd e := fun hkeep => by
  have hlater := (h.tracked.pairs k hk).2 hkeep.active
  omega

theorem ProcessInv.stdin_closed (h : ProcessInv s) (hk : k < s.shell.sessions)
    (hclosed : 0 < hits s.shell.closed k .stdin) : ¬ s.heldByHms ⟨s.pairOf k, .stdin⟩ := by
  rintro ⟨fd, hmem⟩
  obtain ⟨k', hk', ho, hw⟩ | ⟨-, hpair, hkeep⟩ := h.tracked.ends _ hmem
  · simp only [WriteEnd.mk.injEq, and_true] at hw
    obtain rfl := h.tracked.distinct k hk k' hk' hw
    have hzero := h.single.unclosed fd k .stdin ho
    omega
  · exact h.not_opener hk hpair hkeep

theorem ProcessInv.stdout_gone (h : ProcessInv s) (hk : k < s.shell.sessions)
    (hexited : s.pairOf k ∈ s.exited) :
    ¬ s.heldByHms ⟨s.pairOf k, .stdout⟩ ∧ ¬ s.heldByChild ⟨s.pairOf k, .stdout⟩ := by
  constructor
  · rintro ⟨fd, hmem⟩
    obtain ⟨k', hk', ho, hw⟩ | ⟨-, hpair, hkeep⟩ := h.tracked.ends _ hmem
    · simp at hw
    · exact h.not_opener hk hpair hkeep
  · rintro ⟨c, hc, hw⟩
    obtain ⟨hssh, -⟩ := h.tracked.children c hc _ hw
    have hdisjoint := (List.nodup_append.mp h.tracked.once).2.2
    exact hdisjoint _ (List.mem_filterMap.mpr ⟨c, hc, hssh⟩) _ hexited rfl

theorem reader_released {i : SlotIx} {fd : Fd} (hr : s.shell.readers k = some ⟨i, .reading fd⟩)
    (hms : ¬ s.heldByHms ⟨s.pairOf k, .stdout⟩) (hchild : ¬ s.heldByChild ⟨s.pairOf k, .stdout⟩) :
    ∃ s', processMachine.after (fun _ _ => True) (readerEnd k) s = some s' ∧
      (s'.shell.slots i).Free := by
  simp [readerEnd, Machine.after, processMachine, Processes.step, Processes.answers, hms, hchild,
    shellStep, openerStep, readerStep, hr, Processes.watch, Processes.settle, ShellState.setReader,
    readerLeave, readerAnnounce, readerRelease, ShellState.setSlot, ShellState.publish,
    ShellSlot.Free]

end Ends

/-- Where HMS forks with no write end of another session open, the pipes of a session
end with it. -/
theorem pipes_end {s : Processes} (h : processMachine.ReachableBy ForksAlone s) : PipesEnd s := by
  have hinv := processInv_of_reachable h
  constructor
  case stdin =>
    intro k hk hclosed
    refine ⟨hinv.stdin_closed hk hclosed, fun c hc hw => ?_⟩
    exact (hinv.tracked.children c hc _ hw).1
  case stdout => exact fun k hk hexited => hinv.stdout_gone hk hexited
  case released =>
    intro k hk hexited i fd hr
    obtain ⟨hms, hchild⟩ := hinv.stdout_gone hk hexited
    exact reader_released hr hms hchild

def bareProcesses : Processes := ⟨bareShell, 0, fun _ => 0, [], [], []⟩

theorem bareProcesses_start : processMachine.initial bareProcesses :=
  ⟨bareShell_start, rfl, rfl, rfl, rfl⟩

def openShell (g : Guest) (pid : Nat) (inR inW outR outW : Fd) : List ProcessEvent :=
  ([.openCheck g, .openPipes inR inW outR outW, .openFork pid, .openClose, .openClose,
    .openSlot 0 true, .openAnnounce false] : List ShellEvent).map .shell

/-- The only session is closed and its ssh child exits. -/
theorem pipes_end_closed : ∃ s : Processes, 0 < hits s.shell.closed 0 .stdin ∧
    s.pairOf 0 ∈ s.exited ∧ PipesEnd s := by
  have hbegin : processMachine.ReachableBy ForksAlone bareProcesses := .initial bareProcesses_start
  obtain ⟨s, hreach, hs⟩ := hbegin.after_any (openShell shellGuest 100 3 4 5 6 ++
      [.shell (.close (utf8 "vm1")), .shell (.closerClose 0), .exit 0])
    (fun s => decide (0 < hits s.shell.closed 0 .stdin ∧ s.pairOf 0 ∈ s.exited)) (by decide)
  obtain ⟨hclosed, hexited⟩ := of_decide_eq_true hs
  exact ⟨s, hclosed, hexited, pipes_end hreach⟩

def secondGuest : Guest := { shellGuest with id := .fit 32 (utf8 "vm2") }

/-- The ssh child of a second session keeps the first one's standard input open. -/
theorem second_shell_holds_stdin : ¬ ∀ s, processMachine.Reachable s → PipesEnd s := by
  intro hall
  have hbegin : processMachine.Reachable bareProcesses := .initial bareProcesses_start
  obtain ⟨s, hreach, hs⟩ := hbegin.after_any (openShell shellGuest 100 3 4 5 6 ++
      openShell secondGuest 101 3 6 7 8 ++ [.shell (.close (utf8 "vm1")), .shell (.closerClose 0)])
    (fun s => decide (0 < s.shell.sessions ∧ 0 < hits s.shell.closed 0 .stdin ∧
      ∃ c ∈ s.children, ⟨s.pairOf 0, .stdin⟩ ∈ c.held ∧ c.ssh ≠ some (s.pairOf 0))) (by decide)
  obtain ⟨hstarted, hclosed, c, hc, hheld, hother⟩ := of_decide_eq_true hs
  exact hother (((hall s hreach).stdin 0 hstarted hclosed).2 c hc hheld)

end QnxHypervisor.GuestShell
