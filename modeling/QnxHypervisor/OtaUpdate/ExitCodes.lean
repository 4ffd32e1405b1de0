import QnxHypervisor.Foundation.Machine
import QnxHypervisor.Foundation.Text

/-! # Exit codes of commands that run at one time

`run_cmd` has a shell write the exit code to a temporary file, which is named from a counter
that all job threads share. The counter is read and written in two steps and the shells
end in any order: the condition on the steps under which each call returns the code of its
own command.
-/

namespace QnxHypervisor.OtaUpdate

open Foundation

variable {pid n n' : UInt32} {given path : Bytes} {t t' : Nat} {c : UInt8}

/-! ## The command line -/

/-- What the buffer `cmd` holds of the command. -/
def cmdText (given : Bytes) : Bytes := given.take 8191

def rcFile (pid n : UInt32) : Bytes :=
  (utf8 "/tmp/ota_rc_" ++ decimal pid.toNat ++ utf8 "_" ++ decimal n.toNat).take 127

/-- The shell's order to write the code of the command before it. -/
def echoCode (pid n : UInt32) : Bytes := utf8 "; echo $? > " ++ rcFile pid n

def wrapped (pid n : UInt32) (given : Bytes) : Bytes := (cmdText given ++ echoCode pid n).take 8999

theorem rcFile_eq (pid n : UInt32) :
    rcFile pid n = utf8 "/tmp/ota_rc_" ++ decimal pid.toNat ++ utf8 "_" ++ decimal n.toNat := by
  have hpid : (decimal pid.toNat).length ≤ 10 :=
    decimal_length_le (by decide) (Nat.lt_trans pid.toNat_lt (by decide))
  have hn : (decimal n.toNat).length ≤ 10 :=
    decimal_length_le (by decide) (Nat.lt_trans n.toNat_lt (by decide))
  have hfirst : (utf8 "/tmp/ota_rc_").length = 12 := by decide
  have hmiddle : (utf8 "_").length = 1 := by decide
  refine List.take_of_length_le ?_
  simp only [List.length_append]
  omega

theorem rcFile_inj (h : rcFile pid n = rcFile pid n') : n = n' := by
  rw [rcFile_eq, rcFile_eq] at h
  have hdecimal : atoi (decimal n.toNat ++ []) = atoi (decimal n'.toNat ++ []) := by
    rw [List.append_cancel_left h]
  rw [atoi_decimal _ (by simp), atoi_decimal _ (by simp)] at hdecimal
  exact UInt32.toNat_inj.mp (Int.ofNat_inj.mp hdecimal)

theorem wrapped_eq (pid n : UInt32) (given : Bytes) :
    wrapped pid n given = cmdText given ++ echoCode pid n := by
  have hcmd : (cmdText given).length ≤ 8191 := List.length_take_le _ _
  have hrc : (rcFile pid n).length ≤ 127 := List.length_take_le _ _
  have hecho : (utf8 "; echo $? > ").length = 12 := by decide
  refine List.take_of_length_le ?_
  rw [List.length_append, echoCode, List.length_append]
  omega

theorem wrapped_whole (h : given.length < 8192) : wrapped pid n given = given ++ echoCode pid n := by
  rw [wrapped_eq, cmdText, List.take_of_length_le (by omega)]

/-! ## The code in the file -/

/-- What the shell writes. -/
def codeText (c : UInt8) : Bytes := decimal c.toNat ++ [newline]

/-- `fscanf(f, "%d", &rc)`, if there is a number. -/
def scanCode (text : Bytes) : Option Int :=
  if (signedRest text).2.head?.any isDigit then some (atoi text) else none

theorem scanCode_codeText (c : UInt8) : scanCode (codeText c) = some (c.toNat : Int) := by
  have hhead := decimal_head c.toNat [newline]
  have hdigit : ((codeText c).head?.any isDigit) = true := by
    obtain ⟨b, rest, hb⟩ := List.exists_cons_of_ne_nil (l := codeText c) (by simp [codeText])
    rw [codeText] at hb
    rw [hb] at hhead
    rw [codeText, hb]
    exact hhead b rfl
  rw [scanCode, codeText, signedRest_digits hhead, ← codeText, if_pos hdigit, codeText,
    atoi_decimal _ (by simp [newline, isDigit])]

/-- What a shell leaves when it ends: its file untouched, empty, or with the code. -/
inductive ShellEnd where
  | nothing
  | empty
  | code (c : UInt8)
  deriving DecidableEq

def ShellEnd.left : ShellEnd → Option UInt8
  | .code c => some c
  | _ => none

def ShellEnd.onto (file : Option Bytes) : ShellEnd → Option Bytes
  | .nothing => file
  | .empty => some []
  | .code c => some (codeText c)

/-! ## Calls in their threads -/

/-- How far a call has come. -/
inductive CallPhase where
  | idle
  | formatted (given : Bytes)
  /-- `seq` has been read -/
  | numbered (given : Bytes) (n : UInt32)
  /-- and written -/
  | named (given : Bytes) (n : UInt32)
  | running (given : Bytes) (n : UInt32)
  /-- the shell is gone, and the code it has left -/
  | ended (given : Bytes) (n : UInt32) (left : Option UInt8)
  /-- the file has been read -/
  | fetched (given : Bytes) (n : UInt32) (left : Option UInt8) (rc : Int)
  deriving DecidableEq

/-- A call that has returned: its command, the line that its shell ran, the code that this
shell left, and the result. -/
structure Returned where
  given : Bytes
  line : Option Bytes
  left : Option UInt8
  rc : Int
  deriving DecidableEq

structure RunCmds where
  seq : UInt32
  files : Bytes → Option Bytes
  phase : Nat → CallPhase
  returned : List Returned

namespace RunCmds

def goto (s : RunCmds) (t : Nat) (p : CallPhase) : RunCmds :=
  { s with phase := Function.update s.phase t p }

def giveBack (s : RunCmds) (t : Nat) (r : Returned) : RunCmds :=
  { s.goto t .idle with returned := s.returned ++ [r] }

def store (s : RunCmds) (path : Bytes) (file : Option Bytes) : RunCmds :=
  { s with files := Function.update s.files path file }

end RunCmds

inductive CmdEvent where
  | call (t : Nat) (given : Bytes)
  | readSeq (t : Nat)
  | writeSeq (t : Nat)
  | forkFails (t : Nat)
  | fork (t : Nat)
  | shellEnds (t : Nat) (e : ShellEnd)
  /-- `fopen` fails on a file that may be there -/
  | openFails (t : Nat)
  | readRc (t : Nat)
  | removeRc (t : Nat)

/-- `run_cmd`, step by step, in any thread. -/
def cmdStep (pid : UInt32) (s : RunCmds) : CmdEvent → Option RunCmds
  | .call t given =>
      match s.phase t with
      | .idle => some (s.goto t (.formatted given))
      | _ => none
  | .readSeq t =>
      match s.phase t with
      | .formatted given => some (s.goto t (.numbered given s.seq))
      | _ => none
  | .writeSeq t =>
      match s.phase t with
      | .numbered given n => some ({ s with seq := n + 1 }.goto t (.named given n))
      | _ => none
  | .forkFails t =>
      match s.phase t with
      | .named given _ => some (s.giveBack t ⟨given, none, none, -1⟩)
      | _ => none
  | .fork t =>
      match s.phase t with
      | .named given n => some (s.goto t (.running given n))
      | _ => none
  | .shellEnds t e =>
      match s.phase t with
      | .running given n =>
          some ((s.store (rcFile pid n) (e.onto (s.files (rcFile pid n)))).goto t (.ended given n e.left))
      | _ => none
  | .openFails t =>
      match s.phase t with
      | .ended given n left => some (s.giveBack t ⟨given, some (wrapped pid n given), left, -1⟩)
      | _ => none
  | .readRc t =>
      match s.phase t with
      | .ended given n left =>
          match s.files (rcFile pid n) with
          | none => some (s.giveBack t ⟨given, some (wrapped pid n given), left, -1⟩)
          | some text => some (s.goto t (.fetched given n left ((scanCode text).getD (-1))))
      | _ => none
  | .removeRc t =>
      match s.phase t with
      | .fetched given n left rc =>
          some ((s.store (rcFile pid n) none).giveBack t ⟨given, some (wrapped pid n given), left, rc⟩)
      | _ => none

/-- No call yet; the files of earlier processes may be there. -/
structure CmdStart (s : RunCmds) : Prop where
  seq : s.seq = 0
  phase : ∀ t, s.phase t = .idle
  returned : s.returned = []

def cmdMachine (pid : UInt32) : Machine RunCmds CmdEvent := ⟨CmdStart, cmdStep pid⟩

/-! ## The promise and its condition -/

/-- A result is the code that the call's own shell left for exactly the command given, and
-1 means that there was none. -/
structure Returned.Own (pid : UInt32) (r : Returned) : Prop where
  code : r.rc ≠ -1 → ∃ c n, r.left = some c ∧ r.rc = c.toNat ∧ r.line = some (r.given ++ echoCode pid n)
  none : r.rc = -1 → r.line = none ∨ r.left = none

/-- The number that a file's content is read as agrees with a code that was left. -/
def Tells (file : Option Bytes) (left : Option UInt8) : Prop :=
  file.bind scanCode = left.map fun c => (c.toNat : Int)

/-- With this content at the path, every other call that waits there finds its own code. -/
def Undisturbed (pid : UInt32) (s : RunCmds) (t : Nat) (path : Bytes) (file : Option Bytes) : Prop :=
  ∀ t' given n left, t' ≠ t → s.phase t' = .ended given n left → rcFile pid n = path → Tells file left

/-- A shell that leaves a code ran a whole command; one that leaves nothing finds no code
under its number; neither its end nor a removal disturbs another call; a file with a code
can be opened. -/
def CodesKept (pid : UInt32) (s : RunCmds) : CmdEvent → Prop
  | .shellEnds t e => ∀ given n, s.phase t = .running given n →
      (e.left ≠ none → given.length < 8192) ∧
        (e = .nothing → Tells (s.files (rcFile pid n)) none) ∧
        Undisturbed pid s t (rcFile pid n) (e.onto (s.files (rcFile pid n)))
  | .openFails t => ∀ given n left, s.phase t = .ended given n left → left = none
  | .removeRc t => ∀ given n left rc, s.phase t = .fetched given n left rc →
      Undisturbed pid s t (rcFile pid n) none
  | _ => True

/-! ## The invariant -/

variable {s s' : RunCmds} {p : CallPhase} {r : Returned} {e : ShellEnd} {left : Option UInt8}
  {file : Option Bytes} {rc : Int}

/-- Every call that waits finds its code, every call that has read has got it, and so have
those that are back. -/
structure Kept (pid : UInt32) (s : RunCmds) : Prop where
  waiting : ∀ t given n left, s.phase t = .ended given n left →
    Tells (s.files (rcFile pid n)) left ∧ (left ≠ none → given.length < 8192)
  fetched : ∀ t given n left rc, s.phase t = .fetched given n left rc →
    rc = ((left.map fun c => (c.toNat : Int)).getD (-1)) ∧ (left ≠ none → given.length < 8192)
  own : ∀ r ∈ s.returned, r.Own pid

theorem tells_onto (h : e = .nothing → Tells file none) : Tells (e.onto file) e.left := by
  cases e with
  | nothing => exact h rfl
  | empty => rfl
  | code c => exact scanCode_codeText c

/-- A result that is the code left, or -1 without one, is the call's own. -/
theorem own_of_left (hrc : rc = (left.map fun c => (c.toNat : Int)).getD (-1))
    (hwhole : left ≠ none → given.length < 8192) :
    Returned.Own pid ⟨given, some (wrapped pid n given), left, rc⟩ := by
  cases left with
  | none => exact ⟨fun hne => absurd hrc hne, fun _ => .inr rfl⟩
  | some c =>
      have hline : wrapped pid n given = given ++ echoCode pid n := wrapped_whole (hwhole (by simp))
      refine ⟨fun _ => ⟨c, n, rfl, hrc, congrArg some hline⟩, fun hone => ?_⟩
      have hneg : ((c.toNat : Int)) = -1 := hrc.symm.trans hone
      omega

namespace RunCmds

theorem goto_phase : (s.goto t p).phase t' = if t' = t then p else s.phase t' := by
  simp only [goto, Function.update_apply]

theorem store_files {path' : Bytes} :
    (s.store path file).files path' = if path' = path then file else s.files path' := by
  simp only [store, Function.update_apply]

theorem store_phase : (s.store path file).phase = s.phase := rfl

end RunCmds

open RunCmds

namespace Kept

/-- A call moves on to a phase in which it has no code yet. -/
theorem goto (h : Kept pid s) (hended : ∀ given n left, p ≠ .ended given n left)
    (hfetched : ∀ given n left rc, p ≠ .fetched given n left rc) : Kept pid (s.goto t p) := by
  refine ⟨fun t' given n left hp => ?_, fun t' given n left rc hp => ?_, h.own⟩
  · rw [goto_phase] at hp
    split at hp
    · exact absurd hp (hended given n left)
    · exact h.waiting t' given n left hp
  · rw [goto_phase] at hp
    split at hp
    · exact absurd hp (hfetched given n left rc)
    · exact h.fetched t' given n left rc hp

theorem giveBack (h : Kept pid s) (hr : r.Own pid) : Kept pid (s.giveBack t r) := by
  have hidle : Kept pid (s.goto t .idle) :=
    h.goto (fun _ _ _ heq => nomatch heq) fun _ _ _ _ heq => nomatch heq
  refine ⟨hidle.waiting, hidle.fetched, fun r' hr' => ?_⟩
  rcases List.mem_append.mp hr' with hold | hnew
  · exact h.own r' hold
  · rw [List.mem_singleton.mp hnew]
    exact hr

/-- The other calls that wait keep what they have when a file changes without disturbing them. -/
theorem waiting_store (h : Kept pid s) (hsafe : Undisturbed pid s t path file) (hne : t' ≠ t)
    (hp : s.phase t' = .ended given n left) :
    Tells ((s.store path file).files (rcFile pid n)) left ∧ (left ≠ none → given.length < 8192) := by
  rw [store_files]
  refine ⟨?_, (h.waiting t' given n left hp).2⟩
  split
  · next hpath => exact hsafe t' given n left hne hp hpath
  · exact (h.waiting t' given n left hp).1

theorem shellEnds (h : Kept pid s) (hwhole : e.left ≠ none → given.length < 8192)
    (hstale : e = .nothing → Tells (s.files (rcFile pid n)) none)
    (hsafe : Undisturbed pid s t (rcFile pid n) (e.onto (s.files (rcFile pid n)))) :
    Kept pid ((s.store (rcFile pid n) (e.onto (s.files (rcFile pid n)))).goto t
      (.ended given n e.left)) := by
  refine ⟨fun t' given' n' left hp => ?_, fun t' given' n' left rc hp => ?_, h.own⟩
  · rw [goto_phase] at hp
    split at hp
    · -- the call itself
      obtain ⟨rfl, rfl, rfl⟩ := CallPhase.ended.inj hp
      refine ⟨?_, hwhole⟩
      change Tells ((s.store _ _).files _) _
      rw [store_files, if_pos rfl]
      exact tells_onto hstale
    · next hne => exact h.waiting_store hsafe hne hp
  · rw [goto_phase] at hp
    split at hp
    · cases hp
    · exact h.fetched t' given' n' left rc hp

theorem readRc (h : Kept pid s) (hrc : rc = (left.map fun c => (c.toNat : Int)).getD (-1))
    (hwhole : left ≠ none → given.length < 8192) : Kept pid (s.goto t (.fetched given n left rc)) := by
  refine ⟨fun t' given' n' left' hp => ?_, fun t' given' n' left' rc' hp => ?_, h.own⟩
  · rw [goto_phase] at hp
    split at hp
    · cases hp
    · exact h.waiting t' given' n' left' hp
  · rw [goto_phase] at hp
    split at hp
    · obtain ⟨rfl, rfl, rfl, rfl⟩ := CallPhase.fetched.inj hp
      exact ⟨hrc, hwhole⟩
    · exact h.fetched t' given' n' left' rc' hp

theorem removeRc (h : Kept pid s) (hsafe : Undisturbed pid s t (rcFile pid n) none) (hr : r.Own pid)
    (hp : s.phase t = .fetched given n left rc) :
    Kept pid ((s.store (rcFile pid n) none).giveBack t r) := by
  refine giveBack ⟨fun t' given' n' left' hp' => ?_, h.fetched, h.own⟩ hr
  have hne : t' ≠ t := fun heq => by
    rw [heq] at hp'
    cases hp.symm.trans hp'
  exact h.waiting_store hsafe hne hp'

end Kept

theorem kept_start (h : CmdStart s) : Kept pid s := by
  refine ⟨fun t _ _ _ hp => ?_, fun t _ _ _ _ hp => ?_, fun r hr => ?_⟩
  · cases (h.phase t).symm.trans hp
  · cases (h.phase t).symm.trans hp
  · rw [h.returned] at hr
    cases hr

theorem kept_step {ev : CmdEvent} (h : Kept pid s) (hok : CodesKept pid s ev)
    (hs : cmdStep pid s ev = some s') : Kept pid s' := by
  cases ev with
  | call t given =>
      simp only [cmdStep] at hs
      split at hs
      · obtain rfl := Option.some.inj hs
        exact h.goto (by simp) (by simp)
      · cases hs
  | readSeq t =>
      simp only [cmdStep] at hs
      split at hs
      · obtain rfl := Option.some.inj hs
        exact h.goto (by simp) (by simp)
      · cases hs
  | writeSeq t =>
      simp only [cmdStep] at hs
      split at hs
      · next n _ =>
        obtain rfl := Option.some.inj hs
        have hseq : Kept pid { s with seq := n + 1 } := ⟨h.waiting, h.fetched, h.own⟩
        exact hseq.goto (by simp) (by simp)
      · cases hs
  | forkFails t =>
      simp only [cmdStep] at hs
      split at hs
      · obtain rfl := Option.some.inj hs
        exact h.giveBack ⟨fun hne => absurd rfl hne, fun _ => .inl rfl⟩
      · cases hs
  | fork t =>
      simp only [cmdStep] at hs
      split at hs
      · obtain rfl := Option.some.inj hs
        exact h.goto (by simp) (by simp)
      · cases hs
  | shellEnds t e =>
      simp only [cmdStep] at hs
      split at hs
      · next given n hp =>
        obtain rfl := Option.some.inj hs
        obtain ⟨hwhole, hstale, hsafe⟩ := hok given n hp
        exact h.shellEnds hwhole hstale hsafe
      · cases hs
  | openFails t =>
      simp only [cmdStep] at hs
      split at hs
      · next given n left hp =>
        obtain rfl := Option.some.inj hs
        obtain rfl := hok given n left hp
        exact h.giveBack (own_of_left rfl fun hne => absurd rfl hne)
      · cases hs
  | readRc t =>
      simp only [cmdStep] at hs
      split at hs
      · next given n left hp =>
        obtain ⟨htells, hwhole⟩ := h.waiting t given n left hp
        split at hs
        · next hnone =>
          obtain rfl := Option.some.inj hs
          rw [hnone] at htells
          exact h.giveBack (own_of_left (congrArg (·.getD (-1)) htells) hwhole)
        · next text htext =>
          obtain rfl := Option.some.inj hs
          rw [htext] at htells
          exact h.readRc (congrArg (·.getD (-1)) htells) hwhole
      · cases hs
  | removeRc t =>
      simp only [cmdStep] at hs
      split at hs
      · next given n left rc hp =>
        obtain rfl := Option.some.inj hs
        obtain ⟨hrc, hwhole⟩ := h.fetched t given n left rc hp
        exact h.removeRc (hok given n left rc hp) (own_of_left hrc hwhole) hp
      · cases hs

theorem undisturbed_of_distinct
    (h : ∀ t' given n' left, t' ≠ t → s.phase t' = .ended given n' left → n' ≠ n) :
    Undisturbed pid s t (rcFile pid n) file :=
  fun t' given n' left hne hp hpath => absurd (rcFile_inj hpath) (h t' given n' left hne hp)

theorem undisturbed_alone (h : ∀ t', t' ≠ t → s.phase t' = .idle) : Undisturbed pid s t path file :=
  fun t' _ _ _ hne hp _ => nomatch (h t' hne).symm.trans hp

/-- In every run whose steps keep the codes, each call returns its own command's code, and -1
only when the shell could not be run or left no code. -/
theorem run_cmd_returns_own (h : (cmdMachine pid).ReachableBy (CodesKept pid) s) :
    ∀ r ∈ s.returned, r.Own pid := by
  have hkept : Kept pid s :=
    h.invariant (fun _ hstart => kept_start hstart) fun _ _ _ _ hinv hok hs => kept_step hinv hok hs
  exact hkept.own

/-! ## Two runs -/

def noCalls : RunCmds := ⟨0, fun _ => none, fun _ => .idle, []⟩

theorem noCalls_start : (cmdMachine pid).initial noCalls := ⟨rfl, fun _ => rfl, rfl⟩

/-- Two calls at one time, each with a number of its own. -/
theorem run_cmd_returns_own_overlapping : ∃ s : RunCmds,
    s.returned = [⟨utf8 "false", some (wrapped 1 0 (utf8 "false")), some 1, 1⟩,
      ⟨utf8 "true", some (wrapped 1 1 (utf8 "true")), some 0, 0⟩] ∧
      ∀ r ∈ s.returned, r.Own 1 := by
  have hbegin : (cmdMachine 1).ReachableBy (CodesKept 1) noCalls := .initial noCalls_start
  have hcalled := hbegin.step (e := CmdEvent.call 0 (utf8 "false")) trivial rfl
  have hcalled := hcalled.step (e := CmdEvent.call 1 (utf8 "true")) trivial rfl
  have hnamed := hcalled.step (e := CmdEvent.readSeq 0) trivial rfl
  have hnamed := hnamed.step (e := CmdEvent.writeSeq 0) trivial rfl
  have hnamed := hnamed.step (e := CmdEvent.readSeq 1) trivial rfl
  have hnamed := hnamed.step (e := CmdEvent.writeSeq 1) trivial rfl
  have hrunning := hnamed.step (e := CmdEvent.fork 0) trivial rfl
  have hrunning := hrunning.step (e := CmdEvent.fork 1) trivial rfl
  have hended := hrunning.step (e := CmdEvent.shellEnds 0 (.code 1)) (fun given n hp => by
    obtain ⟨rfl, rfl⟩ := CallPhase.running.inj hp
    refine ⟨fun _ => by decide, (nomatch ·), undisturbed_of_distinct fun t' _ _ _ hne hp => ?_⟩
    simp only [goto_phase, if_neg hne] at hp
    split at hp <;> cases hp) rfl
  have hboth := hended.step (e := CmdEvent.shellEnds 1 (.code 0)) (fun given n hp => by
    obtain ⟨rfl, rfl⟩ := CallPhase.running.inj hp
    refine ⟨fun _ => by decide, (nomatch ·), undisturbed_of_distinct fun t' _ _ _ hne hp => ?_⟩
    simp only [goto_phase, store_phase, if_neg hne] at hp
    split at hp <;> cases hp
    decide) rfl
  have hread := hboth.step (e := CmdEvent.readRc 0) trivial rfl
  have hback := hread.step (e := CmdEvent.removeRc 0)
    (fun given n left rc hp => by
      obtain ⟨rfl, rfl, rfl, rfl⟩ := CallPhase.fetched.inj hp
      refine undisturbed_of_distinct fun t' _ _ _ hne hp => ?_
      simp only [goto_phase, store_phase, if_neg hne] at hp
      split at hp <;> cases hp
      decide) rfl
  have hread := hback.step (e := CmdEvent.readRc 1) trivial rfl
  have hdone := hread.step (e := CmdEvent.removeRc 1)
    (fun given n left rc hp => by
      refine undisturbed_alone fun t' hne => ?_
      simp only [goto_phase, store_phase, giveBack, if_neg hne]
      split
      · rfl
      · rfl) rfl
  exact ⟨_, by decide +kernel, run_cmd_returns_own hdone⟩

/-- Two calls read the same number; the second shell's code overwrites the first one's. -/
theorem shared_number_mixes_codes : ¬ ∀ (pid : UInt32) (s : RunCmds), (cmdMachine pid).Reachable s →
    ∀ r ∈ s.returned, r.Own pid := by
  intro hall
  have hbegin : (cmdMachine 1).Reachable noCalls := .initial noCalls_start
  obtain ⟨s, hreach, hmixed⟩ := hbegin.after_any [.call 0 (utf8 "false"), .call 1 (utf8 "true"), .readSeq 0,
      .readSeq 1, .writeSeq 0, .writeSeq 1, .fork 0, .fork 1, .shellEnds 0 (.code 1), .shellEnds 1 (.code 0),
      .readRc 0, .removeRc 0]
    (fun s => s.returned.any fun r => r.rc == 0 && r.left == some 1) (by decide +kernel)
  obtain ⟨r, hr, hvalues⟩ := List.any_eq_true.mp hmixed
  obtain ⟨hrc, hleft⟩ : r.rc = 0 ∧ r.left = some 1 := by simpa using hvalues
  obtain ⟨c, n, hc, hcode, -⟩ := (hall 1 s hreach r hr).code (by simp [hrc])
  obtain rfl : c = 1 := Option.some.inj (hc.symm.trans hleft)
  rw [hrc] at hcode
  exact absurd hcode (by decide)

end QnxHypervisor.OtaUpdate
