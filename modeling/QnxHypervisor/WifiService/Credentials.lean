import QnxHypervisor.WifiService.Service

/-! # Credentials are written whole

A receiver sets the flag and both strings under the mutex. The main thread takes
the flag under it and reads and clears the strings outside; and a flag set while
nobody waits for it is found by a later round.
-/

namespace QnxHypervisor.WifiService

open Foundation

variable {s s' : Wifi}

/-! ## Statements -/

/-- Network name and password of one line received in the round, with a name. -/
def Written.Whole (w : Written) : Prop :=
  ∃ line ∈ w.since, ssidOf line ≠ [] ∧ w.text = realConfText (ssidOf line) (passOf line)

namespace MainPhase

/-- Inside `state_on_default`, the flag not yet taken. -/
def takes : MainPhase → Bool
  | .detect | .startReceiver | .onDefault => true
  | _ => false

/-- The flag taken and the strings not yet printed. -/
def writes : MainPhase → Bool
  | .openConf | .readSsid | .readPass _ => true
  | _ => false

/-- A configuration may be written without another test of `g_running`. -/
def mayWrite : MainPhase → Bool
  | .dispatch => true
  | phase => phase.takes || phase.writes

end MainPhase

/-- A receiver delivers to the round in which its line was received, before the
flag is taken, or when nothing can be written any more; and a round that finds no
address leaves no flag behind. -/
def DeliversInTime (s : Wifi) : WifiEvent → Prop
  | .receiver i _ =>
      match s.receivers i with
      | .deliver line => (s.main.takes = true ∧ line ∈ s.since) ∨
          (s.running = false ∧ s.main.mayWrite = false)
      | _ => True
  | .main choice =>
      s.main = .detect → choice = false → s.credsReceived = true → s.running = false
  | _ => True

instance (s : Wifi) (e : WifiEvent) : Decidable (DeliversInTime s e) :=
  match e with
  | .receiver i _ =>
      match h : s.receivers i with
      | .deliver line =>
          decidable_of_iff ((s.main.takes = true ∧ s.since.contains line = true) ∨
            (s.running = false ∧ s.main.mayWrite = false))
            (by simp only [DeliversInTime, h, List.contains_iff_mem])
      | .stopped | .test | .receive | .copySsid _ | .copyPass _ =>
          .isTrue (by simp only [DeliversInTime, h])
  | .main _ => @instDecidableForall _ _ _ (@instDecidableForall _ _ _ (@instDecidableForall _ _ _ _))
  | .monitor _ _ | .signal => .isTrue trivial

/-! ## The invariant -/

/-- Something may still be written. -/
def Active (s : Wifi) : Prop := s.running = true ∨ s.main.mayWrite = true

/-- The strings are those of one line received in this round. -/
def Fresh (s : Wifi) : Prop :=
  ∃ line ∈ s.since, ssidOf line ≠ [] ∧ s.newSsid = ssidOf line ∧ s.newPass = passOf line

/-- What the main thread holds on its way to `write_real_conf` and in it. -/
def HoldsCreds (s : Wifi) : Prop :=
  match s.main with
  | .openConf | .readSsid => Fresh s
  | .readPass ssid =>
      ∃ line ∈ s.since, ssidOf line ≠ [] ∧ ssid = ssidOf line ∧ s.newPass = passOf line
  | _ => True

def Receiver.Outside : Receiver → Prop
  | .copySsid _ | .copyPass _ => False
  | .deliver line => ssidOf line ≠ []
  | _ => True

/-- The line it delivers or is about to. -/
def Receiver.line : Receiver → Option Bytes
  | .deliver line | .copySsid line | .copyPass line => some line
  | _ => none

structure CredsInv (s : Wifi) : Prop where
  held : ∀ i, (s.receivers i).Outside ∨ s.mutex = some i
  named : ∀ i, ∀ line ∈ (s.receivers i).line, ssidOf line ≠ []
  writing : s.main.writes = true → s.mutex = none
  taking : Active s → s.credsReceived = true → s.main.takes = true
  fresh : Active s → s.credsReceived = true → s.mutex = none → Fresh s
  copySsid : Active s → ∀ i line, s.receivers i = .copySsid line →
    s.credsReceived = true ∧ line ∈ s.since
  copyPass : Active s → ∀ i line, s.receivers i = .copyPass line →
    s.credsReceived = true ∧ line ∈ s.since ∧ s.newSsid = ssidOf line
  holds : HoldsCreds s
  written : ∀ w ∈ s.written, w.Whole

theorem Active.mayWrite (h : Active s) (hmain : s.main.mayWrite = false) : s.running = true := by
  rcases h with hrun | hmay
  · exact hrun
  · rw [hmain] at hmay
    cases hmay

theorem MainPhase.mayWrite_of_writes {phase : MainPhase} (h : phase.writes = true) :
    phase.mayWrite = true := by
  cases phase <;> first | rfl | cases h

theorem Fresh.later (h : Fresh s) (hssid : s'.newSsid = s.newSsid) (hpass : s'.newPass = s.newPass)
    (hsince : s.since ⊆ s'.since) : Fresh s' := by
  obtain ⟨line, hline, hne, hs, hp⟩ := h
  exact ⟨line, hsince hline, hne, hssid.trans hs, hpass.trans hp⟩

theorem Receiver.Outside.named {r : Receiver} (h : r.Outside) {line : Bytes}
    (hline : line ∈ r.line) : ssidOf line ≠ [] := by
  cases r with
  | deliver l =>
      obtain rfl := Option.some.inj hline
      exact h
  | copySsid l => exact absurd h id
  | copyPass l => exact absurd h id
  | _ => cases hline

theorem Receiver.Outside.ne {r : Receiver} (h : r.Outside) (line : Bytes) :
    r ≠ .copySsid line ∧ r ≠ .copyPass line := by
  constructor <;>
  · rintro rfl
    exact h

theorem CredsInv.quiet (h : CredsInv s) (hflag : s'.credsReceived = s.credsReceived)
    (hssid : s'.newSsid = s.newSsid) (hpass : s'.newPass = s.newPass)
    (hmutex : s'.mutex = s.mutex) (hsince : s.since ⊆ s'.since)
    (hwritten : s'.written = s.written)
    (hreceivers : ∀ i, s'.receivers i = s.receivers i ∨ (s'.receivers i).Outside)
    (hactive : Active s' → Active s)
    (htakes : Active s' → s.credsReceived = true → s.main.takes = true → s'.main.takes = true)
    (hwriting : s'.main.writes = true → s.mutex = none) (hholds : HoldsCreds s') :
    CredsInv s' where
  held := fun i => by
    rcases hreceivers i with heq | hout
    · rw [heq, hmutex]
      exact h.held i
    · exact .inl hout
  named := fun i line hline => by
    rcases hreceivers i with heq | hout
    · rw [heq] at hline
      exact h.named i line hline
    · exact hout.named hline
  writing := fun hwrites => hmutex.trans (hwriting hwrites)
  taking := fun hact hset => by
    rw [hflag] at hset
    exact htakes hact hset (h.taking (hactive hact) hset)
  fresh := fun hact hset hfree => by
    rw [hflag] at hset
    rw [hmutex] at hfree
    exact (h.fresh (hactive hact) hset hfree).later hssid hpass hsince
  copySsid := fun hact i line hline => by
    rcases hreceivers i with heq | hout
    · obtain ⟨hset, hmem⟩ := h.copySsid (hactive hact) i line (heq ▸ hline)
      exact ⟨hflag.trans hset, hsince hmem⟩
    · exact absurd hline (hout.ne line).1
  copyPass := fun hact i line hline => by
    rcases hreceivers i with heq | hout
    · obtain ⟨hset, hmem, heq'⟩ := h.copyPass (hactive hact) i line (heq ▸ hline)
      exact ⟨hflag.trans hset, hsince hmem, hssid.trans heq'⟩
    · exact absurd hline (hout.ne line).2
  holds := hholds
  written := by
    rw [hwritten]
    exact h.written

/-! ## Steps of the main thread -/

theorem CredsInv.outside (h : CredsInv s) (hact : Active s) (hunset : s.credsReceived = false)
    (i : Nat) : (s.receivers i).Outside := by
  cases hphase : s.receivers i with
  | deliver line => exact h.named i line (by rw [hphase]; rfl)
  | copySsid line =>
      rw [(h.copySsid hact i line hphase).1] at hunset
      cases hunset
  | copyPass line =>
      rw [(h.copyPass hact i line hphase).1] at hunset
      cases hunset
  | _ => trivial

theorem CredsInv.outside_of_free (h : CredsInv s) (hfree : s.mutex = none) (i : Nat) :
    (s.receivers i).Outside := by
  rcases h.held i with hout | hheld
  · exact hout
  · rw [hfree] at hheld
    cases hheld

/-- There is no flag between two rounds that may still write. -/
theorem CredsInv.unset (h : CredsInv s) (hact : Active s) (hmain : s.main.takes = false) :
    s.credsReceived = false := by
  cases hset : s.credsReceived with
  | false => rfl
  | true =>
      have htakes := h.taking hact hset
      rw [hmain] at htakes
      cases htakes

/-- Steps to a state without flag and deliveries. -/
theorem CredsInv.idle (h : CredsInv s) (hreceivers : s'.receivers = s.receivers)
    (hmutex : s'.mutex = s.mutex)
    (hidle : Active s' → s'.credsReceived = false ∧ ∀ i, (s.receivers i).Outside)
    (hwriting : s'.main.writes = true → s.mutex = none) (hholds : HoldsCreds s')
    (hwritten : ∀ w ∈ s'.written, w.Whole) : CredsInv s' where
  held := by
    rw [hreceivers, hmutex]
    exact h.held
  named := by
    rw [hreceivers]
    exact h.named
  writing := fun hwrites => hmutex.trans (hwriting hwrites)
  taking := fun hact hset => by
    rw [(hidle hact).1] at hset
    cases hset
  fresh := fun hact hset _ => by
    rw [(hidle hact).1] at hset
    cases hset
  copySsid := fun hact i line hline => by
    rw [hreceivers] at hline
    exact absurd hline (((hidle hact).2 i).ne line).1
  copyPass := fun hact i line hline => by
    rw [hreceivers] at hline
    exact absurd hline (((hidle hact).2 i).ne line).2
  holds := hholds
  written := hwritten

/-- Steps of the main thread outside a round, and from the flag on. -/
theorem CredsInv.onward (h : CredsInv s) (hmain : s.main.takes = false)
    (hflag : s'.credsReceived = s.credsReceived) (hreceivers : s'.receivers = s.receivers)
    (hmutex : s'.mutex = s.mutex) (hactive : Active s' → Active s)
    (hwriting : s'.main.writes = true → s.mutex = none) (hholds : HoldsCreds s')
    (hwritten : ∀ w ∈ s'.written, w.Whole) : CredsInv s' := by
  refine h.idle hreceivers hmutex (fun hact => ?_) hwriting hholds hwritten
  have hunset := h.unset (hactive hact) hmain
  exact ⟨hflag.trans hunset, h.outside (hactive hact) hunset⟩

/-- To a phase from which nothing is written without another test of `g_running`. -/
theorem CredsInv.goTo {phase : MainPhase} (h : CredsInv s) (hmain : s.main.takes = false)
    (hphase : phase.mayWrite = false) (hnext : s'.main = phase)
    (hrunning : s'.running = true → s.running = true)
    (hflag : s'.credsReceived = s.credsReceived) (hreceivers : s'.receivers = s.receivers)
    (hmutex : s'.mutex = s.mutex) (hwritten : s'.written = s.written) : CredsInv s' := by
  have hwrites : s'.main.writes = true → s.mutex = none := by
    rw [hnext]
    intro hwrites
    rw [MainPhase.mayWrite_of_writes hwrites] at hphase
    cases hphase
  refine h.onward hmain hflag hreceivers hmutex
    (fun hact => .inl (hrunning (hact.mayWrite (hnext ▸ hphase)))) hwrites ?_ (hwritten ▸ h.written)
  unfold HoldsCreds
  rw [hnext]
  cases phase <;> trivial

theorem CredsInv.enter (h : CredsInv s) (hmain : s.main = .dispatch) : CredsInv s.enter := by
  have htakes : s.main.takes = false := by rw [hmain]; rfl
  have hact : Active s := .inr (by rw [hmain]; rfl)
  unfold Wifi.enter
  cases s.gState
  case onDefault =>
      exact h.onward htakes rfl rfl rfl (fun _ => hact) (fun hw => by cases hw) trivial h.written
  case exit =>
      exact @CredsInv.goTo _ _ .loop h htakes rfl rfl (fun hrun => by cases hrun) rfl rfl rfl rfl
  all_goals exact h.goTo htakes rfl rfl id rfl rfl rfl rfl

theorem CredsInv.testConnect {conf : Conf} (h : CredsInv s) (hmain : s.main.takes = false) :
    CredsInv (s.testConnect conf) := by
  unfold Wifi.testConnect
  split
  · exact h.goTo hmain rfl rfl id rfl rfl rfl rfl
  · split <;> exact h.goTo hmain rfl rfl id rfl rfl rfl rfl

theorem CredsInv.testCreds (h : CredsInv s) (hmain : s.main = .onDefault)
    (hfree : s.mutex = none) : CredsInv s.testCreds := by
  have hact : Active s := .inr (by rw [hmain]; rfl)
  unfold Wifi.testCreds
  by_cases hset : s.credsReceived = true
  · rw [if_pos hset]
    exact h.idle rfl rfl (fun _ => ⟨rfl, h.outside_of_free hfree⟩) (fun _ => hfree)
      (h.fresh hact hset hfree) h.written
  · rw [if_neg hset]
    split
    · exact h
    · exact h.idle rfl rfl
        (fun _ => ⟨Bool.eq_false_of_not_eq_true hset, h.outside_of_free hfree⟩)
        (fun hw => by cases hw) trivial h.written

theorem CredsInv.main {choice : Bool} (h : CredsInv s) (hok : DeliversInTime s (.main choice))
    (hs : mainStep s choice = some s') : CredsInv s' := by
  have hok : s.main = .detect → choice = false → s.credsReceived = true → s.running = false := hok
  have hholds := h.holds
  unfold mainStep at hs
  unfold HoldsCreds at hholds
  cases hmain : s.main <;> rw [hmain] at hs hholds <;> dsimp only at hs hholds
  case loop =>
      obtain rfl := Option.some.inj hs
      by_cases hrun : s.running = true
      · rw [if_pos hrun]
        exact h.onward (by rw [hmain]; rfl) rfl rfl rfl (fun _ => .inl hrun)
          (fun hw => by cases hw) trivial h.written
      · rw [if_neg hrun]
        exact h.goTo (by rw [hmain]; rfl) rfl rfl id rfl rfl rfl rfl
  case dispatch =>
      obtain ⟨-, rfl⟩ := locked_eq_some hs
      exact h.enter hmain
  case firstTest conf =>
      obtain ⟨-, rfl⟩ := locked_eq_some hs
      split
      · exact h.testConnect (by rw [hmain]; rfl)
      · exact h.goTo (by rw [hmain]; rfl) rfl rfl id rfl rfl rfl rfl
  case waiting conf =>
      obtain ⟨-, rfl⟩ := locked_eq_some hs
      split
      · exact h.testConnect (by rw [hmain]; rfl)
      · exact h.goTo (by rw [hmain]; rfl) rfl rfl id rfl rfl rfl rfl
  case detect =>
      obtain rfl := Option.some.inj hs
      cases choice with
      | true =>
          exact h.quiet rfl rfl rfl rfl (List.Subset.refl _) rfl (fun _ => .inl rfl)
            (fun _ => .inr (by rw [hmain]; rfl)) (fun _ _ _ => rfl) (fun hw => by cases hw) trivial
      | false =>
          refine h.idle rfl rfl (fun hact => ?_) (fun hw => by cases hw) trivial h.written
          have hrun : s.running = true := hact.mayWrite rfl
          have hunset : s.credsReceived = false := by
            cases hset : s.credsReceived with
            | false => rfl
            | true =>
                rw [hok hmain rfl hset] at hrun
                cases hrun
          exact ⟨hunset, h.outside (.inl hrun) hunset⟩
  case startReceiver =>
      obtain rfl := Option.some.inj hs
      refine h.quiet rfl rfl rfl rfl (List.Subset.refl _) rfl (fun i => ?_)
        (fun _ => .inr (by rw [hmain]; rfl)) (fun _ _ _ => rfl) (fun hw => by cases hw) trivial
      by_cases hi : i = s.receiversStarted
      · right
        change (Function.update s.receivers s.receiversStarted Receiver.test i).Outside
        rw [hi, Function.update_self]
        trivial
      · exact .inl (Function.update_of_ne hi _ _)
  case onDefault =>
      obtain ⟨hfree, rfl⟩ := locked_eq_some hs
      exact h.testCreds hmain hfree
  case openConf =>
      obtain rfl := Option.some.inj hs
      have hwriting := h.writing (by rw [hmain]; rfl)
      have hact : Active s := .inr (by rw [hmain]; rfl)
      cases choice with
      | true =>
          exact h.onward (by rw [hmain]; rfl) rfl rfl rfl (fun _ => hact) (fun _ => hwriting)
            hholds h.written
      | false => exact h.goTo (by rw [hmain]; rfl) rfl rfl id rfl rfl rfl rfl
  case readSsid =>
      obtain rfl := Option.some.inj hs
      have hact : Active s := .inr (by rw [hmain]; rfl)
      exact h.onward (by rw [hmain]; rfl) rfl rfl rfl (fun _ => hact)
        (fun _ => h.writing (by rw [hmain]; rfl)) hholds h.written
  case readPass ssid =>
      obtain rfl := Option.some.inj hs
      have hact : Active s := .inr (by rw [hmain]; rfl)
      refine h.onward (by rw [hmain]; rfl) rfl rfl rfl (fun _ => hact) (fun hw => by cases hw)
        trivial fun w hw => ?_
      rcases List.mem_append.mp hw with hw | hw
      · exact h.written w hw
      · obtain rfl := List.mem_singleton.mp hw
        obtain ⟨line, hline, hne, rfl, hpass⟩ := hholds
        exact ⟨line, hline, hne, by rw [hpass]⟩
  case exited => cases hs
  all_goals
    first
    | obtain ⟨-, rfl⟩ := locked_eq_some hs
    | obtain rfl := Option.some.inj hs
    try split
    all_goals exact h.goTo (by rw [hmain]; rfl) rfl rfl id rfl rfl rfl rfl

/-! ## Steps of the other threads -/

theorem HoldsCreds.later (h : HoldsCreds s) (hmain : s'.main = s.main)
    (hssid : s'.newSsid = s.newSsid) (hpass : s'.newPass = s.newPass)
    (hsince : s.since ⊆ s'.since) : HoldsCreds s' := by
  unfold HoldsCreds at h ⊢
  rw [hmain]
  cases hphase : s.main <;> rw [hphase] at h
  case openConf | readSsid => exact h.later hssid hpass hsince
  case readPass ssid =>
      obtain ⟨line, hline, hne, hs, hp⟩ := h
      exact ⟨line, hsince hline, hne, hs, hpass.trans hp⟩
  all_goals trivial

theorem HoldsCreds.of_not_writing (h : s.main.writes = false) : HoldsCreds s := by
  unfold HoldsCreds
  cases hphase : s.main <;> rw [hphase] at h <;> trivial

theorem setReceiver_self (t : Wifi) (i : Nat) (r : Receiver) : (t.setReceiver i r).receivers i = r :=
  Function.update_self _ _ _

theorem setReceiver_ne (t : Wifi) {i j : Nat} (r : Receiver) (h : j ≠ i) :
    (t.setReceiver i r).receivers j = t.receivers j := Function.update_of_ne h _ _

theorem setReceiver_cases {t : Wifi} {i j : Nat} {r x : Receiver}
    (h : (t.setReceiver i r).receivers j = x) : (j = i ∧ r = x) ∨ (j ≠ i ∧ t.receivers j = x) := by
  by_cases hj : j = i
  · rw [hj, setReceiver_self] at h
    exact .inl ⟨hj, h⟩
  · rw [setReceiver_ne t r hj] at h
    exact .inr ⟨hj, h⟩

theorem CredsInv.outsideStep {t : Wifi} {i : Nat} {r : Receiver} (h : CredsInv s)
    (ht : t = { s with since := t.since }) (hsince : s.since ⊆ t.since) (hout : r.Outside) :
    CredsInv (t.setReceiver i r) := by
  have hmain : t.main = s.main := by rw [ht]
  have hreceivers : t.receivers = s.receivers := by rw [ht]
  refine h.quiet (by rw [ht]; rfl) (by rw [ht]; rfl) (by rw [ht]; rfl) (by rw [ht]; rfl) hsince
    (by rw [ht]; rfl) (fun j => ?_) (by rw [ht]; exact id) (fun _ _ htakes => ?_) (fun hw => ?_) ?_
  · by_cases hj : j = i
    · rw [hj, setReceiver_self]
      exact .inr hout
    · rw [setReceiver_ne t r hj, hreceivers]
      exact .inl rfl
  · exact (congrArg MainPhase.takes hmain).trans htakes
  · exact h.writing ((congrArg MainPhase.writes hmain).symm.trans hw)
  · exact h.holds.later hmain (by rw [ht]; rfl) (by rw [ht]; rfl) hsince

theorem CredsInv.outside_of_held (h : CredsInv s) {i : Nat} (hheld : s.mutex = some i) {j : Nat}
    (hj : j ≠ i) : (s.receivers j).Outside := by
  rcases h.held j with hout | hmutex
  · exact hout
  · exact absurd (Option.some.inj (hmutex.symm.trans hheld)) hj

theorem CredsInv.holder (h : CredsInv s) {i : Nat} (hin : ¬ (s.receivers i).Outside) :
    s.mutex = some i := (h.held i).resolve_left hin

theorem CredsInv.not_writing (h : CredsInv s) {i : Nat} (hheld : s.mutex = some i) :
    s.main.writes = false := by
  cases hw : s.main.writes with
  | false => rfl
  | true =>
      rw [h.writing hw] at hheld
      cases hheld

theorem CredsInv.named_set {t : Wifi} {i : Nat} {r : Receiver} (h : CredsInv s)
    (ht : t.receivers = s.receivers) (hr : ∀ line ∈ r.line, ssidOf line ≠ []) :
    ∀ j, ∀ line ∈ ((t.setReceiver i r).receivers j).line, ssidOf line ≠ [] := by
  intro j line hline
  rcases setReceiver_cases (rfl : (t.setReceiver i r).receivers j = _) with ⟨-, hj⟩ | ⟨-, hj⟩
  · exact hr line (hj ▸ hline)
  · rw [← hj, ht] at hline
    exact h.named j line hline

theorem CredsInv.deliver {i : Nat} {line : Bytes} (h : CredsInv s)
    (hphase : s.receivers i = .deliver line) (hfree : s.mutex = none)
    (hok : (s.main.takes = true ∧ line ∈ s.since) ∨
      (s.running = false ∧ s.main.mayWrite = false)) :
    CredsInv ({ s with mutex := some i, credsReceived := true }.setReceiver i (.copySsid line)) := by
  have hnotWriting : s.main.writes = false := by
    rcases hok with ⟨htakes, -⟩ | ⟨-, hmay⟩
    · cases hm : s.main <;> rw [hm] at htakes <;> first | rfl | cases htakes
    · cases hm : s.main <;> rw [hm] at hmay <;> first | rfl | cases hmay
  -- what is delivered while something may be written belongs to the round
  have hround : Active s → s.main.takes = true ∧ line ∈ s.since := by
    rintro (hrun | hmay)
    · exact hok.resolve_right fun hlate => by rw [hlate.1] at hrun; cases hrun
    · exact hok.resolve_right fun hlate => by rw [hlate.2] at hmay; cases hmay
  refine
    { held := fun j => ?_
      named := h.named_set rfl fun l hl => h.named i l (by rw [hphase]; exact hl)
      writing := fun hw => ?_
      taking := fun hact _ => (hround hact).1
      fresh := fun _ _ hnone => by cases hnone
      copySsid := fun hact j l hl => ?_
      copyPass := fun hact j l hl => ?_
      holds := .of_not_writing hnotWriting
      written := h.written }
  · rcases setReceiver_cases (rfl : Wifi.receivers (.setReceiver _ i _) j = _) with
      ⟨rfl, -⟩ | ⟨-, hj⟩
    · exact .inr rfl
    · rw [← hj]
      exact .inl (h.outside_of_free hfree j)
  · have hw : s.main.writes = true := hw
    rw [hnotWriting] at hw
    cases hw
  · rcases setReceiver_cases hl with ⟨-, hl⟩ | ⟨-, hl⟩
    · cases hl
      exact ⟨rfl, (hround hact).2⟩
    · exact absurd hl ((h.outside_of_free hfree j).ne l).1
  · rcases setReceiver_cases hl with ⟨-, hl⟩ | ⟨-, hl⟩
    · cases hl
    · exact absurd hl ((h.outside_of_free hfree j).ne l).2

theorem CredsInv.stepSsid {i : Nat} {line : Bytes} (h : CredsInv s)
    (hphase : s.receivers i = .copySsid line) :
    CredsInv ({ s with newSsid := ssidOf line }.setReceiver i (.copyPass line)) := by
  have hheld := h.holder (by rw [hphase]; exact id)
  refine
    { held := fun j => ?_
      named := h.named_set rfl fun l hl => h.named i l (by rw [hphase]; exact hl)
      writing := h.writing
      taking := h.taking
      fresh := fun _ _ hnone => ?_
      copySsid := fun hact j l hl => ?_
      copyPass := fun hact j l hl => ?_
      holds := .of_not_writing (h.not_writing hheld)
      written := h.written }
  · rcases setReceiver_cases (rfl : Wifi.receivers (.setReceiver _ i _) j = _) with
      ⟨rfl, -⟩ | ⟨-, hj⟩
    · exact .inr hheld
    · rw [← hj]
      exact h.held j
  · have hnone : s.mutex = none := hnone
    rw [hheld] at hnone
    cases hnone
  · rcases setReceiver_cases hl with ⟨-, hl⟩ | ⟨-, hl⟩
    · cases hl
    · exact h.copySsid hact j l hl
  · rcases setReceiver_cases hl with ⟨-, hl⟩ | ⟨hj, hl⟩
    · cases hl
      obtain ⟨hset, hmem⟩ := h.copySsid hact i line hphase
      exact ⟨hset, hmem, rfl⟩
    · exact absurd hl ((h.outside_of_held hheld hj).ne l).2

theorem CredsInv.stepPass {i : Nat} {line : Bytes} (h : CredsInv s)
    (hphase : s.receivers i = .copyPass line) :
    CredsInv ({ s with newPass := passOf line, mutex := none }.setReceiver i .stopped) := by
  have hheld := h.holder (by rw [hphase]; exact id)
  refine
    { held := fun j => ?_
      named := h.named_set rfl fun l hl => by cases hl
      writing := fun _ => rfl
      taking := h.taking
      fresh := fun hact _ _ => ?_
      copySsid := fun _ j l hl => ?_
      copyPass := fun _ j l hl => ?_
      holds := .of_not_writing (h.not_writing hheld)
      written := h.written }
  · rcases setReceiver_cases (rfl : Wifi.receivers (.setReceiver _ i _) j = _) with
      ⟨-, hj⟩ | ⟨hne, hj⟩
    · rw [← hj]
      exact .inl trivial
    · rw [← hj]
      exact .inl (h.outside_of_held hheld hne)
  · obtain ⟨-, hmem, hssid⟩ := h.copyPass hact i line hphase
    exact ⟨line, hmem, h.named i line (by rw [hphase]; rfl), hssid, rfl⟩
  · rcases setReceiver_cases hl with ⟨-, hl⟩ | ⟨hj, hl⟩
    · cases hl
    · exact absurd hl ((h.outside_of_held hheld hj).ne l).1
  · rcases setReceiver_cases hl with ⟨-, hl⟩ | ⟨hj, hl⟩
    · cases hl
    · exact absurd hl ((h.outside_of_held hheld hj).ne l).2

theorem CredsInv.receiver {i : Nat} {line : Option Bytes} (h : CredsInv s)
    (hok : DeliversInTime s (.receiver i line)) (hs : receiverStep s i line = some s') :
    CredsInv s' := by
  unfold receiverStep at hs
  unfold DeliversInTime at hok
  dsimp only at hok
  cases hphase : s.receivers i <;> rw [hphase] at hs hok <;> dsimp only at hs hok
  case stopped => cases hs
  case test =>
      obtain ⟨-, rfl⟩ := locked_eq_some hs
      refine h.outsideStep rfl (List.Subset.refl _) ?_
      split <;> trivial
  case receive =>
      cases line with
      | none =>
          obtain rfl := Option.some.inj hs
          exact h.outsideStep rfl (List.Subset.refl _) trivial
      | some l =>
          obtain rfl := Option.some.inj hs
          refine h.outsideStep rfl (List.subset_append_left _ _) ?_
          split
          · trivial
          · next hne => exact hne
  case deliver l =>
      obtain ⟨hfree, rfl⟩ := locked_eq_some hs
      exact h.deliver hphase hfree hok
  case copySsid l =>
      obtain rfl := Option.some.inj hs
      exact h.stepSsid hphase
  case copyPass l =>
      obtain rfl := Option.some.inj hs
      exact h.stepPass hphase

theorem CredsInv.monitor {i : Nat} {connected : Bool} (h : CredsInv s)
    (hs : monitorStep s i connected = some s') : CredsInv s' := by
  have hquiet : ∀ (g : WifiState) (monitors : Nat → Monitor),
      CredsInv { s with gState := g, monitors } := fun g monitors =>
    h.quiet rfl rfl rfl rfl (List.Subset.refl _) rfl (fun _ => .inl rfl) id (fun _ _ => id)
      h.writing (h.holds.later rfl rfl rfl (List.Subset.refl _))
  unfold monitorStep at hs
  dsimp only at hs
  cases hphase : (s.monitors i).phase <;> rw [hphase] at hs <;> dsimp only at hs
  case stopped => cases hs
  case poll =>
      obtain rfl := Option.some.inj hs
      exact hquiet _ _
  all_goals
    obtain ⟨-, rfl⟩ := locked_eq_some hs
    exact hquiet _ _

theorem CredsInv.signal (h : CredsInv s) : CredsInv { s with running := false } :=
  h.quiet rfl rfl rfl rfl (List.Subset.refl _) rfl (fun _ => .inl rfl)
    (fun hact => .inr (hact.resolve_left (by rintro ⟨⟩))) (fun _ _ => id) h.writing
    (h.holds.later rfl rfl rfl (List.Subset.refl _))

theorem credsInv_reachable (h : wifiMachine.ReachableBy DeliversInTime s) : CredsInv s := by
  refine h.invariant ?_ ?_
  · rintro s rfl
    exact
      { held := fun _ => .inl trivial
        named := fun i line hline => by cases hline
        writing := fun hw => by cases hw
        taking := fun _ hset => by cases hset
        fresh := fun _ hset => by cases hset
        copySsid := fun _ i line hline => by cases hline
        copyPass := fun _ i line hline => by cases hline
        holds := trivial
        written := fun w hw => by cases hw }
  · intro s e s' _ hinv hok hs
    cases e with
    | main choice => exact hinv.main hok hs
    | monitor i connected => exact hinv.monitor hs
    | receiver i line => exact hinv.receiver hok hs
    | signal =>
        obtain rfl := Option.some.inj hs
        exact hinv.signal

/-! ## Runs -/

/-- While receivers deliver in time, every configuration written is of one line of
its round. -/
theorem written_credentials_are_whole (h : wifiMachine.ReachableBy DeliversInTime s) :
    ∀ w ∈ s.written, w.Whole := (credsInv_reachable h).written

def homeLine : Bytes := utf8 "\"ssid\":\"home\",\"password\":\"pw\"\n"

/-- From the start of `state_try_default` until monitor `i` has seen the connection
and the main thread waits in `state_on_default`. -/
def intoDefault (i : Nat) : List WifiEvent :=
  List.replicate 6 (.main true) ++ List.replicate 3 (.monitor i true) ++ List.replicate 6 (.main true)

/-- From `STATE_TRY_REAL` without a configuration into `state_try_default`. -/
def noRealConf : List WifiEvent := [.main true, .main true, .main false, .main true, .main true]

/-- A first round that receives a line and writes it. -/
theorem written_credentials_are_whole_home :
    ∃ s : Wifi, s.written.map Written.text = [realConfText (utf8 "home") (utf8 "pw")] ∧
      ∀ w ∈ s.written, w.Whole := by
  have hstart : wifiMachine.ReachableBy DeliversInTime .started := .initial rfl
  obtain ⟨s, hreach, hs⟩ := hstart.after_any
    (List.replicate 3 (.main true) ++ noRealConf ++ intoDefault 0 ++
      List.replicate 5 (.receiver 0 (some homeLine)) ++ List.replicate 4 (.main true))
    (fun s => s.written.map Written.text = [realConfText (utf8 "home") (utf8 "pw")])
    (by decide +kernel)
  exact ⟨s, of_decide_eq_true hs, written_credentials_are_whole hreach⟩

/-- A first round receives a line, and the connection goes before its receiver has
delivered it. It delivers while the main thread tries the default again, and the
second round writes it without having received anything. -/
theorem late_delivery_is_written :
    ∃ s, wifiMachine.Reachable s ∧ ∃ w ∈ s.written, ¬ w.Whole := by
  have hstart : wifiMachine.Reachable .started := .initial rfl
  obtain ⟨s, hreach, hs⟩ := hstart.after_any
    (List.replicate 3 (.main true) ++ noRealConf ++ intoDefault 0 ++
      List.replicate 2 (.receiver 0 (some homeLine)) ++ List.replicate 3 (.monitor 0 false) ++
      List.replicate 2 (.main true) ++ noRealConf ++
      List.replicate 3 (.receiver 0 none) ++ intoDefault 1 ++ List.replicate 4 (.main true))
    (fun s => s.written.map (fun w => (w.text, w.since)) =
      [(realConfText (utf8 "home") (utf8 "pw"), [])]) (by decide +kernel)
  have hmem : (realConfText (utf8 "home") (utf8 "pw"), []) ∈
      s.written.map fun w => (w.text, w.since) := by
    rw [of_decide_eq_true hs]
    exact List.mem_singleton.mpr rfl
  obtain ⟨w, hw, hpair⟩ := List.mem_map.mp hmem
  refine ⟨s, hreach, w, hw, ?_⟩
  rintro ⟨line, hline, -⟩
  have hsince : w.since = [] := congrArg Prod.snd hpair
  rw [hsince] at hline
  cases hline

end QnxHypervisor.WifiService
