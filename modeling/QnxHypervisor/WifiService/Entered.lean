import QnxHypervisor.WifiService.Service

/-! # The state and the running configuration

A monitor polls the connection, reads the state and sets a new one in three steps.
Between the last two the main thread may have given up the configuration the
monitor saw connected, and monitors of earlier rounds go on beside the new one.
-/

namespace QnxHypervisor.WifiService

open Foundation

variable {s s' : Wifi} {x : Conf}

/-! ## Statements -/

/-- If the main thread now enters a connected state, then with the configuration
that runs. -/
def EntersMatching (s : Wifi) : Prop :=
  s.main = .dispatch → ∀ x : Conf, s.gState = x.on → s.supplicant = some x

/-- Were `g_state` now set to the connected state of `x`, the main thread would not
enter it with anything else running: it will set another state first, or try a
configuration and find out; or it is in that state, or `x` runs. -/
def Keeps (s : Wifi) (x : Conf) : Prop :=
  match s.main with
  | .dispatch => s.supplicant = some x
  | .loop => s.running = true → s.supplicant = some x
  | .onReal => s.running = true → x = .real
  | .detect | .startReceiver | .onDefault =>
      s.running = true → s.credsReceived = false → x = .default
  | .leaveReal | .leaveDefault => s.running = false
  | _ => True

/-- Monitors set a connected state only where it is kept. -/
def StoresInTime (s : Wifi) : WifiEvent → Prop
  | .monitor i _ =>
      match (s.monitors i).phase with
      | .store _ .onReal => Keeps s .real
      | .store _ .onDefault => Keeps s .default
      | _ => True
  | _ => True

instance (s : Wifi) (x : Conf) : Decidable (Keeps s x) :=
  match h : s.main with
  | .dispatch => decidable_of_iff (s.supplicant = some x) (by rw [Keeps, h])
  | .loop => decidable_of_iff (s.running = true → s.supplicant = some x) (by rw [Keeps, h])
  | .onReal => decidable_of_iff (s.running = true → x = .real) (by rw [Keeps, h])
  | .detect | .startReceiver | .onDefault =>
      decidable_of_iff (s.running = true → s.credsReceived = false → x = .default)
        (by rw [Keeps, h])
  | .leaveReal | .leaveDefault => decidable_of_iff (s.running = false) (by rw [Keeps, h])
  | .setState _ | .confExists | .stop _ | .start _ | .startMonitor _ | .firstTest _ | .waiting _
  | .confirm _ | .giveUp _ | .openConf | .readSsid | .readPass _ | .clearSsid | .clearPass
  | .stopForReal | .shutdown | .exited => .isTrue (by rw [Keeps, h]; trivial)

instance (s : Wifi) (e : WifiEvent) : Decidable (StoresInTime s e) :=
  match e with
  | .monitor i _ =>
      match h : (s.monitors i).phase with
      | .store _ .onReal => decidable_of_iff (Keeps s .real) (by simp only [StoresInTime, h])
      | .store _ .onDefault => decidable_of_iff (Keeps s .default) (by simp only [StoresInTime, h])
      | .stopped | .poll | .look _ | .store _ .init | .store _ .tryReal | .store _ .tryDefault
      | .store _ .exit => .isTrue (by simp only [StoresInTime, h])
  | .main _ | .receiver _ _ | .signal => .isTrue trivial

/-! ## The invariant -/

structure EnteredInv (s : Wifi) : Prop where
  kept : ∀ x : Conf, s.gState = x.on → Keeps s x
  phase : match s.main with
    | .setState next => ∀ x : Conf, next ≠ x.on
    | .startMonitor conf | .firstTest conf | .waiting conf | .confirm conf =>
        s.supplicant = some conf
    | _ => True

theorem EnteredInv.matching (h : EnteredInv s) : EntersMatching s := by
  intro hmain x hx
  have hkept := h.kept x hx
  rw [Keeps, hmain] at hkept
  exact hkept

theorem Keeps.later (h : Keeps s x) (hmain : s'.main = s.main)
    (hsupplicant : s'.supplicant = s.supplicant) (hrunning : s'.running = true → s.running = true)
    (hcreds : s'.credsReceived = false → s.credsReceived = false) : Keeps s' x := by
  have hstopped : s.running = false → s'.running = false := by
    intro hstop
    cases hrun : s'.running with
    | false => rfl
    | true => exact absurd (hrunning hrun) (by rw [hstop]; decide)
  unfold Keeps at h ⊢
  rw [hmain]
  cases hphase : s.main <;> rw [hphase] at h
  case dispatch => exact hsupplicant.trans h
  case loop => exact fun hrun => hsupplicant.trans (h (hrunning hrun))
  case onReal => exact fun hrun => h (hrunning hrun)
  case detect | startReceiver | onDefault =>
    exact fun hrun hflag => h (hrunning hrun) (hcreds hflag)
  case leaveReal | leaveDefault => exact hstopped h
  all_goals trivial

theorem EnteredInv.later (h : EnteredInv s) (hstate : s'.gState = s.gState)
    (hmain : s'.main = s.main) (hsupplicant : s'.supplicant = s.supplicant)
    (hrunning : s'.running = true → s.running = true)
    (hcreds : s'.credsReceived = false → s.credsReceived = false) : EnteredInv s' where
  kept := fun x hx => (h.kept x (hstate ▸ hx)).later hmain hsupplicant hrunning hcreds
  phase := by
    rw [hmain, hsupplicant]
    exact h.phase

/-! ## Steps -/

theorem Conf.on_injective {x y : Conf} (h : x.on = y.on) : x = y := by
  cases x <;> cases y <;> first | rfl | cases h

theorem Conf.otherwise_ne_on (x y : Conf) : x.otherwise ≠ y.on := by
  cases x <;> cases y <;> decide

theorem EnteredInv.enter (s : Wifi) : EnteredInv s.enter := by
  unfold Wifi.enter
  cases hstate : s.gState
  case onReal =>
      refine ⟨fun x hx _ => ?_, trivial⟩
      exact (Conf.on_injective (x := .real) (hstate.symm.trans hx)).symm
  case onDefault =>
      refine ⟨fun x hx _ _ => ?_, trivial⟩
      exact (Conf.on_injective (x := .default) hx).symm
  case init => exact ⟨fun _ _ => trivial, fun x => by cases x <;> decide⟩
  case exit =>
      refine ⟨fun x hx => ?_, trivial⟩
      have hne : WifiState.exit = x.on := hx
      cases x <;> cases hne
  all_goals exact ⟨fun _ _ => trivial, trivial⟩

theorem EnteredInv.testConnect {conf : Conf} (hsupplicant : s.supplicant = some conf) :
    EnteredInv (s.testConnect conf) := by
  unfold Wifi.testConnect
  split
  · exact ⟨fun _ _ => trivial, hsupplicant⟩
  · split
    · exact ⟨fun _ _ => trivial, hsupplicant⟩
    · exact ⟨fun _ _ => trivial, trivial⟩

theorem EnteredInv.main {choice : Bool} (h : EnteredInv s) (hs : mainStep s choice = some s') :
    EnteredInv s' := by
  have hkept := h.kept
  have hphase := h.phase
  unfold mainStep at hs
  unfold Keeps at hkept
  cases hmain : s.main <;> rw [hmain] at hs hphase hkept <;> dsimp only at hs hphase hkept
  case loop =>
      obtain rfl := Option.some.inj hs
      by_cases hrun : s.running = true
      · rw [if_pos hrun]
        exact ⟨fun x hx => hkept x hx hrun, trivial⟩
      · rw [if_neg hrun]
        exact ⟨fun _ _ => trivial, trivial⟩
  case dispatch =>
      obtain ⟨-, rfl⟩ := locked_eq_some hs
      exact .enter s
  case setState next =>
      obtain ⟨-, rfl⟩ := locked_eq_some hs
      exact ⟨fun x hx => absurd hx (hphase x), trivial⟩
  case confExists =>
      obtain rfl := Option.some.inj hs
      cases choice
      · exact ⟨fun _ _ => trivial, fun x => by cases x <;> decide⟩
      · exact ⟨fun _ _ => trivial, trivial⟩
  case start conf =>
      obtain rfl := Option.some.inj hs
      exact ⟨fun _ _ => trivial, rfl⟩
  case startMonitor conf =>
      obtain rfl := Option.some.inj hs
      exact ⟨fun _ _ => trivial, hphase⟩
  case firstTest conf =>
      obtain ⟨-, rfl⟩ := locked_eq_some hs
      split
      · exact .testConnect hphase
      · exact ⟨fun _ _ => trivial, trivial⟩
  case waiting conf =>
      obtain ⟨-, rfl⟩ := locked_eq_some hs
      split
      · exact .testConnect hphase
      · exact ⟨fun _ _ => trivial, trivial⟩
  case confirm conf =>
      obtain ⟨-, rfl⟩ := locked_eq_some hs
      by_cases hon : s.gState = conf.on
      · rw [if_pos hon]
        refine ⟨fun x hx _ => ?_, trivial⟩
        obtain rfl := Conf.on_injective (hon.symm.trans hx)
        exact hphase
      · rw [if_neg hon]
        exact ⟨fun _ _ => trivial, trivial⟩
  case giveUp conf =>
      obtain rfl := Option.some.inj hs
      exact ⟨fun _ _ => trivial, conf.otherwise_ne_on⟩
  case onReal =>
      obtain ⟨-, rfl⟩ := locked_eq_some hs
      by_cases hstay : s.gState = .onReal ∧ s.running = true
      · rw [if_pos hstay]
        exact ⟨hkept, trivial⟩
      · rw [if_neg hstay]
        refine ⟨fun x hx => Bool.eq_false_of_not_eq_true fun hrun => ?_, trivial⟩
        obtain rfl := hkept x hx hrun
        exact hstay ⟨hx, hrun⟩
  case leaveReal | leaveDefault =>
      obtain rfl := Option.some.inj hs
      refine ⟨fun x hx hrun => ?_, trivial⟩
      have hrun : s.running = true := hrun
      rw [hkept x hx] at hrun
      cases hrun
  case detect =>
      obtain rfl := Option.some.inj hs
      cases choice
      · exact ⟨fun _ _ => trivial, fun x => by cases x <;> decide⟩
      · exact ⟨hkept, trivial⟩
  case startReceiver =>
      obtain rfl := Option.some.inj hs
      exact ⟨hkept, trivial⟩
  case onDefault =>
      obtain ⟨-, rfl⟩ := locked_eq_some hs
      unfold Wifi.testCreds
      by_cases hflag : s.credsReceived = true
      · rw [if_pos hflag]
        exact ⟨fun _ _ => trivial, trivial⟩
      · rw [if_neg hflag]
        by_cases hstay : s.gState = .onDefault ∧ s.running = true
        · rw [if_pos hstay]
          exact h
        · rw [if_neg hstay]
          refine ⟨fun x hx => Bool.eq_false_of_not_eq_true fun hrun => ?_, trivial⟩
          obtain rfl := hkept x hx hrun (Bool.eq_false_of_not_eq_true hflag)
          exact hstay ⟨hx, hrun⟩
  case stopForReal =>
      obtain rfl := Option.some.inj hs
      exact ⟨fun _ _ => trivial, fun x => by cases x <;> decide⟩
  case openConf =>
      obtain rfl := Option.some.inj hs
      cases choice <;> exact ⟨fun _ _ => trivial, trivial⟩
  case exited => cases hs
  all_goals
    obtain rfl := Option.some.inj hs
    exact ⟨fun _ _ => trivial, trivial⟩

theorem EnteredInv.monitor {i : Nat} {connected : Bool} (h : EnteredInv s)
    (hok : StoresInTime s (.monitor i connected)) (hs : monitorStep s i connected = some s') :
    EnteredInv s' := by
  unfold monitorStep at hs
  unfold StoresInTime at hok
  dsimp only at hs hok
  cases hphase : (s.monitors i).phase <;> rw [hphase] at hs hok <;> dsimp only at hs
  case stopped => cases hs
  case poll =>
      obtain rfl := Option.some.inj hs
      exact h.later rfl rfl rfl id id
  case look c =>
      obtain ⟨-, rfl⟩ := locked_eq_some hs
      exact h.later rfl rfl rfl id id
  case store c next =>
      obtain ⟨-, rfl⟩ := locked_eq_some hs
      refine ⟨fun x hx => ?_, h.phase⟩
      obtain rfl : next = x.on := hx
      have hkeeps : Keeps s x := by
        cases x <;> exact hok
      exact hkeeps.later rfl rfl id id

theorem EnteredInv.receiver {i : Nat} {line : Option Bytes} (h : EnteredInv s)
    (hs : receiverStep s i line = some s') : EnteredInv s' := by
  unfold receiverStep at hs
  cases hphase : s.receivers i <;> rw [hphase] at hs <;> dsimp only at hs
  case stopped => cases hs
  case test =>
      obtain ⟨-, rfl⟩ := locked_eq_some hs
      exact h.later rfl rfl rfl id id
  case receive =>
      cases line <;> obtain rfl := Option.some.inj hs
      · exact h.later rfl rfl rfl id id
      · exact h.later rfl rfl rfl id id
  case deliver l =>
      obtain ⟨-, rfl⟩ := locked_eq_some hs
      exact h.later rfl rfl rfl id (fun hflag => by cases hflag)
  all_goals
    obtain rfl := Option.some.inj hs
    exact h.later rfl rfl rfl id id

theorem enteredInv_reachable (h : wifiMachine.ReachableBy StoresInTime s) : EnteredInv s := by
  refine h.invariant ?_ ?_
  · rintro s rfl
    exact ⟨fun x hx => (by cases x <;> cases hx), trivial⟩
  · intro s e s' _ hinv hok hs
    cases e with
    | main choice => exact hinv.main hs
    | monitor i connected => exact hinv.monitor hok hs
    | receiver i line => exact hinv.receiver hs
    | signal =>
        obtain rfl := Option.some.inj hs
        exact hinv.later rfl rfl rfl (fun hrun => by cases hrun) id

/-! ## Runs -/

/-- While the monitors store in time, the main thread enters a connected state only
with its configuration running. -/
theorem entered_state_matches (h : wifiMachine.ReachableBy StoresInTime s) : EntersMatching s :=
  (enteredInv_reachable h).matching

/-- The main thread alone goes on to enter a connected state without its configuration. -/
def GoesWrong (s : Wifi) : Prop :=
  ∃ (choices : List Bool) (t : Wifi),
    wifiMachine.after (fun _ _ => True) (choices.map .main) s = some t ∧ ¬ EntersMatching t

theorem GoesWrong.of_step {choice : Bool} (hs : mainStep s choice = some s') (h : GoesWrong s') :
    GoesWrong s := by
  obtain ⟨choices, t, ht, hwrong⟩ := h
  refine ⟨choice :: choices, t, ?_, hwrong⟩
  simp only [List.map_cons, Machine.after, if_true]
  change (mainStep s choice).bind _ = some t
  rw [hs]
  exact ht

theorem goesWrong_loop (hmain : s.main = .loop) (hrun : s.running = true) (hstate : s.gState = x.on)
    (hother : s.supplicant ≠ some x) : GoesWrong s := by
  have hs : mainStep s true = some (s.goTo .dispatch) := by
    simp only [mainStep, hmain, hrun, if_true]
  exact .of_step hs ⟨[], _, rfl, fun h => hother (h rfl x hstate)⟩

theorem goesWrong_leave (hmain : s.main = .leaveReal ∨ s.main = .leaveDefault)
    (hrun : s.running = true) (hstate : s.gState = x.on) : GoesWrong s := by
  have hs : mainStep s true = some (s.stopSupplicant .loop) := by
    rcases hmain with hmain | hmain <;> simp only [mainStep, hmain]
  exact .of_step hs (goesWrong_loop rfl hrun hstate (by rintro ⟨⟩))

theorem goesWrong_onDefault (hmain : s.main = .onDefault) (hfree : s.mutex = none)
    (hrun : s.running = true) (hflag : s.credsReceived = false) (hstate : s.gState = .onReal) :
    GoesWrong s := by
  have hs : mainStep s true = some (s.goTo .leaveDefault) := by
    have hleave : ¬ (s.gState = .onDefault ∧ s.running = true) := by
      rw [hstate]
      rintro ⟨⟨⟩, -⟩
    simp only [mainStep, hmain, Wifi.locked, if_pos hfree, Wifi.testCreds, hflag, if_neg hleave]
    rfl
  exact .of_step hs (goesWrong_leave (x := .real) (.inr rfl) hrun hstate)

theorem goesWrong_startReceiver (hmain : s.main = .startReceiver) (hfree : s.mutex = none)
    (hrun : s.running = true) (hflag : s.credsReceived = false) (hstate : s.gState = .onReal) :
    GoesWrong s := by
  have hs : ∃ t, mainStep s true = some t ∧ t.main = .onDefault ∧ t.mutex = s.mutex ∧
      t.running = s.running ∧ t.credsReceived = s.credsReceived ∧ t.gState = s.gState := by
    simp only [mainStep, hmain]
    exact ⟨_, rfl, rfl, rfl, rfl, rfl, rfl⟩
  obtain ⟨t, hs, htmain, htfree, htrun, htflag, htstate⟩ := hs
  exact .of_step hs (goesWrong_onDefault htmain (htfree.trans hfree) (htrun.trans hrun)
    (htflag.trans hflag) (htstate.trans hstate))

/-- A store that is not kept goes wrong unless another thread steps in. -/
theorem goesWrong_of_late_store (hfree : s.mutex = none) (hstate : s.gState = x.on)
    (hlate : ¬ Keeps s x) : GoesWrong s := by
  have hreal : x ≠ .default → s.gState = .onReal := by
    intro hne
    rw [hstate]
    cases x with
    | real => rfl
    | default => exact absurd rfl hne
  unfold Keeps at hlate
  cases hmain : s.main <;> rw [hmain] at hlate
  case dispatch => exact ⟨[], s, rfl, fun h => hlate (h hmain x hstate)⟩
  case loop =>
      obtain ⟨hrun, hother⟩ := Classical.not_imp.mp hlate
      exact goesWrong_loop hmain hrun hstate hother
  case onReal =>
      obtain ⟨hrun, hother⟩ := Classical.not_imp.mp hlate
      have hs : mainStep s true = some (s.goTo .leaveReal) := by
        have hleave : ¬ (s.gState = .onReal ∧ s.running = true) := by
          rintro ⟨hon, -⟩
          exact hother (Conf.on_injective (hstate.symm.trans hon))
        simp only [mainStep, hmain, Wifi.locked, if_pos hfree, if_neg hleave]
      exact .of_step hs (goesWrong_leave (.inl rfl) hrun hstate)
  case leaveReal => exact goesWrong_leave (.inl hmain) (Bool.eq_true_of_not_eq_false hlate) hstate
  case leaveDefault =>
      exact goesWrong_leave (.inr hmain) (Bool.eq_true_of_not_eq_false hlate) hstate
  case detect =>
      obtain ⟨hrun, hrest⟩ := Classical.not_imp.mp hlate
      obtain ⟨hflag, hother⟩ := Classical.not_imp.mp hrest
      have hs : mainStep s true = some (s.goTo .startReceiver) := by
        simp only [mainStep, hmain, if_true]
      exact .of_step hs (goesWrong_startReceiver rfl hfree hrun hflag (hreal hother))
  case startReceiver =>
      obtain ⟨hrun, hrest⟩ := Classical.not_imp.mp hlate
      obtain ⟨hflag, hother⟩ := Classical.not_imp.mp hrest
      exact goesWrong_startReceiver hmain hfree hrun hflag (hreal hother)
  case onDefault =>
      obtain ⟨hrun, hrest⟩ := Classical.not_imp.mp hlate
      obtain ⟨hflag, hother⟩ := Classical.not_imp.mp hrest
      exact goesWrong_onDefault hmain hfree hrun hflag (hreal hother)
  all_goals exact absurd trivial hlate

/-- From the start into `wait_for_connect` with the real configuration running. -/
def tryingReal : List WifiEvent := List.replicate 10 (.main true)

/-- Connected to the real network. -/
theorem entered_state_matches_real :
    ∃ s, s.main = .dispatch ∧ s.gState = .onReal ∧ EntersMatching s := by
  have hstart : wifiMachine.ReachableBy StoresInTime .started := .initial rfl
  obtain ⟨s, hreach, hs⟩ := hstart.after_any
    (tryingReal ++ List.replicate 3 (.monitor 0 true) ++ List.replicate 3 (.main true))
    (fun s => s.main = .dispatch ∧ s.gState = .onReal) (by decide +kernel)
  obtain ⟨hmain, hstate⟩ := of_decide_eq_true hs
  exact ⟨s, hmain, hstate, entered_state_matches hreach⟩

/-- The monitor sees the real network connected and the state `STATE_TRY_REAL`; the
main thread times out and gives up; then the monitor sets `STATE_ON_REAL`. -/
theorem late_store_enters_without_supplicant :
    ∃ s, wifiMachine.Reachable s ∧ s.supplicant = none ∧ ¬ EntersMatching s := by
  have hstart : wifiMachine.Reachable .started := .initial rfl
  obtain ⟨s, hreach, hs⟩ := hstart.after_any
    (tryingReal ++ List.replicate 2 (.monitor 0 true) ++ List.replicate 3 (.main false) ++
      [.monitor 0 true, .main true])
    (fun s => s.main = .dispatch ∧ s.gState = .onReal ∧ s.supplicant = none) (by decide +kernel)
  obtain ⟨hmain, hstate, hnone⟩ := of_decide_eq_true hs
  refine ⟨s, hreach, hnone, fun h => ?_⟩
  have hruns := h hmain .real hstate
  rw [hnone] at hruns
  cases hruns

end QnxHypervisor.WifiService
