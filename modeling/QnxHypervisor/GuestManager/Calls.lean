import QnxHypervisor.GuestManager.Host

/-! # What each call does

One lemma for each of `guest_start`, `guest_kill` and the checks of
`refresh_guest_state`: the ways through it and what they leave behind. The
invariants over whole runs cite these and never unfold the calls.
-/

namespace QnxHypervisor.GuestManager

open Foundation

/-! ## Records and command lines -/

theorem findGuest_id {guests : List Guest} {id : Bytes} {g : Guest}
    (h : findGuest guests id = some g) : g.id.bytes = id := by
  simpa using List.find?_some h

theorem findGuest_updateGuest {guests : List Guest} {f : Guest → Guest} (id id' : Bytes)
    (hf : ∀ g, (f g).id = g.id) :
    findGuest (updateGuest f id guests) id' =
      if id' = id then (findGuest guests id').map f else findGuest guests id' := by
  induction guests with
  | nil => simp [findGuest, updateGuest]
  | cons g rest ih =>
      unfold findGuest at ih ⊢
      by_cases hg : g.id.bytes = id
      · by_cases hid : id' = id
        · simp [updateGuest, hg, hid, hf]
        · have hne : ¬ id = id' := fun h => hid h.symm
          simp [updateGuest, hg, hid, hne, hf]
      · by_cases hg' : g.id.bytes = id'
        · have hne : ¬ id' = id := fun h => hg (hg'.trans h)
          simp [updateGuest, hg', hne]
        · simp [updateGuest, hg, hg', ih]

theorem mem_updateGuest {guests : List Guest} {f : Guest → Guest} {id : Bytes} {g : Guest}
    (h : g ∈ updateGuest f id guests) : g ∈ guests ∨ ∃ g₀, findGuest guests id = some g₀ ∧ g = f g₀ := by
  induction guests with
  | nil => cases h
  | cons g₁ rest ih =>
      unfold updateGuest at h
      split at h
      · next hid =>
        rcases List.mem_cons.mp h with rfl | hmem
        · exact .inr ⟨g₁, by simp [findGuest, hid], rfl⟩
        · exact .inl (List.mem_cons_of_mem _ hmem)
      · next hid =>
        rcases List.mem_cons.mp h with rfl | hmem
        · exact .inl List.mem_cons_self
        · rcases ih hmem with hold | ⟨g₀, hfind, heq⟩
          · exact .inl (List.mem_cons_of_mem _ hold)
          · exact .inr ⟨g₀, by simpa [findGuest, hid] using hfind, heq⟩

theorem readProcCmdline_prefix (a b c d : UInt8) (rest : Bytes) (ha : a ≠ 0) (hb : b ≠ 0)
    (hc : c ≠ 0) : ∃ more, readProcCmdline (a :: b :: c :: d :: rest) = some (a :: b :: c :: more) := by
  have htake : (a :: b :: c :: d :: rest).take 4095 = a :: b :: c :: d :: rest.take 4091 := rfl
  obtain ⟨last, hlast⟩ : ∃ last, (d :: rest.take 4091).getLast? = some last :=
    ⟨_, List.getLast?_eq_some_getLast (by simp)⟩
  unfold readProcCmdline
  rw [htake]
  simp [List.getLast?_cons_cons, hlast, List.dropLast, ha, hb, hc]

/-- What `guest_start` launches looks like a qvm. -/
theorem looksLikeQvm_qvmCmdline (confPath : Bytes) (o : Option Bytes) :
    looksLikeQvm ⟨qvmCmdline confPath, o⟩ = true := by
  have hname : utf8 "qvm" = [113, 118, 109] := by decide
  obtain ⟨tail, hcmd⟩ : ∃ tail, qvmCmdline confPath = 113 :: 118 :: 109 :: 0 :: tail :=
    ⟨64 :: (baseName confPath).take 254 ++ [0], by rw [qvmCmdline, hname]; rfl⟩
  obtain ⟨more, hread⟩ := readProcCmdline_prefix 113 118 109 0 tail (by decide) (by decide) (by decide)
  have hstr : cString (113 :: 118 :: 109 :: more) = 113 :: 118 :: 109 :: cString more := by
    simp [cString]
  simp [looksLikeQvm, hcmd, hread, hstr, containsText, hname]

variable {h : Host} {g : Guest} {id id' : Bytes} {p q : Int32} {proc : Proc}

/-! ## Alive processes -/

theorem alive_spawn : (h.spawn q proc).Alive id p ↔
    p = q ∧ proc.launchedFor = some id ∨ p ≠ q ∧ h.Alive id p := by
  by_cases hp : p = q
  · subst hp
    simp [Host.Alive, Host.spawn]
  · simp [Host.Alive, Host.spawn, hp]

theorem alive_exit : (h.exit q).Alive id p ↔ p ≠ q ∧ h.Alive id p := by
  by_cases hp : p = q
  · subst hp
    simp [Host.Alive, Host.exit]
  · simp [Host.Alive, Host.exit, hp]

/-- A pid without a process is no guest's. -/
theorem not_alive_of_free (hfree : h.procs p = none) : ¬ h.Alive id p := by
  rintro ⟨proc, hproc, -⟩
  rw [hfree] at hproc
  cases hproc

/-- The four ways through `guest_start`. -/
theorem guestStart_cases (env : StartEnv) (g : Guest) (h : Host) :
    g.state = .running ∧ guestStart env g h = (0, noteStarted g h) ∨
    g.state ≠ .running ∧ guestStart env g h = (-1, h) ∨
    (∃ p, env.pid = some p ∧ g.state ≠ .running ∧ env.confExists = true ∧ env.survives = true ∧
      guestStart env g h = (0, noteStarted g (launch env.store g p h))) ∨
    ∃ p, env.pid = some p ∧ g.state ≠ .running ∧
      guestStart env g h = (-1, (launch env.store g p h).exit p) := by
  by_cases hrun : g.state = .running
  · exact .inl ⟨hrun, by simp [guestStart, hrun]⟩
  right
  cases hconf : env.confExists with
  | false => exact .inl ⟨hrun, by simp [guestStart, hrun, hconf]⟩
  | true =>
      cases hpid : env.pid with
      | none => exact .inl ⟨hrun, by simp [guestStart, hrun, hconf, hpid]⟩
      | some p =>
          right
          cases hlive : env.survives with
          | true => exact .inl ⟨p, rfl, hrun, rfl, rfl, by
              simp [guestStart, hrun, hconf, hpid, hlive]⟩
          | false => exact .inr ⟨p, rfl, hrun, by simp [guestStart, hrun, hconf, hpid, hlive]⟩

/-- `guest_kill` kills the process of the record's pid or does nothing. -/
theorem guestKill_cases (store : MetaEnv) (g : Guest) (h : Host) :
    (g.state = .running → 0 < g.pid → h.procs g.pid = none) ∧ guestKill store g h = (-1, h) ∨
    ∃ proc, g.state = .running ∧ 0 < g.pid ∧ h.procs g.pid = some proc ∧
      guestKill store g h = (0, killProcess store g proc h) := by
  by_cases hskip : g.state ≠ .running ∨ g.pid ≤ 0
  · refine .inl ⟨fun hrun hpos => ?_, by simp only [guestKill, if_pos hskip]⟩
    rcases hskip with hstop | hneg
    · exact absurd hrun hstop
    · exact absurd hneg (Int32.not_le.mpr hpos)
  · have hrun : g.state = .running := by
      by_contra hne
      exact hskip (.inl hne)
    have hpos : 0 < g.pid := Int32.not_le.mp fun hle => hskip (.inr hle)
    cases hproc : h.procs g.pid with
    | none => exact .inl ⟨fun _ _ => rfl, by simp only [guestKill, if_neg hskip, hproc]⟩
    | some proc =>
        exact .inr ⟨proc, hrun, hpos, rfl, by simp only [guestKill, if_neg hskip, hproc]⟩

/-- `ota_kill_cb` kills the process of a RUNNING record's pid or signals nobody. -/
theorem otaKillCb_cases (store : MetaEnv) (id : Bytes) (h : Host) :
    (∀ g, findGuest h.guests id = some g → g.state = .running → 0 < g.pid →
        h.procs g.pid = none) ∧
      (otaKillCb store id h).2.procs = h.procs ∧ (otaKillCb store id h).2.metas = h.metas ∨
    ∃ g proc, findGuest h.guests id = some g ∧ g.state = .running ∧ 0 < g.pid ∧
      h.procs g.pid = some proc ∧
      (otaKillCb store id h).2.procs = Function.update h.procs g.pid none ∧
      (otaKillCb store id h).2.metas =
        Function.update h.metas id (metaSet store pidKey (utf8 "0") (h.metas id)) := by
  unfold otaKillCb
  cases hfind : findGuest h.guests id with
  | none => exact .inl ⟨nofun, rfl, rfl⟩
  | some g =>
      by_cases hrun : g.state = .running
      · rcases guestKill_cases store g h with ⟨hnone, heq⟩ | ⟨proc, -, hpos, hproc, heq⟩
        · refine .inl ⟨fun g' hg' => ?_, ?_, ?_⟩
          · obtain rfl := Option.some.inj hg'
            exact hnone
          · simp only [hrun, ne_eq, not_true_eq_false, if_false, heq, Host.setGuest]
          · simp only [hrun, ne_eq, not_true_eq_false, if_false, heq, Host.setGuest]
        · refine .inr ⟨g, proc, rfl, hrun, hpos, hproc, ?_, ?_⟩ <;>
          simp only [hrun, ne_eq, not_true_eq_false, if_false, heq, Host.setGuest, killProcess,
            Host.setMeta, Host.exit, findGuest_id hfind]
      · refine .inl ⟨fun g' hg' hrun' => ?_, ?_, ?_⟩
        · obtain rfl := Option.some.inj hg'
          exact absurd hrun' hrun
        · simp only [hrun, ne_eq, not_false_eq_true, if_true]
        · simp only [hrun, ne_eq, not_false_eq_true, if_true]

/-- After `ota_kill_cb` the guest's record is not RUNNING. -/
theorem otaKillCb_state {store : MetaEnv} (hfind : findGuest (otaKillCb store id h).2.guests id = some g) :
    g.state ≠ .running := by
  unfold otaKillCb at hfind
  split at hfind
  · next hnone =>
    rw [hnone] at hfind
    cases hfind
  · next g₀ hg₀ =>
    split at hfind
    · next hstop =>
      rw [hg₀] at hfind
      obtain rfl := Option.some.inj hfind
      exact hstop
    · have hguests : (guestKill store g₀ h).2.guests = h.guests := by
        rcases guestKill_cases store g₀ h with ⟨-, heq⟩ | ⟨proc, -, -, -, heq⟩ <;> rw [heq]
        rfl
      simp only [Host.setGuest, hguests] at hfind
      rw [findGuest_updateGuest (f := Guest.markStopped) _ _ fun _ => rfl, if_pos rfl, hg₀] at hfind
      obtain rfl := Option.some.inj hfind
      exact fun hrun => by cases hrun

/-- `ota_start_cb` on a record that is not RUNNING, ending with 0: a new qvm. -/
theorem otaStartCb_started {env : StartEnv}
    (hstop : ∀ g, findGuest h.guests id = some g → g.state ≠ .running)
    (hzero : (otaStartCb env id h).1 = 0) : ∃ p, env.pid = some p ∧
      (otaStartCb env id h).2.Alive id p ∧
      ∃ g, findGuest (otaStartCb env id h).2.guests id = some g ∧ g.state = .running := by
  unfold otaStartCb at hzero ⊢
  cases hfind : findGuest h.guests id with
  | none =>
      rw [hfind] at hzero
      exact absurd (show (-1 : Int) = 0 from hzero) (by decide)
  | some g =>
      simp only [hfind] at hzero ⊢
      have hid := findGuest_id hfind
      have hminus : ¬ (-1 : Int) = 0 := by decide
      rcases guestStart_cases env g h with ⟨hrun, -⟩ | ⟨-, heq⟩ | ⟨p, hpid, -, -, -, heq⟩ |
        ⟨p, -, -, heq⟩
      · exact absurd hrun (hstop g hfind)
      · simp [heq, hminus] at hzero
      · refine ⟨p, hpid, ?_, ?_⟩
        · rw [heq, if_pos rfl]
          exact ⟨_, Function.update_self p _ h.procs, by simp [hid]⟩
        · rw [heq, if_pos rfl]
          refine ⟨g.markRunning, ?_, rfl⟩
          change findGuest (updateGuest Guest.markRunning id h.guests) id = _
          rw [findGuest_updateGuest (f := Guest.markRunning) _ _ fun _ => rfl, if_pos rfl, hfind]
          rfl
      · simp [heq, hminus] at hzero

/-! ## What a refresh finds -/

theorem guestOf_id (cfg : SshDefaults) (h : Host) (d : DirEntry) :
    (guestOf cfg h d).id = CStr.fit 32 d.name := by
  cases hpid : runningPid d (d.stateText h) h.procs <;>
    simp [guestOf, refreshGuestName, applyDefaults, refreshGuestState, hpid, discoverOne]

theorem runningPid_spec {d : DirEntry} {text : Option Bytes} {procs : Int32 → Option Proc}
    (h : runningPid d text procs = some p) :
    p = storedPid text ∧ 0 < p ∧ ∃ proc, procs p = some proc ∧ looksLikeQvm proc = true := by
  unfold runningPid at h
  cases hopen : d.stateOpens with
  | false =>
      have hzero : storedPid (if d.stateOpens = true then text else none) ≤ 0 := by
        rw [hopen, if_neg Bool.false_ne_true]
        decide
      rw [if_pos hzero] at h
      cases h
  | true =>
      simp only [hopen, if_true] at h
      split at h
      · cases h
      · next hpos =>
        split at h
        · cases h
        · next proc hproc =>
          split at h
          · next hqvm =>
            obtain rfl := Option.some.inj h
            exact ⟨rfl, Int32.not_le.mp hpos, proc, hproc, hqvm.2⟩
          · cases h

theorem runningPid_of_alive {d : DirEntry} {text : Option Bytes} {procs : Int32 → Option Proc}
    (hmeta : d.stateOpens = true) (hproc : d.procOpens = true) (hpos : 0 < storedPid text)
    (halive : procs (storedPid text) = some proc) (hqvm : looksLikeQvm proc = true) :
    runningPid d text procs = some (storedPid text) := by
  simp [runningPid, hmeta, hproc, halive, hqvm, Int32.not_le.mpr hpos]

theorem guestOf_state (cfg : SshDefaults) (h : Host) (d : DirEntry) :
    (guestOf cfg h d).state = .running ∧
        runningPid d (d.stateText h) h.procs = some (guestOf cfg h d).pid ∨
      (guestOf cfg h d).state = .stopped ∧
        runningPid d (d.stateText h) h.procs = none := by
  cases hpid : runningPid d (d.stateText h) h.procs <;>
    simp [guestOf, refreshGuestName, applyDefaults, refreshGuestState, hpid]


end QnxHypervisor.GuestManager
