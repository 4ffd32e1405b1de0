import QnxHypervisor.GuestManager.Calls

/-! # One qvm for each guest

Metadata and records stay with the processes as long as the stored pid can be
read back and no caller trusts a record that is out of date: then an alive qvm
is the one its metadata file names, so there is one at most.
-/

namespace QnxHypervisor.GuestManager

open Foundation

variable {h : Host} {g : Guest} {id : Bytes} {p : Int32}

/-! ## When the three copies stay together -/

/-- The `guest_start` call of an event. -/
def HostEvent.startCall : HostEvent → Option (Bytes × StartEnv)
  | .start id _ _ env _ => some (id, env)
  | .otaStart id env => some (id, env)
  | _ => none

/-- The metadata text that the `guest_start` call of an event finds. -/
def HostEvent.startText (h : Host) (id : Bytes) : HostEvent → Option Bytes
  | .start _ ip ipStore _ _ =>
      if ip = [] then h.metas id else guestSetIp ipStore (CStr.fit 64 ip).bytes (h.metas id)
  | _ => h.metas id

def HostEvent.refreshEnv : HostEvent → Option RefreshEnv
  | .refresh env | .restart env => some env
  | .start _ _ _ _ after | .kill _ _ after | .info _ after => some after
  | _ => none

/-- The event launches a qvm that lives on. -/
def Launches (h : Host) (e : HostEvent) (id : Bytes) (env : StartEnv) (p : Int32) : Prop :=
  e.startCall = some (id, env) ∧ env.pid = some p ∧ env.confExists = true ∧ env.survives = true ∧
    ∃ g, findGuest h.guests id = some g ∧ g.state ≠ .running

/-- The event trusts no record that is out of date, and metadata file and
process table can be read where a qvm is alive. -/
structure KeepsTrack (h : Host) (e : HostEvent) : Prop where
  /-- `guest_start` on a RUNNING record: its qvm has not died -/
  current : ∀ id env g, e.startCall = some (id, env) → findGuest h.guests id = some g →
    g.state = .running → ∃ p, h.Alive id p
  /-- `ota_kill_cb` on a RUNNING record: the record has a pid -/
  known : ∀ id store g, e = .otaKill id store → findGuest h.guests id = some g →
    g.state = .running → (∃ p, h.Alive id p) → 0 < g.pid
  /-- the pid of a new qvm is read back from its metadata file -/
  stored : ∀ id env p, Launches h e id env p →
    storedPid (metaSet env.store pidKey (decimalInt p.toInt) (e.startText h id)) = p
  /-- storing an address leaves the pid of an alive qvm -/
  kept : ∀ id env, e.startCall = some (id, env) → (∃ p, h.Alive id p) →
    storedPid (e.startText h id) = storedPid (h.metas id)
  readable : ∀ env, e.refreshEnv = some env → ∀ d ∈ env.entries,
    ((∃ p, h.Alive (CStr.fit 32 d.name).bytes p) ∨
      ∃ start p, Launches h e (CStr.fit 32 d.name).bytes start p) →
    d.stateOpens = true ∧ d.procOpens = true

/-! ## The invariant -/

/-- Metadata files name the alive qvms. -/
structure Tracked (h : Host) : Prop where
  stored : ∀ id p, h.Alive id p → 0 < p ∧ storedPid (h.metas id) = p
  qvm : ∀ id p proc, h.procs p = some proc → proc.launchedFor = some id → looksLikeQvm proc = true
  started : ∀ r ∈ h.started, ∃ p proc, r.procs p = some proc ∧ proc.launchedFor = some r.guest

/-- The record of a guest whose qvm is alive is RUNNING, with its pid or none. -/
def Recorded (h : Host) : Prop :=
  ∀ id p g, h.Alive id p → findGuest h.guests id = some g →
    g.state = .running ∧ (g.pid = p ∨ g.pid = 0)

theorem hostStart_tracked (hs : HostStart h) : Tracked h := by
  have hnone : ∀ p proc id, h.procs p = some proc → proc.launchedFor ≠ some id := by
    intro p proc id hproc hlaunched
    rw [hs.procs p proc hproc] at hlaunched
    cases hlaunched
  refine ⟨?_, ?_, by simp [hs.started]⟩
  · rintro id p ⟨proc, hproc, hlaunched⟩
    exact absurd hlaunched (hnone p proc id hproc)
  · intro id p proc hproc hlaunched
    exact absurd hlaunched (hnone p proc id hproc)

theorem hostStart_recorded (hs : HostStart h) : Recorded h := by
  intro id p g _ hfind
  simp [hs.guests, findGuest] at hfind

theorem Tracked.shrink {h' : Host} (ht : Tracked h)
    (hprocs : ∀ p proc, h'.procs p = some proc → proc.launchedFor ≠ none →
      h.procs p = some proc)
    (hmetas : ∀ id p, h'.Alive id p → h'.metas id = h.metas id)
    (hstarted : h'.started = h.started) : Tracked h' := by
  have halive : ∀ id p, h'.Alive id p → h.Alive id p := by
    rintro id p ⟨proc, hproc, hlaunched⟩
    exact ⟨proc, hprocs p proc hproc (by simp [hlaunched]), hlaunched⟩
  refine ⟨fun id p h => ?_, fun id p proc hproc hlaunched => ?_, hstarted ▸ ht.started⟩
  · rw [hmetas id p h]
    exact ht.stored id p (halive id p h)
  · exact ht.qvm id p proc (hprocs p proc hproc (by simp [hlaunched])) hlaunched

/-! ## The calls -/

theorem Recorded.not_alive (hr : Recorded h) (hfind : findGuest h.guests id = some g)
    (hstop : g.state ≠ .running) : ¬ h.Alive id p := fun halive =>
  hstop (hr id p g halive hfind).1

theorem alive_launch (store : MetaEnv) (q : Int32) : (launch store g q h).Alive id p ↔
    p = q ∧ id = g.id.bytes ∨ p ≠ q ∧ h.Alive id p := by
  refine Iff.trans (alive_spawn (h := h)) ?_
  simp only [Option.some.injEq, @eq_comm _ id]

theorem tracked_launch {store : MetaEnv} (ht : Tracked h) (hpos : 0 < p)
    (hfree : h.procs p = none) (hdead : ∀ q, ¬ h.Alive g.id.bytes q)
    (hback : storedPid (metaSet store pidKey (decimalInt p.toInt) (h.metas g.id.bytes)) = p) :
    Tracked (launch store g p h) := by
  refine ⟨fun id q hq => ?_, fun id q proc hproc hlaunched => ?_, ht.started⟩
  · rcases (alive_launch store p).mp hq with ⟨rfl, rfl⟩ | ⟨-, hold⟩
    · exact ⟨hpos, by simpa [launch, Host.setMeta] using hback⟩
    · have hid : id ≠ g.id.bytes := by
        rintro rfl
        exact hdead q hold
      simpa [launch, Host.setMeta, Host.spawn, Function.update_of_ne hid] using ht.stored id q hold
  · by_cases hpq : q = p
    · subst hpq
      obtain rfl : _ = proc := by simpa [launch, Host.setMeta, Host.spawn] using hproc
      exact looksLikeQvm_qvmCmdline _ _
    · exact ht.qvm id q proc (by simpa [launch, Host.setMeta, Host.spawn, hpq] using hproc) hlaunched

/-- `guest_start` with the pid it would store readable and the record true. -/
structure StartOk (env : StartEnv) (g : Guest) (h : Host) : Prop where
  fresh : ∀ p, env.pid = some p → 0 < p ∧ h.procs p = none
  current : g.state = .running → ∃ p, h.Alive g.id.bytes p
  dead : g.state ≠ .running → ∀ p, ¬ h.Alive g.id.bytes p
  back : ∀ p, env.pid = some p → g.state ≠ .running → env.confExists = true → env.survives = true →
    storedPid (metaSet env.store pidKey (decimalInt p.toInt) (h.metas g.id.bytes)) = p

theorem tracked_noteStarted (ht : Tracked h) (halive : ∃ p, h.Alive g.id.bytes p) :
    Tracked (noteStarted g h) := by
  refine ⟨ht.stored, ht.qvm, fun r hr => ?_⟩
  rcases List.mem_append.mp hr with hold | hnew
  · exact ht.started r hold
  · rw [List.mem_singleton.mp hnew]
    exact halive

theorem exit_launch_procs (store : MetaEnv) (g : Guest) (hfree : h.procs p = none) :
    ((launch store g p h).exit p).procs = h.procs := by
  simp only [launch, Host.setMeta, Host.spawn, Host.exit, Function.update_idem]
  rw [← hfree, Function.update_eq_self]

theorem tracked_guestStart {env : StartEnv} (ht : Tracked h) (hok : StartOk env g h) :
    Tracked (guestStart env g h).2 := by
  rcases guestStart_cases env g h with ⟨hrun, heq⟩ | ⟨-, heq⟩ | ⟨p, hpid, hstop, hconf, hlive, heq⟩ |
    ⟨p, hpid, hstop, heq⟩
  · rw [heq]
    exact tracked_noteStarted ht (hok.current hrun)
  · rw [heq]
    exact ht
  · obtain ⟨hpos, hfree⟩ := hok.fresh p hpid
    rw [heq]
    exact tracked_noteStarted
      (tracked_launch ht hpos hfree (hok.dead hstop) (hok.back p hpid hstop hconf hlive))
      ⟨p, (alive_launch env.store p).mpr (.inl ⟨rfl, rfl⟩)⟩
  · -- the qvm is gone again: only the metadata file has changed
    obtain ⟨-, hfree⟩ := hok.fresh p hpid
    have hprocs := exit_launch_procs env.store g hfree
    rw [heq]
    refine ht.shrink (fun q proc hproc _ => by rwa [hprocs] at hproc) (fun id q hq => ?_) rfl
    have hid : id ≠ g.id.bytes := by
      rintro rfl
      obtain ⟨proc, hproc, hlaunched⟩ := hq
      rw [hprocs] at hproc
      exact hok.dead hstop q ⟨proc, hproc, hlaunched⟩
    simp [launch, Host.setMeta, Host.spawn, Host.exit, Function.update_of_ne hid]

/-- What is alive after `guest_start` was alive before or has been launched by it. -/
theorem alive_guestStart {env : StartEnv} (hok : StartOk env g h)
    (halive : (guestStart env g h).2.Alive id p) :
    h.Alive id p ∨ id = g.id.bytes ∧ env.pid = some p ∧ g.state ≠ .running ∧
      env.confExists = true ∧ env.survives = true ∧ (guestStart env g h).1 = 0 := by
  rcases guestStart_cases env g h with ⟨-, heq⟩ | ⟨-, heq⟩ | ⟨q, hpid, hstop, hconf, hlive, heq⟩ |
    ⟨q, hpid, -, heq⟩
  · rw [heq] at halive
    exact .inl halive
  · rw [heq] at halive
    exact .inl halive
  · rw [heq] at halive ⊢
    rcases (alive_launch env.store q).mp halive with ⟨rfl, hid⟩ | ⟨-, hold⟩
    · exact .inr ⟨hid, hpid, hstop, hconf, hlive, rfl⟩
    · exact .inl hold
  · rw [heq, Host.Alive, exit_launch_procs env.store g (hok.fresh q hpid).2] at halive
    exact .inl halive

theorem guestStart_guests (env : StartEnv) (g : Guest) (h : Host) :
    (guestStart env g h).2.guests = h.guests := by
  rcases guestStart_cases env g h with ⟨-, heq⟩ | ⟨-, heq⟩ | ⟨p, -, -, -, -, heq⟩ | ⟨p, -, -, heq⟩ <;>
    rw [heq] <;> rfl

/-- After `guest_kill` on a true record the guest has no qvm. -/
theorem alive_guestKill (store : MetaEnv)
    (hrecord : ∀ p, h.Alive g.id.bytes p → g.state = .running ∧ (g.pid = p ∨ g.pid = 0)) :
    ((guestKill store g h).2.Alive id p → h.Alive id p) ∧
      (0 < g.pid ∨ (guestKill store g h).1 = 0 → ¬ (guestKill store g h).2.Alive g.id.bytes p) := by
  rcases guestKill_cases store g h with ⟨hnone, heq⟩ | ⟨proc, hrun, hpos, hproc, heq⟩
  · rw [heq]
    refine ⟨fun halive => halive, fun hpid halive => ?_⟩
    have hpos : 0 < g.pid := hpid.resolve_right fun hrc => absurd hrc (show ¬ (-1 : Int) = 0 by decide)
    obtain ⟨hrun, hsame⟩ := hrecord p halive
    have hsame : g.pid = p := hsame.resolve_right fun hzero => by
      rw [hzero] at hpos
      exact absurd hpos (by decide)
    exact not_alive_of_free (hsame ▸ hnone hrun hpos) halive
  · rw [heq]
    have halive : ∀ id, (killProcess store g proc h).Alive id p ↔ p ≠ g.pid ∧ h.Alive id p :=
      fun id => alive_exit
    refine ⟨fun hold => ((halive id).mp hold).2, fun _ hself => ?_⟩
    obtain ⟨hne, hold⟩ := (halive _).mp hself
    rcases (hrecord p hold).2 with hsame | hzero
    · exact hne hsame.symm
    · rw [hzero] at hpos
      exact absurd hpos (by decide)

theorem tracked_guestKill (store : MetaEnv) (ht : Tracked h)
    (hrecord : ∀ p, h.Alive g.id.bytes p → g.state = .running ∧ (g.pid = p ∨ g.pid = 0)) :
    Tracked (guestKill store g h).2 := by
  have hkill := fun p => @alive_guestKill h g g.id.bytes p store hrecord
  rcases guestKill_cases store g h with ⟨-, heq⟩ | ⟨proc, -, -, -, heq⟩
  · rw [heq]
    exact ht
  · rw [heq] at hkill ⊢
    refine ht.shrink (fun p proc' hproc' _ => ?_) (fun id p hp => ?_) rfl
    · by_cases hp : p = g.pid
      · simp [killProcess, Host.setMeta, Host.exit, hp] at hproc'
      · simpa [killProcess, Host.setMeta, Host.exit, hp] using hproc'
    · have hid : id ≠ g.id.bytes := by
        rintro rfl
        exact (hkill p).2 (.inr rfl) hp
      simp [killProcess, Host.setMeta, Host.exit, Function.update_of_ne hid]

theorem guestKill_guests (store : MetaEnv) (g : Guest) (h : Host) :
    (guestKill store g h).2.guests = h.guests := by
  rcases guestKill_cases store g h with ⟨-, heq⟩ | ⟨proc, -, -, -, heq⟩ <;>
    rw [heq]
  rfl

/-! ## The refresh -/

theorem Tracked.refresh (ht : Tracked h) (env : RefreshEnv) : Tracked (refresh env h) :=
  ⟨ht.stored, ht.qvm, ht.started⟩

theorem recorded_refresh {env : RefreshEnv} (ht : Tracked h)
    (hread : ∀ d ∈ env.entries, (∃ p, h.Alive (CStr.fit 32 d.name).bytes p) →
      d.stateOpens = true ∧ d.procOpens = true) : Recorded (refresh env h) := by
  intro id p g halive hfind
  have hmem : g ∈ discoverGuests env h := List.mem_of_find?_eq_some hfind
  obtain ⟨d, hd, rfl⟩ := List.mem_map.mp hmem
  have hentry : d ∈ env.entries := (List.mem_filter.mp (List.mem_of_mem_take hd)).1
  have hid := findGuest_id hfind
  rw [guestOf_id] at hid
  subst hid
  obtain ⟨hmeta, hproc⟩ := hread d hentry ⟨p, halive⟩
  obtain ⟨hpos, hstored⟩ := ht.stored _ p halive
  obtain ⟨proc, hprocs, hlaunched⟩ := halive
  have hchecks : runningPid d (d.stateText h) h.procs = some (storedPid (d.stateText h)) :=
    runningPid_of_alive hmeta hproc (hstored ▸ hpos) (hstored ▸ hprocs)
      (ht.qvm _ p proc hprocs hlaunched)
  rcases guestOf_state env.cfg h d with ⟨hrun, hpid⟩ | ⟨-, hnone⟩
  · rw [hpid] at hchecks
    exact ⟨hrun, .inl ((Option.some.inj hchecks).trans hstored)⟩
  · rw [hnone] at hchecks
    cases hchecks

/-! ## Every step keeps track -/

theorem Tracked.setMeta {text : Option Bytes} (ht : Tracked h)
    (hkeep : (∃ p, h.Alive id p) → storedPid text = storedPid (h.metas id)) :
    Tracked (h.setMeta id text) := by
  refine ⟨fun id' p hp => ?_, ht.qvm, ht.started⟩
  have halive : h.Alive id' p := hp
  by_cases hid : id' = id
  · subst hid
    simpa [Host.setMeta, hkeep ⟨p, halive⟩] using ht.stored id' p halive
  · simpa [Host.setMeta, Function.update_of_ne hid] using ht.stored id' p halive

theorem Tracked.setGuest {f : Guest → Guest} (ht : Tracked h) : Tracked (h.setGuest id f) :=
  ⟨ht.stored, ht.qvm, ht.started⟩

/-- `guest_start` on a found record, with the metadata text `text` in place. -/
theorem startOk_found {env : StartEnv} {text : Option Bytes} {e : HostEvent} {g' : Guest} {h' : Host}
    (hr : Recorded h) (hok : KeepsTrack h e) (hfresh : FreshPid h e)
    (hcall : e.startCall = some (id, env)) (hpid : e.newPid = env.pid)
    (htext : e.startText h id = text) (hfind : findGuest h.guests id = some g)
    (hid : g'.id = g.id) (hstate : g'.state = g.state) (hprocs : h'.procs = h.procs)
    (hmeta : h'.metas id = text) : StartOk env g' h' := by
  obtain rfl := findGuest_id hfind
  have halive : ∀ p, h'.Alive g'.id.bytes p ↔ h.Alive g.id.bytes p := by
    intro p
    rw [Host.Alive, Host.Alive, hprocs, hid]
  refine ⟨fun p hp => ?_, fun hrun => ?_, fun hstop p => ?_, fun p hp hstop hconf hlive => ?_⟩
  · obtain ⟨hpos, hnone⟩ := hfresh p (by rw [hpid, hp]; rfl)
    exact ⟨hpos, by simpa [hprocs] using hnone⟩
  · obtain ⟨p, hp⟩ := hok.current _ env g hcall hfind (hstate ▸ hrun)
    exact ⟨p, (halive p).mpr hp⟩
  · exact fun hp => hr.not_alive hfind (hstate ▸ hstop) ((halive p).mp hp)
  · rw [hid, hmeta, ← htext]
    exact hok.stored _ env p ⟨hcall, hp, hconf, hlive, g, hfind, hstate ▸ hstop⟩

theorem track_start {ip : Bytes} {ipStore : MetaEnv} {env : StartEnv} {after : RefreshEnv}
    (ht : Tracked h) (hr : Recorded h) (hok : KeepsTrack h (.start id ip ipStore env after))
    (hfresh : FreshPid h (.start id ip ipStore env after)) :
    Tracked (cmdStart id ip ipStore env after h) ∧ Recorded (cmdStart id ip ipStore env after h) := by
  unfold cmdStart
  split
  · exact ⟨ht, hr⟩
  · next g hfind =>
    have hid := findGuest_id hfind
    have hread : ∀ (g' : Guest) (h' : Host), g'.id = g.id → g'.state = g.state →
        h'.procs = h.procs → StartOk env g' h' → ∀ d ∈ after.entries,
        (∃ p, (guestStart env g' h').2.Alive (CStr.fit 32 d.name).bytes p) →
        d.stateOpens = true ∧ d.procOpens = true := by
      rintro g' h' hid' hstate hprocs hstart d hd ⟨p, halive⟩
      refine hok.readable after rfl d hd ?_
      rcases alive_guestStart hstart halive with hold | ⟨hname, hpid, hstop, hconf, hlive, -⟩
      · exact .inl ⟨p, by rwa [Host.Alive, ← hprocs]⟩
      · refine .inr ⟨env, p, ?_, hpid, hconf, hlive, g, ?_, hstate ▸ hstop⟩
        · rw [hname, hid', hid]
          rfl
        · rw [hname, hid', hid, hfind]
    split
    · next hip =>
      have hstart : StartOk env g h :=
        startOk_found hr hok hfresh rfl rfl (by simp [HostEvent.startText, hip]) hfind rfl rfl rfl rfl
      have htrack := tracked_guestStart ht hstart
      exact ⟨htrack.refresh _, recorded_refresh htrack (hread g h rfl rfl rfl hstart)⟩
    · next hip =>
      subst hid
      have hstart : StartOk env (g.withIp ip) ((h.setGuest g.id.bytes (Guest.withIp ip)).setMeta
          g.id.bytes (guestSetIp ipStore (g.withIp ip).ip.bytes (h.metas g.id.bytes))) := by
        refine startOk_found hr hok hfresh rfl rfl rfl hfind rfl rfl rfl ?_
        simp [Host.setMeta, HostEvent.startText, hip, Guest.withIp]
      have hset : Tracked ((h.setGuest g.id.bytes (Guest.withIp ip)).setMeta g.id.bytes
          (guestSetIp ipStore (g.withIp ip).ip.bytes (h.metas g.id.bytes))) := by
        refine ht.setGuest.setMeta fun halive => ?_
        have hkept := hok.kept _ env rfl halive
        simpa [HostEvent.startText, hip, Guest.withIp, Host.setGuest] using hkept
      have htrack := tracked_guestStart hset hstart
      exact ⟨htrack.refresh _, recorded_refresh htrack (hread _ _ rfl rfl rfl hstart)⟩

theorem track_kill {store : MetaEnv} {after : RefreshEnv} (ht : Tracked h) (hr : Recorded h)
    (hok : KeepsTrack h (.kill id store after)) :
    Tracked (cmdKill id store after h) ∧ Recorded (cmdKill id store after h) := by
  unfold cmdKill
  split
  · exact ⟨ht, hr⟩
  · next g hfind =>
    obtain rfl := findGuest_id hfind
    have hrecord := fun p halive => hr _ p g halive hfind
    have htrack := tracked_guestKill store ht hrecord
    refine ⟨htrack.refresh _, recorded_refresh htrack fun d hd => ?_⟩
    rintro ⟨p, halive⟩
    exact hok.readable after rfl d hd (.inl ⟨p, (alive_guestKill store hrecord).1 halive⟩)

theorem track_otaKill {store : MetaEnv} (ht : Tracked h) (hr : Recorded h)
    (hok : KeepsTrack h (.otaKill id store)) :
    Tracked (otaKillCb store id h).2 ∧ Recorded (otaKillCb store id h).2 := by
  unfold otaKillCb
  split
  · exact ⟨ht, hr⟩
  · next g hfind =>
    split
    · exact ⟨ht, hr⟩
    · next hrun =>
      obtain rfl := findGuest_id hfind
      have hrecord := fun p halive => hr _ p g halive hfind
      refine ⟨(tracked_guestKill store ht hrecord).setGuest, fun id' p g' halive hfind' => ?_⟩
      have hkill := @alive_guestKill h g id' p store hrecord
      have hold : h.Alive id' p := hkill.1 halive
      have hfound : findGuest (updateGuest Guest.markStopped g.id.bytes h.guests) id' = some g' := by
        simpa [Host.setGuest, guestKill_guests] using hfind'
      rw [findGuest_updateGuest (f := Guest.markStopped) _ _ fun g => rfl] at hfound
      split at hfound
      · next hid =>
        -- the guest itself has no qvm left
        subst hid
        have hpos := hok.known _ store g rfl hfind (by simpa using hrun) ⟨p, hold⟩
        exact absurd halive (hkill.2 (.inl hpos))
      · exact hr id' p g' hold hfound

theorem track_otaStart {env : StartEnv} (ht : Tracked h) (hr : Recorded h)
    (hok : KeepsTrack h (.otaStart id env)) (hfresh : FreshPid h (.otaStart id env)) :
    Tracked (otaStartCb env id h).2 ∧ Recorded (otaStartCb env id h).2 := by
  unfold otaStartCb
  split
  · exact ⟨ht, hr⟩
  · next g hfind =>
    have hstart : StartOk env g h := startOk_found hr hok hfresh rfl rfl rfl hfind rfl rfl rfl rfl
    have htrack := tracked_guestStart ht hstart
    obtain rfl := findGuest_id hfind
    dsimp only
    split
    · refine ⟨htrack.setGuest, fun id' p g' halive hfind' => ?_⟩
      have hfound : findGuest (updateGuest Guest.markRunning g.id.bytes h.guests) id' = some g' := by
        simpa [Host.setGuest, guestStart_guests] using hfind'
      rw [findGuest_updateGuest (f := Guest.markRunning) _ _ fun g => rfl] at hfound
      split at hfound
      · next hid =>
        subst hid
        rw [hfind] at hfound
        obtain rfl := Option.some.inj hfound
        exact ⟨rfl, .inr rfl⟩
      · next hid =>
        rcases alive_guestStart hstart halive with hold | ⟨hself, -⟩
        · exact hr id' p g' hold hfound
        · exact absurd hself hid
    · next hrc =>
      refine ⟨htrack, fun id' p g' halive hfind' => ?_⟩
      rw [guestStart_guests] at hfind'
      rcases alive_guestStart hstart halive with hold | ⟨-, -, -, -, -, hzero⟩
      · exact hr id' p g' hold hfind'
      · exact absurd hzero hrc

theorem track_step {h' : Host} {e : HostEvent} (ht : Tracked h) (hr : Recorded h)
    (hok : KeepsTrack h e) (hs : hostStep h e = some h') : Tracked h' ∧ Recorded h' := by
  unfold hostStep at hs
  split at hs
  · next hfresh =>
    obtain rfl := Option.some.inj hs
    cases e with
    | refresh env =>
        exact ⟨ht.refresh env, recorded_refresh ht fun d hd halive =>
          hok.readable env rfl d hd (.inl halive)⟩
    | restart env =>
        have hempty : Tracked { h with guests := [] } := ⟨ht.stored, ht.qvm, ht.started⟩
        exact ⟨hempty.refresh env, recorded_refresh hempty fun d hd halive =>
          hok.readable env rfl d hd (.inl halive)⟩
    | start id ip ipStore env after => exact track_start ht hr hok hfresh
    | kill id store after => exact track_kill ht hr hok
    | info id after =>
        simp only [hostEffect, cmdInfo]
        split
        · exact ⟨ht, hr⟩
        · exact ⟨ht.refresh after, recorded_refresh ht fun d hd halive =>
            hok.readable after rfl d hd (.inl halive)⟩
    | otaKill id store => exact track_otaKill ht hr hok
    | otaStart id env => exact track_otaStart ht hr hok hfresh
    | exit p =>
        refine ⟨ht.shrink (fun q proc hq _ => ?_) (fun _ _ _ => rfl) rfl, fun id q g hq hfind => ?_⟩
        · by_cases hqp : q = p
          · simp [hostEffect, Host.exit, hqp] at hq
          · simpa [hostEffect, Host.exit, hqp] using hq
        · exact hr id q g (alive_exit.mp hq).2 hfind
    | spawn p cmdline =>
        refine ⟨ht.shrink (fun q proc hq hlaunched => ?_) (fun _ _ _ => rfl) rfl,
          fun id q g hq hfind => ?_⟩
        · by_cases hqp : q = p
          · obtain rfl : _ = proc := by simpa [hostEffect, Host.spawn, hqp] using hq
            exact absurd rfl hlaunched
          · simpa [hostEffect, Host.spawn, hqp] using hq
        · rcases alive_spawn.mp hq with ⟨-, hnone⟩ | ⟨-, hold⟩
          · cases hnone
          · exact hr id q g hold hfind
  · cases hs

theorem track_reachable (hr : hostMachine.ReachableBy KeepsTrack h) : Tracked h ∧ Recorded h :=
  hr.invariant (fun _ hs => ⟨hostStart_tracked hs, hostStart_recorded hs⟩)
    fun _ _ _ _ hinv hok hs => track_step hinv.1 hinv.2 hok hs

/-- At most one qvm alive for each guest, and one for each guest that
`guest_start` has reported as started. -/
structure OneQvm (h : Host) : Prop where
  single : ∀ id p q, h.Alive id p → h.Alive id q → p = q
  started : ∀ r ∈ h.started, ∃ p proc, r.procs p = some proc ∧ proc.launchedFor = some r.guest

theorem one_qvm_reachable (hr : hostMachine.ReachableBy KeepsTrack h) : OneQvm h := by
  obtain ⟨ht, -⟩ := track_reachable hr
  refine ⟨fun id p q hp hq => ?_, ht.started⟩
  exact (ht.stored id p hp).2.symm.trans (ht.stored id q hq).2

/-! ## The defect -/

def bareHost : Host where
  procs := fun _ => none
  metas := fun _ => none
  guests := []
  used := fun p => p == 0
  started := []
  killed := []

theorem bareHost_start : HostStart bareHost := by
  refine ⟨fun p proc hp => ?_, fun id => rfl, rfl, fun p hp => ?_, fun id => ?_, rfl, rfl⟩
  · cases hp
  · exact absurd rfl hp
  · rfl

def guestEntry (name : Bytes) : DirEntry where
  name := name
  isDir := true
  qvmconf := none
  confExists := true
  type := .linux
  bootImage := none
  metaExists := true
  metaOpens := true
  cutMeta := none
  stateOpens := true
  procOpens := true
  hostname := .fit 64 []

def guestsOn (names : List Bytes) : RefreshEnv where
  entries := names.map guestEntry
  cfg := ⟨.fit 64 (utf8 "root"), .fit 128 [], 22, .fit 512 []⟩

/-- Every file call succeeds. -/
def storeOk : MetaEnv := ⟨true, true, none, true⟩

def startAs (p : Int32) : StartEnv := ⟨true, some p, storeOk, true⟩

def guestA : Bytes := utf8 "guest-a"

theorem keepsTrack_refresh (names : List Bytes) :
    KeepsTrack h (.refresh (guestsOn names)) := by
  refine ⟨fun _ _ _ hcall => ?_, fun _ _ _ he => ?_, fun _ _ _ hl => ?_, fun _ _ hcall => ?_,
    fun env he d hd _ => ?_⟩
  · cases hcall
  · cases he
  · cases hl.1
  · cases hcall
  · obtain rfl := Option.some.inj he
    obtain ⟨name, -, rfl⟩ := List.mem_map.mp hd
    exact ⟨rfl, rfl⟩

/-- A guest found stopped and started by an update job. -/
theorem one_qvm_started :
    ∃ h : Host, h.Alive guestA 100 ∧ OneQvm h := by
  have hfound : hostMachine.ReachableBy KeepsTrack _ := Machine.ReachableBy.step
    (e := .refresh (guestsOn [guestA])) (.initial bareHost_start) (keepsTrack_refresh _) rfl
  have hok : KeepsTrack (hostEffect bareHost (.refresh (guestsOn [guestA])))
      (.otaStart guestA (startAs 100)) := by
    refine ⟨fun id env g hcall hfind hrun => ?_, fun _ _ _ he => ?_, fun id env p hl => ?_,
      fun _ _ _ _ => rfl, fun _ he => ?_⟩
    · cases hcall
      have hstate : (findGuest (hostEffect bareHost (.refresh (guestsOn [guestA]))).guests
          guestA).map Guest.state = some .stopped := by decide
      rw [hfind, Option.map_some, hrun] at hstate
      cases hstate
    · cases he
    · obtain ⟨hcall, hpid, -⟩ := hl
      cases hcall
      cases hpid
      decide
    · cases he
  have hstarted := hfound.step (e := .otaStart guestA (startAs 100)) hok rfl
  exact ⟨_, ⟨⟨_, some guestA⟩, by rfl, rfl⟩, one_qvm_reachable hstarted⟩

/-- Two update jobs follow each other before a refresh has found the pid. -/
theorem second_job_launches_second_qvm :
    ¬ ∀ h : Host, hostMachine.ReachableBy NoReuse h → OneQvm h := by
  intro hall
  have hfound : hostMachine.ReachableBy NoReuse _ := Machine.ReachableBy.step
    (e := .refresh (guestsOn [guestA])) (.initial bareHost_start) (by decide) rfl
  have hstarted := hfound.step (e := .otaStart guestA (startAs 100)) (by decide) rfl
  have hkilled := hstarted.step (e := .otaKill guestA storeOk) (by decide) rfl
  have hagain := hkilled.step (e := .otaStart guestA (startAs 101)) (by decide) rfl
  have hsame := (hall _ hagain).single guestA 100 101
    ⟨⟨_, some guestA⟩, by rfl, rfl⟩ ⟨⟨_, some guestA⟩, by rfl, rfl⟩
  exact absurd hsame (by decide)

end QnxHypervisor.GuestManager
