import QnxHypervisor.GuestManager.OneProcess

/-! # Whom a kill hits

`guest_kill` sends SIGKILL to the pid in the record, and `refresh_guest_state`
takes that pid from the metadata file when the process of that number looks like
a qvm. The signal hits the guest's own qvm as long as no new process gets a
number that another guest's record or metadata file still holds.
-/

namespace QnxHypervisor.GuestManager

open Foundation

variable {h : Host} {g : Guest} {id : Bytes} {p : Int32}

/-! ## When pids keep apart -/

/-- The guest an event launches a process for. -/
def HostEvent.owner : HostEvent → Option Bytes
  | .start id _ _ _ _ => some id
  | .otaStart id _ => some id
  | _ => none

/-- The command line of the process an event creates looks like a qvm's. -/
def HostEvent.QvmLike : HostEvent → Prop
  | .spawn _ cmdline => looksLikeQvm ⟨cmdline, none⟩ = true
  | _ => True

/-- The `guest_kill` call of an event. -/
def HostEvent.killCall : HostEvent → Option (Bytes × MetaEnv)
  | .kill id store _ => some (id, store)
  | .otaKill id store => some (id, store)
  | _ => none

/-- A new process gets no pid that a RUNNING record of another guest holds and,
when it looks like a qvm, none that another guest's metadata file holds; each
update of a metadata file leaves the old pid or the one written. -/
structure PidsApart (h : Host) (e : HostEvent) : Prop where
  records : ∀ p ∈ e.newPid, ∀ g ∈ h.guests, g.state = .running → g.pid = p →
    e.owner = some g.id.bytes
  metas : ∀ p ∈ e.newPid, ∀ id, storedPid (h.metas id) = p → e.QvmLike → e.owner = some id
  address : ∀ id env, e.startCall = some (id, env) →
    storedPid (e.startText h id) = storedPid (h.metas id)
  launched : ∀ id env p, e.startCall = some (id, env) → env.pid = some p →
    storedPid (metaSet env.store pidKey (decimalInt p.toInt) (e.startText h id)) = p ∨
      storedPid (metaSet env.store pidKey (decimalInt p.toInt) (e.startText h id)) =
        storedPid (h.metas id)
  cleared : ∀ id store, e.killCall = some (id, store) →
    storedPid (metaSet store pidKey (utf8 "0") (h.metas id)) ≤ 0 ∨
      storedPid (metaSet store pidKey (utf8 "0") (h.metas id)) = storedPid (h.metas id)

/-! ## The invariant -/

/-- A process that looks like a qvm under the pid that a metadata file stores,
and any process under the pid of a RUNNING record, is the guest's own. -/
structure Aimed (h : Host) : Prop where
  metas : ∀ id proc, 0 < storedPid (h.metas id) → h.procs (storedPid (h.metas id)) = some proc →
    looksLikeQvm proc = true → proc.launchedFor = some id
  records : ∀ g ∈ h.guests, g.state = .running → 0 < g.pid → ∀ proc, h.procs g.pid = some proc →
    proc.launchedFor = some g.id.bytes
  killed : ∀ k ∈ h.killed, k.target.launchedFor = some k.guest

theorem hostStart_aimed (hs : HostStart h) : Aimed h where
  metas := by
    intro id proc _ hproc
    rw [hs.stored id] at hproc
    cases hproc
  records := by simp [hs.guests]
  killed := by simp [hs.killed]

/-- Processes end, and metadata files keep their pid or lose it. -/
theorem Aimed.shrink {h' : Host} (ha : Aimed h)
    (hprocs : ∀ p proc, h'.procs p = some proc → h.procs p = some proc)
    (hmetas : ∀ id, storedPid (h'.metas id) ≤ 0 ∨ storedPid (h'.metas id) = storedPid (h.metas id))
    (hguests : h'.guests = h.guests)
    (hkilled : ∀ k ∈ h'.killed, k.target.launchedFor = some k.guest) : Aimed h' where
  metas := by
    intro id proc hpos hproc
    rcases hmetas id with hneg | hsame
    · exact absurd hneg (Int32.not_le.mpr hpos)
    · rw [hsame] at hpos hproc
      exact ha.metas id proc hpos (hprocs _ proc hproc)
  records := by
    intro g hg hrun hpos proc hproc
    exact ha.records g (hguests ▸ hg) hrun hpos proc (hprocs _ proc hproc)
  killed := hkilled

theorem Aimed.refresh (ha : Aimed h) (env : RefreshEnv) : Aimed (refresh env h) where
  metas := ha.metas
  records := by
    intro g hg hrun hpos proc hproc
    obtain ⟨d, -, rfl⟩ := List.mem_map.mp hg
    rcases guestOf_state env.cfg h d with ⟨-, hpid⟩ | ⟨hstop, -⟩
    · obtain ⟨hstored, -, proc', hproc', hqvm⟩ := runningPid_spec hpid
      obtain rfl : proc' = proc := Option.some.inj (hproc'.symm.trans hproc)
      rw [guestOf_id]
      exact ha.metas _ proc' (hstored ▸ hpos) (hstored ▸ hproc) hqvm
    · rw [hstop] at hrun
      cases hrun
  killed := ha.killed

theorem Aimed.setGuest {f : Guest → Guest} (ha : Aimed h)
    (hf : ∀ g, (f g).state = .running → 0 < (f g).pid →
      g.state = .running ∧ (f g).pid = g.pid ∧ (f g).id = g.id) :
    Aimed (h.setGuest id f) where
  metas := ha.metas
  records := by
    intro g hg hrun hpos proc hproc
    rcases mem_updateGuest hg with hold | ⟨g₀, hfind, rfl⟩
    · exact ha.records g hold hrun hpos proc hproc
    · obtain ⟨hrun₀, hpid, hid⟩ := hf g₀ hrun hpos
      rw [hid]
      rw [hpid] at hpos hproc
      exact ha.records g₀ (List.mem_of_find?_eq_some hfind) hrun₀ hpos proc hproc
  killed := ha.killed

theorem Aimed.setMeta {text : Option Bytes} (ha : Aimed h)
    (hkeep : storedPid text = storedPid (h.metas id) ∨
      ∀ proc, h.procs (storedPid text) = some proc → proc.launchedFor = some id) :
    Aimed (h.setMeta id text) where
  metas := by
    intro id' proc hpos hproc hqvm
    by_cases hid : id' = id
    · subst hid
      simp only [Host.setMeta, Function.update_self] at hpos hproc
      rcases hkeep with hsame | hown
      · rw [hsame] at hpos hproc
        exact ha.metas id' proc hpos hproc hqvm
      · exact hown proc hproc
    · simp only [Host.setMeta, Function.update_of_ne hid] at hpos hproc
      exact ha.metas id' proc hpos hproc hqvm
  records := ha.records
  killed := ha.killed

/-! ## The calls -/

/-- The signal goes to the process of the record's pid. -/
theorem aimed_guestKill {store : MetaEnv} (ha : Aimed h) (hg : g ∈ h.guests)
    (hclear : storedPid (metaSet store pidKey (utf8 "0") (h.metas g.id.bytes)) ≤ 0 ∨
      storedPid (metaSet store pidKey (utf8 "0") (h.metas g.id.bytes)) =
        storedPid (h.metas g.id.bytes)) : Aimed (guestKill store g h).2 := by
  rcases guestKill_cases store g h with ⟨-, heq⟩ | ⟨proc, hrun, hpos, hproc, heq⟩
  · rw [heq]
    exact ha
  · rw [heq]
    refine ha.shrink (fun q proc' hq => ?_) (fun id => ?_) rfl fun k hk => ?_
    · by_cases hqp : q = g.pid
      · simp [killProcess, Host.setMeta, Host.exit, hqp] at hq
      · simpa [killProcess, Host.setMeta, Host.exit, hqp] using hq
    · by_cases hid : id = g.id.bytes
      · subst hid
        simpa [killProcess, Host.setMeta, Host.exit] using hclear
      · simp [killProcess, Host.setMeta, Host.exit, Function.update_of_ne hid]
    · rcases List.mem_append.mp hk with hold | hnew
      · exact ha.killed k hold
      · rw [List.mem_singleton.mp hnew]
        exact ha.records g hg hrun hpos proc hproc

/-- A new process under a pid that nobody else's record or file holds. -/
theorem Aimed.spawn {proc : Proc} (ha : Aimed h)
    (hrecords : ∀ g ∈ h.guests, g.state = .running → g.pid = p →
      proc.launchedFor = some g.id.bytes)
    (hmetas : ∀ id, storedPid (h.metas id) = p → looksLikeQvm proc = true →
      proc.launchedFor = some id) : Aimed (h.spawn p proc) where
  metas := by
    intro id proc' hpos hproc hqvm
    by_cases hid : storedPid (h.metas id) = p
    · obtain rfl : proc = proc' := by simpa [Host.spawn, hid] using hproc
      exact hmetas id hid hqvm
    · exact ha.metas id proc' hpos (by simpa [Host.spawn, Function.update_of_ne hid] using hproc) hqvm
  records := by
    intro g hg hrun hpos proc' hproc
    by_cases hid : g.pid = p
    · obtain rfl : proc = proc' := by simpa [Host.spawn, hid] using hproc
      exact hrecords g hg hrun hid
    · exact ha.records g hg hrun hpos proc'
        (by simpa [Host.spawn, Function.update_of_ne hid] using hproc)
  killed := ha.killed

theorem Aimed.exit (ha : Aimed h) (p : Int32) : Aimed (h.exit p) := by
  refine ha.shrink (fun q proc hq => ?_) (fun _ => .inr rfl) rfl ha.killed
  by_cases hqp : q = p
  · simp [Host.exit, hqp] at hq
  · simpa [Host.exit, hqp] using hq

/-- The new pid of a `guest_start` call belongs to no other guest's record or file. -/
structure LaunchOk (env : StartEnv) (g : Guest) (h : Host) : Prop where
  records : ∀ p, env.pid = some p → ∀ g' ∈ h.guests, g'.state = .running → g'.pid = p →
    g.id.bytes = g'.id.bytes
  metas : ∀ p, env.pid = some p → ∀ id, storedPid (h.metas id) = p → g.id.bytes = id
  launched : ∀ p, env.pid = some p →
    storedPid (metaSet env.store pidKey (decimalInt p.toInt) (h.metas g.id.bytes)) = p ∨
      storedPid (metaSet env.store pidKey (decimalInt p.toInt) (h.metas g.id.bytes)) =
        storedPid (h.metas g.id.bytes)

theorem aimed_launch {env : StartEnv} (ha : Aimed h) (hok : LaunchOk env g h)
    (hpid : env.pid = some p) : Aimed (launch env.store g p h) := by
  have hspawn : Aimed (h.spawn p ⟨qvmCmdline g.confPath.bytes, some g.id.bytes⟩) := by
    refine ha.spawn (fun g' hg' hrun hsame => ?_) fun id hsame _ => ?_
    · exact congrArg some (hok.records p hpid g' hg' hrun hsame)
    · exact congrArg some (hok.metas p hpid id hsame)
  refine hspawn.setMeta ?_
  rcases hok.launched p hpid with hnew | hold
  · refine .inr fun proc hproc => ?_
    rw [hnew] at hproc
    obtain rfl : _ = proc := by simpa [Host.spawn] using hproc
    rfl
  · exact .inl hold

theorem Aimed.noteStarted (ha : Aimed h) (g : Guest) : Aimed (noteStarted g h) :=
  ⟨ha.metas, ha.records, ha.killed⟩

theorem aimed_guestStart {env : StartEnv} (ha : Aimed h) (hok : LaunchOk env g h) :
    Aimed (guestStart env g h).2 := by
  rcases guestStart_cases env g h with ⟨-, heq⟩ | ⟨-, heq⟩ | ⟨p, hpid, -, -, -, heq⟩ |
    ⟨p, hpid, -, heq⟩
  · rw [heq]
    exact ha.noteStarted g
  · rw [heq]
    exact ha
  · rw [heq]
    exact (aimed_launch ha hok hpid).noteStarted g
  · rw [heq]
    exact (aimed_launch ha hok hpid).exit p

/-! ## Every step -/

/-- The `guest_start` call of an event, made on a host whose metadata is at most
one address ahead. -/
theorem launchOk_found {env : StartEnv} {e : HostEvent} {g' : Guest} {h' : Host}
    (hok : PidsApart h e) (hcall : e.startCall = some (g.id.bytes, env))
    (hpid : e.newPid = env.pid) (howner : e.owner = some g.id.bytes) (hid : g'.id = g.id)
    (hguests : ∀ g₁ ∈ h'.guests, ∃ g₀ ∈ h.guests, g₁.state = g₀.state ∧ g₁.pid = g₀.pid ∧
      g₁.id = g₀.id)
    (hmetas : h'.metas = Function.update h.metas g.id.bytes (e.startText h g.id.bytes)) :
    LaunchOk env g' h' := by
  have haddress := hok.address _ env hcall
  refine ⟨fun p hp g₁ hg₁ hrun hsame => ?_, fun p hp id hsame => ?_, fun p hp => ?_⟩
  · obtain ⟨g₀, hg₀, hstate, hpid₀, hid₀⟩ := hguests g₁ hg₁
    have hown := hok.records p (by rw [hpid, hp]; rfl) g₀ hg₀ (hstate ▸ hrun) (hpid₀ ▸ hsame)
    rw [howner] at hown
    rw [hid, hid₀]
    exact Option.some.inj hown
  · rw [hid]
    by_cases hself : id = g.id.bytes
    · exact hself.symm
    · rw [hmetas, Function.update_of_ne hself] at hsame
      have hlike : e.QvmLike := by
        cases e <;> first | exact trivial | cases hcall
      have hown := hok.metas p (by rw [hpid, hp]; rfl) id hsame hlike
      rw [howner] at hown
      exact Option.some.inj hown
  · rw [hid, hmetas, Function.update_self]
    rcases hok.launched _ env p hcall hp with hnew | hold
    · exact .inl hnew
    · exact .inr (hold.trans haddress.symm)

theorem aimed_start {ip : Bytes} {ipStore : MetaEnv} {env : StartEnv} {after : RefreshEnv}
    (ha : Aimed h) (hok : PidsApart h (.start id ip ipStore env after)) :
    Aimed (cmdStart id ip ipStore env after h) := by
  unfold cmdStart
  split
  · exact ha
  · next g hfind =>
    obtain rfl := findGuest_id hfind
    split
    · next hip =>
      have hlaunch : LaunchOk env g h := by
        refine launchOk_found hok rfl rfl rfl rfl (fun g₁ hg₁ => ⟨g₁, hg₁, rfl, rfl, rfl⟩) ?_
        simp [HostEvent.startText, hip]
      exact (aimed_guestStart ha hlaunch).refresh after
    · next hip =>
      have hset : Aimed (h.setGuest g.id.bytes (Guest.withIp ip)) :=
        ha.setGuest fun g hrun _ => ⟨hrun, rfl, rfl⟩
      have haddress := hok.address _ env rfl
      have htext : Aimed ((h.setGuest g.id.bytes (Guest.withIp ip)).setMeta g.id.bytes
          (guestSetIp ipStore (g.withIp ip).ip.bytes (h.metas g.id.bytes))) := by
        refine hset.setMeta (.inl ?_)
        simpa [HostEvent.startText, hip, Guest.withIp, Host.setGuest] using haddress
      refine (aimed_guestStart htext (launchOk_found hok rfl rfl rfl rfl (fun g₁ hg₁ => ?_) ?_)).refresh
        after
      · rcases mem_updateGuest hg₁ with hold | ⟨g₀, hfind₀, rfl⟩
        · exact ⟨g₁, hold, rfl, rfl, rfl⟩
        · exact ⟨g₀, List.mem_of_find?_eq_some hfind₀, rfl, rfl, rfl⟩
      · simp [Host.setMeta, Host.setGuest, HostEvent.startText, hip, Guest.withIp]

theorem aimed_otaStart {env : StartEnv} (ha : Aimed h) (hok : PidsApart h (.otaStart id env)) :
    Aimed (otaStartCb env id h).2 := by
  unfold otaStartCb
  split
  · exact ha
  · next g hfind =>
    obtain rfl := findGuest_id hfind
    have hlaunch : LaunchOk env g h := by
      refine launchOk_found hok rfl rfl rfl rfl (fun g₁ hg₁ => ⟨g₁, hg₁, rfl, rfl, rfl⟩) ?_
      simp [HostEvent.startText]
    have hstart := aimed_guestStart ha hlaunch
    dsimp only
    split
    · exact hstart.setGuest fun g _ hpos => absurd hpos (show ¬ (0 : Int32) < 0 by decide)
    · exact hstart

theorem aimed_step {h' : Host} {e : HostEvent} (ha : Aimed h) (hok : PidsApart h e)
    (hs : hostStep h e = some h') : Aimed h' := by
  unfold hostStep at hs
  split at hs
  · obtain rfl := Option.some.inj hs
    cases e with
    | refresh env => exact ha.refresh env
    | restart env =>
        have hempty : Aimed { h with guests := [] } := ⟨ha.metas, by simp, ha.killed⟩
        exact hempty.refresh env
    | start id ip ipStore env after => exact aimed_start ha hok
    | kill id store after =>
        simp only [hostEffect, cmdKill]
        split
        · exact ha
        · next g hfind =>
          obtain rfl := findGuest_id hfind
          exact (aimed_guestKill ha (List.mem_of_find?_eq_some hfind)
            (hok.cleared _ store rfl)).refresh after
    | info id after =>
        simp only [hostEffect, cmdInfo]
        split
        · exact ha
        · exact ha.refresh after
    | otaKill id store =>
        simp only [hostEffect, otaKillCb]
        split
        · exact ha
        · next g hfind =>
          split
          · exact ha
          · obtain rfl := findGuest_id hfind
            refine (aimed_guestKill ha (List.mem_of_find?_eq_some hfind)
              (hok.cleared _ store rfl)).setGuest fun g hrun => ?_
            cases hrun
    | otaStart id env => exact aimed_otaStart ha hok
    | exit p => exact ha.exit p
    | spawn p cmdline =>
        refine ha.spawn (fun g hg hrun hsame => ?_) fun id hsame hqvm => ?_
        · have hown := hok.records p rfl g hg hrun hsame
          cases hown
        · have hown := hok.metas p rfl id hsame hqvm
          cases hown
  · cases hs

theorem aimed_reachable (hr : hostMachine.ReachableBy PidsApart h) : Aimed h :=
  hr.invariant (fun _ => hostStart_aimed) fun _ _ _ _ ha hok hs => aimed_step ha hok hs

/-- Every SIGKILL for a guest goes to a process launched for it. -/
theorem kills_hit_own_qvm (hr : hostMachine.ReachableBy PidsApart h) :
    ∀ k ∈ h.killed, k.target.launchedFor = some k.guest :=
  (aimed_reachable hr).killed

/-! ## The defect -/

theorem pidsApart_refresh (env : RefreshEnv) : PidsApart h (.refresh env) := by
  refine ⟨fun p hp => ?_, fun p hp => ?_, fun _ _ hcall => ?_, fun _ _ _ hcall => ?_,
    fun _ _ hcall => ?_⟩
  · cases hp
  · cases hp
  · cases hcall
  · cases hcall
  · cases hcall

/-- A guest is started and killed. -/
theorem kills_hit_own_qvm_once :
    ∃ h : Host, h.killed ≠ [] ∧ ∀ k ∈ h.killed, k.target.launchedFor = some k.guest := by
  have hfound : hostMachine.ReachableBy PidsApart _ := Machine.ReachableBy.step
    (e := .refresh (guestsOn [guestA])) (.initial bareHost_start) (pidsApart_refresh _) rfl
  have hstart : PidsApart (hostEffect bareHost (.refresh (guestsOn [guestA])))
      (.start guestA [] storeOk (startAs 100) (guestsOn [guestA])) := by
    refine ⟨fun p _ g hg hrun => ?_, fun p hp id hsame _ => ?_, fun _ _ _ => rfl,
      fun id env p hcall hp => ?_, fun _ _ hcall => ?_⟩
    · have hstopped : ∀ g ∈ (hostEffect bareHost (.refresh (guestsOn [guestA]))).guests,
          g.state = .stopped := by decide
      rw [hstopped g hg] at hrun
      cases hrun
    · cases hp
      exact absurd hsame (show ¬ storedPid none = 100 by decide)
    · cases hcall
      cases hp
      exact .inl (by decide)
    · cases hcall
  have hstarted := hfound.step hstart rfl
  have hkill : PidsApart (hostEffect (hostEffect bareHost (.refresh (guestsOn [guestA])))
      (.start guestA [] storeOk (startAs 100) (guestsOn [guestA])))
      (.kill guestA storeOk (guestsOn [guestA])) := by
    refine ⟨fun p hp => ?_, fun p hp => ?_, fun _ _ hcall => ?_, fun _ _ _ hcall => ?_,
      fun id store hcall => ?_⟩
    · cases hp
    · cases hp
    · cases hcall
    · cases hcall
    · cases hcall
      exact .inl (by decide)
  have hkilled := hstarted.step hkill rfl
  exact ⟨_, List.cons_ne_nil _ _, kills_hit_own_qvm hkilled⟩

def guestB : Bytes := utf8 "guest-b"

/-- The first guest's qvm ends, the second one's gets its pid, and the first
guest is killed. -/
theorem reused_pid_kills_other_guest :
    ¬ ∀ h : Host, hostMachine.Reachable h → ∀ k ∈ h.killed, k.target.launchedFor = some k.guest := by
  intro hall
  let env := guestsOn [guestA, guestB]
  have hbegin : hostMachine.Reachable bareHost := .initial bareHost_start
  obtain ⟨h, hreach, hkilled⟩ := hbegin.after_any [.refresh env,
      .start guestA [] storeOk (startAs 100) env, .exit 100,
      .start guestB [] storeOk (startAs 100) env, .kill guestA storeOk env]
    (fun h => h.killed.any fun k => k.target.launchedFor ≠ some k.guest) (by decide)
  obtain ⟨k, hk, hother⟩ := List.any_eq_true.mp hkilled
  exact of_decide_eq_true hother (hall h hreach k hk)

end QnxHypervisor.GuestManager
