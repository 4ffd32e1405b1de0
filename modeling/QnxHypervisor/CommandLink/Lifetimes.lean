import QnxHypervisor.CommandLink.Link

/-! # Whose ACK it is

The latch of the STM32 outlives the controller, while every lifetime counts its
commands from 1 again. A queued command therefore needs a number that the STM32
neither shows as accepted nor keeps for another payload.
-/

namespace QnxHypervisor.CommandLink

open Foundation MotorWire MotorController

/-! ## Queueing a command -/

def queuedBy (s : Link) : LinkEvent → Option (UInt16 × ConfigPayload)
  | .restart doc _ => some (1, startupStm doc)
  | .reload doc _ =>
      match configLoadFile doc with
      | none => none
      | some next =>
          if configStmDiffers next.stm s.ctrl.cfg.stm then some (s.ctrl.cmd.seq + 1, next.stm)
          else none
  | _ => none

theorem queuedBy_reload {s : Link} {doc : Option Json} {next : FullConfig}
    (hload : configLoadFile doc = some next) (hne : next.stm ≠ s.ctrl.cfg.stm)
    (env : ReloadEnv) :
    queuedBy s (.reload doc env) = some (s.ctrl.cmd.seq + 1, next.stm) := by
  simp [queuedBy, hload, (configStmDiffers_iff _ _).mpr hne]

/-- An intact command kept under the number `k` carries `p`. -/
def Stm32.KeepsUnder (m : Stm32) (k : UInt16) (p : ConfigPayload) : Prop :=
  ∀ c, m.waiting = some c → c.intact = true → c.header.cmdSeq = k → c.payload = p

/-- Every step queues under a number the STM32 keeps no other command for. -/
def SlotFree (s : Link) (e : LinkEvent) : Prop :=
  ∀ k p, queuedBy s e = some (k, p) → s.stm.KeepsUnder k p

/-- What the STM32 keeps under the pending number is the pending command. -/
def KeepsPending (s : Link) : Prop :=
  s.ctrl.cmd.state = .pending → s.stm.KeepsUnder s.ctrl.cmd.seq s.ctrl.cmd.payload

theorem keepsPending_start {s : Link} (h : LinkStart s) : KeepsPending s := by
  obtain ⟨p, b, hstm⟩ := h.stm
  intro _ c hw
  rw [hstm] at hw
  cases hw

theorem Heard.keepsUnder {s : Link} {m : Stm32} {n : Nat} (h : Heard s m n)
    (hkeep : s.stm.KeepsUnder s.ctrl.cmd.seq s.ctrl.cmd.payload) :
    m.KeepsUnder s.ctrl.cmd.seq s.ctrl.cmd.payload := by
  cases h with
  | nothing => exact hkeep
  | command c ours =>
      intro c' hw hintact _
      obtain rfl := Option.some.inj hw
      exact (ours hintact).2.2

theorem KeepsPending.of_same {s s' : Link} (hinv : KeepsPending s)
    (hcmd : SameCommand s.ctrl.cmd s'.ctrl.cmd) (hheard : Heard s s'.stm s'.hist.waitingNo) :
    KeepsPending s' := by
  intro hp
  rw [hcmd.seq, hcmd.payload]
  exact hheard.keepsUnder (hinv (hcmd.state ▸ hp))

theorem KeepsPending.of_idle {s : Link} (hidle : s.ctrl.cmd.state = .idle) :
    KeepsPending s := by
  intro hp
  rw [hidle] at hp
  cases hp

theorem keepsPending_step {s s' : Link} {e : LinkEvent} (hinv : KeepsPending s)
    (hslot : SlotFree s e) (heff : Effect s s' e) : KeepsPending s' := by
  cases heff with
  | restarted hcmd hact hstm hhist =>
      intro _
      rw [hcmd, hstm]
      exact hslot _ _ rfl
  | requeued hload hne hg hcmd hact hstm hhist =>
      intro _
      rw [hcmd, hstm, cmdQueue_seq, cmdQueue_payload, hg.seq]
      exact hslot _ _ (queuedBy_reload hload hne _)
  | kept hcmd hact hstm hhist =>
      refine hinv.of_same hcmd ?_
      rw [hstm, hhist]
      exact .nothing
  | carried hcmd hact hheard hhist => exact hinv.of_same hcmd hheard
  | completed hdone => exact .of_idle hdone.ended.state
  | abandoned hend hcmd hact hstm hheard hhist => exact .of_idle hcmd.state
  | framed hctrl hstm hhist =>
      intro _ c hw
      rw [hstm, Stm32.boundary_waiting, Stm32.apply_waiting] at hw
      cases hw

/-! ## Completion within the lifetime -/

/-- A step queues a command under a number that the STM32 does not show as
accepted, unless it accepted that very payload during this lifetime. -/
structure OwnNumber (s : Link) (e : LinkEvent) : Prop where
  slot : SlotFree s e
  latch : ∀ k p, queuedBy s e = some (k, p) → s.stm.ack = .ok → s.stm.ackSeq = k →
    (∀ doc env, e ≠ .restart doc env) ∧ p ∈ s.hist.acceptedHere

theorem ownNumber_of_none {s : Link} {e : LinkEvent} (h : queuedBy s e = none) :
    OwnNumber s e := by
  constructor <;> intro k p hq <;> rw [h] at hq <;> cases hq

/-- A latched ACK_OK under the pending number was given to the pending payload
during this lifetime. -/
def OwnAck (s : Link) : Prop :=
  s.ctrl.cmd.state = .pending → s.stm.ack = .ok → s.stm.ackSeq = s.ctrl.cmd.seq →
    s.ctrl.cmd.payload ∈ s.hist.acceptedHere

theorem OwnAck.of_idle {s : Link} (hidle : s.ctrl.cmd.state = .idle) : OwnAck s := by
  intro hp
  rw [hidle] at hp
  cases hp

theorem accepted_mem_process {h : History} {verdict : Option NackReason} {c : HeardCommand}
    (hok : c.judge verdict = .ok) :
    c.payload ∈ (h.process verdict (some c)).acceptedHere := by
  simp [History.process, hok]

theorem OwnAck.boundary {s s' : Link} (hinv : OwnAck s) (hkeep : KeepsPending s)
    {verdict : Option NackReason} {b : Block} (hctrl : s'.ctrl = s.ctrl)
    (hstm : s'.stm = s.stm.boundary verdict b)
    (hhist : s'.hist = s.hist.process verdict s.stm.waiting) : OwnAck s' := by
  intro hp hok hseq
  rw [hctrl] at hp hseq ⊢
  rw [hstm, Stm32.boundary_ack] at hok
  rw [hstm, Stm32.boundary_ackSeq] at hseq
  rw [hhist]
  cases hw : s.stm.waiting with
  | none =>
      rw [Stm32.apply_none hw] at hok hseq
      exact hinv hp hok hseq
  | some c =>
      rw [Stm32.apply_some hw] at hok hseq
      rw [← hkeep hp c hw (HeardCommand.judge_ok hok) hseq]
      exact accepted_mem_process hok

theorem ownAck_step {s s' : Link} {e : LinkEvent} (hinv : OwnAck s) (hkeep : KeepsPending s)
    (hown : OwnNumber s e) (heff : Effect s s' e) : OwnAck s' := by
  cases heff with
  | @restarted doc env hcmd hact hstm hhist =>
      intro _ hok hseq
      rw [hstm] at hok hseq
      rw [hcmd] at hseq
      exact absurd rfl ((hown.latch _ _ rfl hok hseq).1 doc env)
  | requeued hload hne hg hcmd hact hstm hhist =>
      intro _ hok hseq
      rw [hstm] at hok hseq
      rw [hcmd, cmdQueue_seq, hg.seq] at hseq
      rw [hcmd, hhist]
      exact (hown.latch _ _ (queuedBy_reload hload hne _) hok hseq).2
  | kept hcmd hact hstm hhist =>
      intro hp hok hseq
      rw [hstm] at hok hseq
      rw [hcmd.payload, hhist]
      exact hinv (hcmd.state ▸ hp) hok (hseq.trans hcmd.seq)
  | carried hcmd hact hheard hhist =>
      intro hp hok hseq
      obtain ⟨hack, hackSeq, -⟩ := hheard.latch
      rw [hcmd.payload, hhist]
      exact hinv (hcmd.state ▸ hp) (hack ▸ hok) ((hackSeq ▸ hseq).trans hcmd.seq)
  | completed hdone => exact .of_idle hdone.ended.state
  | abandoned hend hcmd hact hstm hheard hhist => exact .of_idle hcmd.state
  | framed hctrl hstm hhist => exact hinv.boundary hkeep hctrl hstm hhist

theorem ownAck_reachable {s : Link} (h : linkMachine.ReachableBy OwnNumber s) :
    KeepsPending s ∧ OwnAck s := by
  have hkeep : ∀ t, linkMachine.ReachableBy OwnNumber t → KeepsPending t := by
    intro t ht
    refine ht.invariant (fun _ => keepsPending_start) ?_
    intro s e s' hr hinv hok hs
    exact keepsPending_step hinv hok.slot (linkStep_effect (linkInv_reachable hr) hs)
  refine ⟨hkeep s h, h.invariant ?_ ?_⟩
  · intro s hs _ hok
    obtain ⟨p, b, hstm⟩ := hs.stm
    rw [hstm] at hok
    cases hok
  · intro s e s' hr hinv hok hs
    exact ownAck_step hinv (hkeep s hr) hok (linkStep_effect (linkInv_reachable hr) hs)

/-- In every history whose commands are queued under numbers of their own, a
command that completes has been accepted during the current lifetime. -/
theorem completed_command_was_accepted {s s' : Link} {rx heard : XferBuffer}
    (h : linkMachine.ReachableBy OwnNumber s)
    (hs : linkStep s (.exchange rx heard) = some s') (hdone : completes rx s.ctrl = true) :
    s'.ctrl.activeStm = s.ctrl.cmd.payload ∧ s.ctrl.cmd.payload ∈ s.hist.acceptedHere := by
  have hlink := linkInv_reachable h
  have hc := (linkStep_exchange hlink hs).1 hdone
  obtain ⟨hseq, hok⟩ := hlink.latched.of_acksOk hc.acks
  exact ⟨hc.active, (ownAck_reachable h).2 hc.pending hok hseq⟩

/-- The first handshake of a started link completes with its own ACK. -/
theorem started_command_was_accepted :
    ∃ s s' rx heard, linkMachine.ReachableBy OwnNumber s ∧
      linkStep s (.exchange rx heard) = some s' ∧ completes rx s.ctrl = true ∧
      s'.ctrl.activeStm = s.ctrl.cmd.payload ∧ s.ctrl.cmd.payload ∈ s.hist.acceptedHere := by
  have hstart : linkMachine.ReachableBy OwnNumber startedLink := .initial startedLink_start
  obtain ⟨t, ht, hcmd, -, -, htstm, -⟩ :=
    linkStep_deliver (linkInv_reachable hstart) startedLink_pending
  obtain ⟨u, hu, hctrl, hustm, -⟩ := linkStep_accept htstm zeroBlockData
  have hr := reachable_link (reachable_link hstart ht (ownNumber_of_none rfl)) hu
    (ownNumber_of_none rfl)
  have hsame := cmdCountAttempt_same startedLink.ctrl.cmd
  obtain ⟨v, hv, hdone, -⟩ := linkStep_ack (s := u) 200 zeroBlockData
    (by rw [hctrl, hcmd, hsame.state]; rfl) (by decide) (by decide)
    (by rw [hctrl, hcmd, hsame.seq, hustm]; rfl)
  exact ⟨u, v, _, _, hr, hv, hdone, completed_command_was_accepted hr hv hdone⟩

/-- A controller is acknowledged as number 1 and restarted with another row
count: the ACK still latched completes its first command at once. -/
theorem earlier_lifetime_ack_completes :
    ¬ ∀ (s s' : Link) (rx heard : XferBuffer), linkMachine.Reachable s →
      linkStep s (.exchange rx heard) = some s' → completes rx s.ctrl = true →
      s.ctrl.cmd.payload ∈ s.hist.acceptedHere := by
  intro hall
  have hstart : linkMachine.Reachable startedLink := .initial startedLink_start
  -- the first lifetime: its command is accepted as number 1
  obtain ⟨t, ht, -, -, -, htstm, -⟩ :=
    linkStep_deliver (linkInv_reachable hstart) startedLink_pending
  obtain ⟨u, hu, -, hustm, -⟩ := linkStep_accept htstm zeroBlockData
  have hr := reachable_link (reachable_link hstart ht trivial) hu trivial
  -- the second lifetime begins with number 1 again
  obtain ⟨c, hc⟩ : ∃ c, (startup (some (blockRowsDoc 100)) faultlessStartup).ctrl = some c :=
    ⟨_, rfl⟩
  obtain ⟨hcfg, -, hcmd⟩ := startup_ctrl hc
  obtain ⟨v, hv, hvctrl, hvstm, hvhist⟩ := linkStep_restart u hc
  have hr := reachable_link hr hv trivial
  obtain ⟨w, hw, hdone, -⟩ := linkStep_ack (s := v) 200 zeroBlockData
    (by rw [hvctrl, hcmd]; rfl) (by decide) (by decide)
    (by rw [hvstm, hustm, hvctrl, hcmd]; rfl)
  have hmem := hall v w _ _ hr hw hdone
  rw [hvhist] at hmem
  cases hmem

end QnxHypervisor.CommandLink
