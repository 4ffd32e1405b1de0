import QnxHypervisor.CommandLink.Lifetimes

/-! # Agreement of the two ends

An idle controller that enforces a row count enforces the one the STM32 runs,
as long as no command that the controller stopped asking for has been, or still
can be, accepted behind its back.
-/

namespace QnxHypervisor.CommandLink

open Foundation MotorWire MotorController

/-- An intact command the STM32 still keeps carries `p`. -/
def Stm32.KeepsOnly (m : Stm32) (p : ConfigPayload) : Prop :=
  ∀ c, m.waiting = some c → c.intact = true → c.payload = p

/-- A command is queued under a number the STM32 shows as accepted for that same
payload only. When one ends without an ACK_OK while a row count is enforced, the
STM32 has accepted no other payload since the controller last saw an ACK_OK, and
keeps none after the transfer. -/
structure Settled (s : Link) (e : LinkEvent) : Prop where
  slot : SlotFree s e
  latch : ∀ k p, queuedBy s e = some (k, p) → s.stm.ack = .ok → s.stm.ackSeq = k →
    s.stm.accepted = some p ∧ s.stm.KeepsOnly p
  abandoned : ∀ rx heard, e = .exchange rx heard → Abandons rx s.ctrl →
    s.ctrl.activeStm.blockRows ≠ 0 →
    (∀ q, s.hist.unseen = some q → q = s.ctrl.activeStm) ∧
      (s.stm.hear heard).KeepsOnly s.ctrl.activeStm

/-- A row count is enforced. -/
def Enforcing (c : Controller) : Prop := c.activeStm.blockRows ≠ 0

structure Agrees (s : Link) : Prop where
  latch : s.ctrl.cmd.state = .pending → s.stm.ack = .ok → s.stm.ackSeq = s.ctrl.cmd.seq →
    s.stm.accepted = some s.ctrl.cmd.payload ∧ s.stm.KeepsOnly s.ctrl.cmd.payload
  seen : Enforcing s.ctrl → s.hist.unseen = none → s.stm.accepted = some s.ctrl.activeStm
  unseen : ∀ q, s.hist.unseen = some q → s.stm.accepted = some q
  idle : s.ctrl.cmd.state = .idle → Enforcing s.ctrl →
    s.stm.accepted = some s.ctrl.activeStm ∧ s.stm.KeepsOnly s.ctrl.activeStm

theorem not_enforcing_zero {c : Controller} (h : c.activeStm = zeroPayload) : ¬ Enforcing c := by
  intro hrows
  rw [Enforcing, h] at hrows
  exact hrows rfl

theorem idle_ne_pending {g : CommandState} (h : g.state = .idle) : ¬ g.state = .pending := by
  rw [h]
  simp

theorem agrees_start {s : Link} (h : LinkStart s) : Agrees s := by
  obtain ⟨doc, env, hc⟩ := h.ctrl
  obtain ⟨-, hact, -⟩ := startup_ctrl hc
  obtain ⟨p, b, hstm⟩ := h.stm
  have hzero := not_enforcing_zero hact
  refine ⟨?_, fun he => absurd he hzero, ?_, fun _ he => absurd he hzero⟩
  · intro _ hok
    rw [hstm] at hok
    cases hok
  · intro q hq
    rw [h.hist] at hq
    cases hq

/-- Hearing the pending command or noise keeps what `KeepsOnly` says of its
payload; an idle controller sends nothing that is kept. -/
theorem Heard.keepsOnly {s : Link} {m : Stm32} {n : Nat} (h : Heard s m n) {p : ConfigPayload}
    (hkeep : s.stm.KeepsOnly p)
    (hp : s.ctrl.cmd.state = .pending → s.ctrl.cmd.payload = p) : m.KeepsOnly p := by
  cases h with
  | nothing => exact hkeep
  | command c ours =>
      intro c' hw hintact
      obtain rfl := Option.some.inj hw
      obtain ⟨hpending, -, hpay⟩ := ours hintact
      exact hpay.trans (hp hpending)

/-- A step that keeps command, `active_stm`, latch and history. -/
theorem Agrees.of_fields {s s' : Link} (hinv : Agrees s)
    (hcmd : SameCommand s.ctrl.cmd s'.ctrl.cmd)
    (hact : s'.ctrl.activeStm = s.ctrl.activeStm)
    (hstm : s'.stm.ack = s.stm.ack ∧ s'.stm.ackSeq = s.stm.ackSeq ∧
      s'.stm.accepted = s.stm.accepted)
    (hkeeps : ∀ p, s.stm.KeepsOnly p →
      (s.ctrl.cmd.state = .pending → s.ctrl.cmd.payload = p) → s'.stm.KeepsOnly p)
    (hunseen : s'.hist.unseen = s.hist.unseen) : Agrees s' := by
  obtain ⟨hack, hackSeq, hacc⟩ := hstm
  have henf : Enforcing s'.ctrl → Enforcing s.ctrl := by
    rw [Enforcing, hact]
    exact id
  refine ⟨?_, ?_, ?_, ?_⟩
  · intro hp hok hseq
    obtain ⟨haccepted, hkeep⟩ :=
      hinv.latch (hcmd.state ▸ hp) (hack ▸ hok) ((hackSeq ▸ hseq).trans hcmd.seq)
    rw [hacc, hcmd.payload]
    exact ⟨haccepted, hkeeps _ hkeep fun _ => rfl⟩
  · intro he hnone
    rw [hacc, hact]
    exact hinv.seen (henf he) (hunseen ▸ hnone)
  · intro q hq
    rw [hacc]
    exact hinv.unseen q (hunseen ▸ hq)
  · intro hidle he
    have hidle' : s.ctrl.cmd.state = .idle := hcmd.state ▸ hidle
    obtain ⟨haccepted, hkeep⟩ := hinv.idle hidle' (henf he)
    rw [hacc, hact]
    exact ⟨haccepted, hkeeps _ hkeep fun hp => absurd hp (idle_ne_pending hidle')⟩

theorem Agrees.queued {s s' : Link} {e : LinkEvent} {k : UInt16} {p : ConfigPayload}
    (hinv : Agrees s) (hok : Settled s e) (hq : queuedBy s e = some (k, p))
    (hp : s'.ctrl.cmd.state = .pending) (hseq : s'.ctrl.cmd.seq = k)
    (hpay : s'.ctrl.cmd.payload = p)
    (hact : s'.ctrl.activeStm = s.ctrl.activeStm ∨ s'.ctrl.activeStm = zeroPayload)
    (hstm : s'.stm = s.stm) (hunseen : s'.hist.unseen = s.hist.unseen) : Agrees s' := by
  refine ⟨?_, ?_, ?_, fun hidle => absurd hp (idle_ne_pending hidle)⟩
  · intro _ hack hackSeq
    rw [hstm] at hack hackSeq
    rw [hstm, hpay]
    exact hok.latch k p hq hack (hackSeq.trans hseq)
  · intro he hnone
    rcases hact with hact | hzero
    · rw [hstm, hact]
      rw [Enforcing, hact] at he
      exact hinv.seen he (hunseen ▸ hnone)
    · exact absurd he (not_enforcing_zero hzero)
  · intro q hq
    rw [hstm]
    exact hinv.unseen q (hunseen ▸ hq)

theorem Agrees.completed {s s' : Link} (hlink : LinkInv s) (hinv : Agrees s)
    (hdone : Completion s s') : Agrees s' := by
  obtain ⟨hseq, hok⟩ := hlink.latched.of_acksOk hdone.acks
  obtain ⟨haccepted, hkeep⟩ := hinv.latch hdone.pending hok hseq
  obtain ⟨-, -, hacc⟩ := hdone.heard.latch
  have hagree : s'.stm.accepted = some s'.ctrl.activeStm := by
    rw [hacc, hdone.active, haccepted]
  refine ⟨fun hp => absurd hp (idle_ne_pending hdone.ended.state), fun _ _ => hagree, ?_, ?_⟩
  · intro q hq
    rw [hdone.hist] at hq
    cases hq
  · intro _ _
    rw [hdone.active] at hagree ⊢
    exact ⟨hagree, hdone.heard.keepsOnly hkeep fun _ => rfl⟩

theorem Agrees.abandoned {s s' : Link} (hinv : Agrees s)
    (hcmd : EndedCommand s.ctrl.cmd s'.ctrl.cmd)
    (hact : s'.ctrl.activeStm = s.ctrl.activeStm) (hheard : Heard s s'.stm s'.hist.waitingNo)
    (hunseen : s'.hist.unseen = s.hist.unseen)
    (hsettled : Enforcing s.ctrl → (∀ q, s.hist.unseen = some q → q = s.ctrl.activeStm) ∧
      s'.stm.KeepsOnly s.ctrl.activeStm) : Agrees s' := by
  obtain ⟨-, -, hacc⟩ := hheard.latch
  have henf : Enforcing s'.ctrl → Enforcing s.ctrl := by
    rw [Enforcing, hact]
    exact id
  have hagree : Enforcing s.ctrl → s'.stm.accepted = some s'.ctrl.activeStm := by
    intro he
    rw [hacc, hact]
    cases hq : s.hist.unseen with
    | none => exact hinv.seen he hq
    | some q => rw [hinv.unseen q hq, (hsettled he).1 q hq]
  refine ⟨fun hp => absurd hp (idle_ne_pending hcmd.state), fun he _ => hagree (henf he), ?_, ?_⟩
  · intro q hq
    rw [hacc]
    exact hinv.unseen q (hunseen ▸ hq)
  · intro _ he
    refine ⟨hagree (henf he), ?_⟩
    rw [hact]
    exact (hsettled (henf he)).2

theorem Agrees.boundary {s s' : Link} (hinv : Agrees s) (hkeep : KeepsPending s)
    {verdict : Option NackReason} {b : Block} (hctrl : s'.ctrl = s.ctrl)
    (hstm : s'.stm = s.stm.boundary verdict b)
    (hhist : s'.hist = s.hist.process verdict s.stm.waiting) : Agrees s' := by
  cases hw : s.stm.waiting with
  | none =>
      rw [hw] at hhist
      refine hinv.of_fields (hctrl ▸ SameCommand.refl _) (by rw [hctrl]) ?_ ?_ (by rw [hhist]; rfl)
      · rw [hstm, Stm32.boundary_ack, Stm32.boundary_ackSeq, Stm32.boundary_accepted,
          Stm32.apply_none hw]
        exact ⟨rfl, rfl, rfl⟩
      · intro p hkeeps _
        rwa [hstm, Stm32.KeepsOnly, Stm32.boundary_waiting, Stm32.apply_none hw]
  | some c =>
      have hempty : ∀ p, s'.stm.KeepsOnly p := by
        intro p c' hw'
        rw [hstm, Stm32.boundary_waiting, Stm32.apply_waiting] at hw'
        cases hw'
      have hacc : s'.stm.accepted =
          if c.judge verdict = .ok then some c.payload else s.stm.accepted := by
        rw [hstm, Stm32.boundary_accepted, Stm32.apply_some hw]
      have hack : s'.stm.ack = c.judge verdict := by
        rw [hstm, Stm32.boundary_ack, Stm32.apply_some hw]
      have hackSeq : s'.stm.ackSeq = c.header.cmdSeq := by
        rw [hstm, Stm32.boundary_ackSeq, Stm32.apply_some hw]
      rw [hw, History.process] at hhist
      by_cases hok : c.judge verdict = .ok
      · have hintact := HeardCommand.judge_ok hok
        rw [if_pos hok] at hacc
        rw [if_pos hok] at hhist
        refine ⟨?_, ?_, ?_, ?_⟩
        · intro hp _ hseq
          rw [hctrl] at hp hseq ⊢
          rw [hacc, hkeep hp c hw hintact (hackSeq ▸ hseq)]
          exact ⟨rfl, hempty _⟩
        · intro _ hnone
          rw [hhist] at hnone
          cases hnone
        · intro q hq
          rw [hhist] at hq
          rw [hacc, ← hq]
        · intro hidle he
          rw [hctrl] at hidle he ⊢
          rw [hacc, (hinv.idle hidle he).2 c hw hintact]
          exact ⟨rfl, hempty _⟩
      · rw [if_neg hok] at hacc
        rw [if_neg hok] at hhist
        refine ⟨?_, ?_, ?_, ?_⟩
        · intro _ hack'
          exact absurd (hack.symm.trans hack') hok
        · intro he hnone
          rw [hctrl] at he ⊢
          rw [hhist] at hnone
          rw [hacc]
          exact hinv.seen he hnone
        · intro q hq
          rw [hhist] at hq
          rw [hacc]
          exact hinv.unseen q hq
        · intro hidle he
          rw [hctrl] at hidle he ⊢
          rw [hacc]
          exact ⟨(hinv.idle hidle he).1, hempty _⟩

theorem agrees_step {s s' : Link} {e : LinkEvent} (hlink : LinkInv s) (hinv : Agrees s)
    (hkeep : KeepsPending s) (hok : Settled s e) (heff : Effect s s' e) : Agrees s' := by
  cases heff with
  | restarted hcmd hact hstm hhist =>
      exact hinv.queued hok rfl (by rw [hcmd]; rfl) (by rw [hcmd]; rfl) (by rw [hcmd]; rfl)
        (.inr hact) hstm (by rw [hhist]; rfl)
  | requeued hload hne hg hcmd hact hstm hhist =>
      refine hinv.queued hok (queuedBy_reload hload hne _) (by rw [hcmd]; rfl) ?_
        (by rw [hcmd]; rfl) (.inl hact) hstm (by rw [hhist]; rfl)
      rw [hcmd, cmdQueue_seq, hg.seq]
  | kept hcmd hact hstm hhist =>
      refine hinv.of_fields hcmd hact ?_ ?_ (by rw [hhist]) <;> rw [hstm]
      · exact ⟨rfl, rfl, rfl⟩
      · exact fun _ hkeeps _ => hkeeps
  | carried hcmd hact hheard hhist =>
      exact hinv.of_fields hcmd hact hheard.latch (fun _ => hheard.keepsOnly) (by rw [hhist])
  | completed hdone => exact .completed hlink hinv hdone
  | abandoned hend hcmd hact hstm hheard hhist =>
      refine hinv.abandoned hcmd hact hheard (by rw [hhist]) ?_
      intro he
      rw [hstm]
      exact hok.abandoned _ _ rfl hend he
  | framed hctrl hstm hhist => exact hinv.boundary hkeep hctrl hstm hhist

theorem keepsPending_settled {s : Link} (h : linkMachine.ReachableBy Settled s) :
    KeepsPending s := by
  refine h.invariant (fun _ => keepsPending_start) ?_
  intro s e s' hr hinv hok hs
  exact keepsPending_step hinv hok.slot (linkStep_effect (linkInv_reachable hr) hs)

theorem agrees_reachable {s : Link} (h : linkMachine.ReachableBy Settled s) : Agrees s := by
  refine h.invariant (fun _ => agrees_start) ?_
  intro s e s' hr hinv hok hs
  have hlink := linkInv_reachable hr
  exact agrees_step hlink hinv (keepsPending_settled hr) hok (linkStep_effect hlink hs)

/-- In every settled run an idle controller with a known configuration has the
configuration the STM32 accepted last. -/
theorem idle_agrees {s : Link} (h : linkMachine.ReachableBy Settled s)
    (hidle : s.ctrl.cmd.state = .idle) (hrows : s.ctrl.activeStm.blockRows ≠ 0) :
    s.stm.accepted = some s.ctrl.activeStm :=
  ((agrees_reachable h).idle hidle hrows).1

theorem settled_of_none {s : Link} {e : LinkEvent} (h : queuedBy s e = none)
    (hno : ∀ rx heard, e = .exchange rx heard → ¬ Abandons rx s.ctrl) : Settled s e where
  slot := fun k p hq => by simp [h] at hq
  latch := fun k p hq => by simp [h] at hq
  abandoned := fun rx heard he hend => absurd hend (hno rx heard he)

theorem not_abandons_of_completes {rx : XferBuffer} {c : Controller}
    (h : completes rx c = true) : ¬ Abandons rx c := by
  intro hend
  rcases receiveFrame_cases rx c with ⟨-, -, -, hack, -⟩ | ⟨hno, -⟩ | ⟨hno, -⟩
  · exact hend.2.2.not_acksOk ((cmdCountAttempt_same c.cmd).seq ▸ hack)
  · exact absurd h (by simp [hno])
  · exact absurd h (by simp [hno])

theorem not_abandons_lost (c : Controller) : ¬ Abandons (Buffer.zero _) c :=
  fun hend => zero_not_wellFormed hend.1

/-- After the first handshake both ends run the defaults. -/
theorem started_link_agrees :
    ∃ s, linkMachine.ReachableBy Settled s ∧ s.ctrl.cmd.state = .idle ∧
      s.ctrl.activeStm.blockRows ≠ 0 ∧ s.stm.accepted = some s.ctrl.activeStm := by
  have hstart : linkMachine.ReachableBy Settled startedLink := .initial startedLink_start
  obtain ⟨t, ht, hcmd, -, -, htstm, -⟩ :=
    linkStep_deliver (linkInv_reachable hstart) startedLink_pending
  obtain ⟨u, hu, hctrl, hustm, -⟩ := linkStep_accept htstm zeroBlockData
  have hsame := cmdCountAttempt_same startedLink.ctrl.cmd
  obtain ⟨v, hv, hdone, hact, hidle, -⟩ := linkStep_ack (s := u) 200
    zeroBlockData (by rw [hctrl, hcmd, hsame.state]; rfl) (by decide) (by decide)
    (by rw [hctrl, hcmd, hsame.seq, hustm]; rfl)
  have hr := reachable_link hstart ht (settled_of_none rfl fun rx heard he => by
    obtain ⟨rfl, -⟩ := LinkEvent.exchange.inj he
    exact not_abandons_lost _)
  have hr := reachable_link hr hu (settled_of_none rfl fun rx heard he => by cases he)
  have hr := reachable_link hr hv (settled_of_none rfl fun rx heard he => by
    obtain ⟨rfl, -⟩ := LinkEvent.exchange.inj he
    exact not_abandons_of_completes hdone)
  have hrows : v.ctrl.activeStm.blockRows ≠ 0 := by
    rw [hact, hctrl, hcmd, hsame.payload]
    decide
  exact ⟨v, hr, hidle, hrows, idle_agrees hr hidle hrows⟩

/-! ## The last attempt -/

theorem lost_transfers {s : Link} (hr : linkMachine.Reachable s)
    (hp : s.ctrl.cmd.state = .pending) (hretries : s.ctrl.cmd.retriesLeft = cmdMaxRetries)
    (k : Nat) (hk : k ≤ 32) :
    ∃ t, linkMachine.Reachable t ∧ SameCommand s.ctrl.cmd t.ctrl.cmd ∧
      t.ctrl.cmd.retriesLeft.toNat = 32 - k ∧ t.ctrl.activeStm = s.ctrl.activeStm ∧
      t.stm = s.stm := by
  induction k with
  | zero => exact ⟨s, hr, SameCommand.refl _, by rw [hretries]; rfl, rfl, rfl⟩
  | succ k ih =>
      obtain ⟨t, ht, htcmd, htleft, htact, htstm⟩ := ih (by omega)
      obtain ⟨u, hu, huctrl, hustm⟩ := linkStep_lost t
      obtain ⟨hcmd, hact, -⟩ := receiveFrame_lost t.ctrl
      refine ⟨u, reachable_link ht hu trivial, ?_, ?_, ?_, ?_⟩
      · rw [huctrl, hcmd]
        exact htcmd.trans (cmdCountAttempt_same _)
      · rw [huctrl, hcmd, cmdCountAttempt_retriesLeft (htcmd.state.trans hp) (by omega)]
        omega
      · rw [huctrl, hact, htact]
      · rw [hustm, htstm]

/-- 31 attempts are lost; the 32nd gets through while the frame on the way back
was prepared before it. The controller gives up, the STM32 accepts. -/
theorem abandoned_command_is_applied :
    ¬ ∀ s : Link, linkMachine.Reachable s → s.ctrl.cmd.state = .idle →
      s.ctrl.activeStm.blockRows ≠ 0 → s.stm.accepted = some s.ctrl.activeStm := by
  intro hall
  have hstart : linkMachine.Reachable startedLink := .initial startedLink_start
  -- the defaults are accepted and acknowledged as number 1
  obtain ⟨t, ht, hcmd, -, htcfg, htstm, -⟩ :=
    linkStep_deliver (linkInv_reachable hstart) startedLink_pending
  obtain ⟨u, hu, hctrl, hustm, -⟩ := linkStep_accept htstm zeroBlockData
  have hsame := cmdCountAttempt_same startedLink.ctrl.cmd
  obtain ⟨v, hv, -, hvact, -, hvseq, hvcfg, hvstm, -⟩ := linkStep_ack (s := u) 200
    zeroBlockData (by rw [hctrl, hcmd, hsame.state]; rfl) (by decide) (by decide)
    (by rw [hctrl, hcmd, hsame.seq, hustm]; rfl)
  have hr := reachable_link hstart ht trivial
  have hr := reachable_link (reachable_link hr hu trivial) hv trivial
  -- the next configuration is asked for in vain
  obtain ⟨w, hw, hwp, hwseq, hwpay, hwleft, -, hwact, hwstm, -⟩ := linkStep_requeue v
    (load_blockRowsDoc (n := 100) (by decide) (by decide))
    (by rw [hvcfg, hctrl, htcfg]; decide) faultlessReload
  obtain ⟨x, hx, hxcmd, hxleft, hxact, hxstm⟩ :=
    lost_transfers (reachable_link hr hw trivial) hwp hwleft 31 (by decide)
  have hxp : x.ctrl.cmd.state = .pending := hxcmd.state.trans hwp
  have hxseq : x.ctrl.cmd.seq = 2 := by
    rw [hxcmd.seq, hwseq, hvseq, hctrl, hcmd, hsame.seq]
    decide
  have hactive : x.ctrl.activeStm = configDefaults.stm := by
    rw [hxact, hwact, hvact, hctrl, hcmd, hsame.payload]
    rfl
  -- the 32nd attempt gets through; the frame beside it is still about number 1
  have hout : x.stm.out = ackFrame 1 200 zeroBlockData := by
    rw [hxstm, hwstm, hvstm, hustm]
    rfl
  have hwf : FrameWellFormed x.stm.out := by
    rw [hout]
    exact dataFrame_wellFormed _ _ _ _ _ (by decide) (by decide)
  have hlock : sizeLocked x.ctrl.activeStm (frameHeader x.stm.out) = false := by
    rw [hactive, hout, ackFrame, frameHeader_wireFrame]
    decide
  have hend : EndsUnacked (frameHeader x.stm.out) (cmdCountAttempt x.ctrl.cmd) := by
    have hcount := cmdCountAttempt_same x.ctrl.cmd
    have hleft := cmdCountAttempt_retriesLeft hxp (by omega)
    refine ⟨hcount.state.trans hxp, .inl ⟨?_, ?_⟩⟩
    · rw [hcount.seq, hxseq, hout, ackFrame, frameHeader_wireFrame]
      decide
    · exact UInt16.toNat_inj.mp (by rw [hleft, hxleft]; rfl)
  obtain ⟨hkeep, hidle, -⟩ := receiveFrame_unacked x.stm.out hwf hlock hend
  obtain ⟨y, hy, hyctrl, hystm⟩ := linkStep_both (linkInv_reachable hx) hxp
  -- the boundary accepts it all the same
  obtain ⟨z, hz, hzctrl, hzstm, -⟩ := linkStep_accept hystm zeroBlockData
  have hr := reachable_link (reachable_link hx hy trivial) hz trivial
  have hzact : z.ctrl.activeStm = configDefaults.stm := by
    rw [hzctrl, hyctrl, hkeep, hactive]
  have hacc : z.stm.accepted = some (blockRowsConfig 100).stm := by
    rw [hzstm, ← hwpay, ← hxcmd.payload]
    rfl
  have hagree := hall z hr (by rw [hzctrl, hyctrl, hidle]) (by rw [hzact]; decide)
  rw [hacc, hzact] at hagree
  have hrows := congrArg ConfigPayload.blockRows (Option.some.inj hagree)
  revert hrows
  decide

end QnxHypervisor.CommandLink
