import QnxHypervisor.CommandLink.Link

/-! # Command numbers within one lifetime

`cmd_seq` is the running count of queued commands modulo 65536. As long as the
count stays within one turn of the command processed last, the number an ACK
shows names one command only.
-/

namespace QnxHypervisor.CommandLink

open Foundation MotorWire MotorController

/-- Within one turn of the 16-bit counter a number names one command. -/
theorem number_unique {m n : Nat} (hle : m ≤ n) (hturn : n < m + 65536)
    (h : UInt16.ofNat m = UInt16.ofNat n) : m = n := by
  have hmod := congrArg UInt16.toNat h
  simp only [UInt16.toNat_ofNat'] at hmod
  omega

/-- The controller is not restarted, and at every exchange fewer than 65536
commands have been queued after the one the STM32 processed last. -/
def WithinTurn (s : Link) : LinkEvent → Prop
  | .restart _ _ => False
  | .exchange _ _ => ∀ r, s.hist.last = some r → s.hist.commands < r.number + 65536
  | _ => True

/-- Numbers on the wire are counts modulo 65536, and a command with the count
of the pending one carries its payload. -/
structure NumberedInv (s : Link) : Prop where
  seq : s.ctrl.cmd.seq = UInt16.ofNat s.hist.commands
  waiting : ∀ c, s.stm.waiting = some c → c.intact = true →
    c.header.cmdSeq = UInt16.ofNat s.hist.waitingNo ∧ s.hist.waitingNo ≤ s.hist.commands ∧
      (s.hist.waitingNo = s.hist.commands → c.payload = s.ctrl.cmd.payload)
  latch : s.stm.ack = .ok → ∃ r, s.hist.last = some r ∧ r.ack = .ok ∧
    s.stm.ackSeq = UInt16.ofNat r.number ∧ r.number ≤ s.hist.commands ∧
      (r.number = s.hist.commands → r.payload = s.ctrl.cmd.payload)

theorem numberedInv_start {s : Link} (h : LinkStart s) : NumberedInv s := by
  obtain ⟨doc, env, hc⟩ := h.ctrl
  obtain ⟨-, -, hcmd⟩ := startup_ctrl hc
  obtain ⟨p, b, hstm⟩ := h.stm
  refine ⟨?_, ?_, ?_⟩
  · rw [hcmd, h.hist]
    rfl
  · intro c hw
    rw [hstm] at hw
    cases hw
  · intro hok
    rw [hstm] at hok
    cases hok

theorem NumberedInv.heard {s s' : Link} (hinv : NumberedInv s)
    (hseq : s'.ctrl.cmd.seq = s.ctrl.cmd.seq)
    (hpay : s'.ctrl.cmd.payload = s.ctrl.cmd.payload)
    (hheard : Heard s s'.stm s'.hist.waitingNo)
    (hcommands : s'.hist.commands = s.hist.commands) (hlast : s'.hist.last = s.hist.last) :
    NumberedInv s' := by
  generalize hm : s'.stm = m at hheard
  generalize hn : s'.hist.waitingNo = n at hheard
  cases hheard with
  | nothing =>
      refine ⟨by rw [hseq, hcommands, hinv.seq], ?_, ?_⟩
      · rw [hm, hn, hcommands, hpay]
        exact hinv.waiting
      · rw [hm, hlast, hcommands, hpay]
        exact hinv.latch
  | command c ours =>
      refine ⟨by rw [hseq, hcommands, hinv.seq], ?_, ?_⟩
      · intro c' hw hintact
        rw [hm] at hw
        obtain rfl := Option.some.inj hw
        obtain ⟨-, hcseq, hcpay⟩ := ours hintact
        rw [hn, hcommands, hpay]
        exact ⟨hcseq.trans hinv.seq, Nat.le_refl _, fun _ => hcpay⟩
      · rw [hm, hlast, hcommands, hpay]
        exact hinv.latch

theorem NumberedInv.boundary {s s' : Link} (hinv : NumberedInv s)
    {verdict : Option NackReason} {b : Block} (hctrl : s'.ctrl = s.ctrl)
    (hstm : s'.stm = s.stm.boundary verdict b)
    (hhist : s'.hist = s.hist.process verdict s.stm.waiting) : NumberedInv s' := by
  cases hw : s.stm.waiting with
  | none =>
      rw [hw] at hhist
      have hhist : s'.hist = s.hist := hhist
      refine ⟨by rw [hctrl, hhist, hinv.seq], ?_, ?_⟩
      · rw [hstm, hhist, hctrl, Stm32.boundary_waiting, Stm32.apply_none hw]
        exact hinv.waiting
      · rw [hstm, hhist, hctrl, Stm32.boundary_ack, Stm32.boundary_ackSeq, Stm32.apply_none hw]
        exact hinv.latch
  | some c =>
      rw [hw] at hhist
      have hcommands : s'.hist.commands = s.hist.commands := by
        rw [hhist, History.process_commands]
      have hlast : s'.hist.last = some ⟨s.hist.waitingNo, c.payload, c.judge verdict⟩ := by
        rw [hhist, History.process_last]
      refine ⟨by rw [hctrl, hcommands, hinv.seq], ?_, ?_⟩
      · intro c' hw'
        rw [hstm, Stm32.boundary_waiting, Stm32.apply_waiting] at hw'
        cases hw'
      · intro hok
        rw [hstm, Stm32.boundary_ack, Stm32.apply_some hw] at hok
        have hok : c.judge verdict = .ok := hok
        obtain ⟨hnum, hle, hpay⟩ := hinv.waiting c hw (HeardCommand.judge_ok hok)
        rw [hstm, Stm32.boundary_ackSeq, Stm32.apply_some hw, hcommands, hctrl]
        exact ⟨_, hlast, hok, hnum, hle, hpay⟩

theorem NumberedInv.requeued {s s' : Link} (hinv : NumberedInv s)
    (hseq : s'.ctrl.cmd.seq = s.ctrl.cmd.seq + 1) (hstm : s'.stm = s.stm)
    (hhist : s'.hist = s.hist.queue) : NumberedInv s' := by
  have hcommands : s'.hist.commands = s.hist.commands + 1 := by
    rw [hhist]
    rfl
  refine ⟨?_, ?_, ?_⟩
  · rw [hseq, hcommands, hinv.seq, UInt16.ofNat_add]
    rfl
  · intro c hw hintact
    rw [hstm] at hw
    obtain ⟨hnum, hle, -⟩ := hinv.waiting c hw hintact
    have hno : s'.hist.waitingNo = s.hist.waitingNo := by
      rw [hhist]
      rfl
    rw [hno, hcommands]
    refine ⟨hnum, by omega, ?_⟩
    intro heq
    omega
  · intro hok
    rw [hstm] at hok
    obtain ⟨r, hlast, hack, hnum, hle, -⟩ := hinv.latch hok
    refine ⟨r, ?_, hack, ?_, ?_, ?_⟩
    · rw [hhist]
      exact hlast
    · rw [hstm]
      exact hnum
    · omega
    · intro heq
      omega

theorem numberedInv_step {s s' : Link} {e : LinkEvent} (hlink : LinkInv s)
    (hinv : NumberedInv s) (hok : WithinTurn s e) (hs : linkStep s e = some s') :
    NumberedInv s' := by
  cases linkStep_effect hlink hs with
  | restarted => exact hok.elim
  | requeued hload hne hg hcmd hact hstm hhist =>
      exact hinv.requeued (by rw [hcmd, cmdQueue_seq, hg.seq]) hstm hhist
  | kept hcmd hact hstm hhist =>
      refine hinv.heard hcmd.seq hcmd.payload ?_ (by rw [hhist]) (by rw [hhist])
      rw [hstm, hhist]
      exact .nothing
  | carried hcmd hact hheard hhist =>
      exact hinv.heard hcmd.seq hcmd.payload hheard (by rw [hhist]) (by rw [hhist])
  | completed hdone =>
      exact hinv.heard hdone.ended.seq hdone.ended.payload hdone.heard (by rw [hdone.hist]; rfl)
        (by rw [hdone.hist]; rfl)
  | abandoned hend hcmd hact hstm hheard hhist =>
      exact hinv.heard hcmd.seq hcmd.payload hheard (by rw [hhist]) (by rw [hhist])
  | framed hctrl hstm hhist => exact hinv.boundary hctrl hstm hhist

theorem numberedInv_reachable {s : Link} (h : linkMachine.ReachableBy WithinTurn s) :
    NumberedInv s := by
  refine h.invariant ?_ ?_
  · intro s hs
    exact numberedInv_start hs
  · intro s e s' hr hinv hok hs
    exact numberedInv_step (linkInv_reachable hr) hinv hok hs

theorem Completion.last {s s' : Link} (hdone : Completion s s') (hlink : LinkInv s)
    (hinv : NumberedInv s)
    (hturn : ∀ r, s.hist.last = some r → s.hist.commands < r.number + 65536) :
    ∃ r, s'.hist.last = some r ∧ r.ack = .ok ∧ r.number = s.hist.commands ∧
      r.payload = s'.ctrl.activeStm := by
  obtain ⟨hseq, hok⟩ := hlink.latched.of_acksOk hdone.acks
  obtain ⟨r, hlast, hack, hnum, hle, hpay⟩ := hinv.latch hok
  have hsame : r.number = s.hist.commands := by
    refine number_unique hle (hturn r hlast) ?_
    rw [← hnum, hseq, hinv.seq]
  refine ⟨r, ?_, hack, hsame, ?_⟩
  · rw [hdone.hist]
    exact hlast
  · rw [hdone.active]
    exact hpay hsame

/-- Within one lifetime and one turn of the counter, a change of `active_stm`,
and every completed command, is about the command the STM32 processed last: it
was accepted, it is the one pending, and its payload becomes active. -/
theorem active_follows_last_processed {s s' : Link} {e : LinkEvent}
    (h : linkMachine.ReachableBy WithinTurn s) (hok : WithinTurn s e)
    (hs : linkStep s e = some s')
    (hchange : s'.ctrl.activeStm ≠ s.ctrl.activeStm ∨
      ∃ rx heard, e = .exchange rx heard ∧ completes rx s.ctrl = true) :
    ∃ r, s'.hist.last = some r ∧ r.ack = .ok ∧ r.number = s.hist.commands ∧
      r.payload = s'.ctrl.activeStm := by
  have hlink := linkInv_reachable h
  have hinv := numberedInv_reachable h
  rcases hchange with hne | ⟨rx, heard, rfl, hc⟩
  · cases linkStep_effect hlink hs with
    | restarted => exact hok.elim
    | requeued _ _ _ _ hact => exact absurd hact hne
    | kept _ hact => exact absurd hact hne
    | carried _ hact => exact absurd hact hne
    | completed hdone => exact hdone.last hlink hinv hok
    | abandoned _ _ hact => exact absurd hact hne
    | framed hctrl => exact absurd (by rw [hctrl]) hne
  · exact ((linkStep_exchange hlink hs).1 hc).last hlink hinv hok

/-- The handshake of a started link makes the accepted defaults active. -/
theorem started_handshake :
    ∃ s s' e, linkMachine.ReachableBy WithinTurn s ∧ linkStep s e = some s' ∧
      ∃ r, s'.hist.last = some r ∧ r.ack = .ok ∧ r.number = s.hist.commands ∧
        r.payload = s'.ctrl.activeStm := by
  have hstart : linkMachine.ReachableBy WithinTurn startedLink := .initial startedLink_start
  have hnone : ∀ r, startedLink.hist.last = some r →
      startedLink.hist.commands < r.number + 65536 := by
    intro r hr
    rw [startedLink_last] at hr
    cases hr
  obtain ⟨t, ht, hcmd, -, -, htstm, hthist⟩ :=
    linkStep_deliver (linkInv_reachable hstart) startedLink_pending
  obtain ⟨u, hu, hctrl, hustm, huhist⟩ := linkStep_accept htstm zeroBlockData
  have hr := reachable_link (reachable_link hstart ht hnone) hu trivial
  have hsame := cmdCountAttempt_same startedLink.ctrl.cmd
  obtain ⟨v, hv, hdone, -⟩ := linkStep_ack (s := u) 200 zeroBlockData
    (by rw [hctrl, hcmd, hsame.state]; rfl) (by decide) (by decide)
    (by rw [hctrl, hcmd, hsame.seq, hustm]; rfl)
  have hturn : ∀ r, u.hist.last = some r → u.hist.commands < r.number + 65536 := by
    intro r hr
    rw [huhist] at hr ⊢
    obtain rfl := Option.some.inj hr
    rw [hthist]
    simp
  exact ⟨u, v, .exchange u.stm.out (Buffer.zero _), hr, hv,
    active_follows_last_processed (e := .exchange u.stm.out (Buffer.zero _)) hr hturn hv
      (.inr ⟨_, _, rfl, hdone⟩)⟩

/-! ## Counting from the processing step -/

/-- Not restarted, and fewer than 65536 commands queued between two steps that
process one. -/
def WithinTurnOfStep (s : Link) (e : LinkEvent) : Prop :=
  (∀ doc env, e ≠ .restart doc env) ∧ s.hist.sinceLast < 65536

/-- `k` reloads that switch the row count between 100 and 50. -/
theorem alternating_reloads {s : Link} (hr : linkMachine.ReachableBy WithinTurnOfStep s)
    (hp : s.ctrl.cmd.state = .pending) (hcfg : s.ctrl.cfg = blockRowsConfig 100)
    (hsince : s.hist.sinceLast = 0) (k : Nat) (hk : k < 65536) :
    ∃ t, linkMachine.ReachableBy WithinTurnOfStep t ∧ t.ctrl.cmd.state = .pending ∧
      t.ctrl.cfg = blockRowsConfig (if k % 2 = 0 then 100 else 50) ∧
      t.ctrl.cmd.seq = s.ctrl.cmd.seq + UInt16.ofNat k ∧
      t.ctrl.activeStm = s.ctrl.activeStm ∧ t.stm = s.stm ∧ t.hist.last = s.hist.last ∧
      t.hist.sinceLast = k := by
  induction k with
  | zero => exact ⟨s, hr, hp, hcfg, by simp, rfl, rfl, rfl, hsince⟩
  | succ k ih =>
      obtain ⟨t, ht, -, htcfg, htseq, htact, htstm, htlast, htsince⟩ := ih (by omega)
      have hload : configLoadFile (some (blockRowsDoc (if (k + 1) % 2 = 0 then 100 else 50))) =
          some (blockRowsConfig (if (k + 1) % 2 = 0 then 100 else 50)) :=
        load_blockRowsDoc (by split <;> decide) (by split <;> decide)
      have hne : (blockRowsConfig (if (k + 1) % 2 = 0 then 100 else 50)).stm ≠
          t.ctrl.cfg.stm := by
        rw [htcfg]
        by_cases hpar : k % 2 = 0
        · rw [if_pos hpar, if_neg (by omega)]
          decide
        · rw [if_neg hpar, if_pos (by omega)]
          decide
      obtain ⟨u, hu, hup, huseq, -, -, hucfg, huact, hustm, huhist⟩ :=
        linkStep_requeue t hload hne faultlessReload
      refine ⟨u, reachable_link ht hu ⟨by simp, by omega⟩, hup, hucfg, ?_, ?_,
        ?_, ?_, ?_⟩
      · rw [huseq, htseq, UInt16.ofNat_add, UInt16.add_assoc]
        rfl
      · rw [huact, htact]
      · rw [hustm, htstm]
      · rw [huhist]
        exact htlast
      · rw [huhist, ← htsince]
        rfl

/-- Counted from the step that processes a command, one turn is one command too
many: the second command is queued while the first still waits, and 65535 more
after it was accepted carry the last one round to its number. -/
theorem stale_number_completes :
    ¬ ∀ (s s' : Link) (e : LinkEvent), linkMachine.ReachableBy WithinTurnOfStep s →
      WithinTurnOfStep s e → linkStep s e = some s' →
      s'.ctrl.activeStm ≠ s.ctrl.activeStm →
      ∃ r, s'.hist.last = some r ∧ r.ack = .ok ∧ r.payload = s'.ctrl.activeStm := by
  intro hall
  have hstart : linkMachine.ReachableBy WithinTurnOfStep startedLink := .initial startedLink_start
  -- the first command gets through and waits for the block boundary
  obtain ⟨t, ht, hcmd, htact, htcfg, htstm, hthist⟩ :=
    linkStep_deliver (linkInv_reachable hstart) startedLink_pending
  have htsince : t.hist.sinceLast = 1 := by rw [hthist]; rfl
  have hr := reachable_link hstart ht ⟨by simp, by decide⟩
  -- the second one is queued before it
  obtain ⟨u, hu, hup, huseq, -, -, hucfg, huact, hustm, huhist⟩ := linkStep_requeue t
    (load_blockRowsDoc (n := 100) (by decide) (by decide)) (by rw [htcfg]; decide) faultlessReload
  have husince : u.hist.sinceLast = 2 := by
    rw [huhist]
    exact congrArg (· + 1) htsince
  have hr := reachable_link hr hu ⟨by simp, by omega⟩
  -- the first one is accepted, and then as many are queued as the proviso allows
  obtain ⟨v, hv, hvctrl, hvstm, hvhist⟩ := linkStep_accept (hustm.trans htstm) zeroBlockData
  have hr := reachable_link hr hv ⟨by simp, by omega⟩
  obtain ⟨w, hwr, hwp, hwcfg, hwseq, hwact, hwstm, hwlast, hwsince⟩ := alternating_reloads hr
    (by rw [hvctrl]; exact hup) (by rw [hvctrl]; exact hucfg) (by rw [hvhist]) 65535 (by decide)
  have hwframe : w.stm.out = ackFrame w.ctrl.cmd.seq 200 zeroBlockData := by
    have hseq : w.ctrl.cmd.seq = 1 := by
      rw [hwseq, hvctrl, huseq, hcmd, (cmdCountAttempt_same _).seq]
      decide
    rw [hwstm, hvstm, hseq]
    rfl
  obtain ⟨x, hx, -, hxact, -, -, -, -, hxhist⟩ := linkStep_ack 200 zeroBlockData hwp
    (by decide) (by decide) hwframe
  -- its number acknowledges the last one
  have hasked : w.ctrl.cmd.payload = (blockRowsConfig 50).stm := by
    rw [(controllerInv_reachable (linkInv_reachable hwr).ctrl).asked hwp, hwcfg]
    rfl
  have hzero : w.ctrl.activeStm = zeroPayload := by
    rw [hwact, hvctrl, huact, htact]
    rfl
  obtain ⟨r, hr, -, hpay⟩ := hall w x _ hwr ⟨by simp, by omega⟩ hx (by
    rw [hxact, hasked, hzero]
    decide)
  rw [hxhist] at hr
  have hlast : some r = some ⟨_, startedLink.ctrl.cmd.payload, .ok⟩ :=
    hr.symm.trans (hwlast.trans (by rw [hvhist]))
  obtain rfl := Option.some.inj hlast
  have hpay : startedLink.ctrl.cmd.payload = (blockRowsConfig 50).stm :=
    hpay.trans (hxact.trans hasked)
  have hrows := congrArg ConfigPayload.blockRows hpay
  revert hrows
  decide

end QnxHypervisor.CommandLink
