import QnxHypervisor.GpioServer.Isolation

/-! # The schedule of a software pulse

A slot records each edge at the time it was due, not at the time the interrupt came to
it: over any run the edges made are the first ones of a fixed schedule, none is early,
and lateness does not add up.
-/

namespace QnxHypervisor.GpioServer

open Foundation

variable {C : Type} {config : GpioConfig C} {times : PwmTimes} {abi : MsgAbi}

/-- The times of a pulse, in ticks. -/
structure Wave where
  on : BitVec 32
  off : BitVec 32

/-- How long the `n`-th level is held; the pulse starts high. -/
def Wave.pulse (w : Wave) (n : Nat) : BitVec 32 := if n % 2 = 0 then w.on else w.off

/-- When the `n`-th edge is due after the start. -/
def Wave.edge (w : Wave) : Nat → Nat
  | 0 => 0
  | n + 1 => w.edge n + (w.pulse n).toNat

def Request.elapsed : Request → Nat
  | .clock ticks => ticks.toNat
  | .timer true spent => spent.toNat
  | _ => 0

def elapsedTime (rs : List Request) : Nat := (rs.map Request.elapsed).sum

/-- The request may act on pin `k`, and is not the timer's. -/
def Request.Asks (r : Request) (k : Gpio) (s : Manager C) : Prop :=
  match r with
  | .timer _ _ => False
  | r => r.About k s

/-! ## What other requests leave of a slot -/

/-- A slot, the pin that holds it and the clock are as before; while the slot runs the
timer stays ready. -/
structure SlotFrame (k : Gpio) (i : SoftSlot) (s s' : Manager C) : Prop where
  map : s'.map k = s.map k
  entry : s'.entries (.soft i) = s.entries (.soft i)
  time : s'.time = s.time
  ready : (s.entries (.soft i)).duty ≠ 0 → s.timerReady = true → s'.timerReady = true

theorem SlotFrame.refl (k : Gpio) (i : SoftSlot) (s : Manager C) : SlotFrame k i s s :=
  ⟨rfl, rfl, rfl, fun _ => id⟩

theorem SlotFrame.trans {k : Gpio} {i : SoftSlot} {s s' s'' : Manager C}
    (h : SlotFrame k i s s') (h' : SlotFrame k i s' s'') : SlotFrame k i s s'' :=
  ⟨h'.map.trans h.map, h'.entry.trans h.entry, h'.time.trans h.time, fun hduty hready =>
    h'.ready (by rw [h.entry]; exact hduty) (h.ready hduty hready)⟩

theorem slotFrame_put {k : Gpio} {i : SoftSlot} {r : PwmRef} (hr : r ≠ .soft i) (s : Manager C)
    (f : PwmEntry → PwmEntry) : SlotFrame k i s (s.put r f) :=
  ⟨rfl, Function.update_of_ne (Ne.symm hr) _ _, rfl, fun _ => id⟩

theorem findPwm_frame {s s' : Manager C} (h : PwmInv False s) {g k : Gpio} (hne : g ≠ k) {i : SoftSlot}
    (hk : s.map k = some (.soft i)) {ci : ClientInfo} {r : PwmRef}
    (hfind : s.findPwm ci g = .ok (r, s')) : r ≠ .soft i ∧ SlotFrame k i s s' := by
  unfold Manager.findPwm at hfind
  split at hfind
  · split at hfind
    · cases hfind
    · next j hj =>
      cases hfind
      have hji : PwmRef.soft j ≠ .soft i := by
        intro heq
        cases heq
        exact (h.soft k _ hk).2 (firstFree_some hj)
      exact ⟨hji, slotFrame_put hji s _⟩
  · next r' hr' =>
    split at hfind
    · cases hfind
    · cases hfind
      refine ⟨?_, SlotFrame.refl k i s⟩
      rintro rfl
      exact hne (h.distinct hr' hk)

theorem pwmSetup_frame {s : Manager C} (h : PwmInv False s) {g k : Gpio} (hne : g ≠ k) {i : SoftSlot}
    (hk : s.map k = some (.soft i)) (ci : ClientInfo) (msg : PwmMsg) :
    SlotFrame k i s (pwmSetup config ci g msg s).2 := by
  unfold pwmSetup
  cases hfind : s.findPwm ci g with
  | error e => exact SlotFrame.refl k i s
  | ok p =>
      obtain ⟨r, s'⟩ := p
      obtain ⟨hr, hframe⟩ := findPwm_frame h hne hk hfind
      have hinstall : ∀ chip : C, SlotFrame k i s' ({ s' with chip }.install r ci g msg) :=
        fun chip => ⟨Function.update_of_ne (Ne.symm hne) _ _,
          Function.update_of_ne (Ne.symm hr) _ _, rfl, fun _ => id⟩
      dsimp only
      cases r with
      | hard j =>
          dsimp only
          split
          · exact hframe
          · exact hframe.trans (hinstall _)
      | soft j =>
          dsimp only
          split
          · exact hframe
          · exact hframe.trans (hinstall _)

theorem timerIntrInit_frame (time : BitVec 32) (k : Gpio) (i : SoftSlot) (s : Manager C) :
    SlotFrame k i s (timerIntrInit time s).2 := by
  unfold timerIntrInit
  dsimp only
  split
  · exact SlotFrame.refl k i s
  · split <;> exact ⟨rfl, rfl, rfl, fun _ _ => rfl⟩

theorem timerIntrCheckDone_frame (k : Gpio) (i : SoftSlot) (s : Manager C) :
    SlotFrame k i s (timerIntrCheckDone s) := by
  unfold timerIntrCheckDone
  split
  · exact SlotFrame.refl k i s
  · split
    · exact SlotFrame.refl k i s
    · next hnone =>
      refine ⟨rfl, rfl, rfl, fun hduty _ => absurd ?_ hnone⟩
      exact List.any_eq_true.mpr ⟨i, List.mem_finRange i, bne_iff_ne.mpr hduty⟩

theorem setDuty_frame (config : GpioConfig C) (times : PwmTimes) (s : Manager C) {r : PwmRef}
    {k : Gpio} {i : SoftSlot} (hr : r ≠ .soft i) (g : Gpio) (duty : BitVec 32) :
    SlotFrame k i s (setDuty config times r g duty s).2 := by
  cases r with
  | hard j => exact ⟨rfl, rfl, rfl, fun _ => id⟩
  | soft j =>
      unfold setDuty
      dsimp only
      split
      · refine SlotFrame.trans ?_ (timerIntrCheckDone_frame k i _)
        exact ⟨rfl, Function.update_of_ne (Ne.symm hr) _ _, rfl, fun _ => id⟩
      · refine SlotFrame.trans ?_ (timerIntrInit_frame _ k i _)
        exact ⟨rfl, Function.update_of_ne (Ne.symm hr) _ _, rfl, fun _ => id⟩

theorem eventOps_frame (ops : List EventOp) (k : Gpio) (i : SoftSlot) (s : Manager C) :
    SlotFrame k i s (ops.foldl (EventOp.run config) s) := by
  induction ops generalizing s with
  | nil => exact SlotFrame.refl k i s
  | cons op ops ih =>
      have hrest := ih (EventOp.run config s op)
      exact ⟨hrest.map, hrest.entry, hrest.time, hrest.ready⟩

theorem serveBody_frame {s s' : Manager C} (h : PwmInv False s) {client : Client} {g k : Gpio}
    (hne : g ≠ k) {i : SoftSlot} (hk : s.map k = some (.soft i)) {body : MsgBody} {reply : Reply}
    (hs : serveBody config times client.info g s body = some (reply, s')) :
    SlotFrame k i s s' := by
  cases body with
  | setSelect value =>
      simp only [serveBody] at hs
      split at hs <;> cases hs <;> exact ⟨rfl, rfl, rfl, fun _ => id⟩
  | getSelect =>
      cases hs
      exact SlotFrame.refl k i s
  | write value =>
      simp only [serveBody] at hs
      split at hs <;> cases hs <;> exact ⟨rfl, rfl, rfl, fun _ => id⟩
  | read =>
      simp only [serveBody] at hs
      split at hs <;> cases hs <;> exact SlotFrame.refl k i s
  | addEvent msg =>
      simp only [serveBody] at hs
      split at hs
      · cases hs
        exact SlotFrame.refl k i s
      · cases hs
        exact eventOps_frame _ k i s
  | pwmSetup msg =>
      cases hs
      exact pwmSetup_frame h hne hk client.info msg
  | pwmDuty value =>
      obtain ⟨p, hp, hpair⟩ := Option.map_eq_some_iff.mp hs
      cases hpair
      unfold pwmSetDutyCycle at hp
      split at hp
      · have hsetup : SlotFrame k i s (pwmSetup config client.info g ⟨1000, 1024, 0⟩ s).2 :=
          pwmSetup_frame h hne hk client.info ⟨1000, 1024, 0⟩
        split at hp
        · next hpair =>
          cases hp
          rw [hpair] at hsetup
          exact hsetup
        · cases hp
      · next r hr =>
        cases hp
        refine setDuty_frame config times s ?_ g value
        rintro rfl
        exact hne (h.distinct hr hk)
  | pud value =>
      simp only [serveBody] at hs
      split at hs <;> cases hs <;> exact ⟨rfl, rfl, rfl, fun _ => id⟩
  | other =>
      cases hs
      exact SlotFrame.refl k i s

theorem writeGpio_frame (node : Option Gpio) (k : Gpio) (i : SoftSlot) (bytes : Bytes)
    (s : Manager C) : SlotFrame k i s (writeGpio config node bytes s).2 := by
  cases node with
  | none => exact SlotFrame.refl k i s
  | some g =>
      unfold writeGpio writePin
      dsimp only
      split
      · exact SlotFrame.refl k i s
      · split_ifs <;> exact ⟨rfl, rfl, rfl, fun _ => id⟩

theorem pwmRemovePin_frame {s : Manager C} {ci : ClientInfo} {k : Gpio} {i : SoftSlot}
    (hk : s.map k = some (.soft i))
    (hno : ¬ clientInfoMatch (s.entries (.soft i)).ci ci) (g : Gpio) :
    SlotFrame k i s (pwmRemovePin config times ci s g) := by
  rw [pwmRemovePin_eq]
  split
  · exact SlotFrame.refl k i s
  · next r hr =>
    split
    · next hmatch =>
      have hri : r ≠ .soft i := by
        rintro rfl
        exact hno hmatch
      have hgk : g ≠ k := by
        rintro rfl
        rw [hk] at hr
        exact hri (Option.some.inj hr).symm
      refine (setDuty_frame config times s hri g 0).trans ?_
      cases r with
      | hard j =>
          exact slotFrame_put hri (setDuty config times (.hard j) g 0 s).2
            fun e => { e with ci := unusedClient }
      | soft j =>
          exact ⟨Function.update_of_ne (Ne.symm hgk) _ _,
            Function.update_of_ne (Ne.symm hri) _ _, rfl, fun _ => id⟩
    · exact SlotFrame.refl k i s

theorem pwmRemoveClient_frame {s : Manager C} (h : PwmInv False s) (client : Client) {k : Gpio}
    {i : SoftSlot} (hk : s.map k = some (.soft i))
    (hno : ¬ clientInfoMatch (s.entries (.soft i)).ci client.info) :
    SlotFrame k i s (pwmRemoveClient config times client.info s) := by
  unfold pwmRemoveClient
  induction List.finRange rpiGpioNum generalizing s with
  | nil => exact SlotFrame.refl k i s
  | cons g gs ih =>
      have hturn : SlotFrame k i s (pwmRemovePin config times client.info s g) :=
        pwmRemovePin_frame hk hno g
      rw [List.foldl_cons]
      refine hturn.trans (ih (pwmRemovePin_inv config times h client.info g) ?_ ?_)
      · rw [hturn.map, hk]
      · rw [hturn.entry]
        exact hno

/-! ## The timer's turns -/

/-- The `n`-th level has been held for longer than its pulse, by a clock of 32 bits. -/
def Wave.Late (w : Wave) (n t : Nat) : Prop := (w.pulse n).toNat < (t - w.edge n) % 2 ^ 32

instance (w : Wave) (n t : Nat) : Decidable (w.Late n t) := inferInstanceAs (Decidable (_ < _))

/-- Slot `i` has made `n` edges of a wave on pin `g`, `t` ticks after the start, the last
of them not before it was due. -/
structure Pulsing (w : Wave) (start : BitVec 32) (g : Gpio) (i : SoftSlot) (func : BitVec 32)
    (n t : Nat) (s : Manager Board) : Prop where
  map : s.map g = some (.soft i)
  on : (s.entries (.soft i)).timeOn = w.on
  off : (s.entries (.soft i)).timeOff = w.off
  duty : (s.entries (.soft i)).duty ≠ 0
  state : (s.entries (.soft i)).state = decide (n % 2 = 0)
  change : (s.entries (.soft i)).lastChange = start + BitVec.ofNat 32 (w.edge n)
  clock : s.time = start + BitVec.ofNat 32 t
  due : w.edge n ≤ t
  out : (s.chip.pins g).out = decide (n % 2 = 0)
  func : (s.chip.pins g).func = func
  /-- pin 0 is taken for an unused slot -/
  zero : g.val = 0 → n = 0
  ready : s.timerReady = true

variable {w : Wave} {start func : BitVec 32} {g : Gpio} {i : SoftSlot} {n t : Nat}

theorem Pulsing.frame {s s' : Manager Board} (hp : Pulsing w start g i func n t s)
    (h : SlotFrame g i s s') (hpin : (s.chip.pins g).Same (s'.chip.pins g)) :
    Pulsing w start g i func n t s' where
  map := h.map.trans hp.map
  on := (congrArg PwmEntry.timeOn h.entry).trans hp.on
  off := (congrArg PwmEntry.timeOff h.entry).trans hp.off
  duty := (congrArg PwmEntry.duty h.entry).trans_ne hp.duty
  state := (congrArg PwmEntry.state h.entry).trans hp.state
  change := (congrArg PwmEntry.lastChange h.entry).trans hp.change
  clock := h.time.trans hp.clock
  due := hp.due
  out := hpin.out.trans hp.out
  func := hpin.func.trans hp.func
  zero := hp.zero
  ready := h.ready hp.duty hp.ready

theorem clock_since (start : BitVec 32) {a b : Nat} (h : a ≤ b) :
    ((start + BitVec.ofNat 32 b) - (start + BitVec.ofNat 32 a)).toNat = (b - a) % 2 ^ 32 := by
  simp only [BitVec.toNat_sub, BitVec.toNat_add, BitVec.toNat_ofNat]
  omega

theorem clock_after (start v : BitVec 32) (a : Nat) :
    start + BitVec.ofNat 32 a + v = start + BitVec.ofNat 32 (a + v.toNat) := by
  apply BitVec.eq_of_toNat_eq
  simp only [BitVec.toNat_add, BitVec.toNat_ofNat]
  omega

theorem Pulsing.later {s : Manager Board} (hp : Pulsing w start g i func n t s)
    (ticks : BitVec 32) :
    Pulsing w start g i func n (t + ticks.toNat) { s with time := s.time + ticks } :=
  { hp with
    clock := by
      change s.time + ticks = _
      rw [hp.clock, clock_after]
    due := Nat.le_trans hp.due (Nat.le_add_right _ _) }

theorem timerSlot_other {s : Manager Board} (h : PwmInv False s) (now nextMin : BitVec 32)
    {j : SoftSlot} (hji : j ≠ i) (hg : s.map g = some (.soft i)) :
    SlotFrame g i s (timerSlot board now (s, nextMin) j).1 ∧
      (timerSlot board now (s, nextMin) j).1.chip.pins g = s.chip.pins g := by
  have hne : PwmRef.soft j ≠ .soft i := fun heq => hji (PwmRef.soft.inj heq)
  unfold timerSlot
  dsimp only
  split
  · exact ⟨SlotFrame.refl g i s, rfl⟩
  · split
    · exact ⟨SlotFrame.refl g i s, rfl⟩
    · next hduty =>
      have hpin : (s.entries (.soft j)).gpio ≠ g := by
        intro heq
        have hheld := h.held j fun hunused => hduty (h.idle j hunused)
        rw [heq, hg] at hheld
        exact hne (Option.some.inj hheld).symm
      cases ((s.entries (.soft j)).tick now).1 with
      | none => exact ⟨SlotFrame.refl g i s, rfl⟩
      | some change =>
          obtain ⟨on, e'⟩ := change
          refine ⟨⟨rfl, Function.update_of_ne (Ne.symm hne) _ _, rfl, fun _ => id⟩, ?_⟩
          dsimp only
          split
          · exact (leavesPin hpin).set s.chip
          · exact (leavesPin hpin).clear s.chip

theorem Pulsing.turn {s : Manager Board} (h : PwmInv False s) (hp : Pulsing w start g i func n t s)
    (nextMin : BitVec 32) :
    Pulsing w start g i func (if g.val ≠ 0 ∧ w.Late n t then n + 1 else n) t
      (timerSlot board s.time (s, nextMin) i).1 := by
  have hgpio := (h.soft g i hp.map).1
  unfold timerSlot
  dsimp only
  rw [hgpio, if_neg hp.duty]
  by_cases hzero : g.val = 0
  · rw [if_pos hzero, if_neg fun hc => hc.1 hzero]
    exact hp
  · rw [if_neg hzero]
    have hpulse : (if (s.entries (.soft i)).state then (s.entries (.soft i)).timeOn
        else (s.entries (.soft i)).timeOff) = w.pulse n := by
      rw [hp.state, hp.on, hp.off]
      simp only [decide_eq_true_eq]
      rfl
    have hlate : (w.pulse n < s.time - (s.entries (.soft i)).lastChange) ↔ w.Late n t := by
      rw [BitVec.lt_def, hp.clock, hp.change, clock_since start hp.due]
      rfl
    unfold PwmEntry.tick
    rw [hpulse]
    by_cases hl : w.Late n t
    · rw [if_pos (hlate.mpr hl), if_pos ⟨hzero, hl⟩]
      have hflip : (!(s.entries (.soft i)).state) = decide ((n + 1) % 2 = 0) := by
        rw [hp.state, ← decide_not]
        exact decide_eq_decide.mpr (by omega)
      have hedge : w.edge (n + 1) ≤ t := by
        have hmod := Nat.mod_le (t - w.edge n) (2 ^ 32)
        have hdue := hp.due
        unfold Wave.Late at hl
        change w.edge n + (w.pulse n).toNat ≤ t
        omega
      dsimp only
      rw [hflip]
      refine ⟨hp.map, ?_, ?_, ?_, ?_, ?_, hp.clock, hedge, ?_, ?_, fun hz => absurd hz hzero,
        hp.ready⟩
      · simp only [Manager.put, Function.update_self, hp.on]
      · simp only [Manager.put, Function.update_self, hp.off]
      · simp only [Manager.put, Function.update_self]
        exact hp.duty
      · simp only [Manager.put, Function.update_self]
      · simp only [Manager.put, Function.update_self]
        rw [hp.change, clock_after]
        rfl
      · by_cases hout : (n + 1) % 2 = 0
        · simp only [hout, decide_true, if_true]
          simp only [board, Board.pin, Function.update_self]
        · simp only [hout, decide_false]
          simp only [board, Board.pin, Function.update_self, Bool.false_eq_true, if_false]
      · dsimp only
        split
        · simp only [board, Board.pin, Function.update_self]
          exact hp.func
        · simp only [board, Board.pin, Function.update_self]
          exact hp.func
    · rw [if_neg fun hc => hl (hlate.mp hc), if_neg fun hc => hl hc.2]
      exact hp

theorem Pulsing.turns {slots : List SoftSlot} (hnodup : slots.Nodup) {s : Manager Board}
    (h : PwmInv False s) (hp : Pulsing w start g i func n t s) (nextMin : BitVec 32) :
    Pulsing w start g i func (if i ∈ slots ∧ g.val ≠ 0 ∧ w.Late n t then n + 1 else n) t
      (slots.foldl (timerSlot board s.time) (s, nextMin)).1 := by
  induction slots generalizing s n nextMin with
  | nil =>
      rw [if_neg fun hc => List.not_mem_nil hc.1]
      exact hp
  | cons j slots ih =>
      obtain ⟨hj, hslots⟩ := List.nodup_cons.mp hnodup
      have hinv : PwmInv False (timerSlot board s.time (s, nextMin) j).1 :=
        timerSlot_inv h s.time nextMin j
      rw [List.foldl_cons]
      by_cases hji : j = i
      · subst hji
        have hturn := hp.turn h nextMin
        have hrest := ih hslots hinv hturn (timerSlot board s.time (s, nextMin) j).2
        rw [hturn.clock, ← hp.clock, if_neg fun hc => hj hc.1] at hrest
        simp only [List.mem_cons, true_or, true_and]
        exact hrest
      · obtain ⟨hframe, hpin⟩ := timerSlot_other h s.time nextMin hji hp.map
        have hturn := hp.frame hframe (Pin.same_of_eq hpin)
        have hrest := ih hslots hinv hturn (timerSlot board s.time (s, nextMin) j).2
        rw [hframe.time] at hrest
        have hmem : i ∈ j :: slots ↔ i ∈ slots := by
          rw [List.mem_cons]
          exact or_iff_right (Ne.symm hji)
        simp only [hmem]
        exact hrest

theorem Pulsing.interrupt {s : Manager Board} (h : PwmInv False s)
    (hp : Pulsing w start g i func n t s) (hmatch : s.timerMatch = true) (spent : BitVec 32) :
    Pulsing w start g i func (if g.val ≠ 0 ∧ w.Late n t then n + 1 else n) (t + spent.toNat)
      (timerIsr board spent s) := by
  have hturns := hp.turns (List.nodup_finRange numSoftPwm) h (-1)
  simp only [List.mem_finRange, true_and] at hturns
  unfold timerIsr
  simp only [hmatch, hp.ready, Bool.true_eq_false, if_false]
  generalize (List.finRange numSoftPwm).foldl (timerSlot board s.time) (s, -1) = p at hturns ⊢
  have hlater := hturns.later spent
  exact hlater.frame ⟨rfl, rfl, rfl, fun _ => id⟩ rfl

/-! ## Runs -/

/-- A request that does not ask about the pin adds its time, and an edge if it is a tick. -/
theorem Pulsing.serve {s s' : Manager Board} (h : PwmInv False s)
    (hp : Pulsing w start g i func n t s) {r : Request} (hno : ¬ r.Asks g s)
    {reply : Option Reply} (hs : serve boardPins times abi s r = some (reply, s')) :
    ∃ n', n ≤ n' ∧ Pulsing w start g i func n' (t + r.elapsed) s' := by
  cases r with
  | timer matched spent =>
      cases hs
      cases matched
      · exact ⟨n, Nat.le_refl n, hp.frame ⟨rfl, rfl, rfl, fun _ => id⟩ rfl⟩
      · have hinv : PwmInv False { s with timerMatch := true } := h.congr rfl rfl fun _ => ⟨rfl, rfl, rfl⟩
        have hframe : Pulsing w start g i func n t { s with timerMatch := true } :=
          hp.frame ⟨rfl, rfl, rfl, fun _ => id⟩ rfl
        refine ⟨_, ?_, hframe.interrupt hinv rfl spent⟩
        split <;> omega
  | clock ticks =>
      cases hs
      exact ⟨n, Nat.le_refl n, hp.later ticks⟩
  | msg m =>
      have hpin := serve_pin (r := .msg m) h hno hs
      refine ⟨n, Nat.le_refl n, hp.frame ?_ hpin⟩
      obtain ⟨q, hq, hpair⟩ := Option.map_eq_some_iff.mp hs
      cases hpair
      unfold msgGpio at hq
      split at hq
      · cases hq
        exact SlotFrame.refl g i s
      · next k hk =>
        have hne : k ≠ g := fun heq => hno ((accepted_pin hk).symm.trans (congrArg Fin.val heq))
        exact serveBody_frame h hne hp.map hq
  | writeNode node bytes =>
      have hpin := serve_pin (r := .writeNode node bytes) h hno hs
      cases hs
      exact ⟨n, Nat.le_refl n, hp.frame (writeGpio_frame node g i bytes s) hpin⟩
  | readNode node =>
      cases hs
      exact ⟨n, Nat.le_refl n, hp⟩
  | close client =>
      have hpin := serve_pin (r := .close client) h hno hs
      cases hs
      refine ⟨n, Nat.le_refl n, hp.frame ?_ hpin⟩
      have hops : SlotFrame g i s
          ((eventRemoveClient s.table client.info).foldl (EventOp.run board) s) :=
        eventOps_frame _ g i s
      refine hops.trans (pwmRemoveClient_frame (eventOps_inv h _) client ?_ ?_)
      · rw [hops.map, hp.map]
      · rw [hops.entry]
        exact fun hm => hno (.inr ⟨.soft i, hp.map, hm⟩)
  | level k high =>
      have hpin := serve_pin (r := .level k high) (k := g) h hno hs
      cases hs
      exact ⟨n, Nat.le_refl n, hp.frame ⟨rfl, rfl, rfl, fun _ => id⟩ hpin⟩
  | attached =>
      cases hs
      exact ⟨n, Nat.le_refl n, hp.frame ⟨rfl, rfl, rfl, fun _ => id⟩ rfl⟩
  | spawns e =>
      cases hs
      exact ⟨n, Nat.le_refl n, hp.frame ⟨rfl, rfl, rfl, fun _ => id⟩ rfl⟩

theorem Pulsing.serveAll {s s' : Manager Board} (h : PwmInv False s)
    (hp : Pulsing w start g i func n t s) {rs : List Request}
    (hrs : Without (fun r s => r.Asks g s) boardPins times abi s rs)
    {replies : List (Option Reply)}
    (hs : serveAll boardPins times abi s rs = some (replies, s')) :
    ∃ n', n ≤ n' ∧ Pulsing w start g i func n' (t + elapsedTime rs) s' := by
  induction rs generalizing s n t replies with
  | nil =>
      cases hs
      exact ⟨n, Nat.le_refl n, hp⟩
  | cons r rs ih =>
      obtain ⟨p, hserve, hrest⟩ := Option.bind_eq_some_iff.mp hs
      obtain ⟨q, hq, hpair⟩ := Option.map_eq_some_iff.mp hrest
      cases hpair
      obtain ⟨m, hm, hstep⟩ := hp.serve h hrs.1 hserve
      obtain ⟨n', hn', hrun⟩ := ih (serve_inv h (fun _ _ => id) hserve) hstep (hrs.2 p hserve) hq
      refine ⟨n', Nat.le_trans hm hn', ?_⟩
      rw [Nat.add_assoc] at hrun
      exact hrun

theorem pulsing_started {s : Manager Board} (hplace : s.map g = some (.soft i)) {duty : BitVec 32}
    (hduty : duty ≠ 0) (hrange : duty < (s.entries (.soft i)).range) {client : ClientInfo}
    {s' : Manager Board}
    (hs : pwmSetDutyCycle board times client g duty s = some (none, s')) :
    let entry := s.entries (.soft i)
    let p := times entry.mode entry.frequency entry.range duty
    Pulsing ⟨p.1, p.2⟩ s.time g i (s.chip.pins g).func 0 0 s' := by
  dsimp only
  unfold pwmSetDutyCycle at hs
  rw [hplace] at hs
  have hbranch : ¬ (duty = 0 ∨ (s.entries (.soft i)).range ≤ duty) := by
    rintro (hz | hr)
    · exact hduty hz
    · exact BitVec.not_le.mpr hrange hr
  unfold setDuty at hs
  dsimp only at hs
  rw [if_neg hbranch] at hs
  generalize hput : Manager.put _ _ _ = t at hs
  have hpair := Option.some.inj hs
  generalize hon : (times (s.entries (.soft i)).mode _ _ duty).1 = on at hpair
  obtain ⟨-, -, -, hready, -⟩ := timerIntrInit_spec on t
  have hframe := timerIntrInit_frame on g i t
  have hchip := timerIntrInit_chip on t
  rw [hpair] at hready hframe hchip
  refine Pulsing.frame (s := { t with timerReady := true }) ?_
    ⟨hframe.map, hframe.entry, hframe.time, fun _ _ => hready rfl⟩
    (Pin.same_of_eq (congrArg (fun b => b.pins g) hchip))
  subst hput
  refine ⟨hplace, ?_, ?_, ?_, ?_, ?_, ?_, Nat.le_refl 0, ?_, ?_, fun _ => rfl, rfl⟩
  · simp only [Manager.put, Function.update_self]
    exact hon
  · simp only [Manager.put, Function.update_self]
  · simp only [Manager.put, Function.update_self]
    exact hduty
  · simp only [Manager.put, Function.update_self]
    rfl
  · simp only [Manager.put, Function.update_self, Wave.edge, BitVec.add_zero]
  · simp only [Manager.put, BitVec.add_zero]
  · simp only [Manager.put, board, Board.pin, Function.update_self]
    rfl
  · simp only [Manager.put, board, Board.pin, Function.update_self]

/-- After a duty that the server took, over every run in which nobody asks about the pin,
the register chip has made the first `n` edges of the wave asked for, none of them early;
and a timer interrupt then makes the next one if it is due. -/
theorem pulses_on_schedule {c : Chip} {table : EventTable} {first rest : List Request}
    {replies replies' : List (Option Reply)} {s s₁ s₂ : Manager Chip} {m : IoMsg}
    {duty : BitVec 32}
    (hfirst : serveAll chipPins times abi (pwmStarted c table) first = some (replies, s))
    (hacc : m.accepted abi = .ok g) (hbody : m.body = .pwmDuty duty)
    (hplace : s.map g = some (.soft i)) (hduty : duty ≠ 0)
    (hrange : duty < (s.entries (.soft i)).range)
    (hset : serve chipPins times abi s (.msg m) = some (some .done, s₁))
    (hrest : Without (fun r s => r.Asks g s) chipPins times abi s₁ rest)
    (hrun : serveAll chipPins times abi s₁ rest = some (replies', s₂)) :
    let entry := s.entries (.soft i)
    let p := times entry.mode entry.frequency entry.range duty
    let w : Wave := ⟨p.1, p.2⟩
    let func := (s.chip.pin g).func
    ∃ n, Pulsing w s.time g i func n (elapsedTime rest) (s₂.mapChip Chip.board) ∧
      ∀ spent, ∃ s₃, serve chipPins times abi s₂ (.timer true spent) = some (none, s₃) ∧
        Pulsing w s.time g i func (if g.val ≠ 0 ∧ w.Late n (elapsedTime rest) then n + 1 else n)
          (elapsedTime rest + spent.toNat) (s₃.mapChip Chip.board) := by
  intro entry p w func
  have hinv : PwmInv False s := serveAll_inv (pwmInv_started c table) (fun _ _ => id) hfirst
  have hinv₁ := serve_inv hinv (fun _ _ => id) hset
  have hinv₂ := serveAll_inv hinv₁ (fun _ _ => id) hrun
  have hset' := serve_map chipPins_refine rfl times abi s (.msg m)
  rw [hset] at hset'
  have hrun' := serveAll_map chipPins_refine rfl times abi s₁ rest
  rw [hrun] at hrun'
  have hstart : Pulsing w s.time g i func 0 0 (s₁.mapChip Chip.board) := by
    obtain ⟨q, hq, hpair⟩ := Option.map_eq_some_iff.mp hset'
    unfold msgGpio at hq
    rw [hacc, hbody] at hq
    obtain ⟨q', hq', rfl⟩ := Option.map_eq_some_iff.mp hq
    obtain ⟨hreply, hstate⟩ := Prod.mk.inj hpair
    obtain ⟨e, s'⟩ := q'
    have hdone : e = none := by
      cases e with
      | none => rfl
      | some e => cases hreply
    rw [hdone] at hq'
    have hstarted := pulsing_started (s := s.mapChip Chip.board) hplace hduty hrange hq'
    rw [← hstate]
    exact hstarted
  obtain ⟨n, -, hp⟩ := hstart.serveAll hinv₁.mapChip (without_board (fun _ _ hasks => hasks) hrest)
    hrun'
  rw [Nat.zero_add] at hp
  refine ⟨n, hp, fun spent => ⟨_, rfl, ?_⟩⟩
  have hmatched : Pulsing w s.time g i func n (elapsedTime rest)
      { s₂.mapChip Chip.board with timerMatch := true } :=
    hp.frame ⟨rfl, rfl, rfl, fun _ => id⟩ rfl
  have hboard : PwmInv False (s₂.mapChip Chip.board) := hinv₂.mapChip
  have hinvb : PwmInv False { s₂.mapChip Chip.board with timerMatch := true } :=
    hboard.congr rfl rfl fun _ => ⟨rfl, rfl, rfl⟩
  have htick := hmatched.interrupt hinvb rfl spent
  have hsame := serve_map chipPins_refine rfl times abi s₂ (.timer true spent)
  have hchip : (timerIsr chipPins.config spent { s₂ with timerMatch := true }).mapChip Chip.board =
      timerIsr board spent { s₂.mapChip Chip.board with timerMatch := true } :=
    (Prod.mk.inj (Option.some.inj hsame)).2.symm
  rw [hchip]
  exact htick

def slotZero : SoftSlot := ⟨0, by decide⟩

/-- Pin 5 is pulsed by a slot, and its own level follows; 300 ticks later an edge is due. -/
theorem pulses_on_schedule_first :
    ∃ (w : Wave) (n : Nat) (s₂ : Manager Chip), w = ⟨250, 750⟩ ∧
      Pulsing w 0 pinFive slotZero 1 n 300 (s₂.mapChip Chip.board) := by
  obtain ⟨p, hfirst⟩ : ∃ p, serveAll chipPins quarterTimes someAbi (pwmStarted zeroChip idleTable)
      [.msg (someMsg 5 (.pwmSetup ⟨1000, 1024, 0⟩))] = some p := ⟨_, rfl⟩
  have hfacts : (serveAll chipPins quarterTimes someAbi (pwmStarted zeroChip idleTable)
      [.msg (someMsg 5 (.pwmSetup ⟨1000, 1024, 0⟩))]).map (fun q => (q.2.map pinFive,
        (q.2.entries (.soft slotZero)).range, q.2.time, (q.2.chip.pin pinFive).func,
        q.2.spawnError)) =
      some (some (.soft slotZero), 1024, 0, 1, none) := by decide
  rw [hfirst] at hfacts
  simp only [Option.map_some, Option.some.injEq, Prod.mk.injEq] at hfacts
  obtain ⟨hplace, hrange, htime, hfunc, hspawn⟩ := hfacts
  have hdone : (pwmSetDutyCycle chipPins.config quarterTimes someClient.info pinFive 256
      p.2).map Prod.fst = some none := by
    unfold pwmSetDutyCycle setDuty timerIntrInit
    simp [hplace, hrange, hspawn, Manager.put]
  obtain ⟨d, hd, hnone⟩ := Option.map_eq_some_iff.mp hdone
  have hset : serve chipPins quarterTimes someAbi p.2 (.msg (someMsg 5 (.pwmDuty 256))) =
      some (some .done, d.2) := by
    change Option.map _ (Option.map _ (pwmSetDutyCycle chipPins.config quarterTimes
      someClient.info pinFive 256 p.2)) = _
    rw [hd, Option.map_some, hnone]
    rfl
  have hrest : Without (fun r s => r.Asks pinFive s) chipPins quarterTimes someAbi d.2
      [.clock 300, .level pinFive true] := ⟨id, fun _ _ => ⟨id, fun _ _ => trivial⟩⟩
  obtain ⟨n, hn, -⟩ := pulses_on_schedule (i := slotZero) hfirst (g := pinFive) rfl rfl hplace
    (by decide : (256 : BitVec 32) ≠ 0) (by rw [hrange]; decide) hset hrest rfl
  rw [htime, hfunc] at hn
  exact ⟨⟨250, 750⟩, n, _, rfl, hn⟩

end QnxHypervisor.GpioServer
