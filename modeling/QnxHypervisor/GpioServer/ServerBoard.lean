import QnxHypervisor.GpioServer.ChipBoard
import QnxHypervisor.GpioServer.Server

/-! # The server on the registers and on the board

Whatever clients send, the server on the register chip gives the replies that it gives
on the board, and leaves a chip that is seen as that board.
-/

namespace QnxHypervisor.GpioServer

open Foundation

variable {C B : Type} {P : Pins C} {Q : Pins B} {abs : C → B}

def Manager.mapChip (f : C → B) (s : Manager C) : Manager B where
  chip := f s.chip
  table := s.table
  entries := s.entries
  map := s.map
  timerAttached := s.timerAttached
  spawnError := s.spawnError
  timerReady := s.timerReady
  time := s.time
  compare := s.compare
  timerMatch := s.timerMatch
  timerIntrs := s.timerIntrs

/-! ## Pulse width -/

theorem findPwm_map (s : Manager C) (ci : ClientInfo) (g : Gpio) :
    (s.mapChip abs).findPwm ci g =
      (s.findPwm ci g).map fun p => (p.1, p.2.mapChip abs) := by
  have hmap : (s.mapChip abs).map = s.map := rfl
  have hfree : (s.mapChip abs).firstFree = s.firstFree := rfl
  have hentries : (s.mapChip abs).entries = s.entries := rfl
  unfold Manager.findPwm
  rw [hmap, hfree, hentries]
  cases s.map g with
  | none =>
      cases s.firstFree with
      | none => rfl
      | some i => rfl
  | some r =>
      dsimp only
      split <;> rfl

theorem hardPwm_func (k : HardSlot) : (hardPwm k).func ≤ 7 := by
  revert k
  decide

theorem pwmSetup_map (h : PinsRefine P Q abs) (hmax : P.config.maxFuncs = 7) (ci : ClientInfo)
    (g : Gpio) (msg : PwmMsg) (s : Manager C) :
    pwmSetup Q.config ci g msg (s.mapChip abs) =
      ((pwmSetup P.config ci g msg s).1, (pwmSetup P.config ci g msg s).2.mapChip abs) := by
  unfold pwmSetup
  rw [findPwm_map]
  cases s.findPwm ci g with
  | error e => rfl
  | ok p =>
      obtain ⟨r, s⟩ := p
      simp only [Except.map]
      cases r with
      | hard k =>
          have hsetup := h.config.setupPwmHard (hardPwm k) msg s.chip (hmax ▸ hardPwm_func k)
          have hchip : (s.mapChip abs).chip = abs s.chip := rfl
          dsimp only
          rw [hchip, ← hsetup]
          cases P.config.setupPwmHard (hardPwm k) msg s.chip with
          | error e => rfl
          | ok chip => rfl
      | soft i =>
          have hselect := h.config.setSelect g 1 s.chip (by rw [hmax]; decide)
          have hchip : (s.mapChip abs).chip = abs s.chip := rfl
          dsimp only
          rw [hchip, ← hselect]
          split <;> rfl

theorem timerIntrCheckDone_map (s : Manager C) :
    timerIntrCheckDone (s.mapChip abs) = (timerIntrCheckDone s).mapChip abs := by
  have hentries : (s.mapChip abs).entries = s.entries := rfl
  have hattached : (s.mapChip abs).timerAttached = s.timerAttached := rfl
  unfold timerIntrCheckDone
  rw [hentries, hattached]
  split
  · rfl
  · split <;> rfl

theorem timerIntrInit_map (time : BitVec 32) (s : Manager C) :
    timerIntrInit time (s.mapChip abs) =
      ((timerIntrInit time s).1, (timerIntrInit time s).2.mapChip abs) := by
  have hattached : (s.mapChip abs).timerAttached = s.timerAttached := rfl
  have hspawn : (s.mapChip abs).spawnError = s.spawnError := rfl
  have hnext : (s.mapChip abs).time - (s.mapChip abs).compare = s.time - s.compare := rfl
  unfold timerIntrInit
  dsimp only
  rw [hattached, hspawn, hnext]
  split
  · rfl
  · split <;> rfl

theorem setDuty_map (h : PinsRefine P Q abs) (times : PwmTimes) (r : PwmRef) (g : Gpio)
    (duty : BitVec 32) (s : Manager C) :
    setDuty Q.config times r g duty (s.mapChip abs) =
      ((setDuty P.config times r g duty s).1, (setDuty P.config times r g duty s).2.mapChip abs) := by
  cases r with
  | hard k =>
      have hduty := h.config.setPwmDuty (hardPwm k) duty s.chip
      change (none, { s.mapChip abs with chip := Q.config.setPwmDuty (hardPwm k) duty (abs s.chip) }) = _
      rw [← hduty]
      rfl
  | soft i =>
      have hset := h.config.set g s.chip
      have hclear := h.config.clear g s.chip
      have hentries : (s.mapChip abs).entries = s.entries := rfl
      have hchip : (s.mapChip abs).chip = abs s.chip := rfl
      unfold setDuty
      dsimp only
      rw [hentries]
      split
      · dsimp only
        rw [← timerIntrCheckDone_map]
        congr 2
        dsimp only [Manager.put, Manager.mapChip]
        split
        · rw [hclear]
        · rw [hset]
      · rw [← timerIntrInit_map]
        congr 1
        dsimp only [Manager.put, Manager.mapChip]
        rw [hset]

theorem pwmSetDutyCycle_map (h : PinsRefine P Q abs) (hmax : P.config.maxFuncs = 7)
    (times : PwmTimes) (ci : ClientInfo) (g : Gpio) (duty : BitVec 32) (s : Manager C) :
    pwmSetDutyCycle Q.config times ci g duty (s.mapChip abs) =
      (pwmSetDutyCycle P.config times ci g duty s).map fun p => (p.1, p.2.mapChip abs) := by
  have hmap : (s.mapChip abs).map = s.map := rfl
  unfold pwmSetDutyCycle
  rw [hmap]
  cases s.map g with
  | none =>
      dsimp only
      rw [pwmSetup_map h hmax]
      cases hsetup : pwmSetup P.config ci g ⟨1000, 1024, 0⟩ s with
      | mk e s' => cases e <;> rfl
  | some r =>
      dsimp only
      rw [setDuty_map h]
      rfl

theorem pwmRemovePin_map (h : PinsRefine P Q abs) (times : PwmTimes) (ci : ClientInfo)
    (s : Manager C) (g : Gpio) :
    pwmRemovePin Q.config times ci (s.mapChip abs) g =
      (pwmRemovePin P.config times ci s g).mapChip abs := by
  have hmap : (s.mapChip abs).map = s.map := rfl
  have hentries : (s.mapChip abs).entries = s.entries := rfl
  unfold pwmRemovePin
  rw [hmap, hentries]
  cases s.map g with
  | none => rfl
  | some r =>
      dsimp only
      rw [setDuty_map h]
      split
      · cases r <;> rfl
      · rfl

theorem pwmRemoveClient_map (h : PinsRefine P Q abs) (times : PwmTimes) (ci : ClientInfo)
    (s : Manager C) :
    pwmRemoveClient Q.config times ci (s.mapChip abs) =
      (pwmRemoveClient P.config times ci s).mapChip abs := by
  unfold pwmRemoveClient
  induction List.finRange rpiGpioNum generalizing s with
  | nil => rfl
  | cons g gs ih => rw [List.foldl_cons, List.foldl_cons, pwmRemovePin_map h, ih]

theorem timerSlot_map (h : PinsRefine P Q abs) (now : BitVec 32) (s : Manager C)
    (nextMin : BitVec 32) (i : SoftSlot) :
    timerSlot Q.config now (s.mapChip abs, nextMin) i =
      ((timerSlot P.config now (s, nextMin) i).1.mapChip abs,
        (timerSlot P.config now (s, nextMin) i).2) := by
  have hentries : (s.mapChip abs).entries = s.entries := rfl
  unfold timerSlot
  dsimp only
  rw [hentries]
  split
  · rfl
  · split
    · rfl
    · cases ((s.entries (.soft i)).tick now).1 with
      | none => rfl
      | some change =>
          obtain ⟨on, e'⟩ := change
          have hset := h.config.set (s.entries (.soft i)).gpio s.chip
          have hclear := h.config.clear (s.entries (.soft i)).gpio s.chip
          cases on with
          | true =>
              simp only [if_true, Manager.put, Manager.mapChip, hset]
          | false =>
              simp only [Bool.false_eq_true, if_false, Manager.put, Manager.mapChip, hclear]

theorem timerIsr_map (h : PinsRefine P Q abs) (spent : BitVec 32) (s : Manager C) :
    timerIsr Q.config spent (s.mapChip abs) = (timerIsr P.config spent s).mapChip abs := by
  have hloop : ∀ (slots : List SoftSlot) (now : BitVec 32) (s : Manager C) (nextMin : BitVec 32),
      slots.foldl (timerSlot Q.config now) (s.mapChip abs, nextMin) =
        ((slots.foldl (timerSlot P.config now) (s, nextMin)).1.mapChip abs,
          (slots.foldl (timerSlot P.config now) (s, nextMin)).2) := by
    intro slots now
    induction slots with
    | nil => exact fun s nextMin => rfl
    | cons i slots ih =>
        intro s nextMin
        rw [List.foldl_cons, List.foldl_cons, timerSlot_map h, ih]
  have hmatch : (s.mapChip abs).timerMatch = s.timerMatch := rfl
  have hready : (s.mapChip abs).timerReady = s.timerReady := rfl
  have htime : (s.mapChip abs).time = s.time := rfl
  unfold timerIsr
  rw [hmatch, hready, htime, hloop]
  split
  · rfl
  · split
    · rfl
    · generalize (List.finRange numSoftPwm).foldl (timerSlot P.config s.time) (s, -1) = p
      rfl

/-! ## Requests -/

theorem eventOps_map (h : PinsRefine P Q abs) (ops : List EventOp) (s : Manager C) :
    ops.foldl (EventOp.run Q.config) (s.mapChip abs) =
      (ops.foldl (EventOp.run P.config) s).mapChip abs := by
  induction ops generalizing s with
  | nil => rfl
  | cons op ops ih =>
      have hop : EventOp.run Q.config (s.mapChip abs) op =
          (EventOp.run P.config s op).mapChip abs := by
        have hchip : abs (op.applyChip P.config s.chip) = op.applyChip Q.config (abs s.chip) := by
          cases op with
          | rising g enable => exact h.config.detectRisingEdge g enable s.chip
          | falling g enable => exact h.config.detectFallingEdge g enable s.chip
          | high g enable => exact h.config.detectLevelHigh g enable s.chip
          | low g enable => exact h.config.detectLevelLow g enable s.chip
          | record g entry => rfl
          | release ci => rfl
        dsimp only [EventOp.run, Manager.mapChip]
        rw [hchip]
      rw [List.foldl_cons, List.foldl_cons, hop, ih]

theorem serveBody_map (h : PinsRefine P Q abs) (hmax : P.config.maxFuncs = 7) (times : PwmTimes)
    (ci : ClientInfo) (g : Gpio) (s : Manager C) (body : MsgBody) :
    serveBody Q.config times ci g (s.mapChip abs) body =
      (serveBody P.config times ci g s body).map fun p => (p.1, p.2.mapChip abs) := by
  have hchip : (s.mapChip abs).chip = abs s.chip := rfl
  have htable : (s.mapChip abs).table = s.table := rfl
  have hget := h.config.getSelect g s.chip
  cases body with
  | setSelect value =>
      simp only [serveBody, hchip, ← hget, ← h.config.maxFuncs]
      split
      · rfl
      · next hle =>
        have hfits : value ≤ P.config.maxFuncs := BitVec.not_lt.mp hle
        rw [← h.config.setSelect g value s.chip hfits]
        rfl
  | getSelect =>
      simp only [serveBody, hchip, ← hget]
      rfl
  | write value =>
      simp only [serveBody, hchip, ← hget, ← h.config.set, ← h.config.clear]
      split
      · split <;> rfl
      · rfl
  | read =>
      simp only [serveBody, hchip, ← hget, ← h.config.read]
      split <;> rfl
  | addEvent msg =>
      simp only [serveBody, htable]
      cases eventAdd s.table ci g msg with
      | error e => rfl
      | ok ops =>
          dsimp only
          rw [eventOps_map h]
          rfl
  | pwmSetup msg =>
      simp only [serveBody, pwmSetup_map h hmax]
      rfl
  | pwmDuty value =>
      simp only [serveBody, pwmSetDutyCycle_map h hmax]
      cases pwmSetDutyCycle P.config times ci g value s <;> rfl
  | pud value =>
      simp only [serveBody, hchip, ← h.config.setPud g value s.chip]
      cases P.config.setPud g value s.chip <;> rfl
  | other => rfl

theorem writePin_map (h : PinsRefine P Q abs) (hmax : P.config.maxFuncs = 7) (g : Gpio)
    (bytes : Bytes) (s : Manager C) :
    writePin Q.config g bytes (s.mapChip abs) =
      ((writePin P.config g bytes s).1, (writePin P.config g bytes s).2.mapChip abs) := by
  have hchip : (s.mapChip abs).chip = abs s.chip := rfl
  have hout := h.config.setSelect g 1 s.chip (by rw [hmax]; decide)
  have hin := h.config.setSelect g 0 s.chip (by rw [hmax]; decide)
  unfold writePin
  cases nodeCommand bytes with
  | error e => rfl
  | ok cmd =>
      simp only [hchip, ← hout, ← hin, ← h.config.getSelect, ← h.config.set, ← h.config.clear]
      split
      · rfl
      · split
        · rfl
        · split
          · split <;> rfl
          · split
            · split <;> rfl
            · rfl

theorem serve_map (h : PinsRefine P Q abs) (hmax : P.config.maxFuncs = 7) (times : PwmTimes)
    (abi : MsgAbi) (s : Manager C) (r : Request) :
    serve Q times abi (s.mapChip abs) r =
      (serve P times abi s r).map fun p => (p.1, p.2.mapChip abs) := by
  cases r with
  | msg m =>
      simp only [serve, msgGpio]
      cases m.accepted abi with
      | error e => rfl
      | ok g =>
          dsimp only
          rw [serveBody_map h hmax]
          cases serveBody P.config times m.client.info g s m.body <;> rfl
  | writeNode node bytes =>
      cases node with
      | none => rfl
      | some g =>
          simp only [serve, writeGpio, writePin_map h hmax]
          rfl
  | readNode node =>
      have hchip : (s.mapChip abs).chip = abs s.chip := rfl
      cases node with
      | none => rfl
      | some g =>
          simp only [serve, readGpio, hchip, ← h.config.getSelect, ← h.config.read]
          rfl
  | close client =>
      have htable : (s.mapChip abs).table = s.table := rfl
      simp only [serve, closeGpio, htable, eventOps_map h, pwmRemoveClient_map h]
      rfl
  | level g high =>
      have hlevel := h.setLevel g high s.chip
      simp only [serve, Manager.mapChip, ← hlevel]
      rfl
  | clock ticks => rfl
  | timer matched spent =>
      have hisr := timerIsr_map h spent { s with timerMatch := matched }
      change some (none, timerIsr Q.config spent
        (({ s with timerMatch := matched } : Manager C).mapChip abs)) = _
      rw [hisr]
      rfl
  | attached => rfl
  | spawns e => rfl

theorem serveAll_map (h : PinsRefine P Q abs) (hmax : P.config.maxFuncs = 7) (times : PwmTimes)
    (abi : MsgAbi) (s : Manager C) (rs : List Request) :
    serveAll Q times abi (s.mapChip abs) rs =
      (serveAll P times abi s rs).map fun p => (p.1, p.2.mapChip abs) := by
  induction rs generalizing s with
  | nil => rfl
  | cons r rs ih =>
      simp only [serveAll, serve_map h hmax]
      cases serve P times abi s r with
      | none => rfl
      | some p =>
          simp only [Option.map_some, Option.bind_some, ih]
          cases serveAll P times abi p.2 rs <;> rfl

/-- The register server answers every sequence of requests as the board does, faults
when the board does, and ends in the same board. -/
theorem registers_serve_board (times : PwmTimes) (abi : MsgAbi) (s : Manager Chip)
    (rs : List Request) :
    serveAll boardPins times abi (s.mapChip Chip.board) rs =
      (serveAll chipPins times abi s rs).map fun p => (p.1, p.2.mapChip Chip.board) :=
  serveAll_map chipPins_refine rfl times abi s rs

end QnxHypervisor.GpioServer
