import QnxHypervisor.GpioServer.PwmSlots
import QnxHypervisor.GpioServer.ServerBoard

/-! # A request acts on its own pin

Nothing that the registers hold of a pin changes, on the chip as on the board, while
no request is about it: no message that names it, no disconnect of a client that holds
it, no tick of a slot that drives it. Its level is its wire's.
-/

namespace QnxHypervisor.GpioServer

open Foundation

variable {C : Type} {times : PwmTimes} {abi : MsgAbi}

/-- The request may act on pin `k`. -/
def Request.About (r : Request) (k : Gpio) (s : Manager C) : Prop :=
  match r with
  | .msg m => m.gpio.toNat = k.val
  | .writeNode node _ => node = some k
  | .readNode _ | .level _ _ | .clock _ | .attached | .spawns _ => False
  | .close client => clientInfoMatch (s.table k).ci client.info ∨
      ∃ r, s.map k = some r ∧ clientInfoMatch (s.entries r).ci client.info
  | .timer _ _ => ∃ i, s.map k = some (.soft i) ∧ (s.entries (.soft i)).duty ≠ 0

/-- The pins differ in their levels at most. -/
def Pin.Same (p q : Pin) : Prop := q = { p with level := q.level }

theorem Pin.same_of_eq {p q : Pin} (h : q = p) : p.Same q := by
  subst h
  rfl

theorem Pin.Same.func {p q : Pin} (h : p.Same q) : q.func = p.func := (congrArg Pin.func h :)

theorem Pin.Same.out {p q : Pin} (h : p.Same q) : q.out = p.out := (congrArg Pin.out h :)

theorem Pin.Same.trans {p q r : Pin} (h : p.Same q) (h' : q.Same r) : p.Same r := by
  unfold Pin.Same at h h' ⊢
  rw [h', h]

theorem Board.pin_other (b : Board) {g k : Gpio} {f : Pin → Pin} (h : g ≠ k) :
    (b.pin g f).pins k = b.pins k :=
  Function.update_of_ne (Ne.symm h) _ _

/-- What the operations on pin `g` leave of pin `k`. -/
structure LeavesPin (g k : Gpio) : Prop where
  select : ∀ f b, (board.setSelect g f b).pins k = b.pins k
  set : ∀ b, (board.set g b).pins k = b.pins k
  clear : ∀ b, (board.clear g b).pins k = b.pins k
  rising : ∀ enable b, (board.detectRisingEdge g enable b).pins k = b.pins k
  falling : ∀ enable b, (board.detectFallingEdge g enable b).pins k = b.pins k
  high : ∀ enable b, (board.detectLevelHigh g enable b).pins k = b.pins k
  low : ∀ enable b, (board.detectLevelLow g enable b).pins k = b.pins k

theorem leavesPin {g k : Gpio} (h : g ≠ k) : LeavesPin g k where
  select f b := b.pin_other (f := fun p => { p with func := f }) h
  set b := b.pin_other (f := fun p => { p with out := true }) h
  clear b := b.pin_other (f := fun p => { p with out := false }) h
  rising on b := b.pin_other (f := fun p => { p with rising := on }) h
  falling on b := b.pin_other (f := fun p => { p with falling := on }) h
  high on b := b.pin_other (f := fun p => { p with high := on }) h
  low on b := b.pin_other (f := fun p => { p with low := on }) h

/-! ## Messages -/

theorem pwmSetup_pin {s : Manager Board} (h : PwmInv False s) {g k : Gpio} (hne : g ≠ k)
    (ci : ClientInfo) (msg : PwmMsg) :
    (pwmSetup board ci g msg s).2.chip.pins k = s.chip.pins k := by
  unfold pwmSetup
  cases hfind : s.findPwm ci g with
  | error e => rfl
  | ok p =>
      obtain ⟨r, s'⟩ := p
      obtain ⟨hinv, -, hplace⟩ := findPwm_inv h hfind
      have hchip : s'.chip = s.chip := by
        unfold Manager.findPwm at hfind
        split at hfind
        · split at hfind <;> cases hfind
          rfl
        · split at hfind <;> cases hfind
          rfl
      dsimp only
      cases r with
      | hard j =>
          have hpin : (hardPwm j).gpio = g := by
            rcases hplace with hold | ⟨-, i, hi, -⟩
            · exact (hinv.hard g j).mp hold
            · cases hi
          dsimp only
          cases hsetup : board.setupPwmHard (hardPwm j) msg s'.chip with
          | error e => exact congrArg (fun b : Board => b.pins k) hchip
          | ok chip =>
              change chip.pins k = _
              simp only [board] at hsetup
              split at hsetup
              · cases hsetup
              · cases hsetup
                rw [Board.pin_other _ (hpin ▸ hne), hchip]
                rfl
      | soft i =>
          dsimp only
          split
          · exact congrArg (fun b : Board => b.pins k) hchip
          · change (board.setSelect g 1 s'.chip).pins k = _
            rw [hchip]
            exact (leavesPin hne).select 1 s.chip

theorem setDuty_pin {s : Manager Board} (r : PwmRef) {g k : Gpio} (hne : g ≠ k)
    (duty : BitVec 32) : (setDuty board times r g duty s).2.chip.pins k = s.chip.pins k := by
  have hdone : ∀ t : Manager Board, (timerIntrCheckDone t).chip = t.chip := by
    intro t
    unfold timerIntrCheckDone
    split
    · rfl
    · split <;> rfl
  cases r with
  | hard j => rfl
  | soft i =>
      unfold setDuty
      dsimp only
      split
      · dsimp only
        rw [hdone]
        dsimp only
        split
        · exact (leavesPin hne).clear _
        · exact (leavesPin hne).set _
      · rw [timerIntrInit_chip]
        exact (leavesPin hne).set _

/-- The pin that an operation writes, if it writes one. -/
def EventOp.pin? : EventOp → Option Gpio
  | .rising g _ | .falling g _ | .high g _ | .low g _ => some g
  | .record _ _ | .release _ => none

theorem eventOps_pin {ops : List EventOp} {k : Gpio} (hne : ∀ op ∈ ops, op.pin? ≠ some k)
    (s : Manager Board) :
    (ops.foldl (EventOp.run board) s).chip.pins k = s.chip.pins k ∧
      (ops.foldl (EventOp.run board) s).map = s.map ∧
      (ops.foldl (EventOp.run board) s).entries = s.entries := by
  induction ops generalizing s with
  | nil => exact ⟨rfl, rfl, rfl⟩
  | cons op ops ih =>
      obtain ⟨hpin, hmap, hentries⟩ :=
        ih (fun op' hop' => hne op' (List.mem_cons_of_mem _ hop')) (EventOp.run board s op)
      have hfirst := hne op List.mem_cons_self
      refine ⟨hpin.trans ?_, hmap, hentries⟩
      cases op with
      | record g entry => rfl
      | release ci => rfl
      | rising g enable =>
          exact (leavesPin fun heq => hfirst (congrArg some heq)).rising enable s.chip
      | falling g enable =>
          exact (leavesPin fun heq => hfirst (congrArg some heq)).falling enable s.chip
      | high g enable =>
          exact (leavesPin fun heq => hfirst (congrArg some heq)).high enable s.chip
      | low g enable =>
          exact (leavesPin fun heq => hfirst (congrArg some heq)).low enable s.chip

theorem eventAdd_pin {table : EventTable} {ci : ClientInfo} {g k : Gpio} {msg : EventMsg}
    {ops : List EventOp} (h : eventAdd table ci g msg = .ok ops) (hne : g ≠ k) :
    ∀ op ∈ ops, op.pin? ≠ some k := by
  have hsome : some g ≠ some k := fun heq => hne (Option.some.inj heq)
  unfold eventAdd at h
  split at h
  · cases h
  · cases h
    intro op hop
    rcases List.mem_append.mp hop with hop | hop
    · rcases List.mem_append.mp hop with hop | hop
      · simp only [disableAll, List.mem_cons, List.not_mem_nil, or_false] at hop
        rcases hop with rfl | rfl | rfl | rfl <;> exact hsome
      · obtain rfl := List.mem_singleton.mp hop
        simp [EventOp.pin?]
    · simp only [enableAsked, List.mem_append] at hop
      rcases hop with ((hop | hop) | hop) | hop <;> split at hop <;>
        simp only [List.mem_singleton, List.not_mem_nil] at hop <;> subst hop <;> exact hsome

theorem eventRemoveClient_pin {table : EventTable} {ci : ClientInfo} {k : Gpio}
    (hno : ¬ clientInfoMatch (table k).ci ci) :
    ∀ op ∈ eventRemoveClient table ci, op.pin? ≠ some k := by
  intro op hop
  rcases List.mem_append.mp hop with hop | hop
  · obtain ⟨p, hp, hmem⟩ := List.mem_flatMap.mp hop
    have hmatch := of_decide_eq_true (List.mem_filter.mp hp).2
    have hpk : some p ≠ some k := by
      intro heq
      cases heq
      exact hno hmatch
    simp only [disableAll, List.mem_cons, List.not_mem_nil, or_false] at hmem
    rcases hmem with rfl | rfl | rfl | rfl <;> exact hpk
  · obtain rfl := List.mem_singleton.mp hop
    simp [EventOp.pin?]

theorem serveBody_pin {s s' : Manager Board} (h : PwmInv False s) {client : Client} {g k : Gpio}
    (hne : g ≠ k) {body : MsgBody} {reply : Reply}
    (hs : serveBody board times client.info g s body = some (reply, s')) :
    s'.chip.pins k = s.chip.pins k := by
  cases body with
  | setSelect value =>
      simp only [serveBody] at hs
      split at hs
      · cases hs
        rfl
      · cases hs
        exact (leavesPin hne).select value s.chip
  | getSelect =>
      cases hs
      rfl
  | write value =>
      simp only [serveBody] at hs
      split at hs
      · cases hs
        dsimp only
        split
        · exact (leavesPin hne).set s.chip
        · exact (leavesPin hne).clear s.chip
      · cases hs
        rfl
  | read =>
      simp only [serveBody] at hs
      split at hs
      · cases hs
        rfl
      · cases hs
        rfl
  | addEvent msg =>
      simp only [serveBody] at hs
      split at hs
      · cases hs
        rfl
      · next ops hops =>
        cases hs
        exact (eventOps_pin (eventAdd_pin hops hne) s).1
  | pwmSetup msg =>
      cases hs
      exact pwmSetup_pin h hne client.info msg
  | pwmDuty value =>
      obtain ⟨p, hp, hpair⟩ := Option.map_eq_some_iff.mp hs
      cases hpair
      unfold pwmSetDutyCycle at hp
      split at hp
      · have hsetup := pwmSetup_pin h hne client.info ⟨1000, 1024, 0⟩
        split at hp
        · next hpair =>
          cases hp
          rw [hpair] at hsetup
          exact hsetup
        · cases hp
      · next r _ =>
        have hpin : (setDuty board times r g value s).2.chip.pins k = s.chip.pins k :=
          setDuty_pin r hne value
        rw [Option.some.inj hp] at hpin
        exact hpin
  | pud value =>
      simp only [serveBody] at hs
      split at hs
      · cases hs
        rfl
      · next chip hchip =>
        cases hs
        obtain ⟨pull, -, rfl⟩ := Option.map_eq_some_iff.mp hchip
        exact s.chip.pin_other (f := fun p => { p with pull }) hne
  | other =>
      cases hs
      rfl

theorem writePin_pin {s : Manager Board} {g k : Gpio} (hne : g ≠ k) (bytes : Bytes) :
    (writePin board g bytes s).2.chip.pins k = s.chip.pins k := by
  have hleaves := leavesPin hne
  unfold writePin
  split
  · rfl
  · split
    · exact hleaves.select 1 s.chip
    · split
      · exact hleaves.select 0 s.chip
      · split
        · split
          · exact hleaves.set s.chip
          · rfl
        · split
          · split
            · exact hleaves.clear s.chip
            · rfl
          · rfl

/-! ## Disconnects and ticks -/

theorem pwmRemovePin_pin {s : Manager Board} {ci : ClientInfo} {g k : Gpio} (hne : g ≠ k) :
    (pwmRemovePin board times ci s g).chip.pins k = s.chip.pins k := by
  rw [pwmRemovePin_eq]
  split
  · rfl
  · next r _ =>
    split
    · have hchip : ∀ t : Manager Board, (t.released r g).chip = t.chip := by
        intro t
        cases r <;> rfl
      rw [hchip]
      exact setDuty_pin r hne 0
    · rfl

theorem pwmRemoveClient_pin {s : Manager Board} (h : PwmInv False s) (client : Client) {k : Gpio}
    (hno : ∀ r, s.map k = some r → ¬ clientInfoMatch (s.entries r).ci client.info) :
    (pwmRemoveClient board times client.info s).chip.pins k = s.chip.pins k := by
  unfold pwmRemoveClient
  induction List.finRange rpiGpioNum generalizing s with
  | nil => rfl
  | cons g gs ih =>
      rw [List.foldl_cons]
      have hnext := pwmRemovePin_inv board times h client.info g
      obtain ⟨hself, hmap, hci⟩ := pwmRemovePin_done board times h client g
      by_cases hgk : g = k
      · subst hgk
        have hsame : pwmRemovePin board times client.info s g = s := by
          rw [pwmRemovePin_eq]
          cases hr : s.map g with
          | none => rfl
          | some r =>
              dsimp only
              rw [if_neg (hno r hr)]
        rw [ih hnext hself, hsame]
      · rw [ih hnext, pwmRemovePin_pin hgk]
        intro r hr
        rw [hmap k (Ne.symm hgk)] at hr
        rw [hci k r (Ne.symm hgk) hr]
        exact hno r hr

theorem timerSlot_pin {s : Manager Board} (h : PwmInv False s) (now nextMin : BitVec 32) (i : SoftSlot)
    {k : Gpio}
    (hno : ∀ i, s.map k = some (.soft i) → (s.entries (.soft i)).duty = 0) :
    (timerSlot board now (s, nextMin) i).1.chip.pins k = s.chip.pins k ∧
      (timerSlot board now (s, nextMin) i).1.map = s.map ∧
      ∀ j, ((timerSlot board now (s, nextMin) i).1.entries (.soft j)).duty =
        (s.entries (.soft j)).duty := by
  unfold timerSlot
  dsimp only
  split
  · exact ⟨rfl, rfl, fun _ => rfl⟩
  · split
    · exact ⟨rfl, rfl, fun _ => rfl⟩
    · next hduty =>
      have hpin : (s.entries (.soft i)).gpio ≠ k := by
        rintro rfl
        have hheld := h.held i fun hunused => hduty (h.idle i hunused)
        exact hduty (hno i hheld)
      cases hchange : ((s.entries (.soft i)).tick now).1 with
      | none => exact ⟨rfl, rfl, fun _ => rfl⟩
      | some change =>
          obtain ⟨on, e'⟩ := change
          have hsame := tick_entry hchange
          refine ⟨?_, rfl, fun j => ?_⟩
          · dsimp only
            split
            · exact (leavesPin hpin).set s.chip
            · exact (leavesPin hpin).clear s.chip
          · simp only [Manager.put, Function.update_apply]
            split
            · next hj =>
              cases hj
              exact hsame.2.2
            · rfl

theorem timerIsr_pin {s : Manager Board} (h : PwmInv False s) (spent : BitVec 32) {k : Gpio}
    (hno : ∀ i, s.map k = some (.soft i) → (s.entries (.soft i)).duty = 0) :
    (timerIsr board spent s).chip.pins k = s.chip.pins k := by
  have hloop : ∀ (slots : List SoftSlot) (t : Manager Board) (nextMin : BitVec 32), PwmInv False t →
      (∀ i, t.map k = some (.soft i) → (t.entries (.soft i)).duty = 0) →
      (slots.foldl (timerSlot board s.time) (t, nextMin)).1.chip.pins k = t.chip.pins k := by
    intro slots
    induction slots with
    | nil => exact fun _ _ _ _ => rfl
    | cons i slots ih =>
        intro t nextMin ht hclear
        obtain ⟨hpin, hmap, hduty⟩ := timerSlot_pin ht s.time nextMin i hclear
        rw [List.foldl_cons]
        refine (ih _ _ (timerSlot_inv ht s.time nextMin i) fun j hj => ?_).trans hpin
        rw [hmap] at hj
        rw [hduty]
        exact hclear j hj
  have hslots := hloop (List.finRange numSoftPwm) s (-1) h hno
  unfold timerIsr
  split
  · rfl
  · split
    · rfl
    · generalize (List.finRange numSoftPwm).foldl (timerSlot board s.time) (s, -1) = p at hslots ⊢
      exact hslots

/-! ## Runs -/

theorem accepted_pin {msg : IoMsg} {g : Gpio} (h : msg.accepted abi = .ok g) :
    g.val = msg.gpio.toNat := by
  unfold IoMsg.accepted at h
  generalize (if msg.body.reads then msg.readable else msg.writable) = permitted at h
  split at h
  · cases h
  · split at h
    · cases h
    · split at h
      · cases h
      · split at h
        · cases h
        · split at h
          · split at h
            · cases h
            · cases h
              rfl
          · cases h

theorem serve_pin {s s' : Manager Board} (h : PwmInv False s) {r : Request} {k : Gpio}
    (hno : ¬ r.About k s) {reply : Option Reply}
    (hs : serve boardPins times abi s r = some (reply, s')) :
    (s.chip.pins k).Same (s'.chip.pins k) := by
  cases r with
  | msg m =>
      obtain ⟨p, hp, hpair⟩ := Option.map_eq_some_iff.mp hs
      cases hpair
      unfold msgGpio at hp
      split at hp
      · cases hp
        rfl
      · next g hg =>
        have hne : g ≠ k := fun heq => hno ((accepted_pin hg).symm.trans (congrArg Fin.val heq))
        exact Pin.same_of_eq (serveBody_pin h hne hp)
  | writeNode node bytes =>
      cases hs
      cases node with
      | none => rfl
      | some g => exact Pin.same_of_eq (writePin_pin (fun heq => hno (congrArg some heq)) bytes)
  | readNode node =>
      cases hs
      rfl
  | close client =>
      cases hs
      have hevent : ¬ clientInfoMatch (s.table k).ci client.info := fun hm => hno (.inl hm)
      obtain ⟨hpin, hmap, hentries⟩ := eventOps_pin (eventRemoveClient_pin hevent) s
      refine Pin.same_of_eq ((pwmRemoveClient_pin (eventOps_inv h _) client ?_).trans hpin)
      intro r hr hm
      have hr : (((eventRemoveClient s.table client.info).foldl (EventOp.run board) s).map k) =
        some r := hr
      have hm : clientInfoMatch (((eventRemoveClient s.table client.info).foldl
        (EventOp.run board) s).entries r).ci client.info := hm
      rw [hmap] at hr
      rw [hentries] at hm
      exact hno (.inr ⟨r, hr, hm⟩)
  | level g high =>
      cases hs
      by_cases hgk : g = k
      · subst hgk
        change (s.chip.pins g).Same (Function.update s.chip.pins g _ g)
        rw [Function.update_self]
        rfl
      · exact Pin.same_of_eq (s.chip.pin_other (f := fun p => { p with level := high }) hgk)
  | clock ticks =>
      cases hs
      rfl
  | timer matched spent =>
      cases hs
      have hinv : PwmInv False { s with timerMatch := matched } :=
        h.congr rfl rfl fun _ => ⟨rfl, rfl, rfl⟩
      refine Pin.same_of_eq (timerIsr_pin hinv spent ?_)
      intro i hi
      by_contra hduty
      exact hno ⟨i, hi, hduty⟩
  | attached =>
      cases hs
      rfl
  | spawns e =>
      cases hs
      rfl

/-- No request of the run does `A`, each looked at when it comes. -/
def Without (A : Request → Manager C → Prop) (P : Pins C) (times : PwmTimes) (abi : MsgAbi) :
    Manager C → List Request → Prop
  | _, [] => True
  | s, r :: rs => ¬ A r s ∧ ∀ p, serve P times abi s r = some p → Without A P times abi p.2 rs

/-- No request of the run is about pin `k`. -/
def Undisturbed (P : Pins C) (times : PwmTimes) (abi : MsgAbi) (k : Gpio) :
    Manager C → List Request → Prop :=
  Without (fun r s => r.About k s) P times abi

theorem serveAll_pin {s s' : Manager Board} (h : PwmInv False s) {rs : List Request} {k : Gpio}
    (hrs : Undisturbed boardPins times abi k s rs) {replies : List (Option Reply)}
    (hs : serveAll boardPins times abi s rs = some (replies, s')) :
    (s.chip.pins k).Same (s'.chip.pins k) := by
  induction rs generalizing s replies with
  | nil =>
      cases hs
      rfl
  | cons r rs ih =>
      obtain ⟨p, hp, hrest⟩ := Option.bind_eq_some_iff.mp hs
      obtain ⟨q, hq, hpair⟩ := Option.map_eq_some_iff.mp hrest
      cases hpair
      exact (serve_pin h hrs.1 hp).trans (ih (serve_inv h (fun _ _ => id) hp) (hrs.2 p hp) hq)

theorem without_board {A : Request → Manager Chip → Prop} {B : Request → Manager Board → Prop}
    (hAB : ∀ r s, B r (s.mapChip Chip.board) → A r s) {s : Manager Chip} {rs : List Request}
    (h : Without A chipPins times abi s rs) :
    Without B boardPins times abi (s.mapChip Chip.board) rs := by
  induction rs generalizing s with
  | nil => trivial
  | cons r rs ih =>
      refine ⟨fun hB => h.1 (hAB r s hB), fun p hp => ?_⟩
      rw [serve_map chipPins_refine rfl] at hp
      obtain ⟨q, hq, rfl⟩ := Option.map_eq_some_iff.mp hp
      exact ih (h.2 q hq)

theorem PwmInv.mapChip {B : Type} {f : C → B} {s : Manager C} (h : PwmInv False s) :
    PwmInv False (s.mapChip f) :=
  ⟨h.hard, h.soft, h.held, h.idle, h.ready, h.spawns⟩

theorem serveAll_chipPin {s s' : Manager Chip} (h : PwmInv False s) {rs : List Request} {k : Gpio}
    (hrs : Undisturbed chipPins times abi k s rs) {replies : List (Option Reply)}
    (hs : serveAll chipPins times abi s rs = some (replies, s')) :
    (s.chip.pin k).Same (s'.chip.pin k) := by
  have hboard := serveAll_map chipPins_refine rfl times abi s rs
  rw [hs] at hboard
  exact serveAll_pin h.mapChip (without_board (fun _ _ habout => habout) hrs) hboard

/-- After any requests, those that are not about a pin leave all that its registers
hold: function, pull, output, detection and pending event. -/
theorem pins_isolated {c : Chip} {table : EventTable} {first rest : List Request} {k : Gpio}
    {replies replies' : List (Option Reply)} {s s' : Manager Chip}
    (hfirst : serveAll chipPins times abi (pwmStarted c table) first = some (replies, s))
    (hrest : Undisturbed chipPins times abi k s rest)
    (hs : serveAll chipPins times abi s rest = some (replies', s')) :
    (s.chip.pin k).Same (s'.chip.pin k) :=
  serveAll_chipPin (serveAll_inv (pwmInv_started c table) (fun _ _ => id) hfirst) hrest hs

def pinFour : Gpio := ⟨4, by decide⟩
def pinFive : Gpio := ⟨5, by decide⟩

/-- Pin 5 is made an output; then pin 4 is, and read. -/
theorem pins_isolated_fourth :
    ∃ replies replies' s s',
      serveAll chipPins quarterTimes someAbi (pwmStarted zeroChip idleTable)
        [.msg (someMsg 5 (.setSelect 1))] = some (replies, s) ∧
      serveAll chipPins quarterTimes someAbi s [.writeNode pinFour (utf8 "out"), .readNode pinFour] =
        some (replies', s') ∧
      replies' = [some .done, some (.failed .noDevice)] ∧
      (s.chip.pin pinFive).Same (s'.chip.pin pinFive) := by
  have hfirst : (serveAll chipPins quarterTimes someAbi (pwmStarted zeroChip idleTable)
      [.msg (someMsg 5 (.setSelect 1))]).isSome := by decide
  obtain ⟨⟨replies, s⟩, hs⟩ := Option.isSome_iff_exists.mp hfirst
  have hrest : Undisturbed chipPins quarterTimes someAbi pinFive s
      [.writeNode pinFour (utf8 "out"), .readNode pinFour] := by
    refine ⟨?_, fun _ _ => ⟨id, fun _ _ => trivial⟩⟩
    change some pinFour ≠ some pinFive
    decide
  have hrun : ((serveAll chipPins quarterTimes someAbi (pwmStarted zeroChip idleTable)
      [.msg (someMsg 5 (.setSelect 1))]).bind fun p => serveAll chipPins quarterTimes someAbi p.2
        [.writeNode pinFour (utf8 "out"), .readNode pinFour]).map Prod.fst =
      some [some .done, some (.failed .noDevice)] := by decide
  rw [hs] at hrun
  obtain ⟨⟨replies', s'⟩, hs', hreplies⟩ := Option.map_eq_some_iff.mp hrun
  exact ⟨replies, replies', s, s', hs, hs', hreplies, pins_isolated hs hrest hs'⟩

end QnxHypervisor.GpioServer
