import QnxHypervisor.GpioServer.EventRegistry

/-! # What is detected and who is told

The registry decides who is refused, what the detection registers may hold at any
point between two writes, and whom a delivery may go to.
-/

namespace QnxHypervisor.GpioServer

open Foundation

/-! ## The detection registers -/

/-- Which detections are on. -/
structure Kinds where
  rising : Bool
  falling : Bool
  high : Bool
  low : Bool
  deriving DecidableEq

def Kinds.none : Kinds := ⟨false, false, false, false⟩

def Kinds.asked (detect : BitVec 32) : Kinds :=
  ⟨asks detect rpiEventEdgeRising, asks detect rpiEventEdgeFalling,
    asks detect rpiEventLevelHigh, asks detect rpiEventLevelLow⟩

/-- What the holder of a pin asked for. -/
def Registration.kinds : Option Registration → Kinds
  | .none => .none
  | some r => .asked r.detect

/-- Each detection that is on is on in `b`. -/
structure Kinds.Within (a b : Kinds) : Prop where
  rising : a.rising = true → b.rising = true
  falling : a.falling = true → b.falling = true
  high : a.high = true → b.high = true
  low : a.low = true → b.low = true

theorem Kinds.Within.refl (a : Kinds) : a.Within a := ⟨id, id, id, id⟩

theorem Kinds.none_within (a : Kinds) : Kinds.none.Within a := by
  constructor <;> intro h <;> cases h

def Pin.kinds (p : Pin) : Kinds := ⟨p.rising, p.falling, p.high, p.low⟩

/-- An operation as it acts on the detections of pin `g`. -/
def EventOp.onKinds (g : Gpio) (op : EventOp) (k : Kinds) : Kinds :=
  match op with
  | .rising g' enable => if g = g' then { k with rising := enable } else k
  | .falling g' enable => if g = g' then { k with falling := enable } else k
  | .high g' enable => if g = g' then { k with high := enable } else k
  | .low g' enable => if g = g' then { k with low := enable } else k
  | .record _ _ | .release _ => k

/-- An operation as it acts on the registration of pin `g`. -/
def EventOp.onRegistration (g : Gpio) (op : EventOp) (r : Option Registration) :
    Option Registration :=
  match op with
  | .record g' entry => if g = g' then some ⟨entry.ci, entry.detect⟩ else r
  | .release ci => r.filter fun reg => !decide (clientInfoMatch reg.ci ci)
  | _ => r

theorem applyChip_kinds (op : EventOp) (b : Board) (g : Gpio) :
    ((op.applyChip board b).pins g).kinds = op.onKinds g (b.pins g).kinds := by
  cases op
  case record | release => rfl
  all_goals
    simp only [EventOp.applyChip, board, Board.pin, Function.update_apply, EventOp.onKinds]
    split
    · next hg =>
      rw [hg]
      rfl
    · rfl

theorem applyRegistry_at (op : EventOp) (registry : Gpio → Option Registration) (g : Gpio) :
    op.applyRegistry registry g = op.onRegistration g (registry g) := by
  cases op with
  | record k entry => exact Function.update_apply _ _ _ _
  | release ci => rfl
  | rising k enable => rfl
  | falling k enable => rfl
  | high k enable => rfl
  | low k enable => rfl

/-- Through these writes pin `g` detects nothing that its holder did not ask for, and
in the end all of that. -/
def Settles (g : Gpio) : List EventOp → Kinds → Option Registration → Prop
  | [], k, r => k = Registration.kinds r
  | op :: rest, k, r => k.Within (Registration.kinds r) ∧
      Settles g rest (op.onKinds g k) (op.onRegistration g r)

theorem Settles.within {g : Gpio} {ops : List EventOp} {k : Kinds} {r : Option Registration}
    (h : Settles g ops k r) : k.Within (Registration.kinds r) := by
  cases ops with
  | nil =>
      have hk : k = Registration.kinds r := h
      rw [hk]
      exact .refl _
  | cons op rest => exact h.1

theorem settles_other {g g' : Gpio} (hne : g ≠ g') {rest : List EventOp} {k : Kinds}
    {r : Option Registration} (h : Settles g rest k r) :
    Settles g (disableAll g' ++ rest) k r := by
  simp only [disableAll, List.cons_append, List.nil_append, Settles, EventOp.onKinds,
    EventOp.onRegistration, if_neg hne]
  exact ⟨h.within, h.within, h.within, h.within, h⟩

/-- All detection of the pin goes off first. -/
theorem settles_disable {g : Gpio} {rest : List EventOp} {k : Kinds} {r : Option Registration}
    (hk : k.Within (Registration.kinds r)) (h : Settles g rest .none r) :
    Settles g (disableAll g ++ rest) k r := by
  simp only [disableAll, List.cons_append, List.nil_append, Settles, EventOp.onKinds,
    EventOp.onRegistration, if_true]
  exact ⟨hk, ⟨(by simp), hk.falling, hk.high, hk.low⟩, ⟨(by simp), (by simp), hk.high, hk.low⟩,
    ⟨(by simp), (by simp), (by simp), hk.low⟩, h⟩

theorem settles_turn (k' : Kinds) {g : Gpio} {op : EventOp} {rest : List EventOp} {k : Kinds}
    {r : Option Registration} {asked : Bool} (hk : k.Within (Registration.kinds r))
    (hreg : op.onRegistration g r = r) (hon : asked = true → op.onKinds g k = k')
    (hoff : asked = false → k = k') (h : Settles g rest k' r) :
    Settles g ((if asked then [op] else []) ++ rest) k r := by
  cases asked with
  | true =>
      refine ⟨hk, ?_⟩
      rw [hreg, hon rfl]
      exact h
  | false =>
      rw [hoff rfl]
      exact h

theorem settles_enable (g : Gpio) (ci : ClientInfo) (detect : BitVec 32) :
    Settles g (enableAsked g detect) .none (some ⟨ci, detect⟩) := by
  let rising := asks detect rpiEventEdgeRising
  let falling := asks detect rpiEventEdgeFalling
  let high := asks detect rpiEventLevelHigh
  have hwithin : ∀ a b c, (a = true → rising = true) → (b = true → falling = true) →
      (c = true → high = true) →
      (⟨a, b, c, false⟩ : Kinds).Within (Registration.kinds (some ⟨ci, detect⟩)) :=
    fun a b c ha hb hc => ⟨ha, hb, hc, fun h => by cases h⟩
  have hself : ∀ op : EventOp, op.locks = false →
      op.onRegistration g (some ⟨ci, detect⟩) = some ⟨ci, detect⟩ := by
    intro op hop
    cases op
    case record | release => cases hop
    all_goals rfl
  have hfalse : ∀ {a : Bool}, false = true → a = true := fun h => by cases h
  rw [enableAsked, List.append_assoc, List.append_assoc,
    ← List.append_nil (if asks detect rpiEventLevelLow = true then _ else [])]
  apply settles_turn ⟨rising, false, false, false⟩ (Kinds.none_within _) (hself _ rfl)
  · intro hon
    simp [EventOp.onKinds, Kinds.none, rising, hon]
  · intro hoff
    simp [Kinds.none, rising, hoff]
  apply settles_turn ⟨rising, falling, false, false⟩ (hwithin _ _ _ id hfalse hfalse) (hself _ rfl)
  · intro hon
    simp [EventOp.onKinds, falling, hon]
  · intro hoff
    simp [falling, hoff]
  apply settles_turn ⟨rising, falling, high, false⟩ (hwithin _ _ _ id id hfalse) (hself _ rfl)
  · intro hon
    simp [EventOp.onKinds, high, hon]
  · intro hoff
    simp [high, hoff]
  apply settles_turn (.asked detect) (hwithin _ _ _ id id id) (hself _ rfl)
  · intro hon
    simp [EventOp.onKinds, Kinds.asked, rising, falling, high, hon]
  · intro hoff
    simp [Kinds.asked, rising, falling, high, hoff]
  rfl

/-- `event_add` settles every pin. -/
theorem settles_add {table : EventTable} {ci : ClientInfo} {g : Gpio} {msg : EventMsg}
    {ops : List EventOp} (h : eventAdd table ci g msg = .ok ops) (k : Gpio) {kinds : Kinds}
    {r : Option Registration} (hk : kinds = Registration.kinds r) : Settles k ops kinds r := by
  unfold eventAdd at h
  split at h
  · cases h
  · cases h
    rw [List.append_assoc]
    by_cases hkg : k = g
    · subst hkg
      refine settles_disable (hk ▸ .refl _) ⟨Kinds.none_within _, ?_⟩
      simp only [EventOp.onKinds, EventOp.onRegistration, if_true]
      exact settles_enable k ci msg.detect
    · apply settles_other hkg
      have hrest : ∀ ops : List EventOp, (∀ op ∈ ops, op.onKinds k kinds = kinds ∧
          op.onRegistration k r = r) → Settles k ops kinds r := by
        intro ops
        induction ops with
        | nil => exact fun _ => hk
        | cons op rest ih =>
            intro hall
            have hhead := hall op List.mem_cons_self
            refine ⟨hk ▸ .refl _, ?_⟩
            rw [hhead.1, hhead.2]
            exact ih fun op' hop' => hall op' (List.mem_cons_of_mem _ hop')
      apply hrest
      intro op hop
      rcases List.mem_append.mp hop with hop | hop
      · obtain rfl := List.mem_singleton.mp hop
        exact ⟨rfl, if_neg hkg⟩
      · simp only [enableAsked, List.mem_append] at hop
        rcases hop with ((hop | hop) | hop) | hop <;> split at hop <;>
          simp only [List.mem_singleton, List.not_mem_nil] at hop <;> subst hop <;>
          exact ⟨if_neg hkg, rfl⟩

/-- `event_remove_client` settles every pin. -/
theorem settles_remove (client : Client) (g : Gpio) {r : Option Registration}
    (pins : List Gpio) {kinds : Kinds} (hk : kinds.Within (Registration.kinds r))
    (hheld : (∃ reg, r = some reg ∧ clientInfoMatch reg.ci client.info) →
      g ∈ pins ∨ kinds = .none)
    (hfree : (¬ ∃ reg, r = some reg ∧ clientInfoMatch reg.ci client.info) →
      g ∉ pins ∧ kinds = Registration.kinds r) :
    Settles g (pins.flatMap disableAll ++ [.release client.info]) kinds r := by
  induction pins generalizing kinds with
  | nil =>
      refine ⟨hk, ?_⟩
      change kinds = Registration.kinds (r.filter _)
      by_cases hmatch : ∃ reg, r = some reg ∧ clientInfoMatch reg.ci client.info
      · have hnone : kinds = .none := (hheld hmatch).resolve_left (by simp)
        obtain ⟨reg, rfl, hmatch⟩ := hmatch
        simp only [Option.filter_some, hmatch, decide_true, Bool.not_true, hnone]
        rfl
      · have hsame : r.filter (fun reg => !decide (clientInfoMatch reg.ci client.info)) = r := by
          cases r with
          | none => rfl
          | some reg =>
              have hno : ¬ clientInfoMatch reg.ci client.info := fun h => hmatch ⟨reg, rfl, h⟩
              simp only [Option.filter_some, hno, decide_false, Bool.not_false, if_true]
        rw [hsame]
        exact (hfree hmatch).2
  | cons p rest ih =>
      rw [List.flatMap_cons, List.append_assoc]
      by_cases hgp : g = p
      · subst hgp
        apply settles_disable hk
        apply ih (Kinds.none_within _)
        · exact fun _ => .inr rfl
        · intro hno
          exact absurd List.mem_cons_self (hfree hno).1
      · apply settles_other hgp
        apply ih hk
        · intro hmatch
          rcases hheld hmatch with hmem | hnone
          · exact .inl ((List.mem_cons.mp hmem).resolve_left hgp)
          · exact .inr hnone
        · intro hno
          exact ⟨fun hmem => (hfree hno).1 (List.mem_cons_of_mem _ hmem), (hfree hno).2⟩

/-! ## Runs -/

def Settling (s : EventServer Board) : Prop :=
  ∀ g, Settles g s.todo (s.chip.pins g).kinds (s.registry g)

theorem Settling.congr {s s' : EventServer Board} (h : Settling s) (htodo : s'.todo = s.todo)
    (hregistry : s'.registry = s.registry)
    (hkinds : ∀ g, (s'.chip.pins g).kinds = (s.chip.pins g).kinds) : Settling s' := by
  intro g
  rw [htodo, hregistry, hkinds]
  exact h g

theorem pin_event_kinds (b : Board) (g k : Gpio) (f : Pin → Bool) :
    ((b.pin g fun p => { p with event := f p }).pins k).kinds = (b.pins k).kinds := by
  simp only [Board.pin, Function.update_apply]
  split
  · next hk =>
    rw [hk]
    rfl
  · rfl

theorem settling_pass {s : EventServer Board} (h : Settling s) (accepted : Bool) :
    Settling (s.pass boardPins accepted) := by
  have hclear : ∀ g answered ist,
      Settling { s.clearDetect boardPins g answered with ist } := fun g _ _ =>
    h.congr rfl rfl fun k => pin_event_kinds s.chip g k fun _ => false
  unfold EventServer.pass
  cases s.ist with
  | waiting => exact h
  | scanning n =>
      dsimp only
      split
      · split
        · exact h
        · exact h
      · exact h
  | seen g detected =>
      dsimp only
      split
      · exact hclear g detected _
      · exact h
  | cleared g detected =>
      cases detected with
      | true => exact h
      | false => exact h
  | dispatched g =>
      dsimp only
      split
      · exact hclear g false _
      · exact h

theorem settling_step {s s' : EventServer Board} {e : EventStep} (h : Settling s)
    (hreg : Registered s) (hs : eventStep boardPins s e = some s') : Settling s' := by
  have hidle : s.todo = [] → ∀ g, (s.chip.pins g).kinds = Registration.kinds (s.registry g) := by
    intro htodo g
    have hg := h g
    rw [htodo] at hg
    exact hg
  cases e with
  | add client g msg =>
      simp only [eventStep] at hs
      split at hs
      · next htodo hops =>
        cases hs
        exact fun k => settles_add hops k (hidle htodo k)
      · cases hs
        exact h
      · cases hs
  | remove client =>
      simp only [eventStep] at hs
      split at hs
      · next htodo =>
        cases hs
        intro g
        have hiff := (hreg.entries g).match_iff client.connected
        apply settles_remove client g
        · rw [hidle htodo g]
          exact .refl _
        · intro hheld
          exact .inl (List.mem_filter.mpr ⟨List.mem_finRange g, decide_eq_true (hiff.mpr hheld)⟩)
        · intro hfree
          refine ⟨fun hmem => ?_, hidle htodo g⟩
          exact hfree (hiff.mp (of_decide_eq_true (List.mem_filter.mp hmem).2))
      · cases hs
  | write =>
      simp only [eventStep, EventServer.write] at hs
      split at hs
      · cases hs
      · next op rest htodo =>
        split at hs
        · cases hs
        · cases hs
          intro g
          have hg := h g
          rw [htodo] at hg
          change Settles g rest ((op.applyChip board s.chip).pins g).kinds
            (op.applyRegistry s.registry g)
          rw [applyChip_kinds, applyRegistry_at]
          exact hg.2
  | pass accepted =>
      cases hs
      exact settling_pass h accepted
  | latch g =>
      simp only [eventStep] at hs
      split at hs
      · cases hs
        exact h.congr rfl rfl fun k => pin_event_kinds s.chip g k fun _ => true
      · cases hs

theorem settling_reachable {ok : EventServer Board → EventStep → Prop} {s : EventServer Board}
    (h : (eventMachine boardPins).ReachableBy ok s) : Settling s := by
  apply h.invariant
  · rintro s ⟨c, rfl⟩
    exact fun g => rfl
  · intro s e s' hr hinv _ hs
    exact settling_step hinv (registered_reachable hr) hs

/-- The detection registers and the deliveries follow the registrations. -/
structure Attributed (s : EventServer Chip) : Prop where
  /-- nothing is detected on a pin that its holder did not ask for -/
  within : ∀ g, (s.chip.pin g).kinds.Within (Registration.kinds (s.registry g))
  settled : s.todo = [] → ∀ g, (s.chip.pin g).kinds = Registration.kinds (s.registry g)
  /-- a delivery goes to the holder at that time, or to nobody -/
  addressed : ∀ d ∈ s.deliveries, d.1.rcvid = Registration.address d.2
  refused : ∀ client g msg, eventAdd s.table (Client.info client) g msg = .error .busy ↔
    ∃ r, s.registry g = some r ∧ ¬ clientInfoMatch r.ci client.info

/-- At any point of any interleaving of requests, register writes, passes of the
interrupt thread and events of the chip. -/
theorem detection_attributed {s : EventServer Chip} (h : (eventMachine chipPins).Reachable s) :
    Attributed s := by
  have hboard : (eventMachine boardPins).Reachable (s.map Chip.board) :=
    board_reachable (fun _ _ => id) h
  have hsettling := settling_reachable hboard
  have hreg := registered_reachable h
  refine ⟨fun g => (hsettling g).within, ?_, hreg.addressed, ?_⟩
  · intro htodo g
    have hg := hsettling g
    have htodo' : (s.map Chip.board).todo = [] := htodo
    rw [htodo'] at hg
    exact hg
  · intro client g msg
    have hentry := hreg.entries g
    unfold eventAdd
    constructor
    · intro hbusy
      split at hbusy
      · next hheld =>
        cases hr : s.registry g with
        | none =>
            rw [hr] at hentry
            exact absurd hentry hheld.1
        | some r =>
            rw [hr] at hentry
            exact ⟨r, rfl, hentry.1 ▸ hheld.2⟩
      · cases hbusy
    · rintro ⟨r, hr, hother⟩
      rw [hr] at hentry
      obtain ⟨hci, hpos, -⟩ := hentry
      have hused : ¬ clientInfoIsUnused (s.table g).ci := by
        intro hunused
        rw [← hci, hunused] at hpos
        exact absurd hpos (by decide)
      rw [if_pos ⟨hused, hci ▸ hother⟩]

/-! ## One event -/

def risingEdges : EventMsg := ⟨rpiEventEdgeRising, ⟨false, 0, 7⟩, 0⟩

def registerRising (g : Gpio) : List EventStep :=
  .add someClient g risingEdges :: List.replicate 6 .write

def passPinZero : List EventStep := List.replicate 4 (.pass true)

/-- An edge after the registration is delivered to the client. -/
theorem detection_attributed_once :
    ∃ s, s.deliveries = [(⟨pinZero, 5, ⟨false, 0, 7⟩⟩, some ⟨someClient.info, rpiEventEdgeRising⟩)] ∧
      Attributed s := by
  have hstart : (eventMachine chipPins).Reachable (eventsStarted chipPins zeroChip) :=
    .initial ⟨zeroChip, rfl⟩
  obtain ⟨s, hreach, hs⟩ := hstart.after_any
    (registerRising pinZero ++ [.latch pinZero] ++ passPinZero)
    (fun s => decide (s.deliveries =
      [(⟨pinZero, 5, ⟨false, 0, 7⟩⟩, some ⟨someClient.info, rpiEventEdgeRising⟩)])) (by decide)
  exact ⟨s, of_decide_eq_true hs, detection_attributed hreach⟩

end QnxHypervisor.GpioServer
