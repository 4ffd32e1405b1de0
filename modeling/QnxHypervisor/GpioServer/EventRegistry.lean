import QnxHypervisor.GpioServer.Interrupts

/-! # Who is registered

The runs of the register chip are runs of the board. On either, an abstract registry of
clients is kept beside the table, and the table agrees with it.
-/

namespace QnxHypervisor.GpioServer

open Foundation

variable {C B : Type} {P : Pins C} {Q : Pins B} {abs : C → B}

/-! ## From one chip to another -/

def EventServer.map (f : C → B) (s : EventServer C) : EventServer B where
  chip := f s.chip
  table := s.table
  todo := s.todo
  ist := s.ist
  registry := s.registry
  tally := s.tally
  deliveries := s.deliveries

theorem applyChip_map (h : PinsRefine P Q abs) (op : EventOp) (c : C) :
    abs (op.applyChip P.config c) = op.applyChip Q.config (abs c) := by
  cases op with
  | rising g enable => exact h.config.detectRisingEdge g enable c
  | falling g enable => exact h.config.detectFallingEdge g enable c
  | high g enable => exact h.config.detectLevelHigh g enable c
  | low g enable => exact h.config.detectLevelLow g enable c
  | record g entry => rfl
  | release ci => rfl

theorem clearDetect_map (h : PinsRefine P Q abs) (s : EventServer C) (g : Gpio) (answered : Bool) :
    (s.clearDetect P g answered).map abs = (s.map abs).clearDetect Q g answered := by
  dsimp only [EventServer.clearDetect, EventServer.map, EventServer.tallyOf]
  rw [h.config.eventClearDetect, h.config.eventDetected]

theorem dispatch_map (h : PinsRefine P Q abs) (s : EventServer C) (g : Gpio) (accepted : Bool) :
    (s.dispatch P g accepted).map abs = (s.map abs).dispatch Q g accepted := by
  dsimp only [EventServer.dispatch, EventServer.map, EventServer.tallyOf, dispatchEvent]
  rw [h.config.read]

theorem pass_map (h : PinsRefine P Q abs) (s : EventServer C) (accepted : Bool) :
    (s.pass P accepted).map abs = (s.map abs).pass Q accepted := by
  have hist : (s.map abs).ist = s.ist := rfl
  have htable : (s.map abs).table = s.table := rfl
  unfold EventServer.pass
  rw [hist]
  cases s.ist with
  | waiting => rfl
  | scanning n =>
      simp only [htable]
      split
      · split
        · rfl
        · simp only [EventServer.map, h.config.eventDetected]
      · rfl
  | seen g detected =>
      simp only [htable]
      split
      · rw [← clearDetect_map h]
        rfl
      · rfl
  | cleared g detected =>
      cases detected with
      | true =>
          simp only [if_true]
          rw [← dispatch_map h]
          rfl
      | false => rfl
  | dispatched g =>
      simp only [htable]
      split
      · rw [← clearDetect_map h]
        rfl
      · rfl

theorem write_map (h : PinsRefine P Q abs) (s : EventServer C) :
    (s.map abs).write Q = (s.write P).map (EventServer.map abs) := by
  have htodo : (s.map abs).todo = s.todo := rfl
  unfold EventServer.write
  rw [htodo]
  cases s.todo with
  | nil => rfl
  | cons op rest =>
      have hchip : op.applyChip Q.config (s.map abs).chip = abs (op.applyChip P.config s.chip) :=
        (applyChip_map h op s.chip).symm
      dsimp only
      rw [hchip]
      change (if op.locks = true ∧ s.ist ≠ .waiting then none else _) = _
      split <;> rfl

theorem eventStep_map (h : PinsRefine P Q abs) {s s' : EventServer C} {e : EventStep}
    (hs : eventStep P s e = some s') : eventStep Q (s.map abs) e = some (s'.map abs) := by
  cases e with
  | add client g msg =>
      have htodo : (s.map abs).todo = s.todo := rfl
      have htable : (s.map abs).table = s.table := rfl
      simp only [eventStep] at hs ⊢
      rw [htodo, htable]
      revert hs
      cases s.todo with
      | nil =>
          cases eventAdd s.table client.info g msg with
          | error e =>
              intro hs
              cases hs
              rfl
          | ok ops =>
              intro hs
              cases hs
              rfl
      | cons op rest =>
          intro hs
          cases hs
  | remove client =>
      have htodo : (s.map abs).todo = s.todo := rfl
      simp only [eventStep] at hs ⊢
      rw [htodo]
      revert hs
      cases s.todo with
      | nil =>
          intro hs
          cases hs
          rfl
      | cons op rest =>
          intro hs
          cases hs
  | write => exact (write_map h s).trans (congrArg (Option.map _) hs)
  | pass accepted =>
      cases hs
      exact congrArg some (pass_map h s accepted).symm
  | latch g =>
      simp only [eventStep] at hs ⊢
      split at hs
      · next harmed =>
        cases hs
        have harmed' : Q.armed g (s.map abs).chip = true := (h.armed g s.chip).symm.trans harmed
        rw [if_pos harmed']
        dsimp only [EventServer.map, EventServer.tallyOf]
        rw [h.raise, h.config.eventDetected]
        rfl
      · cases hs

theorem board_reachable {ok : EventServer Chip → EventStep → Prop}
    {ok' : EventServer Board → EventStep → Prop} {s : EventServer Chip}
    (hok : ∀ s e, ok s e → ok' (s.map Chip.board) e)
    (h : (eventMachine chipPins).ReachableBy ok s) :
    (eventMachine boardPins).ReachableBy ok' (s.map Chip.board) := by
  apply h.seen (EventServer.map Chip.board)
  · rintro s ⟨c, rfl⟩
    refine ⟨c.board, ?_⟩
    simp only [eventsStarted, EventServer.map, chipPins_refine.config.eventClearAllEvents]
  · intro s e s' _ hs hstep
    exact .inr ⟨e, hok s e hs, eventStep_map chipPins_refine hstep⟩

/-! ## The registry and the table -/

/-- An entry and the registration it stands for. A failed delivery turns an entry's
detection off, and a released entry keeps its detection. -/
def EntryFor (e : EventEntry) : Option Registration → Prop
  | none => e.ci = unusedClient
  | some r => e.ci = r.ci ∧ 0 < r.ci.rcvid ∧ 0 ≤ r.ci.scoid ∧
      (e.detect = r.detect ∨ e.detect = rpiEventNone)

/-- The receive id that a delivery under this registration uses. -/
def Registration.address : Option Registration → Int
  | none => 0
  | some r => r.ci.rcvid

def EventOp.OfClient : EventOp → Prop
  | .record _ e => 0 < e.ci.rcvid ∧ 0 ≤ e.ci.scoid
  | .release ci => 0 ≤ ci.scoid
  | _ => True

structure Registered (s : EventServer C) : Prop where
  entries : ∀ g, EntryFor (s.table g) (s.registry g)
  todo : ∀ op ∈ s.todo, op.OfClient
  addressed : ∀ d ∈ s.deliveries, d.1.rcvid = Registration.address d.2

theorem EntryFor.match_iff {e : EventEntry} {r : Option Registration} (h : EntryFor e r)
    {ci : ClientInfo} (hci : 0 ≤ ci.scoid) :
    clientInfoMatch e.ci ci ↔ ∃ reg, r = some reg ∧ clientInfoMatch reg.ci ci := by
  cases r with
  | none =>
      have hunused : e.ci = unusedClient := h
      constructor
      · intro hmatch
        have hscoid : (-1 : Int) = ci.scoid := by
          rw [hunused] at hmatch
          exact hmatch.1
        omega
      · rintro ⟨_, hnone, _⟩
        cases hnone
  | some reg =>
      have hci : e.ci = reg.ci := h.1
      rw [hci]
      constructor
      · intro hmatch
        exact ⟨reg, rfl, hmatch⟩
      · rintro ⟨_, hreg, hmatch⟩
        cases hreg
        exact hmatch

theorem entryFor_apply {table : EventTable} {registry : Gpio → Option Registration}
    (h : ∀ g, EntryFor (table g) (registry g)) {op : EventOp} (hop : op.OfClient) (g : Gpio) :
    EntryFor (op.applyTable table g) (op.applyRegistry registry g) := by
  cases op with
  | record k e =>
      simp only [EventOp.applyTable, EventOp.applyRegistry, Function.update_apply]
      split
      · exact ⟨rfl, hop.1, hop.2, .inl rfl⟩
      · exact h g
  | release ci =>
      have hentry := h g
      have hiff := hentry.match_iff hop
      simp only [EventOp.applyTable, EventOp.applyRegistry]
      cases hr : registry g with
      | none =>
          rw [hr] at hentry
          split
          · rfl
          · exact hentry
      | some r =>
          rw [hr] at hentry hiff
          by_cases hmatch : clientInfoMatch r.ci ci
          · rw [if_pos (hiff.mpr ⟨r, rfl, hmatch⟩)]
            simp only [Option.filter_some, hmatch, decide_true, Bool.not_true]
            rfl
          · have hno : ¬ clientInfoMatch (table g).ci ci := by
              intro hyes
              obtain ⟨reg, hreg, hin⟩ := hiff.mp hyes
              cases hreg
              exact hmatch hin
            rw [if_neg hno]
            simp only [Option.filter_some, hmatch, decide_false, Bool.not_false, if_true]
            exact hentry
  | rising k enable => exact h g
  | falling k enable => exact h g
  | high k enable => exact h g
  | low k enable => exact h g

theorem dispatchEvent_entry (config : GpioConfig C) (g : Gpio) (accepted : Bool) (c : C)
    (table : EventTable) :
    (∀ k, ((dispatchEvent config g accepted c table).1 k).ci = (table k).ci ∧
      (((dispatchEvent config g accepted c table).1 k).detect = (table k).detect ∨
        ((dispatchEvent config g accepted c table).1 k).detect = rpiEventNone)) ∧
      ∀ d, (dispatchEvent config g accepted c table).2 = some d →
        d.gpio = g ∧ d.rcvid = (table g).ci.rcvid := by
  have hcounted : ∀ value, ((table g).counted g value).1.ci = (table g).ci ∧
      ((table g).counted g value).1.detect = (table g).detect := by
    intro value
    unfold EventEntry.counted
    dsimp only
    split <;> exact ⟨rfl, rfl⟩
  obtain ⟨hci, hdetect⟩ := hcounted (config.read g c)
  have hupdate : ∀ e : EventEntry, e.ci = (table g).ci →
      (e.detect = (table g).detect ∨ e.detect = rpiEventNone) →
      ∀ k, (Function.update table g e k).ci = (table k).ci ∧
        ((Function.update table g e k).detect = (table k).detect ∨
          (Function.update table g e k).detect = rpiEventNone) := by
    intro e hci hdetect k
    rw [Function.update_apply]
    split
    · next hk =>
      rw [hk]
      exact ⟨hci, hdetect⟩
    · exact ⟨rfl, .inl rfl⟩
  unfold dispatchEvent
  split
  · exact ⟨fun k => ⟨rfl, .inl rfl⟩, fun d hd => by cases hd⟩
  · dsimp only
    split
    · refine ⟨hupdate _ ?_ ?_, ?_⟩
      · split
        · exact hci
        · exact hci
      · split
        · exact .inl hdetect
        · exact .inr rfl
      · intro d hd
        cases hd
        exact ⟨rfl, congrArg ClientInfo.rcvid hci⟩
    · exact ⟨hupdate _ hci (.inl hdetect), fun d hd => by cases hd⟩

theorem EntryFor.congr {e e' : EventEntry} {r : Option Registration} (h : EntryFor e r)
    (hci : e'.ci = e.ci) (hdetect : e'.detect = e.detect ∨ e'.detect = rpiEventNone) :
    EntryFor e' r := by
  cases r with
  | none => exact hci.trans h
  | some r =>
      obtain ⟨hreg, hpos, hconn, hkind⟩ := h
      refine ⟨hci.trans hreg, hpos, hconn, ?_⟩
      rcases hdetect with hsame | hnone
      · rwa [hsame]
      · exact .inr hnone

theorem EntryFor.address {e : EventEntry} {r : Option Registration} (h : EntryFor e r) :
    e.ci.rcvid = Registration.address r := by
  cases r with
  | none =>
      have hunused : e.ci = unusedClient := h
      rw [hunused]
      rfl
  | some r => exact congrArg ClientInfo.rcvid h.1

theorem registered_dispatch {s : EventServer C} (h : Registered s) (g : Gpio) (accepted : Bool) :
    Registered (s.dispatch P g accepted) := by
  obtain ⟨hentry, hdelivery⟩ := dispatchEvent_entry P.config g accepted s.chip s.table
  refine ⟨fun k => (h.entries k).congr (hentry k).1 (hentry k).2, h.todo, ?_⟩
  intro d hd
  rcases List.mem_append.mp hd with hold | hnew
  · exact h.addressed d hold
  · obtain ⟨d', hd', rfl⟩ := List.mem_map.mp hnew
    have hsome := hdelivery d' (Option.mem_toList.mp hd')
    rw [hsome.2]
    exact (h.entries g).address

/-- Whatever the interrupt thread does, table and registry agree. -/
theorem registered_pass {s : EventServer C} (h : Registered s) (accepted : Bool) :
    Registered (s.pass P accepted) := by
  unfold EventServer.pass
  cases s.ist with
  | waiting => exact ⟨h.entries, h.todo, h.addressed⟩
  | scanning n =>
      dsimp only
      split
      · split
        · exact ⟨h.entries, h.todo, h.addressed⟩
        · exact ⟨h.entries, h.todo, h.addressed⟩
      · exact ⟨h.entries, h.todo, h.addressed⟩
  | seen g detected =>
      dsimp only
      split <;> exact ⟨h.entries, h.todo, h.addressed⟩
  | cleared g detected =>
      cases detected with
      | true =>
          have hnext := registered_dispatch (P := P) h g accepted
          exact ⟨hnext.entries, hnext.todo, hnext.addressed⟩
      | false => exact ⟨h.entries, h.todo, h.addressed⟩
  | dispatched g =>
      dsimp only
      split <;> exact ⟨h.entries, h.todo, h.addressed⟩

/-- Only detection writes come before and after the record. -/
theorem eventAdd_ofClient {table : EventTable} {client : Client} {g : Gpio} {msg : EventMsg}
    {ops : List EventOp} (h : eventAdd table client.info g msg = .ok ops) :
    ∀ op ∈ ops, op.OfClient := by
  unfold eventAdd at h
  split at h
  · cases h
  · cases h
    intro op hop
    rcases List.mem_append.mp hop with hop | hop
    · rcases List.mem_append.mp hop with hop | hop
      · simp only [disableAll, List.mem_cons, List.not_mem_nil, or_false] at hop
        rcases hop with rfl | rfl | rfl | rfl <;> trivial
      · obtain rfl := List.mem_singleton.mp hop
        exact ⟨client.received, client.connected⟩
    · simp only [enableAsked, List.mem_append] at hop
      rcases hop with ((hop | hop) | hop) | hop <;> split at hop <;>
        simp only [List.mem_singleton, List.not_mem_nil] at hop <;> subst hop <;> trivial

theorem eventRemoveClient_ofClient (table : EventTable) (client : Client) :
    ∀ op ∈ eventRemoveClient table client.info, op.OfClient := by
  intro op hop
  rcases List.mem_append.mp hop with hop | hop
  · obtain ⟨k, -, hk⟩ := List.mem_flatMap.mp hop
    simp only [disableAll, List.mem_cons, List.not_mem_nil, or_false] at hk
    rcases hk with rfl | rfl | rfl | rfl <;> trivial
  · obtain rfl := List.mem_singleton.mp hop
    exact client.connected

theorem registered_step {s s' : EventServer C} {e : EventStep} (h : Registered s)
    (hs : eventStep P s e = some s') : Registered s' := by
  cases e with
  | add client g msg =>
      simp only [eventStep] at hs
      split at hs
      · next hops =>
        cases hs
        exact ⟨h.entries, eventAdd_ofClient hops, h.addressed⟩
      · cases hs
        exact h
      · cases hs
  | remove client =>
      simp only [eventStep] at hs
      split at hs
      · cases hs
        exact ⟨h.entries, eventRemoveClient_ofClient s.table client, h.addressed⟩
      · cases hs
  | write =>
      simp only [eventStep, EventServer.write] at hs
      split at hs
      · cases hs
      · next op rest htodo =>
        split at hs
        · cases hs
        · cases hs
          have hmem : ∀ op' ∈ op :: rest, op'.OfClient := fun op' hop' => h.todo op' (htodo ▸ hop')
          exact ⟨entryFor_apply h.entries (hmem op List.mem_cons_self),
            fun op' hop' => hmem op' (List.mem_cons_of_mem _ hop'), h.addressed⟩
  | pass accepted =>
      cases hs
      exact registered_pass h accepted
  | latch g =>
      simp only [eventStep] at hs
      split at hs
      · cases hs
        exact ⟨h.entries, h.todo, h.addressed⟩
      · cases hs

theorem registered_reachable {ok : EventServer C → EventStep → Prop} {s : EventServer C}
    (h : (eventMachine P).ReachableBy ok s) : Registered s := by
  apply h.invariant
  · rintro s ⟨c, rfl⟩
    exact ⟨fun g => rfl, (by simp [eventsStarted]), (by simp [eventsStarted])⟩
  · intro s e s' _ hinv _ hs
    exact registered_step hinv hs

end QnxHypervisor.GpioServer
