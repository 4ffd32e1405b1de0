import QnxHypervisor.GpioServer.Detection

/-! # Every event accounted for

Each latched event is dispatched once, is still pending, or was cleared by a pass that
had looked at the pin just before; and of the dispatches under one registration every
match-th is delivered.
-/

namespace QnxHypervisor.GpioServer

open Foundation

variable {C : Type} {P : Pins C}

/-! ## Counting to the match -/

structure Counted (e : EventEntry) (t : Tally) : Prop where
  count : e.count = BitVec.ofNat 32 t.since
  since : t.since = t.matched * e.matching.toNat + e.matchCount.toNat
  delivered : t.delivered = if e.sigev.silent then 0 else t.matched
  /-- only the empty table has no match value -/
  matching : e.matching = 0 → e.detect = rpiEventNone
  below : e.matching ≠ 0 → e.matchCount.toNat < e.matching.toNat

theorem EventMsg.entry_counted (ci : ClientInfo) (msg : EventMsg) (t : Tally) :
    Counted (msg.entry ci) { t with since := 0, matched := 0, delivered := 0 } := by
  have hmatching : (msg.entry ci).matching ≠ 0 := by
    unfold EventMsg.entry
    dsimp only
    split
    · decide
    · assumption
  have hpos : 0 < (msg.entry ci).matching.toNat := by
    apply Nat.pos_of_ne_zero
    intro hzero
    exact hmatching (BitVec.eq_of_toNat_eq hzero)
  constructor
  case count => rfl
  case since => exact (Nat.zero_mul _).symm
  case delivered => exact (ite_self _).symm
  case matching => exact fun h => absurd h hmatching
  case below => exact fun _ => hpos

theorem counted_entry (e : EventEntry) (g : Gpio) (value : BitVec 32)
    (h : e.matchCount.toNat < e.matching.toNat) :
    (e.counted g value).1.count = e.count + 1 ∧
      (e.counted g value).1.matching = e.matching ∧
      (e.counted g value).1.detect = e.detect ∧
      (e.counted g value).1.sigev.silent = e.sigev.silent ∧
      (((e.counted g value).2 = false ∧
          (e.counted g value).1.matchCount.toNat = e.matchCount.toNat + 1 ∧
          e.matchCount.toNat + 1 < e.matching.toNat) ∨
        ((e.counted g value).2 = true ∧ (e.counted g value).1.matchCount.toNat = 0 ∧
          e.matchCount.toNat + 1 = e.matching.toNat)) := by
  have hbound := e.matching.isLt
  have hnext : (e.matchCount + 1).toNat = e.matchCount.toNat + 1 := by
    have hfits : e.matchCount.toNat + 1 < 2 ^ 32 := by omega
    rw [BitVec.toNat_add]
    exact Nat.mod_eq_of_lt hfits
  unfold EventEntry.counted
  dsimp only
  split
  · next hless =>
    have hless : (e.matchCount + 1).toNat < e.matching.toNat := hless
    exact ⟨rfl, rfl, rfl, rfl, .inl ⟨rfl, hnext, hnext ▸ hless⟩⟩
  · next hfull =>
    have hfull : ¬ (e.matchCount + 1).toNat < e.matching.toNat := hfull
    exact ⟨rfl, rfl, rfl, rfl, .inr ⟨rfl, rfl, by omega⟩⟩

theorem Counted.dispatch {e : EventEntry} {t : Tally} (h : Counted e t)
    (hon : e.detect ≠ rpiEventNone) (g : Gpio) (value : BitVec 32) (e' : EventEntry)
    (he' : e' = (e.counted g value).1 ∨
      e' = { (e.counted g value).1 with detect := rpiEventNone }) :
    Counted e' { t with
      dispatched := t.dispatched + 1
      since := t.since + 1
      matched := if (e.counted g value).2 then t.matched + 1 else t.matched
      delivered := t.delivered +
        if (e.counted g value).2 = true ∧ e.sigev.silent = false then 1 else 0 } := by
  have hmatching : e.matching ≠ 0 := fun hzero => hon (h.matching hzero)
  have hbelow := h.below hmatching
  obtain ⟨hcount, hmatch, -, hsilent, hcases⟩ := counted_entry e g value hbelow
  have hsame : e'.count = (e.counted g value).1.count ∧
      e'.matching = (e.counted g value).1.matching ∧
      e'.matchCount = (e.counted g value).1.matchCount ∧
      e'.sigev = (e.counted g value).1.sigev := by
    rcases he' with rfl | rfl <;> exact ⟨rfl, rfl, rfl, rfl⟩
  obtain ⟨hcount', hmatch', hmatchCount', hsigev'⟩ := hsame
  have hsince := h.since
  have hdelivered := h.delivered
  constructor
  case count =>
    rw [hcount', hcount, h.count]
    apply BitVec.eq_of_toNat_eq
    simp [BitVec.toNat_add]
  case since =>
    rw [hmatch', hmatch, hmatchCount']
    change t.since + 1 = (if (e.counted g value).2 = true then t.matched + 1 else t.matched) * _ + _
    rcases hcases with ⟨hfull, hnext, -⟩ | ⟨hfull, hnext, hreach⟩
    · rw [hfull, hnext, if_neg (by simp)]
      omega
    · rw [hfull, hnext, if_pos rfl, Nat.add_mul, Nat.one_mul]
      omega
  case delivered =>
    rw [hsigev', hsilent, hdelivered]
    rcases hcases with ⟨hfull, -⟩ | ⟨hfull, -⟩ <;> rw [hfull] <;>
      cases e.sigev.silent <;> simp
  case matching =>
    intro hzero
    rw [hmatch', hmatch] at hzero
    exact absurd hzero hmatching
  case below =>
    intro _
    rw [hmatch', hmatch, hmatchCount']
    rcases hcases with ⟨-, hnext, hless⟩ | ⟨-, hnext, hreach⟩ <;> omega

theorem dispatchEvent_counted (config : GpioConfig C) (g : Gpio) (accepted : Bool) (c : C)
    (table : EventTable) (hon : (table g).detect ≠ rpiEventNone) :
    ∃ e', (e' = ((table g).counted g (config.read g c)).1 ∨
        e' = { ((table g).counted g (config.read g c)).1 with detect := rpiEventNone }) ∧
      (dispatchEvent config g accepted c table).1 = Function.update table g e' ∧
      (dispatchEvent config g accepted c table).2.toList.length =
        if ((table g).counted g (config.read g c)).2 = true ∧ (table g).sigev.silent = false
        then 1 else 0 := by
  have hsilent : ((table g).counted g (config.read g c)).1.sigev.silent =
      (table g).sigev.silent := by
    unfold EventEntry.counted
    dsimp only
    split <;> rfl
  unfold dispatchEvent
  rw [if_neg hon]
  dsimp only
  rw [hsilent]
  split
  · next hfull =>
    cases accepted with
    | true => exact ⟨_, .inl rfl, rfl, rfl⟩
    | false => exact ⟨_, .inr rfl, rfl, rfl⟩
  · exact ⟨_, .inl rfl, rfl, rfl⟩

/-- Every entry has counted, and the pass looks at pins that are on only. -/
structure Counting (s : EventServer C) : Prop where
  entries : ∀ g, Counted (s.table g) (s.tally g)
  looking : ∀ g detected, s.ist = .seen g detected ∨ s.ist = .cleared g detected →
    (s.table g).detect ≠ rpiEventNone
  /-- entries to be recorded start from zero -/
  todo : ∀ g e, EventOp.record g e ∈ s.todo → ∃ ci msg, e = EventMsg.entry ci msg

theorem Counted.congr {e : EventEntry} {t t' : Tally} (h : Counted e t)
    (hsame : t'.since = t.since ∧ t'.matched = t.matched ∧ t'.delivered = t.delivered) :
    Counted e t' := by
  obtain ⟨hsince, hmatched, hdelivered⟩ := hsame
  constructor
  case count => rw [hsince, h.count]
  case since => rw [hsince, hmatched, h.since]
  case delivered => rw [hdelivered, hmatched, h.delivered]
  case matching => exact h.matching
  case below => exact h.below

theorem counted_tallyOf {s : EventServer C} (h : ∀ g, Counted (s.table g) (s.tally g)) (g : Gpio)
    (f : Tally → Tally)
    (hf : (f (s.tally g)).since = (s.tally g).since ∧ (f (s.tally g)).matched = (s.tally g).matched ∧
      (f (s.tally g)).delivered = (s.tally g).delivered)
    (k : Gpio) : Counted (s.table k) (s.tallyOf g f k) := by
  unfold EventServer.tallyOf
  rw [Function.update_apply]
  split
  · next hk =>
    rw [hk]
    exact (h g).congr hf
  · exact h k

theorem counted_clearDetect {s : EventServer C} (h : ∀ g, Counted (s.table g) (s.tally g))
    (g : Gpio) (answered : Bool) (k : Gpio) :
    Counted ((s.clearDetect P g answered).table k) ((s.clearDetect P g answered).tally k) := by
  change Counted (s.table k) (s.tallyOf g _ k)
  refine counted_tallyOf h g _ ?_ k
  split <;> exact ⟨rfl, rfl, rfl⟩

theorem counted_dispatch {s : EventServer C} (h : ∀ g, Counted (s.table g) (s.tally g)) (g : Gpio)
    (accepted : Bool) (hon : (s.table g).detect ≠ rpiEventNone) (k : Gpio) :
    Counted ((s.dispatch P g accepted).table k) ((s.dispatch P g accepted).tally k) := by
  obtain ⟨e', he', htable, hlength⟩ :=
    dispatchEvent_counted P.config g accepted s.chip s.table hon
  have htally : (s.dispatch P g accepted).tally = s.tallyOf g fun t => { t with
      dispatched := t.dispatched + 1
      since := t.since + 1
      matched := if ((s.table g).counted g (P.config.read g s.chip)).2 then t.matched + 1
        else t.matched
      delivered := t.delivered +
        (dispatchEvent P.config g accepted s.chip s.table).2.toList.length } := rfl
  have htable' : (s.dispatch P g accepted).table =
      (dispatchEvent P.config g accepted s.chip s.table).1 := rfl
  rw [htally, htable', htable, hlength, EventServer.tallyOf, Function.update_apply,
    Function.update_apply]
  split
  · exact (h g).dispatch hon g _ e' he'
  · exact h k

theorem counting_pass {s : EventServer C} (h : Counting s) (accepted : Bool) :
    Counting (s.pass P accepted) := by
  unfold EventServer.pass
  cases hist : s.ist with
  | waiting => exact ⟨h.entries, (by simp), h.todo⟩
  | scanning n =>
      dsimp only
      split
      · split
        · exact ⟨h.entries, (by simp), h.todo⟩
        · next hon =>
          refine ⟨h.entries, ?_, h.todo⟩
          rintro g detected (hseen | hcleared)
          · cases hseen
            exact hon
          · cases hcleared
      · exact ⟨h.entries, (by simp), h.todo⟩
  | seen g detected =>
      have hon := h.looking g detected (.inl hist)
      have hlook : ∀ k b, Ist.cleared g detected = .seen k b ∨ Ist.cleared g detected = .cleared k b →
          (s.table k).detect ≠ rpiEventNone := by
        rintro k b (hseen | hcleared)
        · cases hseen
        · cases hcleared
          exact hon
      dsimp only
      split
      · exact ⟨counted_clearDetect h.entries g detected, hlook, h.todo⟩
      · exact ⟨h.entries, hlook, h.todo⟩
  | cleared g detected =>
      have hon := h.looking g detected (.inr hist)
      cases detected with
      | true => exact ⟨counted_dispatch h.entries g accepted hon, (by simp), h.todo⟩
      | false => exact ⟨h.entries, (by simp), h.todo⟩
  | dispatched g =>
      dsimp only
      split
      · exact ⟨counted_clearDetect h.entries g false, (by simp), h.todo⟩
      · exact ⟨h.entries, (by simp), h.todo⟩

theorem counted_apply {table : EventTable} {tally : Gpio → Tally}
    (h : ∀ g, Counted (table g) (tally g)) {op : EventOp}
    (hop : ∀ g e, op = .record g e → ∃ ci msg, e = EventMsg.entry ci msg) (g : Gpio) :
    Counted (op.applyTable table g) (op.applyTally tally g) := by
  cases op with
  | record k e =>
      obtain ⟨ci, msg, rfl⟩ := hop k e rfl
      simp only [EventOp.applyTable, EventOp.applyTally, Function.update_apply]
      split
      · exact msg.entry_counted ci (tally k)
      · exact h g
  | release ci =>
      have hg := h g
      simp only [EventOp.applyTable, EventOp.applyTally]
      split
      · exact ⟨hg.count, hg.since, hg.delivered, hg.matching, hg.below⟩
      · exact hg
  | rising k enable => exact h g
  | falling k enable => exact h g
  | high k enable => exact h g
  | low k enable => exact h g

theorem eventAdd_record {table : EventTable} {ci : ClientInfo} {g : Gpio} {msg : EventMsg}
    {ops : List EventOp} (h : eventAdd table ci g msg = .ok ops) (k : Gpio) (e : EventEntry)
    (hmem : EventOp.record k e ∈ ops) : k = g ∧ e = msg.entry ci := by
  unfold eventAdd at h
  split at h
  · cases h
  · cases h
    rcases List.mem_append.mp hmem with hop | hop
    · rcases List.mem_append.mp hop with hop | hop
      · simp [disableAll] at hop
      · cases List.mem_singleton.mp hop
        exact ⟨rfl, rfl⟩
    · simp only [enableAsked, List.mem_append] at hop
      rcases hop with ((hop | hop) | hop) | hop <;> split at hop <;> simp at hop

theorem eventRemoveClient_record (table : EventTable) (ci : ClientInfo) (k : Gpio)
    (e : EventEntry) : EventOp.record k e ∉ eventRemoveClient table ci := by
  intro hmem
  rcases List.mem_append.mp hmem with hop | hop
  · obtain ⟨p, -, hp⟩ := List.mem_flatMap.mp hop
    simp [disableAll] at hp
  · simp at hop

theorem counting_step {s s' : EventServer C} {e : EventStep} (h : Counting s)
    (hs : eventStep P s e = some s') : Counting s' := by
  cases e with
  | add client g msg =>
      simp only [eventStep] at hs
      split at hs
      · next hops =>
        cases hs
        exact ⟨h.entries, h.looking, fun k e hmem => ⟨_, _, (eventAdd_record hops k e hmem).2⟩⟩
      · cases hs
        exact h
      · cases hs
  | remove client =>
      simp only [eventStep] at hs
      split at hs
      · cases hs
        exact ⟨h.entries, h.looking,
          fun k e hmem => absurd hmem (eventRemoveClient_record s.table client.info k e)⟩
      · cases hs
  | write =>
      simp only [eventStep, EventServer.write] at hs
      split at hs
      · cases hs
      · next op rest htodo =>
        split at hs
        · cases hs
        · next hfree =>
          cases hs
          have hrecord : ∀ op' ∈ op :: rest, ∀ g e, op' = .record g e →
              ∃ ci msg, e = EventMsg.entry ci msg := by
            rintro op' hop' g e rfl
            exact h.todo g e (htodo ▸ hop')
          refine ⟨counted_apply h.entries (hrecord op List.mem_cons_self), ?_,
            fun g e hmem => hrecord _ (List.mem_cons_of_mem _ hmem) g e rfl⟩
          intro g detected hist
          -- a pass is under way, so this is no update of the table
          have hunlocked : op.locks = false := by
            cases hlocks : op.locks with
            | false => rfl
            | true =>
                refine absurd ⟨hlocks, ?_⟩ hfree
                intro hwaiting
                rcases hist with hist | hist <;> cases hwaiting.symm.trans hist
          have htable : op.applyTable s.table = s.table := by
            cases op
            case record | release => cases hunlocked
            all_goals rfl
          change (op.applyTable s.table g).detect ≠ rpiEventNone
          rw [htable]
          exact h.looking g detected hist
  | pass accepted =>
      cases hs
      exact counting_pass h accepted
  | latch g =>
      simp only [eventStep] at hs
      split at hs
      · cases hs
        refine ⟨fun k => ?_, h.looking, h.todo⟩
        dsimp only
        refine counted_tallyOf h.entries g _ ?_ k
        split <;> exact ⟨rfl, rfl, rfl⟩
      · cases hs

theorem counting_reachable {ok : EventServer C → EventStep → Prop} {s : EventServer C}
    (h : (eventMachine P).ReachableBy ok s) : Counting s := by
  apply h.invariant
  · rintro s ⟨c, rfl⟩
    refine ⟨fun g => ⟨rfl, rfl, rfl, fun _ => rfl, fun hne => absurd rfl hne⟩, ?_, ?_⟩
    · rintro g detected (hist | hist) <;> cases hist
    · intro g e hmem
      cases hmem
  · intro s e s' _ hinv _ hs
    exact counting_step hinv hs

/-- Of the dispatches under one registration every match-th is delivered, unless the
client asked for silence, and the counter holds their number. -/
structure MatchesDelivered (e : EventEntry) (t : Tally) : Prop where
  count : e.count = BitVec.ofNat 32 t.since
  matched : e.matching ≠ 0 → t.matched = t.since / e.matching.toNat
  delivered : e.matching ≠ 0 →
    t.delivered = if e.sigev.silent then 0 else t.since / e.matching.toNat

theorem Counted.matches {e : EventEntry} {t : Tally} (h : Counted e t) : MatchesDelivered e t := by
  have hmatched : e.matching ≠ 0 → t.matched = t.since / e.matching.toNat := by
    intro hne
    have hbelow := h.below hne
    symm
    rw [h.since, Nat.mul_comm, Nat.mul_add_div (by omega), Nat.div_eq_of_lt hbelow, Nat.add_zero]
  refine ⟨h.count, hmatched, ?_⟩
  intro hne
  rw [h.delivered, hmatched hne]

theorem matches_delivered {s : EventServer Chip} (h : (eventMachine chipPins).Reachable s)
    (g : Gpio) : MatchesDelivered (s.table g) (s.tally g) :=
  ((counting_reachable h).entries g).matches

def secondRisingEdges : EventMsg := ⟨rpiEventEdgeRising, ⟨false, 0, 7⟩, 2⟩

/-- A pass over all pins that finds one registered. -/
def passAll : List EventStep := List.replicate (2 + rpiGpioNum + 3) (.pass true)

set_option maxRecDepth 4000 in
/-- Two edges, one delivery. -/
theorem matches_delivered_second :
    ∃ s : EventServer Chip, ((s.tally pinZero).since = 2 ∧ (s.tally pinZero).delivered = 1) ∧
      MatchesDelivered (s.table pinZero) (s.tally pinZero) := by
  have hstart : (eventMachine chipPins).Reachable (eventsStarted chipPins zeroChip) :=
    .initial ⟨zeroChip, rfl⟩
  obtain ⟨s, hreach, hs⟩ := hstart.after_any
    ([.add someClient pinZero secondRisingEdges] ++ List.replicate 6 .write ++
      [.latch pinZero] ++ passAll ++ [.latch pinZero] ++ passPinZero)
    (fun s => decide ((s.tally pinZero).since = 2 ∧ (s.tally pinZero).delivered = 1)) (by decide)
  exact ⟨s, of_decide_eq_true hs, matches_delivered hreach pinZero⟩

/-! ## Edges -/

/-- Edges are asked for, and no levels. -/
def EdgeDetect (detect : BitVec 32) : Prop :=
  asksLevel detect = false ∧ (detect ≠ rpiEventNone → asksEdge detect = true)

instance (detect : BitVec 32) : Decidable (EdgeDetect detect) :=
  inferInstanceAs (Decidable (_ ∧ _))

def EdgeOnly (_ : EventServer C) : EventStep → Prop
  | .add _ _ msg => EdgeDetect msg.detect
  | _ => True

instance (s : EventServer C) : (e : EventStep) → Decidable (EdgeOnly s e)
  | .add _ _ msg => inferInstanceAs (Decidable (EdgeDetect msg.detect))
  | .remove _ | .write | .pass _ | .latch _ => isTrue trivial

/-- An event that is cleared in the chip and about to be dispatched. -/
def Ist.owed (ist : Ist) (g : Gpio) : Nat := if ist = .cleared g true then 1 else 0

/-- The account of pin `g`. -/
def Balanced (b : Board) (ist : Ist) (g : Gpio) (t : Tally) : Prop :=
  t.latched = t.dispatched + t.lost + (b.pins g).event.toNat + ist.owed g

structure EdgeInv (s : EventServer Board) : Prop where
  balanced : ∀ g, Balanced s.chip s.ist g (s.tally g)
  edges : ∀ g, EdgeDetect (s.table g).detect
  todo : ∀ g e, EventOp.record g e ∈ s.todo → EdgeDetect e.detect
  /-- only the pass clears what it has seen -/
  seen : ∀ g, s.ist = .seen g true → (s.chip.pins g).event = true

theorem EdgeDetect.none : EdgeDetect rpiEventNone := by decide

theorem applyChip_event (op : EventOp) (b : Board) (g : Gpio) :
    ((op.applyChip board b).pins g).event = (b.pins g).event := by
  cases op
  case record | release => rfl
  all_goals
    simp only [EventOp.applyChip, board, Board.pin, Function.update_apply]
    split
    · next hg => rw [hg]
    · rfl

theorem Balanced.move {b : Board} {ist ist' : Ist} {g : Gpio} {t : Tally} (h : Balanced b ist g t)
    (howed : ist'.owed g = ist.owed g) : Balanced b ist' g t := by
  unfold Balanced at h ⊢
  rw [howed]
  exact h

theorem owed_zero {ist : Ist} (h : ∀ g, ist ≠ .cleared g true) (g : Gpio) : ist.owed g = 0 :=
  if_neg (h g)

theorem clearDetect_event (s : EventServer Board) (g : Gpio) (answered : Bool) (k : Gpio) :
    ((s.clearDetect boardPins g answered).chip.pins k).event =
      if k = g then false else (s.chip.pins k).event := by
  change (((s.chip.pin g fun p => { p with event := false }).pins k).event = _)
  simp only [Board.pin, Function.update_apply]
  split <;> rfl

theorem balanced_clear {s : EventServer Board} (h : EdgeInv s) {g : Gpio} {detected : Bool}
    (hist : s.ist = .seen g detected) (k : Gpio) :
    Balanced (s.clearDetect boardPins g detected).chip (.cleared g detected) k
      ((s.clearDetect boardPins g detected).tally k) := by
  have hbalanced := h.balanced k
  have hbefore : s.ist.owed k = 0 := by
    rw [hist]
    exact owed_zero (by simp) k
  have htally : (s.clearDetect boardPins g detected).tally k =
      if k = g then
        (if (s.chip.pins g).event = true ∧ detected = false then
          { s.tally g with lost := (s.tally g).lost + 1 } else s.tally g)
      else s.tally k := Function.update_apply _ _ _ _
  unfold Balanced at hbalanced ⊢
  rw [hbefore] at hbalanced
  rw [htally, clearDetect_event]
  by_cases hk : k = g
  · subst hk
    rw [if_pos rfl, if_pos rfl]
    cases detected with
    | true =>
        have hevent := h.seen k hist
        rw [hevent] at hbalanced
        rw [if_neg (by simp)]
        simp only [Ist.owed, if_true, Bool.toNat_true, Bool.toNat_false] at hbalanced ⊢
        omega
    | false =>
        have howed : (Ist.cleared k false).owed k = 0 := by simp [Ist.owed]
        rw [howed]
        cases hevent : (s.chip.pins k).event with
        | true =>
            rw [hevent] at hbalanced
            rw [if_pos ⟨rfl, rfl⟩]
            simp only [Bool.toNat_true, Bool.toNat_false] at hbalanced ⊢
            omega
        | false =>
            rw [hevent] at hbalanced
            rw [if_neg (by simp)]
            exact hbalanced
  · have howed : (Ist.cleared g detected).owed k = 0 := by
      apply if_neg
      intro heq
      cases heq
      exact hk rfl
    rw [if_neg hk, if_neg hk, howed]
    exact hbalanced

theorem balanced_dispatch {s : EventServer Board} (h : EdgeInv s) {g : Gpio}
    (hist : s.ist = .cleared g true) (accepted : Bool) (k : Gpio) :
    Balanced (s.dispatch boardPins g accepted).chip (.dispatched g) k
      ((s.dispatch boardPins g accepted).tally k) := by
  have hbalanced := h.balanced k
  unfold Balanced at hbalanced ⊢
  have hafter : (Ist.dispatched g).owed k = 0 := owed_zero (by simp) k
  rw [hafter]
  by_cases hk : k = g
  · subst hk
    have howed : s.ist.owed k = 1 := if_pos hist
    have htally : ((s.dispatch boardPins k accepted).tally k).latched = (s.tally k).latched ∧
        ((s.dispatch boardPins k accepted).tally k).dispatched = (s.tally k).dispatched + 1 ∧
        ((s.dispatch boardPins k accepted).tally k).lost = (s.tally k).lost := by
      simp only [EventServer.dispatch, EventServer.tallyOf, Function.update_self, and_self]
    have hchip : (s.dispatch boardPins k accepted).chip = s.chip := rfl
    rw [htally.1, htally.2.1, htally.2.2, hchip]
    omega
  · have howed : s.ist.owed k = 0 := by
      rw [hist]
      apply if_neg
      intro heq
      cases heq
      exact hk rfl
    have htally : (s.dispatch boardPins g accepted).tally k = s.tally k :=
      Function.update_of_ne hk _ _
    rw [htally]
    rw [howed] at hbalanced
    exact hbalanced

theorem edgeInv_pass {s : EventServer Board} (h : EdgeInv s) (hcounting : Counting s)
    (accepted : Bool) : EdgeInv (s.pass boardPins accepted) := by
  have hquiet : ∀ ist ist' : Ist, s.ist = ist → (∀ g, ist ≠ .cleared g true) →
      (∀ g, ist' ≠ .cleared g true) → ∀ g, Balanced s.chip ist' g (s.tally g) := by
    intro ist ist' hist hno hno' g
    apply (h.balanced g).move
    rw [hist, owed_zero hno, owed_zero hno']
  unfold EventServer.pass
  cases hist : s.ist with
  | waiting => exact ⟨hquiet _ _ hist (by simp) (by simp), h.edges, h.todo, by simp⟩
  | scanning n =>
      dsimp only
      split
      · split
        · exact ⟨hquiet _ _ hist (by simp) (by simp), h.edges, h.todo, by simp⟩
        · refine ⟨hquiet _ _ hist (by simp) (by simp), h.edges, h.todo, ?_⟩
          intro g hseen
          injection hseen with hg hdetected
          rw [← hg]
          exact hdetected
      · exact ⟨hquiet _ _ hist (by simp) (by simp), h.edges, h.todo, by simp⟩
  | seen g detected =>
      have hedge := (h.edges g).2 (hcounting.looking g detected (.inl hist))
      dsimp only
      rw [if_pos hedge]
      exact ⟨balanced_clear h hist, h.edges, h.todo, by simp⟩
  | cleared g detected =>
      cases detected with
      | true =>
          refine ⟨balanced_dispatch h hist accepted, ?_, h.todo, by simp⟩
          intro k
          rcases ((dispatchEvent_entry board g accepted s.chip s.table).1 k).2 with hsame | hnone
          · exact hsame ▸ h.edges k
          · exact hnone ▸ EdgeDetect.none
      | false => exact ⟨hquiet _ _ hist (by simp) (by simp), h.edges, h.todo, by simp⟩
  | dispatched g =>
      dsimp only
      rw [if_neg (by rw [(h.edges g).1]; simp)]
      exact ⟨hquiet _ _ hist (by simp) (by simp), h.edges, h.todo, by simp⟩

theorem edgeInv_step {s s' : EventServer Board} {e : EventStep} (h : EdgeInv s)
    (hcounting : Counting s) (hok : EdgeOnly s e) (hs : eventStep boardPins s e = some s') :
    EdgeInv s' := by
  cases e with
  | add client g msg =>
      simp only [eventStep] at hs
      split at hs
      · next hops =>
        cases hs
        refine ⟨h.balanced, h.edges, ?_, h.seen⟩
        intro k e hmem
        rw [(eventAdd_record hops k e hmem).2]
        exact hok
      · cases hs
        exact h
      · cases hs
  | remove client =>
      simp only [eventStep] at hs
      split at hs
      · cases hs
        exact ⟨h.balanced, h.edges,
          fun k e hmem => absurd hmem (eventRemoveClient_record s.table client.info k e), h.seen⟩
      · cases hs
  | write =>
      simp only [eventStep, EventServer.write] at hs
      split at hs
      · cases hs
      · next op rest htodo =>
        split at hs
        · cases hs
        · cases hs
          have hevent : ∀ g, ((op.applyChip boardPins.config s.chip).pins g).event =
              (s.chip.pins g).event := applyChip_event op s.chip
          refine ⟨fun g => ?_, fun g => ?_, fun g e hmem => ?_, fun g hseen => ?_⟩
          · have hbalanced := h.balanced g
            unfold Balanced at hbalanced ⊢
            dsimp only
            rw [hevent]
            cases op
            case record k entry =>
              simp only [EventOp.applyTally, Function.update_apply]
              split
              · next hk =>
                rw [← hk]
                exact hbalanced
              · exact hbalanced
            all_goals exact hbalanced
          · cases op with
            | record k entry =>
                simp only [EventOp.applyTable, Function.update_apply]
                split
                · exact h.todo k entry (htodo ▸ List.mem_cons_self)
                · exact h.edges g
            | release ci =>
                simp only [EventOp.applyTable]
                split <;> exact h.edges g
            | rising k enable => exact h.edges g
            | falling k enable => exact h.edges g
            | high k enable => exact h.edges g
            | low k enable => exact h.edges g
          · exact h.todo g e (htodo ▸ List.mem_cons_of_mem _ hmem)
          · dsimp only
            rw [hevent]
            exact h.seen g hseen
  | pass accepted =>
      cases hs
      exact edgeInv_pass h hcounting accepted
  | latch g =>
      simp only [eventStep] at hs
      split at hs
      · cases hs
        have hevent : ∀ k, ((boardPins.raise g s.chip).pins k).event =
            if k = g then true else (s.chip.pins k).event := by
          intro k
          change ((s.chip.pin g fun p => { p with event := true }).pins k).event = _
          simp only [Board.pin, Function.update_apply]
          split <;> rfl
        refine ⟨fun k => ?_, h.edges, h.todo, fun k hseen => ?_⟩
        · have hbalanced := h.balanced k
          unfold Balanced at hbalanced ⊢
          dsimp only
          rw [hevent, EventServer.tallyOf, Function.update_apply]
          by_cases hk : k = g
          · subst hk
            rw [if_pos rfl, if_pos rfl]
            change (if (s.chip.pins k).event = true then s.tally k else _).latched = _
            cases hbit : (s.chip.pins k).event with
            | true =>
                rw [hbit] at hbalanced
                have hdetected : boardPins.config.eventDetected k s.chip = true := hbit
                rw [hdetected]
                exact hbalanced
            | false =>
                rw [hbit] at hbalanced
                have hdetected : boardPins.config.eventDetected k s.chip = false := hbit
                rw [hdetected]
                simp only [Bool.toNat_true, Bool.toNat_false, Bool.false_eq_true, if_false]
                  at hbalanced ⊢
                omega
          · rw [if_neg hk, if_neg hk]
            exact hbalanced
        · dsimp only
          rw [hevent]
          split
          · rfl
          · exact h.seen k hseen
      · cases hs

theorem edgeInv_reachable {s : EventServer Board}
    (h : (eventMachine boardPins).ReachableBy EdgeOnly s) : EdgeInv s := by
  apply h.invariant
  · rintro s ⟨c, rfl⟩
    refine ⟨fun g => rfl, fun g => EdgeDetect.none, ?_, ?_⟩
    · intro g e hmem
      cases hmem
    · intro g hist
      cases hist
  · intro s e s' hr hinv hok hs
    exact edgeInv_step hinv (counting_reachable hr) hok hs

/-- Each event that the chip latched was dispatched once, is pending in the chip, is about
to be dispatched, or came between a pass's look at the pin and its clear. -/
structure EdgesAccounted (s : EventServer Chip) (g : Gpio) : Prop where
  balanced : (s.tally g).latched = (s.tally g).dispatched + (s.tally g).lost +
    (rpi2711GpioEventDetected g s.chip).toNat + s.ist.owed g
  /-- nothing is dispatched that did not happen -/
  sound : (s.tally g).dispatched ≤ (s.tally g).latched
  complete : s.ist = .waiting → rpi2711GpioEventDetected g s.chip = false →
    (s.tally g).latched = (s.tally g).dispatched + (s.tally g).lost

theorem edges_accounted {s : EventServer Chip}
    (h : (eventMachine chipPins).ReachableBy EdgeOnly s) (g : Gpio) : EdgesAccounted s g := by
  have hboard : (eventMachine boardPins).ReachableBy EdgeOnly (s.map Chip.board) := by
    apply board_reachable _ h
    intro s e hok
    cases e with
    | add client g msg => exact hok
    | _ => trivial
  have hbalanced : (s.tally g).latched = (s.tally g).dispatched + (s.tally g).lost +
      (s.chip.events.getLsbD g).toNat + s.ist.owed g := (edgeInv_reachable hboard).balanced g
  have hdetected : rpi2711GpioEventDetected g s.chip = s.chip.events.getLsbD g :=
    test_bit s.chip.events g
  rw [← hdetected] at hbalanced
  refine ⟨hbalanced, by omega, ?_⟩
  intro hwaiting hclear
  have howed : s.ist.owed g = 0 := by
    rw [hwaiting]
    exact owed_zero (by simp) g
  rw [hclear, howed] at hbalanced
  exact hbalanced

/-- An edge between the look and the clear is lost. -/
theorem edges_accounted_lost :
    ∃ s : EventServer Chip, ((s.tally pinZero).latched = 1 ∧ (s.tally pinZero).lost = 1) ∧
      EdgesAccounted s pinZero := by
  have hstart : (eventMachine chipPins).ReachableBy EdgeOnly (eventsStarted chipPins zeroChip) :=
    .initial ⟨zeroChip, rfl⟩
  obtain ⟨s, hreach, hs⟩ := hstart.after_any
    (registerRising pinZero ++ [.pass true, .pass true, .latch pinZero, .pass true])
    (fun s => decide ((s.tally pinZero).latched = 1 ∧ (s.tally pinZero).lost = 1)) (by decide)
  exact ⟨s, of_decide_eq_true hs, edges_accounted hreach pinZero⟩

end QnxHypervisor.GpioServer
