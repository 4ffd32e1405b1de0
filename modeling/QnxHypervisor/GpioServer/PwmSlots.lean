import QnxHypervisor.GpioServer.Chip
import QnxHypervisor.GpioServer.Server

/-! # Slots of the software timer

Over every sequence of requests a slot is held by one pin and one client, the pins
with a channel keep it, and the timer is ready for every slot that is running.
-/

namespace QnxHypervisor.GpioServer

open Foundation

variable {C : Type} {P : Pins C} {config : GpioConfig C} {times : PwmTimes} {fine : Prop}

namespace Manager

variable (s : Manager C)

theorem put_self (r : PwmRef) (f : PwmEntry → PwmEntry) :
    (s.put r f).entries r = f (s.entries r) :=
  Function.update_self _ _ _

theorem put_ne {r r' : PwmRef} (h : r' ≠ r) (f : PwmEntry → PwmEntry) :
    (s.put r f).entries r' = s.entries r' :=
  Function.update_of_ne h _ _

theorem put_same {β : Type} (π : PwmEntry → β) {f : PwmEntry → PwmEntry}
    (hf : ∀ e, π (f e) = π e) (r r' : PwmRef) : π ((s.put r f).entries r') = π (s.entries r') := by
  by_cases hr : r' = r
  · rw [hr, put_self, hf]
  · rw [s.put_ne hr]

end Manager

theorem soft_ne {i j : SoftSlot} (h : j ≠ i) : PwmRef.soft j ≠ .soft i :=
  fun heq => h (PwmRef.soft.inj heq)

/-- `fine` says that threads can always be created. -/
structure PwmInv (fine : Prop) (s : Manager C) : Prop where
  hard : ∀ g k, s.map g = some (.hard k) ↔ (hardPwm k).gpio = g
  soft : ∀ g i, s.map g = some (.soft i) →
    (s.entries (.soft i)).gpio = g ∧ ¬ clientInfoIsUnused (s.entries (.soft i)).ci
  held : ∀ i, ¬ clientInfoIsUnused (s.entries (.soft i)).ci →
    s.map (s.entries (.soft i)).gpio = some (.soft i)
  idle : ∀ i, clientInfoIsUnused (s.entries (.soft i)).ci → (s.entries (.soft i)).duty = 0
  ready : fine → ∀ i, (s.entries (.soft i)).duty ≠ 0 → s.timerReady = true
  spawns : fine → s.spawnError = none

/-- `pwm_init` has run. -/
def pwmStarted (c : C) (table : EventTable) : Manager C where
  chip := c
  table := table
  entries _ := ⟨unusedClient, pinZero, 0, 0, 0, 0, false, 0, 0, 0⟩
  map g := ((List.finRange hardPwms.length).find? fun k => (hardPwm k).gpio = g).map .hard
  timerAttached := false
  spawnError := none
  timerReady := false
  time := 0
  compare := 0
  timerMatch := false
  timerIntrs := 0

theorem pwmInv_started (c : C) (table : EventTable) : PwmInv fine (pwmStarted c table) := by
  have hpins : ∀ (g : Gpio) (k : HardSlot),
      ((List.finRange hardPwms.length).find? fun k => decide ((hardPwm k).gpio = g)) = some k ↔
        (hardPwm k).gpio = g := by decide
  refine ⟨fun g k => ?_, fun g i h => ?_, fun i h => absurd rfl h, fun i _ => rfl,
    fun _ i h => absurd rfl h, fun _ => rfl⟩
  · rw [← hpins]
    constructor
    · intro h
      obtain ⟨k', hk', hk⟩ := Option.map_eq_some_iff.mp h
      cases hk
      exact hk'
    · intro h
      exact Option.map_eq_some_iff.mpr ⟨k, h, rfl⟩
  · obtain ⟨k', -, hk⟩ := Option.map_eq_some_iff.mp h
    cases hk

/-- Only places, holders, pins and duties count. -/
theorem PwmInv.congr {s s' : Manager C} (h : PwmInv fine s) (hmap : s'.map = s.map)
    (hready : s'.timerReady = s.timerReady)
    (hentries : ∀ i, (s'.entries (.soft i)).ci = (s.entries (.soft i)).ci ∧
      (s'.entries (.soft i)).gpio = (s.entries (.soft i)).gpio ∧
      (s'.entries (.soft i)).duty = (s.entries (.soft i)).duty)
    (hspawn : s'.spawnError = s.spawnError := by rfl) : PwmInv fine s' := by
  refine ⟨fun g k => ?_, fun g i hg => ?_, fun i hi => ?_, fun i hi => ?_, fun hf i hi => ?_,
    fun hf => hspawn.trans (h.spawns hf)⟩
  · rw [hmap]
    exact h.hard g k
  · rw [hmap] at hg
    rw [(hentries _).1, (hentries _).2.1]
    exact h.soft g i hg
  · rw [(hentries _).1] at hi
    rw [hmap, (hentries _).2.1]
    exact h.held i hi
  · rw [(hentries _).1] at hi
    rw [(hentries _).2.2]
    exact h.idle i hi
  · rw [(hentries _).2.2] at hi
    rw [hready]
    exact h.ready hf i hi

theorem PwmInv.chip {s : Manager C} (h : PwmInv fine s) (chip : C) : PwmInv fine { s with chip } :=
  h.congr rfl rfl fun _ => ⟨rfl, rfl, rfl⟩

/-- Two pins never hold one slot. -/
theorem PwmInv.distinct {s : Manager C} (h : PwmInv fine s) {g g' : Gpio} {r : PwmRef}
    (hg : s.map g = some r) (hg' : s.map g' = some r) : g = g' := by
  cases r with
  | soft i => exact (h.soft g i hg).1.symm.trans (h.soft g' i hg').1
  | hard k => exact ((h.hard g k).mp hg).symm.trans ((h.hard g' k).mp hg')

/-! ## Setup -/

theorem firstFree_some {s : Manager C} {i : SoftSlot} (h : s.firstFree = some i) :
    clientInfoIsUnused (s.entries (.soft i)).ci := by
  unfold Manager.firstFree at h
  have hfound := List.find?_some h
  exact of_decide_eq_true hfound

theorem firstFree_none {s : Manager C} :
    s.firstFree = none ↔ ∀ i, ¬ clientInfoIsUnused (s.entries (.soft i)).ci := by
  unfold Manager.firstFree
  rw [List.find?_eq_none]
  constructor
  · intro h i hunused
    exact h i (List.mem_finRange i) (decide_eq_true hunused)
  · intro h i _ hdec
    exact h i (of_decide_eq_true hdec)

theorem PwmInv.label {s : Manager C} (h : PwmInv fine s) {i : SoftSlot}
    (hfree : clientInfoIsUnused (s.entries (.soft i)).ci) (g : Gpio) :
    PwmInv fine (s.put (.soft i) fun e => { e with gpio := g }) := by
  have hci := s.put_same PwmEntry.ci (f := fun e => { e with gpio := g }) (fun _ => rfl) (.soft i)
  have hduty := s.put_same PwmEntry.duty (f := fun e => { e with gpio := g }) (fun _ => rfl) (.soft i)
  have hother : ∀ j, ¬ clientInfoIsUnused (s.entries (.soft j)).ci →
      (s.put (.soft i) fun e => { e with gpio := g }).entries (.soft j) = s.entries (.soft j) := by
    intro j hused
    refine s.put_ne (soft_ne ?_) _
    rintro rfl
    exact hused hfree
  refine ⟨h.hard, fun k j hk => ?_, fun j hj => ?_, fun j hj => ?_, fun hf j hj => ?_, h.spawns⟩
  · have hold := h.soft k j hk
    rw [hother j hold.2]
    exact hold
  · rw [hci] at hj
    rw [hother j hj]
    exact h.held j hj
  · rw [hci] at hj
    rw [hduty]
    exact h.idle j hj
  · rw [hduty] at hj
    exact h.ready hf j hj

theorem findPwm_inv {s s' : Manager C} (h : PwmInv fine s) {ci : ClientInfo} {g : Gpio} {r : PwmRef}
    (hfind : s.findPwm ci g = .ok (r, s')) :
    PwmInv fine s' ∧ s'.map = s.map ∧ (s'.map g = some r ∨ s'.map g = none ∧
      ∃ i, r = .soft i ∧ (s'.entries r).gpio = g ∧ clientInfoIsUnused (s'.entries r).ci) := by
  unfold Manager.findPwm at hfind
  split at hfind
  · next hnone =>
    split at hfind
    · cases hfind
    · next i hi =>
      cases hfind
      have hfree := firstFree_some hi
      refine ⟨h.label hfree g, rfl, .inr ⟨hnone, i, rfl, ?_, ?_⟩⟩
      · rw [s.put_self]
      · rw [s.put_self]
        exact hfree
  · next r' hsome =>
    split at hfind
    · cases hfind
    · cases hfind
      exact ⟨h, rfl, .inl hsome⟩

/-- The setup's end, on a place that the pin has or on a free slot labelled for it. -/
theorem PwmInv.install {s : Manager C} (h : PwmInv fine s) {r : PwmRef} {g : Gpio} (client : Client)
    (msg : PwmMsg)
    (hplace : s.map g = some r ∨ s.map g = none ∧
      ∃ i, r = .soft i ∧ (s.entries r).gpio = g ∧ clientInfoIsUnused (s.entries r).ci) :
    PwmInv fine (s.install r client.info g msg) := by
  obtain ⟨f, hentries, hf⟩ : ∃ f, (s.install r client.info g msg).entries = (s.put r f).entries ∧
    ∀ e, (f e).ci = client.info ∧ (f e).gpio = e.gpio ∧ (f e).duty = e.duty :=
    ⟨fun e => { e with
      mode := msg.mode, ci := client.info, range := msg.range, frequency := msg.frequency },
      rfl, fun _ => ⟨rfl, rfl, rfl⟩⟩
  have hgpio := s.put_same PwmEntry.gpio (fun e => (hf e).2.1) r
  have hduty := s.put_same PwmEntry.duty (fun e => (hf e).2.2) r
  have hself : ((s.put r f).entries r).ci = client.info := by rw [s.put_self, (hf _).1]
  have hmap : ∀ k, (s.install r client.info g msg).map k = if k = g then some r else s.map k :=
    fun k => Function.update_apply _ _ _ _
  have hpin : ∀ i, r = .soft i → (s.entries (.soft i)).gpio = g := by
    rintro i rfl
    rcases hplace with hold | ⟨-, _, -, hlabel, -⟩
    · exact (h.soft g i hold).1
    · exact hlabel
  refine ⟨fun k j => ?_, fun k j hk => ?_, fun j hj => ?_, fun j hj => ?_, fun hf j hj => ?_, h.spawns⟩
  · rw [hmap]
    split
    · next hkg =>
      subst hkg
      rcases hplace with hold | ⟨hnone, i, rfl, -⟩
      · rw [← hold]
        exact h.hard k j
      · constructor
        · intro heq
          cases heq
        · intro hk
          rw [(h.hard k j).mpr hk] at hnone
          cases hnone
    · exact h.hard k j
  · rw [hmap] at hk
    rw [hentries, hgpio]
    by_cases hr : PwmRef.soft j = r
    · rw [hr, hself, ← hr]
      refine ⟨?_, client.used⟩
      split at hk
      · next hkg =>
        rw [hkg]
        exact hpin j hr.symm
      · exact (h.soft k j hk).1
    · rw [s.put_ne hr]
      split at hk
      · cases hk
        exact absurd rfl hr
      · exact h.soft k j hk
  · rw [hentries] at hj ⊢
    rw [hgpio, hmap]
    by_cases hr : PwmRef.soft j = r
    · rw [if_pos (hpin j hr.symm), hr]
    · rw [s.put_ne hr] at hj
      have hold := h.held j hj
      split
      · next hkg =>
        rw [hkg] at hold
        rcases hplace with hr' | ⟨hnone, -⟩
        · exact absurd (Option.some.inj (hold.symm.trans hr')) hr
        · rw [hold] at hnone
          cases hnone
      · exact hold
  · rw [hentries] at hj ⊢
    rw [hduty]
    by_cases hr : PwmRef.soft j = r
    · rw [hr, hself] at hj
      exact absurd hj client.used
    · rw [s.put_ne hr] at hj
      exact h.idle j hj
  · rw [hentries, hduty] at hj
    exact h.ready hf j hj

theorem pwmSetup_inv {s : Manager C} (h : PwmInv fine s) (client : Client) (g : Gpio) (msg : PwmMsg) :
    PwmInv fine (pwmSetup config client.info g msg s).2 := by
  unfold pwmSetup
  split
  · exact h
  · next r s' hfind =>
    obtain ⟨hinv, -, hplace⟩ := findPwm_inv h hfind
    cases r with
    | hard k =>
        dsimp only
        split
        · exact hinv
        · exact (hinv.chip _).install client msg hplace
    | soft i =>
        dsimp only
        split
        · exact hinv
        · exact (hinv.chip _).install client msg hplace

/-! ## Duty and disconnect -/

theorem timerIntrCheckDone_inv {s : Manager C} (h : PwmInv fine s) : PwmInv fine (timerIntrCheckDone s) := by
  unfold timerIntrCheckDone
  split
  · exact h
  · split
    · exact h
    · next hnone =>
      refine ⟨h.hard, h.soft, h.held, h.idle, fun _ i hi => ?_, h.spawns⟩
      have hany : (List.finRange numSoftPwm).any
          (fun i => (s.entries (.soft i)).duty != 0) = true :=
        List.any_eq_true.mpr ⟨i, List.mem_finRange i, by simpa using hi⟩
      exact absurd hany hnone

theorem timerIntrInit_spec (time : BitVec 32) (s : Manager C) :
    (timerIntrInit time s).2.map = s.map ∧ (timerIntrInit time s).2.entries = s.entries ∧
      (timerIntrInit time s).2.spawnError = s.spawnError ∧
      ((timerIntrInit time s).1 = none → (timerIntrInit time s).2.timerReady = true) ∧
      (s.spawnError = none → (timerIntrInit time s).1 = none) := by
  unfold timerIntrInit
  dsimp only
  split
  · next hfails =>
    refine ⟨rfl, rfl, rfl, fun hnone => ?_, id⟩
    dsimp only at hnone
    rw [hnone] at hfails
    cases hfails.2
  · split <;> exact ⟨rfl, rfl, rfl, fun _ => rfl, fun _ => rfl⟩

theorem timerIntrInit_chip (time : BitVec 32) (s : Manager C) :
    (timerIntrInit time s).2.chip = s.chip := by
  unfold timerIntrInit
  dsimp only
  split
  · rfl
  · split <;> rfl

theorem PwmInv.putDuty {s : Manager C} (h : PwmInv fine s) {i : SoftSlot} {f : PwmEntry → PwmEntry}
    (hheld : ¬ clientInfoIsUnused (s.entries (.soft i)).ci)
    (hf : ∀ e, (f e).ci = e.ci ∧ (f e).gpio = e.gpio)
    (hready : fine → (f (s.entries (.soft i))).duty ≠ 0 → s.timerReady = true) :
    PwmInv fine (s.put (.soft i) f) := by
  have hci := s.put_same PwmEntry.ci (fun e => (hf e).1) (.soft i)
  have hgpio := s.put_same PwmEntry.gpio (fun e => (hf e).2) (.soft i)
  refine ⟨h.hard, fun g j hg => ?_, fun j hj => ?_, fun j hj => ?_, fun hfine j hj => ?_, h.spawns⟩
  · rw [hci, hgpio]
    exact h.soft g j hg
  · rw [hci] at hj
    rw [hgpio]
    exact h.held j hj
  · rw [hci] at hj
    have hne : j ≠ i := by
      rintro rfl
      exact hheld hj
    rw [s.put_ne (soft_ne hne)]
    exact h.idle j hj
  · by_cases hji : j = i
    · subst hji
      rw [s.put_self] at hj
      exact hready hfine hj
    · rw [s.put_ne (soft_ne hji)] at hj
      exact h.ready hfine j hj

theorem setDuty_inv (config : GpioConfig C) (times : PwmTimes) {s : Manager C} (h : PwmInv fine s)
    {r : PwmRef} {g : Gpio} (hr : s.map g = some r) (duty : BitVec 32) :
    PwmInv fine (setDuty config times r g duty s).2 := by
  cases r with
  | hard k => exact h.chip _
  | soft i =>
      have hheld := (h.soft g i hr).2
      unfold setDuty
      dsimp only
      split
      · have hput := h.putDuty (f := fun e => { e with duty := 0 }) hheld (fun _ => ⟨rfl, rfl⟩)
          (fun _ hne => absurd rfl hne)
        exact timerIntrCheckDone_inv (hput.chip _)
      · generalize (times (s.entries (.soft i)).mode (s.entries (.soft i)).frequency
            (s.entries (.soft i)).range duty).1 = on
        generalize (times (s.entries (.soft i)).mode (s.entries (.soft i)).frequency
            (s.entries (.soft i)).range duty).2 = off
        -- with the timer on, any duty is fine
        have hon : PwmInv fine { s with chip := config.set g s.chip, timerReady := true } :=
          ⟨h.hard, h.soft, h.held, h.idle, fun _ _ _ => rfl, h.spawns⟩
        have hput := hon.putDuty (f := fun e => { e with
            timeOn := on, timeOff := off, state := true, lastChange := s.time, duty := duty }) hheld
          (fun _ => ⟨rfl, rfl⟩) (fun _ _ => rfl)
        obtain ⟨hmap, hentries, hspawn, hready, hspawns⟩ := timerIntrInit_spec on
          (({ s with chip := config.set g s.chip } : Manager C).put (.soft i) fun e => { e with
            timeOn := on, timeOff := off, state := true, lastChange := s.time, duty := duty })
        refine ⟨?_, ?_, ?_, ?_, fun hf _ _ => hready (hspawns (h.spawns hf)), fun hf => hspawn.trans (h.spawns hf)⟩
        · rw [hmap]
          exact hput.hard
        · rw [hmap, hentries]
          exact hput.soft
        · rw [hmap, hentries]
          exact hput.held
        · rw [hentries]
          exact hput.idle

theorem setDuty_zero (config : GpioConfig C) (times : PwmTimes) (s : Manager C) (r : PwmRef) (g : Gpio) :
    (setDuty config times r g 0 s).2.map = s.map ∧
      (∀ r', ((setDuty config times r g 0 s).2.entries r').ci = (s.entries r').ci ∧
        ((setDuty config times r g 0 s).2.entries r').gpio = (s.entries r').gpio) ∧
      ∀ i, r = .soft i → ((setDuty config times r g 0 s).2.entries r).duty = 0 := by
  cases r with
  | hard k => exact ⟨rfl, fun _ => ⟨rfl, rfl⟩, fun i hi => by cases hi⟩
  | soft i =>
      have hdone : ∀ t : Manager C, (timerIntrCheckDone t).map = t.map ∧
          (timerIntrCheckDone t).entries = t.entries := by
        intro t
        unfold timerIntrCheckDone
        split
        · exact ⟨rfl, rfl⟩
        · split <;> exact ⟨rfl, rfl⟩
      unfold setDuty
      dsimp only
      rw [if_pos (Or.inl rfl)]
      dsimp only
      rw [(hdone _).1, (hdone _).2]
      refine ⟨rfl, fun r' => ⟨?_, ?_⟩, fun j _ => ?_⟩
      · exact s.put_same PwmEntry.ci (f := fun e => { e with duty := 0 }) (fun _ => rfl) (.soft i) r'
      · exact s.put_same PwmEntry.gpio (f := fun e => { e with duty := 0 }) (fun _ => rfl) (.soft i) r'
      · simp only [Manager.put_self]

/-- A place after its client is gone. -/
def Manager.released (s : Manager C) (r : PwmRef) (g : Gpio) : Manager C :=
  let s := s.put r fun e => { e with ci := unusedClient }
  match r with
  | .hard _ => s
  | .soft _ => { s with map := Function.update s.map g none }

theorem PwmInv.released {s : Manager C} (h : PwmInv fine s) {r : PwmRef} {g : Gpio}
    (hr : s.map g = some r) (hrest : ∀ i, r = .soft i → (s.entries r).duty = 0) :
    PwmInv fine (s.released r g) := by
  cases r with
  | hard k =>
      refine h.congr ?_ ?_ fun i => ?_
      · rfl
      · rfl
      have hne : PwmRef.soft i ≠ .hard k := by simp
      simp only [Manager.released, Manager.put, Function.update_of_ne hne, and_self]
  | soft i =>
      have hentries : (s.released (.soft i) g).entries =
        (s.put (.soft i) fun e => { e with ci := unusedClient }).entries := rfl
      have hself : ((s.released (.soft i) g).entries (.soft i)).ci = unusedClient := by
        rw [hentries, s.put_self]
      have hduty : ∀ r, ((s.released (.soft i) g).entries r).duty = (s.entries r).duty :=
        s.put_same PwmEntry.duty (f := fun e => { e with ci := unusedClient }) (fun _ => rfl) (.soft i)
      have hother : ∀ j, j ≠ i → (s.released (.soft i) g).entries (.soft j) = s.entries (.soft j) :=
        fun j hj => by rw [hentries, s.put_ne (soft_ne hj)]
      have hmap : ∀ k, (s.released (.soft i) g).map k = if k = g then none else s.map k :=
        fun k => Function.update_apply _ _ _ _
      refine ⟨fun k j => ?_, fun k j hk => ?_, fun j hj => ?_, fun j hj => ?_, fun hf j hj => ?_,
        h.spawns⟩
      · rw [hmap]
        split
        · next hkg =>
          constructor
          · intro heq
            cases heq
          · intro hk
            have hhard := (h.hard k j).mpr hk
            rw [hkg, hr] at hhard
            cases hhard
        · exact h.hard k j
      · rw [hmap] at hk
        split at hk
        · cases hk
        · next hkg =>
          have hji : j ≠ i := by
            rintro rfl
            exact hkg (h.distinct hk hr)
          rw [hother j hji]
          exact h.soft k j hk
      · have hji : j ≠ i := by
          rintro rfl
          exact hj hself
        rw [hother j hji] at hj ⊢
        have hheld := h.held j hj
        rw [hmap, if_neg]
        · exact hheld
        · intro hkg
          rw [hkg, hr] at hheld
          exact hji (PwmRef.soft.inj (Option.some.inj hheld)).symm
      · rw [hduty]
        by_cases hji : j = i
        · rw [hji]
          exact hrest i rfl
        · rw [hother j hji] at hj
          exact h.idle j hj
      · rw [hduty] at hj
        exact h.ready hf j hj

theorem pwmRemovePin_eq (config : GpioConfig C) (times : PwmTimes) (ci : ClientInfo)
    (s : Manager C) (g : Gpio) :
    pwmRemovePin config times ci s g = match s.map g with
      | none => s
      | some r =>
          if clientInfoMatch (s.entries r).ci ci then (setDuty config times r g 0 s).2.released r g
          else s := by
  unfold pwmRemovePin
  cases s.map g with
  | none => rfl
  | some r => cases r <;> rfl

theorem pwmRemovePin_inv (config : GpioConfig C) (times : PwmTimes) {s : Manager C}
    (h : PwmInv fine s) (ci : ClientInfo) (g : Gpio) :
    PwmInv fine (pwmRemovePin config times ci s g) := by
  rw [pwmRemovePin_eq]
  split
  · exact h
  · next r hr =>
    split
    · obtain ⟨hmap, -, hrest⟩ := setDuty_zero config times s r g
      apply (setDuty_inv config times h hr 0).released _ hrest
      rw [hmap]
      exact hr
    · exact h

theorem pwmRemovePin_done (config : GpioConfig C) (times : PwmTimes) {s : Manager C}
    (h : PwmInv fine s) (client : Client) (g : Gpio) :
    (∀ r, (pwmRemovePin config times client.info s g).map g = some r →
      ¬ clientInfoMatch ((pwmRemovePin config times client.info s g).entries r).ci client.info) ∧
    (∀ k, k ≠ g → (pwmRemovePin config times client.info s g).map k = s.map k) ∧
    ∀ k r, k ≠ g → s.map k = some r →
      ((pwmRemovePin config times client.info s g).entries r).ci = (s.entries r).ci := by
  have hunmatched : ¬ clientInfoMatch unusedClient client.info :=
    fun hmatch => client.match_used hmatch rfl
  rw [pwmRemovePin_eq]
  cases hr : s.map g with
  | none =>
      dsimp only
      refine ⟨fun r hg => ?_, fun _ _ => rfl, fun _ _ _ _ => rfl⟩
      rw [hr] at hg
      cases hg
  | some r =>
      dsimp only
      split
      · obtain ⟨hmap, hsame, -⟩ := setDuty_zero config times s r g
        have hentry : ∀ r', (((setDuty config times r g 0 s).2.released r g).entries r').ci =
            if r' = r then unusedClient else (s.entries r').ci := by
          intro r'
          rw [← (hsame r').1]
          cases r <;> simp only [Manager.released, Manager.put, Function.update_apply] <;>
            split <;> rfl
        have hplace : ∀ k, ((setDuty config times r g 0 s).2.released r g).map k =
            if k = g ∧ ∃ i, r = .soft i then none else s.map k := by
          intro k
          rw [← hmap]
          cases r with
          | hard j =>
              rw [if_neg (by simp)]
              rfl
          | soft i =>
              simp only [Manager.released, Manager.put, Function.update_apply]
              by_cases hkg : k = g <;> simp [hkg]
        refine ⟨fun r' hr' => ?_, fun k hk => ?_, fun k r' hk hr' => ?_⟩
        · rw [hplace] at hr'
          split at hr'
          · cases hr'
          · rw [hr] at hr'
            cases hr'
            rw [hentry, if_pos rfl]
            exact hunmatched
        · rw [hplace, if_neg (fun hand => hk hand.1)]
        · rw [hentry, if_neg]
          rintro rfl
          exact hk (h.distinct hr' hr)
      · next hno =>
        refine ⟨fun r' hr' => ?_, fun _ _ => rfl, fun _ _ _ _ => rfl⟩
        rw [hr] at hr'
        cases hr'
        exact hno

/-- The disconnect keeps the slots and leaves nothing to the client. -/
theorem pwmRemoveClient_inv {s : Manager C} (h : PwmInv fine s) (client : Client) :
    PwmInv fine (pwmRemoveClient config times client.info s) ∧
      ∀ g r, (pwmRemoveClient config times client.info s).map g = some r →
        ¬ clientInfoMatch ((pwmRemoveClient config times client.info s).entries r).ci
          client.info := by
  have hloop : ∀ (gs : List Gpio) (t : Manager C), PwmInv fine t →
      PwmInv fine (gs.foldl (pwmRemovePin config times client.info) t) ∧
      ∀ g r, (g ∈ gs ∨ ∀ r, t.map g = some r → ¬ clientInfoMatch (t.entries r).ci client.info) →
        (gs.foldl (pwmRemovePin config times client.info) t).map g = some r →
        ¬ clientInfoMatch ((gs.foldl (pwmRemovePin config times client.info) t).entries r).ci
          client.info := by
    intro gs
    induction gs with
    | nil =>
        intro t ht
        refine ⟨ht, fun g r hclear hr => ?_⟩
        rcases hclear with hmem | hclear
        · cases hmem
        · exact hclear r hr
    | cons p gs ih =>
        intro t ht
        have hturn := pwmRemovePin_inv config times ht client.info p
        obtain ⟨hself, hmap, hci⟩ := pwmRemovePin_done config times ht client p
        obtain ⟨hinv, hrest⟩ := ih _ hturn
        refine ⟨hinv, fun g r hclear => hrest g r ?_⟩
        by_cases hgp : g = p
        · subst hgp
          exact .inr hself
        · rcases hclear with hmem | hclear
          · exact .inl ((List.mem_cons.mp hmem).resolve_left hgp)
          · refine .inr fun r' hr' => ?_
            rw [hmap g hgp] at hr'
            rw [hci g r' hgp hr']
            exact hclear r' hr'
  obtain ⟨hinv, hclear⟩ := hloop (List.finRange rpiGpioNum) s h
  exact ⟨hinv, fun g r => hclear g r (.inl (List.mem_finRange g))⟩

/-! ## Runs -/

theorem tick_entry {e e' : PwmEntry} {now : BitVec 32} {on : Bool}
    (h : (e.tick now).1 = some (on, e')) : e'.ci = e.ci ∧ e'.gpio = e.gpio ∧ e'.duty = e.duty := by
  unfold PwmEntry.tick at h
  generalize (if e.state then e.timeOn else e.timeOff) = pwmTime at h
  dsimp only at h
  split at h
  · cases h
    exact ⟨rfl, rfl, rfl⟩
  · cases h

theorem timerSlot_inv {s : Manager C} (h : PwmInv fine s) (now nextMin : BitVec 32) (i : SoftSlot) :
    PwmInv fine (timerSlot config now (s, nextMin) i).1 := by
  unfold timerSlot
  dsimp only
  split
  · exact h
  · split
    · exact h
    · cases hchange : ((s.entries (.soft i)).tick now).1 with
      | none => exact h
      | some change =>
          obtain ⟨on, e'⟩ := change
          have hsame := tick_entry hchange
          have hput : PwmInv fine (s.put (.soft i) fun _ => e') := by
            refine h.congr ?_ ?_ fun j => ?_
            · rfl
            · rfl
            · simp only [Manager.put, Function.update_apply]
              split
              · next hj =>
                cases hj
                exact hsame
              · exact ⟨rfl, rfl, rfl⟩
          exact hput.chip _

theorem timerIsr_inv {s : Manager C} (h : PwmInv fine s) (spent : BitVec 32) :
    PwmInv fine (timerIsr config spent s) := by
  have hloop : ∀ (slots : List SoftSlot) (p : Manager C × BitVec 32), PwmInv fine p.1 →
      PwmInv fine (slots.foldl (timerSlot config s.time) p).1 := by
    intro slots
    induction slots with
    | nil => exact fun _ hp => hp
    | cons i slots ih => exact fun p hp => ih _ (timerSlot_inv hp s.time p.2 i)
  have hslots := hloop (List.finRange numSoftPwm) (s, -1) h
  unfold timerIsr
  split
  · exact h
  · split
    · exact h.congr rfl rfl fun _ => ⟨rfl, rfl, rfl⟩
    · generalize (List.finRange numSoftPwm).foldl (timerSlot config s.time) (s, -1) = p at hslots ⊢
      exact hslots.congr rfl rfl fun _ => ⟨rfl, rfl, rfl⟩

theorem eventOps_inv {s : Manager C} (h : PwmInv fine s) (ops : List EventOp) :
    PwmInv fine (ops.foldl (EventOp.run config) s) := by
  induction ops generalizing s with
  | nil => exact h
  | cons op ops ih => exact ih (h.congr rfl rfl fun _ => ⟨rfl, rfl, rfl⟩)

theorem pwmSetDutyCycle_inv {s : Manager C} (h : PwmInv fine s) (client : Client) (g : Gpio)
    (duty : BitVec 32) {e : Option Errno} {s' : Manager C}
    (hs : pwmSetDutyCycle config times client.info g duty s = some (e, s')) : PwmInv fine s' := by
  unfold pwmSetDutyCycle at hs
  split at hs
  · have hsetup : PwmInv fine (pwmSetup config client.info g ⟨1000, 1024, 0⟩ s).2 :=
      pwmSetup_inv h client g ⟨1000, 1024, 0⟩
    split at hs
    · next hpair =>
      cases hs
      rw [hpair] at hsetup
      exact hsetup
    · cases hs
  · next r hr =>
    have hset := setDuty_inv config times h hr duty
    rw [Option.some.inj hs] at hset
    exact hset

theorem serveBody_inv {s : Manager C} (h : PwmInv fine s) (client : Client) (g : Gpio) (body : MsgBody)
    {reply : Reply} {s' : Manager C}
    (hs : serveBody config times client.info g s body = some (reply, s')) : PwmInv fine s' := by
  cases body with
  | setSelect value =>
      simp only [serveBody] at hs
      split at hs
      · cases hs
        exact h
      · cases hs
        exact h.chip _
  | getSelect =>
      cases hs
      exact h
  | write value =>
      simp only [serveBody] at hs
      split at hs
      · cases hs
        exact h.chip _
      · cases hs
        exact h
  | read =>
      simp only [serveBody] at hs
      split at hs
      · cases hs
        exact h
      · cases hs
        exact h
  | addEvent msg =>
      simp only [serveBody] at hs
      split at hs
      · cases hs
        exact h
      · cases hs
        exact eventOps_inv h _
  | pwmSetup msg =>
      cases hs
      exact pwmSetup_inv h client g msg
  | pwmDuty value =>
      obtain ⟨p, hp, hpair⟩ := Option.map_eq_some_iff.mp hs
      cases hpair
      exact pwmSetDutyCycle_inv h client g value hp
  | pud value =>
      simp only [serveBody] at hs
      split at hs
      · cases hs
        exact h
      · cases hs
        exact h.chip _
  | other =>
      cases hs
      exact h

theorem writePin_inv {s : Manager C} (h : PwmInv fine s) (g : Gpio) (bytes : Bytes) :
    PwmInv fine (writePin config g bytes s).2 := by
  unfold writePin
  split
  · exact h
  · split
    · exact h.chip _
    · split
      · exact h.chip _
      · split
        · split
          · exact h.chip _
          · exact h
        · split
          · split
            · exact h.chip _
            · exact h
          · exact h

theorem serve_inv {abi : MsgAbi} {s s' : Manager C} (h : PwmInv fine s) {r : Request}
    (hr : ∀ e, r = .spawns (some e) → ¬ fine) {reply : Option Reply} (hs : serve P times abi s r = some (reply, s')) : PwmInv fine s' := by
  cases r with
  | msg m =>
      obtain ⟨p, hp, hpair⟩ := Option.map_eq_some_iff.mp hs
      cases hpair
      unfold msgGpio at hp
      split at hp
      · cases hp
        exact h
      · exact serveBody_inv h m.client _ m.body hp
  | writeNode node bytes =>
      cases hs
      cases node with
      | none => exact h
      | some g => exact writePin_inv h g bytes
  | readNode node =>
      cases hs
      exact h
  | close client =>
      cases hs
      exact (pwmRemoveClient_inv (eventOps_inv h _) client).1
  | level g high =>
      cases hs
      exact h.chip _
  | clock ticks =>
      cases hs
      exact h.congr rfl rfl fun _ => ⟨rfl, rfl, rfl⟩
  | timer matched spent =>
      cases hs
      have hmatched : PwmInv fine { s with timerMatch := matched } :=
        h.congr rfl rfl fun _ => ⟨rfl, rfl, rfl⟩
      exact timerIsr_inv hmatched spent
  | attached =>
      cases hs
      exact h.congr rfl rfl fun _ => ⟨rfl, rfl, rfl⟩
  | spawns e =>
      cases hs
      refine ⟨h.hard, h.soft, h.held, h.idle, h.ready, fun hf => ?_⟩
      cases e with
      | none => rfl
      | some e => exact absurd hf (hr e rfl)

theorem serveAll_inv {abi : MsgAbi} {s s' : Manager C} (h : PwmInv fine s) {rs : List Request}
    (hrs : ∀ e, .spawns (some e) ∈ rs → ¬ fine) {replies : List (Option Reply)} (hs : serveAll P times abi s rs = some (replies, s')) :
    PwmInv fine s' := by
  induction rs generalizing s replies with
  | nil =>
      cases hs
      exact h
  | cons r rs ih =>
      obtain ⟨p, hp, hrest⟩ := Option.bind_eq_some_iff.mp hs
      obtain ⟨q, hq, hpair⟩ := Option.map_eq_some_iff.mp hrest
      cases hpair
      have hserve := serve_inv h (fun e he => hrs e (he ▸ List.mem_cons_self)) hp
      exact ih hserve (fun e he => hrs e (List.mem_cons_of_mem _ he)) hq

/-- What clients may rely on. -/
structure SlotsKept (config : GpioConfig C) (times : PwmTimes) (s : Manager C) : Prop where
  /-- a slot or channel serves one pin -/
  distinct : ∀ g g' r, s.map g = some r → s.map g' = some r → g = g'
  channels : ∀ g k, s.map g = some (.hard k) ↔ (hardPwm k).gpio = g
  running : ∀ i, (s.entries (.soft i)).duty ≠ 0 →
    s.map (s.entries (.soft i)).gpio = some (.soft i)
  /-- a setup of a pin without a place is told to try again exactly when pins hold all slots -/
  again : ∀ ci g msg, s.map g = none →
    ((pwmSetup config ci g msg s).1 = some .again ↔ ∀ i, ∃ g', s.map g' = some (.soft i))
  /-- the fault: a duty for a pin without a place while a slot is free -/
  fault : ∀ ci g duty, pwmSetDutyCycle config times ci g duty s = none ↔
    s.map g = none ∧ ∃ i, ∀ g', s.map g' ≠ some (.soft i)
  /-- a disconnect leaves the client nothing -/
  closed : ∀ client g r,
    (pwmRemoveClient config times (Client.info client) s).map g = some r →
    ¬ clientInfoMatch ((pwmRemoveClient config times client.info s).entries r).ci client.info

theorem PwmInv.firstFree_iff {s : Manager C} (h : PwmInv fine s) :
    s.firstFree = none ↔ ∀ i, ∃ g, s.map g = some (.soft i) := by
  rw [firstFree_none]
  constructor
  · intro hused i
    exact ⟨_, h.held i (hused i)⟩
  · intro hall i
    obtain ⟨g, hg⟩ := hall i
    exact (h.soft g i hg).2

theorem PwmInv.kept {s : Manager C} (h : PwmInv fine s) : SlotsKept config times s := by
  refine ⟨fun g g' r hg hg' => h.distinct hg hg', h.hard, fun i hi => ?_, ?_, ?_,
    fun client g r => (pwmRemoveClient_inv h client).2 g r⟩
  · exact h.held i fun hunused => hi (h.idle i hunused)
  · intro ci g msg hnone
    rw [← h.firstFree_iff]
    unfold pwmSetup Manager.findPwm
    rw [hnone]
    cases s.firstFree with
    | none => simp
    | some i =>
        dsimp only
        split <;> simp
  · intro ci g duty
    have hfree : (∃ i, ∀ g', s.map g' ≠ some (.soft i)) ↔ s.firstFree ≠ none := by
      rw [Ne, h.firstFree_iff]
      push Not
      rfl
    rw [hfree]
    unfold pwmSetDutyCycle
    cases hg : s.map g with
    | none =>
        dsimp only
        unfold pwmSetup Manager.findPwm
        rw [hg]
        cases s.firstFree with
        | none => simp
        | some i => simp [rpiPwmModePwm]
    | some r => simp

/-- Over every sequence of requests that the server survives; and the timer is ready for
the slots with a duty, as long as its thread can be created. -/
theorem slots_kept {abi : MsgAbi} {c : C} {table : EventTable} {rs : List Request}
    {replies : List (Option Reply)} {s : Manager C}
    (h : serveAll P times abi (pwmStarted c table) rs = some (replies, s)) :
    SlotsKept P.config times s ∧
      ((∀ e, .spawns (some e) ∉ rs) → ∀ i, (s.entries (.soft i)).duty ≠ 0 → s.timerReady = true) := by
  have hinv : PwmInv (∀ e, .spawns (some e) ∉ rs) s :=
    serveAll_inv (pwmInv_started c table) (fun e he hfine => hfine e he) h
  exact ⟨hinv.kept, hinv.ready⟩

def someAbi : MsgAbi := ⟨0, 24, 80, 32⟩

/-- A message to the message node. -/
def someMsg (gpio : BitVec 32) (body : MsgBody) : IoMsg :=
  ⟨0, 0, 80, true, true, none, someClient, gpio, body⟩

def idleTable : EventTable := fun _ => ⟨unusedClient, 0, 0, 0, 0, ⟨false, 0, 0⟩⟩

def quarterTimes : PwmTimes := fun _ _ _ _ => (250, 750)

/-- A pin is set up, run and given back by the disconnect. -/
def pwmSession : List Request :=
  [.msg (someMsg 5 (.pwmSetup ⟨1000, 1024, 0⟩)), .msg (someMsg 5 (.pwmDuty 256)), .timer true 1,
    .close someClient]

theorem slots_kept_one :
    ∃ replies s, serveAll chipPins quarterTimes someAbi (pwmStarted zeroChip idleTable) pwmSession =
        some (replies, s) ∧
      replies = [some .done, some .done, none, none] ∧
      SlotsKept chipPins.config quarterTimes s ∧
      ∀ i, (s.entries (.soft i)).duty ≠ 0 → s.timerReady = true := by
  have hreplies : (serveAll chipPins quarterTimes someAbi (pwmStarted zeroChip idleTable)
      pwmSession).map Prod.fst = some [some .done, some .done, none, none] := by decide
  obtain ⟨⟨replies, s⟩, hs, hfirst⟩ := Option.map_eq_some_iff.mp hreplies
  obtain ⟨hkept, hready⟩ := slots_kept hs
  exact ⟨replies, s, hs, hfirst, hkept, hready (by simp [pwmSession])⟩

end QnxHypervisor.GpioServer
