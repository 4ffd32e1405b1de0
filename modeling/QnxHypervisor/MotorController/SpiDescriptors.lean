import QnxHypervisor.MotorController.SpiSlots

/-! # SPI descriptors over reloads

The descriptor table of `rpi_spi` beside the controller. A descriptor is opened by the first
configure or exchange that needs it, and kept here with the number of restarts of `spi-dwc`
before it was opened. The controller closes what it believes to be configured.
-/

namespace QnxHypervisor.MotorController

open Foundation MotorWire

/-! ## The table -/

structure RpiSpi where
  /-- `spi_device_fd` -/
  fd : SpiSlot → Option Nat
  restarts : Nat

def rpiSpiStart : RpiSpi := ⟨fun _ => none, 0⟩

def openSpiDeviceFd (slot : SpiSlot) (opened : Bool) (r : RpiSpi) : Bool × RpiSpi :=
  match r.fd slot with
  | some _ => (true, r)
  | none =>
      if opened then (true, { r with fd := Function.update r.fd slot (some r.restarts) })
      else (false, r)

def openAndSend (slot : SpiSlot) (opened sent : Bool) (r : RpiSpi) : Bool × RpiSpi :=
  let o := openSpiDeviceFd slot opened r
  (o.1 && sent, o.2)

def rpiSpiConfigureDevice (slot : SpiSlot) (opened sent : Bool) (r : RpiSpi) : Bool × RpiSpi :=
  openAndSend slot opened sent r

def rpiSpiWriteReadData (slot : SpiSlot) (opened sent : Bool) (r : RpiSpi) : Bool × RpiSpi :=
  openAndSend slot opened sent r

def rpiSpiCleanupDevice (slot : SpiSlot) (closed : Bool) (r : RpiSpi) : RpiSpi :=
  match r.fd slot with
  | some _ => if closed then { r with fd := Function.update r.fd slot none } else r
  | none => r

/-! ## The controller and the table -/

structure Bus where
  ctrl : Controller
  rpi : RpiSpi

structure BusAnswers where
  closed : Bool
  /-- `spi_apply_conf` has restarted `spi-dwc` -/
  restarted : Bool
  opened : Nat → Bool
  sent : Nat → Bool

/-- `close_spi`. -/
def closeTable (link : SpiLink) (closed : Bool) (r : RpiSpi) : RpiSpi :=
  if link.configured then rpiSpiCleanupDevice ⟨link.bus, link.dev⟩ closed r else r

def bounceTable (restarted : Bool) (r : RpiSpi) : RpiSpi :=
  { r with restarts := r.restarts + restarted.toNat }

/-- The table before try `i`, when the tries before it have failed. -/
def tableBefore (slot : SpiSlot) (a : BusAnswers) (r : RpiSpi) : Nat → RpiSpi
  | 0 => r
  | i + 1 => (rpiSpiConfigureDevice slot (a.opened i) (a.sent i) (tableBefore slot a r i)).2

/-- Try `i` succeeds. -/
def tryOk (slot : SpiSlot) (a : BusAnswers) (r : RpiSpi) (i : Nat) : Bool :=
  (rpiSpiConfigureDevice slot (a.opened i) (a.sent i) (tableBefore slot a r i)).1

/-- What the reopen loop makes of the table; `tries` are left. -/
def reopenTable (slot : SpiSlot) (a : BusAnswers) : Nat → Nat → RpiSpi → RpiSpi
  | 0, _, r => r
  | tries + 1, i, r =>
      let c := rpiSpiConfigureDevice slot (a.opened i) (a.sent i) r
      if c.1 then c.2 else reopenTable slot a tries (i + 1) c.2

inductive BusEvent where
  | reload (doc : Option Json) (env : ReloadEnv) (a : BusAnswers)
  | noData (interrupted : Bool)
  | exchange (opened sent interrupted : Bool) (rx : XferBuffer)

/-- The adopted configuration, if it makes the reload bounce the bus. -/
def wireChange (s : Bus) (doc : Option Json) : Option FullConfig :=
  (configLoadFile doc).filter fun next => configSpiWireDiffers next.pi s.ctrl.cfg.pi

def usedSlot (s : Bus) : BusEvent → Option SpiSlot
  | .reload doc _ _ => (wireChange s doc).map fun next => next.pi.slot
  | .noData _ => none
  | .exchange .. => some s.ctrl.cfg.pi.slot

/-- The table at the call of `spi_apply_conf`. -/
def tableAtApply (s : Bus) (a : BusAnswers) : RpiSpi := closeTable s.ctrl.spi a.closed s.rpi

def busReload (s : Bus) (doc : Option Json) (env : ReloadEnv) (a : BusAnswers) : Bus :=
  match wireChange s doc with
  | none => ⟨(handleReload doc env s.ctrl).ctrl, s.rpi⟩
  | some next =>
      let bounced := bounceTable a.restarted (tableAtApply s a)
      let env := { env with openOk := tryOk next.pi.slot a bounced }
      ⟨(handleReload doc env s.ctrl).ctrl, reopenTable next.pi.slot a 5 0 bounced⟩

instance (slot : SpiSlot) : Decidable slot.InTable := inferInstanceAs (Decidable (_ ∧ _))

/-- Nothing is defined for an index outside the table. -/
def busStep (s : Bus) (e : BusEvent) : Option Bus :=
  if (usedSlot s e).all fun slot => decide slot.InTable then
    some (match e with
      | .reload doc env a => busReload s doc env a
      | .noData interrupted => ⟨loopStep s.ctrl (.noData interrupted), s.rpi⟩
      | .exchange opened sent interrupted rx =>
          let x := rpiSpiWriteReadData s.ctrl.cfg.pi.slot opened sent s.rpi
          ⟨loopStep s.ctrl (if x.1 then .exchange rx else .exchangeFailed interrupted), x.2⟩)
  else none

/-- Start-up configures the device once, after its own `spi_apply_conf`. -/
def busStart (doc : Option Json) (env : StartupEnv) (opened sent : Bool) : Option Bus :=
  let slot := (startConfig doc).pi.slot
  if slot.InTable then
    let x := rpiSpiConfigureDevice slot opened sent rpiSpiStart
    (startup doc { env with openOk := x.1 }).ctrl.map fun c => ⟨c, x.2⟩
  else none

def busMachine : Machine Bus BusEvent where
  initial s := ∃ doc env opened sent, busStart doc env opened sent = some s
  step := busStep

/-! ## What is promised -/

/-- The table at the call of `spi_apply_conf`, if the event makes it. -/
def appliedTable (s : Bus) : BusEvent → Option RpiSpi
  | .reload doc _ a => (wireChange s doc).map fun _ => tableAtApply s a
  | _ => none

def usedDescriptor (s : Bus) : BusEvent → Option Nat
  | .exchange opened sent _ _ =>
      (rpiSpiWriteReadData s.ctrl.cfg.pi.slot opened sent s.rpi).2.fd s.ctrl.cfg.pi.slot
  | _ => none

/-- No descriptor is open at `spi_apply_conf`, and an exchange uses one opened since the
last restart. -/
structure DescriptorLaw (s : Bus) (e : BusEvent) : Prop where
  closed : ∀ r ∈ appliedTable s e, ∀ slot, r.fd slot = none
  fresh : ∀ g ∈ usedDescriptor s e, g = s.rpi.restarts

/-- A reload that bounces the bus closes the configured link, and then either some try is
answered after a successful open or no open succeeds; an exchange opens no descriptor while
the link is down. -/
def KeepsTrack (s : Bus) : BusEvent → Prop
  | .reload doc _ a => wireChange s doc ≠ none →
      (s.ctrl.spi.configured = true → a.closed = true) ∧
        ((∃ i < 5, a.sent i = true ∧ ∃ j ≤ i, a.opened j = true) ∨ ∀ i < 5, a.opened i = false)
  | .noData _ => True
  | .exchange opened _ _ _ => s.ctrl.spi.configured = true ∨ opened = false

/-! ## One call -/

variable {slot other : SpiSlot} {a : BusAnswers} {r : RpiSpi} {s s' : Bus} {e : BusEvent}
  {opened sent : Bool}

theorem openAndSend_restarts : (openAndSend slot opened sent r).2.restarts = r.restarts := by
  unfold openAndSend openSpiDeviceFd
  dsimp only
  split
  · rfl
  · split <;> rfl

theorem openAndSend_other (h : other ≠ slot) :
    (openAndSend slot opened sent r).2.fd other = r.fd other := by
  unfold openAndSend openSpiDeviceFd
  dsimp only
  split
  · rfl
  · split
    · exact Function.update_of_ne h _ _
    · rfl

theorem openAndSend_fd : (openAndSend slot opened sent r).2.fd slot =
    (r.fd slot).or (if opened then some r.restarts else none) := by
  unfold openAndSend openSpiDeviceFd
  dsimp only
  split
  · next g hg => rw [hg, Option.some_or]
  · next hg =>
    rw [hg, Option.none_or]
    split
    · exact Function.update_self ..
    · exact hg

theorem openAndSend_ok :
    (openAndSend slot opened sent r).1 = (((r.fd slot).isSome || opened) && sent) := by
  unfold openAndSend openSpiDeviceFd
  dsimp only
  split
  · next g hg => rw [hg, Option.isSome_some, Bool.true_or]
  · next hg =>
    rw [hg, Option.isSome_none, Bool.false_or]
    cases opened <;> rfl

theorem openAndSend_held (h : r.fd slot ≠ none) : (openAndSend slot opened sent r).2 = r := by
  obtain ⟨g, hg⟩ := Option.ne_none_iff_exists'.mp h
  simp only [openAndSend, openSpiDeviceFd, hg]

theorem openAndSend_unopened : (openAndSend slot false sent r).2 = r := by
  unfold openAndSend openSpiDeviceFd
  dsimp only
  split <;> rfl

/-! ## The tries -/

theorem tableBefore_restarts (n : Nat) : (tableBefore slot a r n).restarts = r.restarts := by
  induction n with
  | zero => rfl
  | succ n ih => exact openAndSend_restarts.trans ih

theorem tableBefore_other (h : other ≠ slot) (n : Nat) :
    (tableBefore slot a r n).fd other = r.fd other := by
  induction n with
  | zero => rfl
  | succ n ih => exact (openAndSend_other h).trans ih

/-- The descriptor of the slot after `n` failed tries. -/
theorem tableBefore_fd (h : r.fd slot = none) (n : Nat) :
    ((∃ j < n, a.opened j = true) ∧ (tableBefore slot a r n).fd slot = some r.restarts) ∨
      ((∀ j < n, a.opened j = false) ∧ (tableBefore slot a r n).fd slot = none) := by
  induction n with
  | zero => exact .inr ⟨fun j hj => absurd hj (Nat.not_lt_zero j), h⟩
  | succ n ih =>
      have hstep : (tableBefore slot a r (n + 1)).fd slot = _ :=
        openAndSend_fd.trans (by rw [tableBefore_restarts])
      rw [hstep]
      rcases ih with ⟨⟨j, hj, hopened⟩, hfd⟩ | ⟨hnone, hfd⟩
      · exact .inl ⟨⟨j, by omega, hopened⟩, by rw [hfd, Option.some_or]⟩
      · rw [hfd, Option.none_or]
        cases hopened : a.opened n with
        | true => exact .inl ⟨⟨n, by omega, hopened⟩, rfl⟩
        | false =>
            refine .inr ⟨fun j hj => ?_, rfl⟩
            rcases Nat.lt_succ_iff_lt_or_eq.mp hj with hlt | rfl
            · exact hnone j hlt
            · exact hopened

theorem tryOk_iff (h : r.fd slot = none) (i : Nat) :
    tryOk slot a r i = true ↔ a.sent i = true ∧ ∃ j ≤ i, a.opened j = true := by
  rw [tryOk, rpiSpiConfigureDevice, openAndSend_ok, Bool.and_eq_true, Bool.or_eq_true, and_comm]
  refine and_congr_right fun _ => ?_
  rcases tableBefore_fd h i with ⟨⟨j, hj, hopened⟩, hfd⟩ | ⟨hnone, hfd⟩
  · rw [hfd]
    exact iff_of_true (.inl rfl) ⟨j, Nat.le_of_lt hj, hopened⟩
  · rw [hfd]
    constructor
    · rintro (hsome | hopened)
      · cases hsome
      · exact ⟨i, Nat.le_refl i, hopened⟩
    · rintro ⟨j, hj, hopened⟩
      rcases Nat.lt_or_eq_of_le hj with hlt | rfl
      · rw [hnone j hlt] at hopened
        cases hopened
      · exact .inr hopened

theorem reopen_ends (pi : PiConfig) (tries i : Nat) {link : SpiLink} (hdown : link.configured = false) :
    (∃ k < i + tries, (reopenSpi pi (tryOk pi.slot a r) tries i link).1.configured = true ∧
      tryOk pi.slot a r k = true ∧
      reopenTable pi.slot a tries i (tableBefore pi.slot a r i) = tableBefore pi.slot a r (k + 1)) ∨
    ((reopenSpi pi (tryOk pi.slot a r) tries i link).1.configured = false ∧
      (∀ k, i ≤ k → k < i + tries → tryOk pi.slot a r k = false) ∧
      reopenTable pi.slot a tries i (tableBefore pi.slot a r i) =
        tableBefore pi.slot a r (i + tries)) := by
  induction tries generalizing i link with
  | zero => exact .inr ⟨hdown, fun k hi hk => absurd hk (by omega), rfl⟩
  | succ tries ih =>
      have htable : reopenTable pi.slot a (tries + 1) i (tableBefore pi.slot a r i) =
          if tryOk pi.slot a r i then tableBefore pi.slot a r (i + 1)
          else reopenTable pi.slot a tries (i + 1) (tableBefore pi.slot a r (i + 1)) := rfl
      rw [htable, reopenSpi]
      cases hok : tryOk pi.slot a r i with
      | true => exact .inl ⟨i, by omega, rfl, hok, rfl⟩
      | false =>
          have hdown : (openSpi pi false link).1.configured = false := rfl
          rcases ih (i + 1) hdown with ⟨k, hk, hup, hkok, heq⟩ | ⟨hdown', hnone, heq⟩
          · exact .inl ⟨k, by omega, hup, hkok, heq⟩
          · refine .inr ⟨hdown', fun k hi hk => ?_, ?_⟩
            · rcases Nat.eq_or_lt_of_le hi with rfl | hlt
              · exact hok
              · exact hnone k hlt (by omega)
            · rw [show i + (tries + 1) = i + 1 + tries by omega]
              exact heq

/-! ## The invariant -/

/-- Only the slot of a configured link is open, since the last restart. -/
structure BusInv (s : Bus) : Prop where
  link : LinkAdopted s.ctrl
  only : ∀ slot, s.rpi.fd slot ≠ none → s.ctrl.spi.configured = true ∧ slot = s.ctrl.cfg.pi.slot
  held : s.ctrl.spi.configured = true → s.rpi.fd s.ctrl.cfg.pi.slot ≠ none
  fresh : ∀ slot, ∀ g ∈ s.rpi.fd slot, g = s.rpi.restarts

theorem wireChange_eq_some {doc : Option Json} {next : FullConfig} :
    wireChange s doc = some next ↔
      configLoadFile doc = some next ∧ configSpiWireDiffers next.pi s.ctrl.cfg.pi = true :=
  Option.filter_eq_some_iff

theorem reload_keeps {doc : Option Json} (h : wireChange s doc = none) (env : ReloadEnv) :
    (handleReload doc env s.ctrl).ctrl.spi = s.ctrl.spi ∧
      (handleReload doc env s.ctrl).ctrl.cfg.pi.slot = s.ctrl.cfg.pi.slot := by
  rcases handleReload_cases doc env s.ctrl with ⟨-, -, hc⟩ | ⟨next, hload, -, hcfg, -⟩
  · rw [hc]
    exact ⟨rfl, rfl⟩
  · have hsame : ¬ configSpiWireDiffers next.pi s.ctrl.cfg.pi = true := fun hdiff => by
      rw [wireChange_eq_some.mpr ⟨hload, hdiff⟩] at h
      cases h
    rw [(handleReload_spi hload env s.ctrl).1, hcfg, reloadSpiTier, if_neg hsame]
    exact ⟨rfl, slot_of_same_wire hsame⟩

theorem reload_bounces {doc : Option Json} {next : FullConfig} (h : wireChange s doc = some next)
    (env : ReloadEnv) :
    (handleReload doc env s.ctrl).ctrl.spi =
        (reopenSpi next.pi env.openOk 5 0 (closeSpi s.ctrl.spi).1).1 ∧
      (handleReload doc env s.ctrl).ctrl.cfg = next := by
  obtain ⟨hload, hdiff⟩ := wireChange_eq_some.mp h
  rcases handleReload_cases doc env s.ctrl with ⟨hnone, -, -⟩ | ⟨next', hload', -, hcfg, -⟩
  · rw [hload] at hnone
    cases hnone
  · obtain rfl := Option.some.inj (hload.symm.trans hload')
    rw [(handleReload_spi hload env s.ctrl).1, reloadSpiTier, if_pos hdiff]
    exact ⟨rfl, hcfg⟩

theorem cleanup_fd (closed : Bool) : (rpiSpiCleanupDevice slot closed r).fd slot =
    if closed then none else r.fd slot := by
  unfold rpiSpiCleanupDevice
  cases hfd : r.fd slot with
  | none =>
      dsimp only
      rw [hfd]
      split <;> rfl
  | some g =>
      cases closed with
      | true => exact Function.update_self ..
      | false => exact hfd

theorem cleanup_other (closed : Bool) (h : other ≠ slot) :
    (rpiSpiCleanupDevice slot closed r).fd other = r.fd other := by
  unfold rpiSpiCleanupDevice
  split
  · split
    · exact Function.update_of_ne h _ _
    · rfl
  · rfl

theorem link_slot (hinv : BusInv s) (hup : s.ctrl.spi.configured = true) :
    (⟨s.ctrl.spi.bus, s.ctrl.spi.dev⟩ : SpiSlot) = s.ctrl.cfg.pi.slot := by
  obtain ⟨hbus, hdev⟩ := hinv.link hup
  rw [hbus, hdev]
  rfl

theorem tableAtApply_empty (hinv : BusInv s)
    (hclosed : s.ctrl.spi.configured = true → a.closed = true) (slot : SpiSlot) :
    (tableAtApply s a).fd slot = none := by
  unfold tableAtApply closeTable
  split
  case isTrue hup =>
    rw [link_slot hinv hup, hclosed hup]
    by_cases hslot : slot = s.ctrl.cfg.pi.slot
    · rw [hslot]
      exact cleanup_fd true
    · rw [cleanup_other true hslot]
      by_contra hopen
      exact hslot (hinv.only slot hopen).2
  case isFalse hdown =>
    by_contra hopen
    exact hdown (hinv.only slot hopen).1

theorem tableBefore_fresh (hempty : ∀ other, r.fd other = none) (n : Nat) :
    ∀ other, ∀ g ∈ (tableBefore slot a r n).fd other,
      g = (tableBefore slot a r n).restarts := by
  intro other g hg
  rw [tableBefore_restarts]
  by_cases hslot : other = slot
  · rw [hslot] at hg
    rcases tableBefore_fd (hempty slot) n with ⟨-, hsome⟩ | ⟨-, hnone⟩
    · rw [hsome] at hg
      exact (Option.some.inj hg).symm
    · rw [hnone] at hg
      cases hg
  · rw [tableBefore_other hslot, hempty] at hg
    cases hg

theorem reopen_inv (pi : PiConfig) {link : SpiLink} (hdown : link.configured = false)
    (hempty : ∀ slot, r.fd slot = none)
    (htries : (∃ i < 5, a.sent i = true ∧ ∃ j ≤ i, a.opened j = true) ∨
      ∀ i < 5, a.opened i = false) :
    (∀ slot, (reopenTable pi.slot a 5 0 r).fd slot ≠ none →
      (reopenSpi pi (tryOk pi.slot a r) 5 0 link).1.configured = true ∧ slot = pi.slot) ∧
    ((reopenSpi pi (tryOk pi.slot a r) 5 0 link).1.configured = true →
      (reopenTable pi.slot a 5 0 r).fd pi.slot ≠ none) ∧
    ∀ slot, ∀ g ∈ (reopenTable pi.slot a 5 0 r).fd slot,
      g = (reopenTable pi.slot a 5 0 r).restarts := by
  have hfd (n : Nat) := tableBefore_fd (a := a) (hempty pi.slot) n
  have hother {n : Nat} {slot : SpiSlot} (h : slot ≠ pi.slot) :
      (tableBefore pi.slot a r n).fd slot = none := (tableBefore_other h n).trans (hempty slot)
  have hfresh (n : Nat) : ∀ slot, ∀ g ∈ (tableBefore pi.slot a r n).fd slot,
      g = (tableBefore pi.slot a r n).restarts := tableBefore_fresh hempty n
  rcases reopen_ends pi 5 0 hdown with ⟨k, -, hup, hok, heq⟩ | ⟨hdown', hnone, heq⟩
  · have htable : reopenTable pi.slot a 5 0 r = tableBefore pi.slot a r (k + 1) := heq
    rw [htable, hup]
    refine ⟨fun slot hopen => ⟨rfl, ?_⟩, fun _ => ?_, hfresh _⟩
    · by_contra hslot
      exact hopen (hother hslot)
    · obtain ⟨-, j, hj, hopened⟩ := (tryOk_iff (hempty pi.slot) k).mp hok
      rcases hfd (k + 1) with ⟨-, hsome⟩ | ⟨hclosed, -⟩
      · rw [hsome]
        exact Option.some_ne_none _
      · rw [hclosed j (by omega)] at hopened
        cases hopened
  · have htable : reopenTable pi.slot a 5 0 r = tableBefore pi.slot a r 5 := heq
    -- without a try that succeeds no open has succeeded
    have hopens : ∀ i < 5, a.opened i = false := by
      refine htries.resolve_left ?_
      rintro ⟨i, hi, hanswer⟩
      have hfail := hnone i (Nat.zero_le i) (by omega)
      rw [(tryOk_iff (hempty pi.slot) i).mpr hanswer] at hfail
      cases hfail
    rw [htable, hdown']
    refine ⟨fun slot hopen => absurd ?_ hopen, nofun, hfresh _⟩
    by_cases hslot : slot = pi.slot
    · rw [hslot]
      rcases hfd 5 with ⟨⟨j, hj, hopened⟩, -⟩ | ⟨-, hclosed⟩
      · rw [hopens j hj] at hopened
        cases hopened
      · exact hclosed
    · exact hother hslot

/-! ## Steps -/

theorem loopStep_keeps_link {c : Controller} {l : LoopEvent} (h : ∀ doc env, l ≠ .reload doc env) :
    (loopStep c l).spi = c.spi ∧ (loopStep c l).cfg = c.cfg := by
  cases l with
  | reload doc env => exact absurd rfl (h doc env)
  | noData interrupted => cases interrupted <;> exact ⟨rfl, rfl⟩
  | exchangeFailed interrupted => cases interrupted <;> exact ⟨rfl, rfl⟩
  | exchange rx => exact ⟨(receiveFrame_drivers rx c).1, (receiveFrame_fields rx c).1⟩

theorem BusInv.of_same (h : BusInv s) (hlink : LinkAdopted s'.ctrl)
    (hspi : s'.ctrl.spi = s.ctrl.spi) (hslot : s'.ctrl.cfg.pi.slot = s.ctrl.cfg.pi.slot)
    (hrpi : s'.rpi = s.rpi) : BusInv s' where
  link := hlink
  only := by
    rw [hspi, hslot, hrpi]
    exact h.only
  held := by
    rw [hspi, hslot, hrpi]
    exact h.held
  fresh := by
    rw [hrpi]
    exact h.fresh

theorem exchange_table (h : BusInv s) {interrupted : Bool} {rx : XferBuffer}
    (hok : KeepsTrack s (.exchange opened sent interrupted rx)) :
    (rpiSpiWriteReadData s.ctrl.cfg.pi.slot opened sent s.rpi).2 = s.rpi := by
  rcases hok with hup | rfl
  · exact openAndSend_held (h.held hup)
  · exact openAndSend_unopened

theorem busReload_inv (h : BusInv s) {doc : Option Json} (env : ReloadEnv)
    (hok : KeepsTrack s (.reload doc env a)) : BusInv (busReload s doc env a) := by
  unfold busReload
  cases hchange : wireChange s doc with
  | none =>
      obtain ⟨hspi, hslot⟩ := reload_keeps hchange env
      exact h.of_same (linkAdopted_reload h.link doc env) hspi hslot rfl
  | some next =>
      obtain ⟨hclosed, htries⟩ := hok (by rw [hchange]; exact Option.some_ne_none _)
      have hempty : ∀ slot, (bounceTable a.restarted (tableAtApply s a)).fd slot = none :=
        tableAtApply_empty h hclosed
      obtain ⟨honly, hheld, hfresh⟩ :=
        reopen_inv next.pi (closeSpi_configured s.ctrl.spi) hempty htries
      dsimp only
      obtain ⟨hspi, hcfg⟩ := reload_bounces hchange
        { env with openOk := tryOk next.pi.slot a (bounceTable a.restarted (tableAtApply s a)) }
      refine ⟨linkAdopted_reload h.link doc _, ?_, ?_, hfresh⟩
      · rw [hspi, hcfg]
        exact honly
      · rw [hspi, hcfg]
        exact hheld

theorem busInv_step (h : BusInv s) (hok : KeepsTrack s e) (hs : busStep s e = some s') :
    BusInv s' := by
  unfold busStep at hs
  split at hs
  case isFalse => cases hs
  case isTrue =>
    cases e with
    | reload doc env a =>
        obtain rfl := Option.some.inj hs
        exact busReload_inv h env hok
    | noData interrupted =>
        obtain rfl := Option.some.inj hs
        obtain ⟨hspi, hcfg⟩ := loopStep_keeps_link (c := s.ctrl) (l := .noData interrupted) nofun
        exact h.of_same (linkAdopted_step h.link _) hspi (by rw [hcfg]) rfl
    | exchange opened sent interrupted rx =>
        obtain rfl := Option.some.inj hs
        dsimp only
        obtain ⟨hspi, hcfg⟩ := loopStep_keeps_link (c := s.ctrl)
          (l := if (rpiSpiWriteReadData s.ctrl.cfg.pi.slot opened sent s.rpi).1 then .exchange rx
            else .exchangeFailed interrupted) (by intro doc env; split <;> nofun)
        exact h.of_same (linkAdopted_step h.link _) hspi (by rw [hcfg]) (exchange_table h hok)

theorem startup_configured {doc : Option Json} {env : StartupEnv} {c : Controller}
    (h : (startup doc env).ctrl = some c) : c.spi.configured = true := by
  obtain ⟨hshm, hopen, hsetup, hevent⟩ := (startup_entersLoop doc env).mp (by rw [h]; rfl)
  simp only [startup, datareadyArmPin, openSpi, hshm, hopen, hsetup, hevent, not_true, if_true,
    if_false, Option.some.injEq] at h
  subst h
  rfl

theorem busInv_start {doc : Option Json} {env : StartupEnv}
    (h : busStart doc env opened sent = some s) : BusInv s := by
  unfold busStart at h
  dsimp only at h
  split at h
  case isFalse => cases h
  case isTrue =>
    obtain ⟨c, hctrl, rfl⟩ := Option.map_eq_some_iff.mp h
    have hcfg : c.cfg = startConfig doc := (startup_ctrl hctrl).1
    -- start-up has gone on, so the device has been configured
    have hentered : StartupEnv.EntersLoop _ := (startup_entersLoop doc _).mp (by rw [hctrl]; rfl)
    have hok : (rpiSpiConfigureDevice (startConfig doc).pi.slot opened sent rpiSpiStart).1 = true :=
      hentered.2.1
    have hup : c.spi.configured = true := startup_configured hctrl
    have hopened : opened = true := by
      rw [rpiSpiConfigureDevice, openAndSend_ok, Bool.and_eq_true, Bool.or_eq_true] at hok
      exact hok.1.resolve_left nofun
    have hfd : (rpiSpiConfigureDevice (startConfig doc).pi.slot opened sent rpiSpiStart).2.fd
        (startConfig doc).pi.slot = some 0 := by
      rw [rpiSpiConfigureDevice, openAndSend_fd, hopened]
      rfl
    have hother {slot : SpiSlot} (hslot : slot ≠ (startConfig doc).pi.slot) :
        (rpiSpiConfigureDevice (startConfig doc).pi.slot opened sent rpiSpiStart).2.fd slot = none :=
      (openAndSend_other hslot).trans rfl
    refine ⟨linkAdopted_startup hctrl, fun slot hopen => ⟨hup, ?_⟩, fun _ => ?_, fun slot g hg => ?_⟩
    · rw [hcfg]
      by_contra hslot
      exact hopen (hother hslot)
    · rw [hcfg, hfd]
      exact Option.some_ne_none _
    · rw [show (rpiSpiConfigureDevice (startConfig doc).pi.slot opened sent rpiSpiStart).2.restarts = 0
        from openAndSend_restarts]
      by_cases hslot : slot = (startConfig doc).pi.slot
      · rw [hslot, hfd] at hg
        exact (Option.some.inj hg).symm
      · rw [hother hslot] at hg
        cases hg

/-! ## The law -/

theorem descriptorLaw_of_keepsTrack (h : BusInv s) (hok : KeepsTrack s e) : DescriptorLaw s e := by
  cases e with
  | reload doc env a =>
      refine ⟨fun r hr => ?_, fun g hg => nomatch hg⟩
      obtain ⟨next, hchange, rfl⟩ := Option.map_eq_some_iff.mp hr
      exact tableAtApply_empty h (hok (by rw [hchange]; exact Option.some_ne_none _)).1
  | noData interrupted => exact ⟨fun r hr => (nomatch hr), fun g hg => nomatch hg⟩
  | exchange opened sent interrupted rx =>
      refine ⟨fun r hr => (nomatch hr), fun g hg => ?_⟩
      have hheld : g ∈ s.rpi.fd s.ctrl.cfg.pi.slot := by
        rw [← exchange_table h hok]
        exact hg
      exact h.fresh _ g hheld

theorem busInv_reachable (h : busMachine.ReachableBy KeepsTrack s) : BusInv s := by
  refine h.invariant ?_ fun s e s' _ hinv hok hs => busInv_step hinv hok hs
  rintro s ⟨doc, env, opened, sent, hstart⟩
  exact busInv_start hstart

theorem no_descriptor_survives (h : busMachine.ReachableBy KeepsTrack s) (e : BusEvent)
    (hok : KeepsTrack s e) : DescriptorLaw s e :=
  descriptorLaw_of_keepsTrack (busInv_reachable h) hok

/-! ## What a slip leaves behind -/

/-- A descriptor is open while the link is down. -/
def Stray (s : Bus) : Prop := s.ctrl.spi.configured = false ∧ ∃ slot, s.rpi.fd slot ≠ none

/-- The next bounce finds it open. -/
theorem Stray.breaks (h : Stray s) {doc : Option Json} (hchange : wireChange s doc ≠ none)
    (env : ReloadEnv) (a : BusAnswers) : ¬ DescriptorLaw s (.reload doc env a) := by
  intro hlaw
  obtain ⟨hdown, slot, hopen⟩ := h
  obtain ⟨next, hnext⟩ := Option.ne_none_iff_exists'.mp hchange
  have htable : tableAtApply s a = s.rpi := by
    rw [tableAtApply, closeTable, if_neg (by rw [hdown]; decide)]
  have hclosed := hlaw.closed (tableAtApply s a) (by rw [appliedTable, hnext]; rfl) slot
  rw [htable] at hclosed
  exact hopen hclosed

theorem reload_slips (h : BusInv s) {doc : Option Json} (env : ReloadEnv)
    (hslip : ¬ KeepsTrack s (.reload doc env a)) :
    ¬ DescriptorLaw s (.reload doc env a) ∨ Stray (busReload s doc env a) := by
  obtain ⟨hchange, hcond⟩ := Classical.not_imp.mp hslip
  obtain ⟨next, hnext⟩ := Option.ne_none_iff_exists'.mp hchange
  by_cases hclosed : s.ctrl.spi.configured = true → a.closed = true
  · refine .inr ?_
    obtain ⟨hnotry, hsome⟩ := not_or.mp fun htries => hcond ⟨hclosed, htries⟩
    have hempty : ∀ slot, (bounceTable a.restarted (tableAtApply s a)).fd slot = none :=
      tableAtApply_empty h hclosed
    obtain ⟨hspi, -⟩ := reload_bounces hnext
      { env with openOk := tryOk next.pi.slot a (bounceTable a.restarted (tableAtApply s a)) }
    simp only [busReload, hnext]
    rcases reopen_ends next.pi 5 0 (closeSpi_configured s.ctrl.spi) with
      ⟨k, hk, -, hok, -⟩ | ⟨hdown, -, heq⟩
    · exact absurd ⟨k, by omega, (tryOk_iff (hempty _) k).mp hok⟩ hnotry
    · have htable : reopenTable next.pi.slot a 5 0 (bounceTable a.restarted (tableAtApply s a)) =
          tableBefore next.pi.slot a (bounceTable a.restarted (tableAtApply s a)) 5 := heq
      refine ⟨by rw [hspi]; exact hdown, next.pi.slot, ?_⟩
      rw [htable]
      rcases tableBefore_fd (a := a) (hempty next.pi.slot) 5 with ⟨-, hopen⟩ | ⟨hnone, -⟩
      · rw [hopen]
        exact Option.some_ne_none _
      · exact absurd hnone hsome
  · refine .inl fun hlaw => ?_
    obtain ⟨hup, hfail⟩ := Classical.not_imp.mp hclosed
    have hkept := hlaw.closed (tableAtApply s a) (by rw [appliedTable, hnext]; rfl) s.ctrl.cfg.pi.slot
    rw [tableAtApply, closeTable, if_pos hup, link_slot h hup, cleanup_fd, if_neg hfail] at hkept
    exact h.held hup hkept

theorem exchange_slips (h : BusInv s) {interrupted : Bool} {rx : XferBuffer}
    (hslip : ¬ KeepsTrack s (.exchange opened sent interrupted rx))
    (hs : busStep s (.exchange opened sent interrupted rx) = some s') : Stray s' := by
  obtain ⟨hdown, hopened⟩ := not_or.mp hslip
  unfold busStep at hs
  split at hs
  case isFalse => cases hs
  case isTrue =>
    obtain rfl := Option.some.inj hs
    obtain ⟨hspi, -⟩ := loopStep_keeps_link (c := s.ctrl)
      (l := if (rpiSpiWriteReadData s.ctrl.cfg.pi.slot opened sent s.rpi).1 then .exchange rx
        else .exchangeFailed interrupted) (by intro doc env; split <;> nofun)
    refine ⟨?_, s.ctrl.cfg.pi.slot, ?_⟩
    · dsimp only
      rw [hspi]
      simpa using hdown
    · dsimp only
      have hnone : s.rpi.fd s.ctrl.cfg.pi.slot = none := by
        by_contra hopen
        exact hdown (h.only _ hopen).1
      rw [rpiSpiWriteReadData, openAndSend_fd, hnone, if_pos (by simpa using hopened)]
      exact Option.some_ne_none _

/-- What does not keep track breaks the law, at once or at the next bounce. -/
theorem slip_breaks (h : BusInv s) (hslip : ¬ KeepsTrack s e) (hs : busStep s e = some s') :
    ¬ DescriptorLaw s e ∨ Stray s' := by
  cases e with
  | reload doc env a =>
      unfold busStep at hs
      split at hs
      case isFalse => cases hs
      case isTrue =>
        obtain rfl := Option.some.inj hs
        exact reload_slips h env hslip
  | noData interrupted => exact absurd trivial hslip
  | exchange opened sent interrupted rx => exact .inr (exchange_slips h hslip hs)

/-! ## Two runs -/

def defaultBus : Bus :=
  ⟨defaultController, (rpiSpiConfigureDevice configDefaults.pi.slot true true rpiSpiStart).2⟩

theorem defaultBus_start : busStart none faultlessStartup true true = some defaultBus := by
  have hin : (startConfig none).pi.slot.InTable := by decide
  have hctrl : (startup none { faultlessStartup with openOk := true }).ctrl = some defaultController :=
    defaultController_startup
  rw [busStart, if_pos hin]
  exact Option.map_eq_some_iff.mpr ⟨defaultController, hctrl, rfl⟩

theorem defaultBus_initial : busMachine.initial defaultBus :=
  ⟨none, faultlessStartup, true, true, defaultBus_start⟩

theorem defaultBus_wireChange :
    wireChange defaultBus (some (spiModeDoc 1)) = some (spiModeConfig 1) := by
  refine wireChange_eq_some.mpr ⟨load_spiMode_one, ?_⟩
  simp [defaultBus, configSpiWireDiffers, spiModeConfig, defaultController_cfg, configDefaults]

def firstTry : BusAnswers where
  closed := true
  restarted := true
  opened := fun _ => true
  sent := fun _ => true

theorem no_descriptor_survives_first_try :
    wireChange defaultBus (some (spiModeDoc 1)) ≠ none ∧
      DescriptorLaw defaultBus (.reload (some (spiModeDoc 1)) faultlessReload firstTry) := by
  refine ⟨by rw [defaultBus_wireChange]; exact Option.some_ne_none _, ?_⟩
  refine no_descriptor_survives (.initial defaultBus_initial) _ fun _ => ⟨fun _ => rfl, .inl ?_⟩
  exact ⟨0, by decide, rfl, 0, Nat.le_refl 0, rfl⟩

def unanswered : BusAnswers := { firstTry with sent := fun _ => false }

theorem unanswered_slips :
    ¬ KeepsTrack defaultBus (.reload (some (spiModeDoc 1)) faultlessReload unanswered) := by
  intro hok
  obtain ⟨-, htries⟩ := hok (by rw [defaultBus_wireChange]; exact Option.some_ne_none _)
  rcases htries with ⟨i, -, hsent, -⟩ | hopened
  · cases hsent
  · cases hopened 0 (by decide)

/-- The descriptor that the tries have opened is still open when the next reload restarts
`spi-dwc`. -/
theorem unanswered_descriptor_survives :
    ¬ ∀ s, busMachine.Reachable s → ∀ e, DescriptorLaw s e := by
  intro hall
  have hstart : busMachine.Reachable defaultBus := .initial defaultBus_initial
  have hstep : busStep defaultBus (.reload (some (spiModeDoc 1)) faultlessReload unanswered) =
      some (busReload defaultBus (some (spiModeDoc 1)) faultlessReload unanswered) := by
    refine if_pos ?_
    rw [usedSlot, defaultBus_wireChange]
    decide
  have hreach : busMachine.Reachable
      (busReload defaultBus (some (spiModeDoc 1)) faultlessReload unanswered) :=
    hstart.step (e := .reload (some (spiModeDoc 1)) faultlessReload unanswered) trivial hstep
  rcases slip_breaks (busInv_start defaultBus_start) unanswered_slips hstep with hbroken | hstray
  · exact hbroken (hall _ hstart _)
  · have hcfg : (busReload defaultBus (some (spiModeDoc 1)) faultlessReload unanswered).ctrl.cfg =
        spiModeConfig 1 := by
      simp only [busReload, defaultBus_wireChange]
      exact (reload_bounces defaultBus_wireChange _).2
    have hchange : wireChange (busReload defaultBus (some (spiModeDoc 1)) faultlessReload unanswered)
        (some (spiModeDoc 2)) = some (spiModeConfig 2) := by
      refine wireChange_eq_some.mpr ⟨load_spiMode_two, ?_⟩
      rw [hcfg]
      decide
    exact hstray.breaks (by rw [hchange]; exact Option.some_ne_none _) faultlessReload firstTry
      (hall _ hreach _)

end QnxHypervisor.MotorController
