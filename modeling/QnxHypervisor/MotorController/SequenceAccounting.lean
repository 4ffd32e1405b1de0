import QnxHypervisor.Foundation.EventRun
import QnxHypervisor.Foundation.SerialNumber
import QnxHypervisor.MotorController.Received

/-! # Sequence accounting over whole runs

The counters of the status log against the sender's true frame counters. The
accounting is a small machine of its own: accepted frames drive it, everything
else but a reopened bus passes it by, and what it counts over a run depends on
the accepted numbers alone. The counters are 64-bit words, so they tell what was
counted modulo 2^64, and a run of some 2^33 frames takes `seq_drops` past that.
-/

namespace QnxHypervisor.MotorController

open Foundation MotorWire MotorShm

/-! ## The accounting alone -/

/-- The variables and counters that sequence accounting and publishing touch. -/
structure SeqAccount where
  haveLast : Bool
  lastSeq : UInt32
  duplicates : UInt64
  framesOk : UInt64
  seqDrops : UInt64
  resets : UInt64
  deriving DecidableEq

def Controller.seqAccount (c : Controller) : SeqAccount where
  haveLast := c.haveLast
  lastSeq := c.lastSeq
  duplicates := c.st.duplicates
  framesOk := c.st.framesOk
  seqDrops := c.st.seqDrops
  resets := c.st.resets

def SeqAccount.accept (a : SeqAccount) (seq : UInt32) : SeqAccount :=
  let diff := (seq - a.lastSeq).toInt32.toInt
  if ¬ a.haveLast then { a with haveLast := true, lastSeq := seq, framesOk := a.framesOk + 1 }
  else if diff = 0 then { a with duplicates := a.duplicates + 1 }
  else if 0 < diff then
    { a with
      seqDrops := a.seqDrops + .ofNat (diff - 1).toNat, lastSeq := seq
      framesOk := a.framesOk + 1 }
  else { a with resets := a.resets + 1, lastSeq := seq, framesOk := a.framesOk + 1 }

/-- The account after counters that never went back, from no baseline on. -/
structure Accounted (a₀ a : SeqAccount) (as : List Nat) : Prop where
  haveLast : a.haveLast = !as.isEmpty
  lastSeq : ∀ last ∈ as.getLast?, a.lastSeq = UInt32.ofNat last
  duplicates : a.duplicates = a₀.duplicates + .ofNat (as.length - as.toFinset.card)
  framesOk : a.framesOk = a₀.framesOk + .ofNat as.toFinset.card
  seqDrops : a.seqDrops = a₀.seqDrops + .ofNat (skippedCounters as).card
  resets : a.resets = a₀.resets

theorem counted_succ (a : UInt64) (n : Nat) : a + .ofNat n + 1 = a + .ofNat (n + 1) := by
  rw [UInt64.ofNat_add, UInt64.add_assoc]
  rfl

theorem Accounted.start {a : SeqAccount} (h : a.haveLast = false) : Accounted a a [] where
  haveLast := h
  lastSeq := fun _ hlast => by cases hlast
  duplicates := (UInt64.add_zero _).symm
  framesOk := (UInt64.add_zero _).symm
  seqDrops := (UInt64.add_zero _).symm
  resets := rfl

theorem Accounted.first {a₀ a : SeqAccount} (h : Accounted a₀ a []) (b : Nat) :
    Accounted a₀ (a.accept (UInt32.ofNat b)) [b] := by
  have hnone : a.haveLast = false := h.haveLast
  have hstep : a.accept (UInt32.ofNat b) =
      { a with haveLast := true, lastSeq := UInt32.ofNat b, framesOk := a.framesOk + 1 } := by
    simp [SeqAccount.accept, hnone]
  rw [hstep]
  refine ⟨rfl, fun last hlast => ?_, ?_, ?_, ?_, h.resets⟩
  · obtain rfl := Option.some.inj hlast
    rfl
  · exact h.duplicates
  · show a.framesOk + 1 = _
    rw [h.framesOk, counted_succ]
    rfl
  · rw [skippedCounters_singleton]
    exact h.seqDrops

theorem Accounted.next {a₀ a : SeqAccount} {as : List Nat} (h : Accounted a₀ a as)
    (hchain : as.IsChain NextCounter) {last b : Nat} (hlast : as.getLast? = some last)
    (hb : NextCounter last b) : Accounted a₀ (a.accept (UInt32.ofNat b)) (as ++ [b]) := by
  have hne : as ≠ [] := by
    rintro rfl
    cases hlast
  have hhave : a.haveLast = true := by
    rw [h.haveLast]
    simpa using hne
  have hdiff : (UInt32.ofNat b - a.lastSeq).toInt32.toInt = (b - last : Nat) := by
    rw [h.lastSeq last hlast]
    exact toInt_sub_ofNat hb.1 hb.2
  have hlast' : ∀ x ∈ (as ++ [b]).getLast?, UInt32.ofNat b = UInt32.ofNat x := by
    intro x hx
    rw [List.getLast?_concat] at hx
    rw [Option.some.inj hx]
  have hcard := List.toFinset_card_le as
  rcases Nat.eq_or_lt_of_le hb.1 with rfl | hlt
  · obtain ⟨hset, hskip⟩ := skippedCounters_repeat hlast
    have hstep : a.accept (UInt32.ofNat last) = { a with duplicates := a.duplicates + 1 } := by
      have hzero : ((last - last : Nat) : Int) = 0 := by omega
      simp only [SeqAccount.accept, hhave, hdiff, not_true_eq_false, if_false, if_pos hzero]
    rw [hstep]
    refine ⟨?_, fun x hx => ?_, ?_, ?_, ?_, h.resets⟩
    · simp [hhave]
    · exact (h.lastSeq last hlast).trans (hlast' x hx)
    · have hmore : as.length + 1 - as.toFinset.card = as.length - as.toFinset.card + 1 := by omega
      simp only [hset, List.length_append, List.length_singleton, hmore]
      rw [h.duplicates, counted_succ]
    · rw [hset]
      exact h.framesOk
    · rw [hskip]
      exact h.seqDrops
  · obtain ⟨hnew, hskip⟩ := skippedCounters_next hchain hlast hlt
    have hpos : (0 : Int) < (b - last : Nat) := by omega
    have hstep : a.accept (UInt32.ofNat b) = { a with
        seqDrops := a.seqDrops + .ofNat (b - last - 1), lastSeq := UInt32.ofNat b
        framesOk := a.framesOk + 1 } := by
      have hgap : (((b - last : Nat) : Int) - 1).toNat = b - last - 1 := by omega
      have hzero : ¬ ((b - last : Nat) : Int) = 0 := by omega
      simp only [SeqAccount.accept, hhave, hdiff, not_true_eq_false, if_false, if_neg hzero,
        if_pos hpos, hgap]
    rw [hstep]
    refine ⟨?_, hlast', ?_, ?_, ?_, h.resets⟩
    · simp [hhave]
    · have hsame : as.length + 1 - (as.toFinset.card + 1) = as.length - as.toFinset.card := by
        omega
      simp only [hnew, List.length_append, List.length_singleton, hsame]
      exact h.duplicates
    · simp only [hnew]
      rw [h.framesOk, counted_succ]
    · simp only [hskip]
      rw [h.seqDrops, UInt64.ofNat_add, UInt64.add_assoc]

theorem accounted_foldl {a : SeqAccount} (h : a.haveLast = false) {as : List Nat}
    (hchain : as.IsChain NextCounter) :
    Accounted a ((as.map UInt32.ofNat).foldl SeqAccount.accept a) as := by
  induction as using List.reverseRecOn with
  | nil => exact .start h
  | append_singleton as b ih =>
      obtain ⟨hinit, -, hnext⟩ := List.isChain_append.mp hchain
      rw [List.map_append, List.foldl_append]
      cases hlast : as.getLast? with
      | none =>
          obtain rfl := List.getLast?_eq_none_iff.mp hlast
          exact (ih hinit).first b
      | some last => exact (ih hinit).next hinit hlast (hnext last hlast b rfl)

/-! ## The controller's account -/

theorem cmdObserve_account (h : FrameHeader) (g : CommandState) (active : ConfigPayload)
    (st : ControllerStats) :
    (cmdObserve h g active st).st.duplicates = st.duplicates ∧
      (cmdObserve h g active st).st.framesOk = st.framesOk ∧
      (cmdObserve h g active st).st.seqDrops = st.seqDrops ∧
      (cmdObserve h g active st).st.resets = st.resets := by
  unfold cmdObserve
  split_ifs <;> exact ⟨rfl, rfl, rfl, rfl⟩

theorem accountSequence_account (h : FrameHeader) (c : Controller) :
    (if (accountSequence h c).1 then
        { (accountSequence h c).2.seqAccount with
          framesOk := (accountSequence h c).2.seqAccount.framesOk + 1 }
      else (accountSequence h c).2.seqAccount) = c.seqAccount.accept h.seq := by
  unfold accountSequence SeqAccount.accept
  by_cases hlast : c.haveLast = true
  · simp only [Controller.seqAccount, hlast, not_true_eq_false, if_false]
    generalize (h.seq - c.lastSeq).toInt32.toInt = diff
    rcases lt_trichotomy diff 0 with hneg | rfl | hpos
    · have hzero : ¬ diff = 0 := by omega
      have hone : ¬ diff = 1 := by omega
      have hmany : ¬ 1 < diff := by omega
      have hgap : ¬ 0 < diff := by omega
      simp only [if_neg hzero, if_neg hone, if_neg hmany, if_neg hgap, if_true]
    · simp
    · have hzero : ¬ diff = 0 := by omega
      by_cases hone : diff = 1
      · subst hone
        simp
      · have hmany : 1 < diff := by omega
        simp only [if_neg hzero, if_neg hone, if_pos hmany, if_pos hpos, if_true]
  · simp [Controller.seqAccount, hlast]

theorem acceptFrame_account (rx : XferBuffer) (c : Controller) :
    (acceptFrame rx c).seqAccount = c.seqAccount.accept (frameHeader rx).seq := by
  obtain ⟨hdup, hok, hdrops, hresets⟩ :=
    cmdObserve_account (frameHeader rx) c.cmd c.activeStm c.st
  have hsame : c.seqAccount = Controller.seqAccount { c with
      cmd := (cmdObserve (frameHeader rx) c.cmd c.activeStm c.st).cmd
      activeStm := (cmdObserve (frameHeader rx) c.cmd c.activeStm c.st).activeStm
      st := (cmdObserve (frameHeader rx) c.cmd c.activeStm c.st).st } := by
    simp only [Controller.seqAccount, hdup, hok, hdrops, hresets]
  rw [hsame, ← accountSequence_account]
  unfold acceptFrame
  dsimp only
  split <;> rfl

/-- The number of a frame that this event brings and validation lets through. -/
def acceptedSeq (c : Controller) : LoopEvent → Option UInt32
  | .exchange rx =>
      if validateFrame c.activeStm rx = .accepted then some (frameHeader rx).seq else none
  | _ => none

theorem acceptedSeq_exchange (c : Controller) (rx : XferBuffer) :
    acceptedSeq c (.exchange rx) =
      if validateFrame c.activeStm rx = .accepted then some (frameHeader rx).seq else none := rfl

/-- A reload that closes and reopens the SPI bus, which drops the baseline. -/
def ReopensSpi (c : Controller) (e : LoopEvent) : Prop :=
  ∃ next ∈ e.adopted, configSpiWireDiffers next.pi c.cfg.pi = true

theorem receiveFrame_account (rx : XferBuffer) (c : Controller) :
    (receiveFrame rx c).seqAccount =
      (acceptedSeq c (.exchange rx)).elim c.seqAccount c.seqAccount.accept := by
  unfold receiveFrame acceptedSeq
  dsimp only
  cases hv : validateFrame c.activeStm rx with
  | accepted => exact acceptFrame_account rx { c with cmd := cmdCountAttempt c.cmd }
  | badMagic => rfl
  | badVersion => rfl
  | badSize => rfl
  | badCrc => rfl

theorem handleReload_account {c : Controller} {doc : Option Json} {env : ReloadEnv}
    (h : ¬ ReopensSpi c (.reload doc env)) :
    (handleReload doc env c).ctrl.seqAccount = c.seqAccount := by
  unfold handleReload
  cases hload : configLoadFile doc with
  | none => rfl
  | some next =>
      have hsame : ¬ configSpiWireDiffers next.pi c.cfg.pi = true := fun hdiff =>
        h ⟨next, hload, hdiff⟩
      simp only [reloadSpiTier, if_neg hsame, reloadPinTier, reloadStmTier]
      split <;> split <;> rfl

theorem loopStep_account {c : Controller} {e : LoopEvent} (h : ¬ ReopensSpi c e) :
    (loopStep c e).seqAccount = (acceptedSeq c e).elim c.seqAccount c.seqAccount.accept := by
  cases e with
  | reload doc env => exact handleReload_account h
  | noData interrupted => cases interrupted <;> rfl
  | exchangeFailed interrupted => cases interrupted <;> rfl
  | exchange rx => exact receiveFrame_account rx c

/-! ## Runs -/

/-- The numbers of the accepted frames of a run, in order. -/
def acceptedSeqs : Controller → List LoopEvent → List UInt32
  | _, [] => []
  | c, e :: es => (acceptedSeq c e).toList ++ acceptedSeqs (loopStep c e) es

/-- No event of the run reopens the SPI bus. -/
def BusKept (c : Controller) (es : List LoopEvent) : Prop :=
  StepsMeet loopStep (fun c e => ¬ ReopensSpi c e) c es

theorem loopRun_account {c : Controller} {es : List LoopEvent} (h : BusKept c es) :
    (loopRun c es).seqAccount = (acceptedSeqs c es).foldl SeqAccount.accept c.seqAccount := by
  induction es generalizing c with
  | nil => rfl
  | cons e es ih =>
      have hrest : (loopRun c (e :: es)).seqAccount = _ := ih h.2
      rw [hrest, loopStep_account h.1, acceptedSeqs, List.foldl_append]
      cases acceptedSeq c e <;> rfl

theorem loopRun_accounted {c : Controller} (hstart : c.haveLast = false) {es : List LoopEvent}
    (hbus : BusKept c es) {as : List Nat} (htrue : acceptedSeqs c es = as.map UInt32.ofNat)
    (hchain : as.IsChain NextCounter) :
    Accounted c.seqAccount (loopRun c es).seqAccount as := by
  rw [loopRun_account hbus, htrue]
  exact accounted_foldl hstart hchain

/-- The counters of a run of frames whose true counters never go back and never
jump by 2^31, as 64-bit words, and no frame with a repeated counter is published. -/
theorem sequence_accounting {c : Controller} (hstart : c.haveLast = false) {es : List LoopEvent}
    (hbus : BusKept c es) {as : List Nat} (htrue : acceptedSeqs c es = as.map UInt32.ofNat)
    (hchain : as.IsChain NextCounter) :
    (loopRun c es).st.duplicates = c.st.duplicates + .ofNat (as.length - as.toFinset.card) ∧
    (loopRun c es).st.framesOk = c.st.framesOk + .ofNat as.toFinset.card ∧
    (loopRun c es).st.seqDrops = c.st.seqDrops + .ofNat (skippedCounters as).card ∧
    (loopRun c es).st.resets = c.st.resets ∧
    ∀ last ∈ as.getLast?, ∀ rx, acceptedSeq (loopRun c es) (.exchange rx) = some (UInt32.ofNat last) →
      (receiveFrame rx (loopRun c es)).region = (loopRun c es).region := by
  have hcount := loopRun_accounted hstart hbus htrue hchain
  refine ⟨hcount.duplicates, hcount.framesOk, hcount.seqDrops, hcount.resets,
    fun last hlast rx hrx => ?_⟩
  have hhave : (loopRun c es).haveLast = true := by
    have hne : as ≠ [] := by
      rintro rfl
      cases hlast
    exact hcount.haveLast.trans (by simpa using hne)
  have hseq : (loopRun c es).lastSeq = UInt32.ofNat last := hcount.lastSeq last hlast
  have hold : ¬ freshSeq (frameHeader rx) (loopRun c es) = true := by
    rw [acceptedSeq_exchange] at hrx
    split at hrx
    · have hsame : (frameHeader rx).seq = UInt32.ofNat last := Option.some.inj hrx
      simp [freshSeq, hhave, hseq, hsame]
    · cases hrx
  rw [receiveFrame_region, if_neg fun hnew => hold hnew.2]

/-! ## A run over the wrap -/

/-- A block of one row that acknowledges nothing. -/
def plainFrame (seq : UInt32) : XferBuffer := wireFrame (dataHeader seq 0 0 1 0) fun _ => zeroRow

theorem plainFrame_accepted {c : Controller} (h : c.activeStm.blockRows = 0) (seq : UInt32) :
    acceptedSeq c (.exchange (plainFrame seq)) = some seq ∧
      (receiveFrame (plainFrame seq) c).activeStm = c.activeStm := by
  have hheader : frameHeader (plainFrame seq) = dataHeader seq 0 0 1 0 := frameHeader_wireFrame _ _
  have hlock : sizeLocked c.activeStm (frameHeader (plainFrame seq)) = false :=
    (sizeLocked_eq_false_iff _ _).mpr (.inl h)
  have hv : validateFrame c.activeStm (plainFrame seq) = .accepted :=
    (validateFrame_accepted_iff _ _).mpr
      ⟨dataFrame_wellFormed seq 0 0 0 _ (by decide) (by decide), hlock⟩
  constructor
  · rw [acceptedSeq_exchange, if_pos hv, hheader]
    rfl
  · rw [((receiveFrame_fields _ c).2.1 hv).2]
    rcases cmdObserve_cases (frameHeader (plainFrame seq)) (cmdCountAttempt c.cmd) c.activeStm c.st
      with ⟨-, hack, -, -⟩ | ⟨-, -, hkeep⟩ | ⟨-, -, -, hkeep⟩
    · have hflag : hasFlag (frameHeader (plainFrame seq)).flags motorFlagAckOk = false := by
        rw [hheader]
        exact (by decide : hasFlag 0 motorFlagAckOk = false)
      rw [hack.2] at hflag
      cases hflag
    · exact hkeep
    · exact hkeep

/-- The frames with these counters, and nothing else. -/
def plainRun (as : List Nat) : List LoopEvent :=
  as.map fun a => LoopEvent.exchange (plainFrame (UInt32.ofNat a))

/-- While no row count is locked in, every sequence of counters is accepted. -/
theorem plainFrames_accepted {c : Controller} (h : c.activeStm.blockRows = 0) (as : List Nat) :
    BusKept c (plainRun as) ∧ acceptedSeqs c (plainRun as) = as.map UInt32.ofNat := by
  induction as generalizing c with
  | nil => exact ⟨trivial, rfl⟩
  | cons a as ih =>
      obtain ⟨hseq, hactive⟩ := plainFrame_accepted h (UInt32.ofNat a)
      have hrows : (receiveFrame (plainFrame (UInt32.ofNat a)) c).activeStm.blockRows = 0 := by
        rw [hactive]
        exact h
      obtain ⟨hbus, hrest⟩ := ih hrows
      have hkept : ¬ ReopensSpi c (.exchange (plainFrame (UInt32.ofNat a))) := by
        rintro ⟨next, hnext, -⟩
        cases hnext
      refine ⟨⟨hkept, hbus⟩, ?_⟩
      simp only [plainRun, List.map_cons, acceptedSeqs, hseq, Option.toList_some,
        List.singleton_append]
      exact congrArg _ hrest

def wrapCounters : List Nat := [4294967295, 4294967295, 4294967298]

theorem sequence_accounting_wrap :
    let st := (loopRun defaultController (plainRun wrapCounters)).st
    st.duplicates = 1 ∧ st.framesOk = 2 ∧ st.seqDrops = 2 ∧ st.resets = 0 := by
  obtain ⟨hbus, hseqs⟩ := plainFrames_accepted (c := defaultController) rfl wrapCounters
  obtain ⟨hdup, hok, hdrops, hresets, -⟩ :=
    sequence_accounting (c := defaultController) rfl hbus hseqs (by decide)
  have hdistinct : wrapCounters.toFinset.card = 2 := by decide
  have hskipped : (skippedCounters wrapCounters).card = 2 := by decide
  have hst : defaultController.st = {} := rfl
  rw [hst, hdistinct] at hdup hok
  rw [hst, hskipped] at hdrops
  rw [hst] at hresets
  exact ⟨hdup, hok, hdrops, hresets⟩

/-! ## A run past the 64-bit counters -/

/-- `n` counters, each as far above the one before as a counter may be. -/
def farCounters (n : Nat) : List Nat := (List.range n).map (· * (2 ^ 31 - 1))

theorem farCounters_chain (n : Nat) : (farCounters n).IsChain NextCounter := by
  rw [farCounters, List.isChain_map, List.isChain_range]
  intro k _
  constructor <;> rw [Nat.succ_mul] <;> omega

/-- All but `n` of the counters up to the last are skipped. -/
theorem farCounters_skipped {n : Nat} (h : 0 < n) :
    (n - 1) * (2 ^ 31 - 1) + 1 ≤ (skippedCounters (farCounters n)).card + n := by
  have hhead : (farCounters n).head? = some 0 := by
    simp [farCounters, List.head?_range, h.ne']
  have hlast : (farCounters n).getLast? = some ((n - 1) * (2 ^ 31 - 1)) := by
    simp [farCounters, List.getLast?_range, h.ne']
  have hseen : (farCounters n).toFinset.card ≤ n := by
    have := List.toFinset_card_le (farCounters n)
    simpa [farCounters] using this
  have hrange : (Finset.Icc 0 ((n - 1) * (2 ^ 31 - 1))).card = (n - 1) * (2 ^ 31 - 1) + 1 := by
    rw [Nat.card_Icc, Nat.sub_zero]
  have hsplit := Finset.le_card_sdiff (farCounters n).toFinset
    (Finset.Icc 0 ((n - 1) * (2 ^ 31 - 1)))
  simp only [skippedCounters, hhead, hlast]
  omega

theorem farCounters_wrap {n : Nat} (h : 2 ^ 33 + 17 ≤ n) :
    2 ^ 64 ≤ (skippedCounters (farCounters n)).card := by
  have hmany := farCounters_skipped (n := n) (by omega)
  omega

theorem farCounters_drops {n : Nat} (h : 2 ^ 33 + 17 ≤ n) (c : Controller) :
    c.st.seqDrops.toNat ≠ (skippedCounters (farCounters n)).card := by
  have hmany := farCounters_wrap h
  have hlt := c.st.seqDrops.toNat_lt
  omega

/-- After 2^33 + 17 frames the skipped counters are more than `seq_drops` can hold. -/
theorem seq_drops_wraps :
    ∃ n : Nat, n = 2 ^ 33 + 17 ∧ defaultController.haveLast = false ∧
      defaultController.st = {} ∧ BusKept defaultController (plainRun (farCounters n)) ∧
      acceptedSeqs defaultController (plainRun (farCounters n)) =
        (farCounters n).map UInt32.ofNat ∧
      (farCounters n).IsChain NextCounter ∧
      (loopRun defaultController (plainRun (farCounters n))).st.seqDrops.toNat ≠
        (skippedCounters (farCounters n)).card := by
  obtain ⟨n, hn⟩ : ∃ n : Nat, n = 2 ^ 33 + 17 := ⟨_, rfl⟩
  obtain ⟨hbus, hseqs⟩ := plainFrames_accepted (c := defaultController) rfl (farCounters n)
  exact ⟨n, hn, rfl, rfl, hbus, hseqs, farCounters_chain n, farCounters_drops hn.ge _⟩

end QnxHypervisor.MotorController
