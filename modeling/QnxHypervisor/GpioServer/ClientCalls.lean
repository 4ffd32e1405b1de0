import QnxHypervisor.GpioServer.Isolation

/-! # The client's calls

The library that a client links: each call checks its arguments, sends one message to
the message node and reads the reply. What one call set is what a later one reads.
-/

namespace QnxHypervisor.GpioServer

open Foundation

variable {times : PwmTimes} {abi : MsgAbi}

/-- The return codes behind `GPIO_SUCCESS`; the node is open already. -/
inductive GpioError where
  | msgNotSent
  | inputOutOfRange
  deriving DecidableEq

/-- Whose connection, opened for reading and writing, a message is sent on. -/
def clientMsg (abi : MsgAbi) (client : Client) (pin : Int) (body : MsgBody) : IoMsg :=
  ⟨abi.iomgr, 0, body.needs abi, true, true, none, client, BitVec.ofInt 32 pin, body⟩

/-- `gpio_pin < 0 || gpio_pin >= GPIO_COUNT`. -/
def checkedMsg (abi : MsgAbi) (client : Client) (pin : Int) (body : Option MsgBody) :
    Except GpioError IoMsg :=
  if pin < 0 ∨ rpiGpioNum ≤ pin then .error .inputOutOfRange
  else
    match body with
    | none => .error .inputOutOfRange
    | some body => .ok (clientMsg abi client pin body)

inductive PinConfig where
  | input
  | output
  deriving DecidableEq

/-- `GPIO_IN` and `GPIO_OUT`. -/
def PinConfig.ofCode (n : Nat) : Option PinConfig :=
  if n = 0 then some .input else if n = 1 then some .output else none

/-- `RPI_GPIO_FUNC_IN` and `RPI_GPIO_FUNC_OUT`. -/
def PinConfig.func : PinConfig → BitVec 32
  | .input => 0
  | .output => 1

def rpiGpioSetup (abi : MsgAbi) (client : Client) (pin : Int) (configuration : Nat) :
    Except GpioError IoMsg :=
  checkedMsg abi client pin ((PinConfig.ofCode configuration).map fun c => .setSelect c.func)

def rpiGpioGetSetup (abi : MsgAbi) (client : Client) (pin : Int) : Except GpioError IoMsg :=
  checkedMsg abi client pin (some .getSelect)

/-- `GPIO_LOW` and `GPIO_HIGH`. -/
def levelOfCode (n : Nat) : Option Bool :=
  if n = 4 then some false else if n = 8 then some true else none

def rpiGpioOutput (abi : MsgAbi) (client : Client) (pin : Int) (level : Nat) :
    Except GpioError IoMsg :=
  checkedMsg abi client pin ((levelOfCode level).map fun l => .write (if l then 1 else 0))

/-- The end of a call that reads no reply. -/
def callDone : Reply → Except GpioError Unit
  | .failed _ => .error .msgNotSent
  | _ => .ok ()

/-- The end of `rpi_gpio_get_setup`. -/
def readSetup : Reply → Except GpioError PinConfig
  | .value v => if v = 0 then .ok .input else if v = 1 then .ok .output else .error .inputOutOfRange
  | _ => .error .msgNotSent

/-! ## Calls at the server -/

theorem checked_accepted {client : Client} {pin : Int} {body : Option MsgBody} {m : IoMsg}
    (h : checkedMsg abi client pin body = .ok m) :
    ∃ (g : Gpio) (b : MsgBody), body = some b ∧ m.body = b ∧ (g.val : Int) = pin ∧
      m.client = client ∧ m.accepted abi = .ok g := by
  unfold checkedMsg at h
  split at h
  · cases h
  · next hrange =>
    cases body with
    | none => cases h
    | some b =>
        cases h
        have hlow : 0 ≤ pin := by omega
        have hhigh : pin.toNat < rpiGpioNum := by omega
        have hgpio : (BitVec.ofInt 32 pin).toNat = pin.toNat := by
          have hword : pin.toNat < 2 ^ 32 := Nat.lt_trans hhigh (by decide)
          obtain ⟨n, rfl⟩ := Int.eq_ofNat_of_zero_le hlow
          have hn : n < 2 ^ 32 := hword
          simp only [BitVec.ofInt_natCast, BitVec.toNat_ofNat, Int.toNat_natCast]
          exact Nat.mod_eq_of_lt hn
        refine ⟨⟨pin.toNat, hhigh⟩, b, rfl, rfl, Int.toNat_of_nonneg hlow, rfl, ?_⟩
        unfold IoMsg.accepted clientMsg
        cases b.reads <;> simp [hgpio, hhigh]

theorem call_pin {client client' : Client} {pin : Int} {body body' : Option MsgBody}
    {m m' : IoMsg} {g g' : Gpio} (h : checkedMsg abi client pin body = .ok m)
    (h' : checkedMsg abi client' pin body' = .ok m') (hg : m.accepted abi = .ok g)
    (hg' : m'.accepted abi = .ok g') : g = g' := by
  obtain ⟨k, -, -, -, hk, -, hacc⟩ := checked_accepted h
  obtain ⟨k', -, -, -, hk', -, hacc'⟩ := checked_accepted h'
  rw [hacc] at hg
  rw [hacc'] at hg'
  cases hg
  cases hg'
  exact Fin.ext (by omega)

theorem serve_msg {s : Manager Chip} {m : IoMsg} {g : Gpio} (hg : m.accepted abi = .ok g) :
    serve chipPins times abi s (.msg m) =
      (serveBody chipPins.config times m.client.info g s m.body).map fun p => (some p.1, p.2) := by
  simp only [serve, msgGpio, hg]

/-! ## What was set is read -/

theorem select_setSelect (g : Gpio) {f : BitVec 32} (hf : f ≤ 7) (c : Chip) :
    rpi2711GpioGetSelect g (rpi2711GpioSetSelect g f c) = f := by
  rw [getSelect_board, setSelect_board g hf]
  simp only [board, Board.pin, Function.update_self]

theorem PinConfig.func_le (c : PinConfig) : c.func ≤ 7 := by
  cases c <;> decide

theorem readSetup_func (c : PinConfig) : readSetup (.value c.func) = .ok c := by
  cases c <;> rfl

theorem setup_serve (times : PwmTimes) {client : Client} {pin : Int} {configuration : Nat} {m : IoMsg}
    (h : rpiGpioSetup abi client pin configuration = .ok m) (s : Manager Chip) :
    ∃ c g, PinConfig.ofCode configuration = some c ∧ m.accepted abi = .ok g ∧
      serve chipPins times abi s (.msg m) =
        some (some (.value (rpi2711GpioGetSelect g s.chip)),
          { s with chip := rpi2711GpioSetSelect g c.func s.chip }) := by
  obtain ⟨g, b, hbody, hm, -, -, hacc⟩ := checked_accepted h
  obtain ⟨c, hc, rfl⟩ := Option.map_eq_some_iff.mp hbody
  refine ⟨c, g, hc, hacc, ?_⟩
  rw [serve_msg hacc, hm]
  simp only [serveBody]
  rw [if_neg (show ¬ chipPins.config.maxFuncs < c.func from BitVec.not_lt.mpr c.func_le)]
  rfl

/-- Between its setup and a question about it, by any client, a pin keeps its
configuration as long as no request is about it. -/
theorem setup_reads_back {c : Chip} {table : EventTable} {first rest : List Request}
    {replies replies' : List (Option Reply)} {s s₁ s₂ : Manager Chip} {client client' : Client}
    {pin : Int} {configuration : Nat} {m m' : IoMsg} {reply : Option Reply} {g : Gpio}
    (hfirst : serveAll chipPins times abi (pwmStarted c table) first = some (replies, s))
    (hcall : rpiGpioSetup abi client pin configuration = .ok m)
    (hset : serve chipPins times abi s (.msg m) = some (reply, s₁))
    (hpin : (g.val : Int) = pin)
    (hrest : Undisturbed chipPins times abi g s₁ rest)
    (hrun : serveAll chipPins times abi s₁ rest = some (replies', s₂))
    (hask : rpiGpioGetSetup abi client' pin = .ok m') :
    (∃ r, reply = some r ∧ callDone r = .ok ()) ∧
      ∃ r config, serve chipPins times abi s₂ (.msg m') = some (some r, s₂) ∧
        PinConfig.ofCode configuration = some config ∧ readSetup r = .ok config := by
  obtain ⟨config, k, hconfig, hacc, hserve⟩ := setup_serve times hcall s
  rw [hserve] at hset
  cases hset
  obtain ⟨k', b, hbody, hm', hk', -, hacc'⟩ := checked_accepted hask
  cases hbody
  have hkk : k = k' := call_pin hcall hask hacc hacc'
  have hgk : g = k' := Fin.ext (by omega)
  subst hkk
  subst hgk
  refine ⟨⟨_, rfl, rfl⟩, .value config.func, config, ?_, hconfig, readSetup_func config⟩
  have hinv : PwmInv False { s with chip := rpi2711GpioSetSelect g config.func s.chip } :=
    (serveAll_inv (pwmInv_started c table) (fun _ _ => id) hfirst).chip _
  have hkept := serveAll_chipPin hinv hrest hrun
  have hfunc : rpi2711GpioGetSelect g s₂.chip = config.func := by
    rw [getSelect_board, ← select_setSelect g config.func_le s.chip, getSelect_board]
    exact hkept.func
  rw [serve_msg hacc', hm']
  change some (some (Reply.value (rpi2711GpioGetSelect g s₂.chip)), s₂) = _
  rw [hfunc]

theorem undisturbed_pinFour (s : Manager Chip) :
    Undisturbed chipPins quarterTimes someAbi pinFive s [.readNode pinFour] :=
  ⟨id, fun _ _ => trivial⟩

/-- Pin 5 is set up as an output, pin 4 is read, and another client asks about pin 5. -/
theorem setup_reads_back_output :
    ∃ r s₂ m', rpiGpioGetSetup someAbi otherClient 5 = .ok m' ∧
      serve chipPins quarterTimes someAbi s₂ (.msg m') = some (some r, s₂) ∧
      readSetup r = .ok .output := by
  obtain ⟨m, hm⟩ : ∃ m, rpiGpioSetup someAbi someClient 5 1 = .ok m := ⟨_, rfl⟩
  obtain ⟨m', hm'⟩ : ∃ m', rpiGpioGetSetup someAbi otherClient 5 = .ok m' := ⟨_, rfl⟩
  have hfirst : serveAll chipPins quarterTimes someAbi (pwmStarted zeroChip idleTable) [] =
      some ([], pwmStarted zeroChip idleTable) := rfl
  obtain ⟨_, _, _, _, hset⟩ := setup_serve quarterTimes hm (pwmStarted zeroChip idleTable)
  obtain ⟨-, r, config, hask, hconfig, hread⟩ :=
    setup_reads_back (g := pinFive) hfirst hm hset rfl (undisturbed_pinFour _) rfl hm'
  cases hconfig
  exact ⟨r, _, m', hm', hask, hread⟩

/-! ## What was written is driven -/

/-- The write of a call that passes its checks. -/
theorem output_serve (times : PwmTimes) {client : Client} {pin : Int} {level : Nat} {m : IoMsg}
    (h : rpiGpioOutput abi client pin level = .ok m) (s : Manager Chip) :
    ∃ l g, levelOfCode level = some l ∧ (g.val : Int) = pin ∧
      serve chipPins times abi s (.msg m) =
        if rpi2711GpioGetSelect g s.chip = 1 then
          some (some .done, { s with
            chip := if l then rpi2711GpioSet g s.chip else rpi2711GpioClear g s.chip })
        else some (some (.failed .noDevice), s) := by
  obtain ⟨g, b, hbody, hm, hpin, -, hacc⟩ := checked_accepted h
  obtain ⟨l, hl, rfl⟩ := Option.map_eq_some_iff.mp hbody
  refine ⟨l, g, hl, hpin, ?_⟩
  rw [serve_msg hacc, hm]
  simp only [serveBody]
  change Option.map _ (if rpi2711GpioGetSelect g s.chip = 1 then _ else _) = _
  split
  · cases l <;> rfl
  · rfl

theorem drive_pin (g : Gpio) (l : Bool) (c : Chip) :
    (if l then rpi2711GpioSet g c else rpi2711GpioClear g c).pin g =
      { c.pin g with out := l } := by
  have hpin : ∀ c' : Chip, c'.pin g = c'.board.pins g := fun _ => rfl
  cases l
  · rw [hpin, if_neg Bool.false_ne_true, clear_board]
    exact Function.update_self _ _ _
  · rw [hpin, if_pos rfl, set_board]
    exact Function.update_self _ _ _

/-- A write to an output reports success, and the pin drives its level until the next
request about it; on any other pin the call fails and changes nothing. -/
theorem output_drives {c : Chip} {table : EventTable} {first rest : List Request}
    {replies replies' : List (Option Reply)} {s s₁ s₂ : Manager Chip} {client : Client}
    {pin : Int} {level : Nat} {m : IoMsg} {reply : Option Reply} {g : Gpio}
    (hfirst : serveAll chipPins times abi (pwmStarted c table) first = some (replies, s))
    (hcall : rpiGpioOutput abi client pin level = .ok m)
    (hwrite : serve chipPins times abi s (.msg m) = some (reply, s₁))
    (hpin : (g.val : Int) = pin)
    (hrest : Undisturbed chipPins times abi g s₁ rest)
    (hrun : serveAll chipPins times abi s₁ rest = some (replies', s₂)) :
    ∃ r l, reply = some r ∧ levelOfCode level = some l ∧
      ((s.chip.pin g).func = 1 → callDone r = .ok () ∧
        { s.chip.pin g with out := l }.Same (s₂.chip.pin g)) ∧
      ((s.chip.pin g).func ≠ 1 → callDone r = .error .msgNotSent ∧ s₁ = s) := by
  obtain ⟨l, k, hl, hk, hserve⟩ := output_serve times hcall s
  have hgk : g = k := Fin.ext (by omega)
  subst hgk
  have hfunc : rpi2711GpioGetSelect g s.chip = (s.chip.pin g).func := getSelect_board g s.chip
  have hinv := serveAll_inv (pwmInv_started c table) (fun _ _ => id) hfirst
  rw [hserve, hfunc] at hwrite
  split at hwrite
  · next hout =>
    cases hwrite
    refine ⟨.done, l, rfl, hl, fun _ => ⟨rfl, ?_⟩, fun hno => absurd hout hno⟩
    rw [← drive_pin g l s.chip]
    exact serveAll_chipPin (hinv.chip _) hrest hrun
  · next hout =>
    cases hwrite
    exact ⟨.failed .noDevice, l, rfl, hl, fun hyes => absurd hyes hout, fun _ => ⟨rfl, rfl⟩⟩

/-- Pin 5 is made an output by its node and written high. -/
theorem output_drives_high :
    ∃ s s₂ : Manager Chip, ∃ l, levelOfCode 8 = some l ∧ (s.chip.pin pinFive).func = 1 ∧
      { s.chip.pin pinFive with out := l }.Same (s₂.chip.pin pinFive) := by
  obtain ⟨m, hm⟩ : ∃ m, rpiGpioOutput someAbi someClient 5 8 = .ok m := ⟨_, rfl⟩
  obtain ⟨p, hfirst⟩ : ∃ p, serveAll chipPins quarterTimes someAbi (pwmStarted zeroChip idleTable)
      [.writeNode pinFive (utf8 "out")] = some p := ⟨_, rfl⟩
  have hfunc : (p.2.chip.pin pinFive).func = 1 := by
    have hrun : (serveAll chipPins quarterTimes someAbi (pwmStarted zeroChip idleTable)
        [.writeNode pinFive (utf8 "out")]).map (fun q => (q.2.chip.pin pinFive).func) = some 1 := by decide
    rw [hfirst] at hrun
    exact Option.some.inj hrun
  obtain ⟨q, hwrite⟩ : ∃ q, serve chipPins quarterTimes someAbi p.2 (.msg m) = some q := by
    obtain ⟨_, g, -, -, hserve⟩ := output_serve quarterTimes hm p.2
    rw [hserve]
    split
    · exact ⟨_, rfl⟩
    · exact ⟨_, rfl⟩
  obtain ⟨r, l, -, hl, hdone, -⟩ :=
    output_drives (g := pinFive) hfirst hm hwrite rfl (undisturbed_pinFour _) rfl
  exact ⟨p.2, _, l, hl, hfunc, (hdone hfunc).2⟩

end QnxHypervisor.GpioServer
