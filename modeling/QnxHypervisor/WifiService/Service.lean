import QnxHypervisor.Foundation.Machine
import QnxHypervisor.Foundation.Text
import Mathlib.Logic.Function.Basic

/-! # The WiFi service

The main thread with its state functions, the monitors it has started, the
credential receivers it has started, and what they share: `g_state`, the flag and
the two strings of the credentials, and the `wpa_supplicant` that runs. Everything
done under `g_mtx` is one step, except the delivery of a receiver, which keeps the
mutex over three. Beside that stand the lines received since the main thread last
entered `state_on_default`, and the configurations written, each with the lines
received when it was.
-/

namespace QnxHypervisor.WifiService

open Foundation

/-! ## Credentials -/

/-- What `fgets` has put into `buf`, cut at its newline. -/
def receivedText (line : Bytes) : Bytes := (cString line).takeWhile fun b => b != newline

/-- The text behind the first colon after `key`, without blanks and quotes before
it, up to the next quote or 127 bytes. -/
def fieldText (key t : Bytes) : Bytes :=
  match t.tails.find? fun rest => key.isPrefixOf rest with
  | none => []
  | some p =>
      match p.dropWhile fun b => b != 58 with
      | [] => []
      | _ :: rest =>
          let value := rest.dropWhile fun b => b == 32 || b == 9 || b == 34
          (value.takeWhile fun b => b != 34).take 127

def ssidOf (line : Bytes) : Bytes := fieldText (utf8 "\"ssid\"") (receivedText line)

def passOf (line : Bytes) : Bytes := fieldText (utf8 "\"password\"") (receivedText line)

/-- What `write_real_conf` prints. -/
def realConfText (ssid pass : Bytes) : Bytes :=
  utf8 "ctrl_interface=/var/run/wpa_supplicant\n" ++ utf8 "ap_scan=1\n" ++ utf8 "network=\x7b\n" ++
    (utf8 "    ssid=\"" ++ ssid ++ utf8 "\"\n") ++ (utf8 "    psk=\"" ++ pass ++ utf8 "\"\n") ++
    utf8 "    key_mgmt=WPA-PSK\n" ++ utf8 "\x7d\n"

/-! ## Threads -/

inductive WifiState where
  | init
  | tryReal
  | onReal
  | tryDefault
  | onDefault
  | exit
deriving DecidableEq

/-- The configuration `wpa_supplicant` is started with. -/
inductive Conf where
  | real
  | default
deriving DecidableEq

/-- `STATE_ON_REAL` or `STATE_ON_DEFAULT`. -/
def Conf.on : Conf → WifiState
  | .real => .onReal
  | .default => .onDefault

/-- What the state function that tries this configuration sets when it fails. -/
def Conf.otherwise : Conf → WifiState
  | .real => .tryDefault
  | .default => .tryReal

def WifiState.connected (s : WifiState) : Bool := s = .onReal ∨ s = .onDefault

/-- What the main thread does next. `loop` tests `g_running`, `dispatch` reads the
state for the `switch`; `setState` is the last thing before `loop`. -/
inductive MainPhase where
  | loop
  | dispatch
  | setState (next : WifiState)
  | confExists
  | stop (conf : Conf)
  | start (conf : Conf)
  | startMonitor (conf : Conf)
  | firstTest (conf : Conf)
  | waiting (conf : Conf)
  | confirm (conf : Conf)
  | giveUp (conf : Conf)
  | onReal
  | leaveReal
  | detect
  | startReceiver
  | onDefault
  | openConf
  | readSsid
  | readPass (ssid : Bytes)
  | clearSsid
  | clearPass
  | stopForReal
  | leaveDefault
  | shutdown
  | exited
deriving DecidableEq

inductive MonitorPhase where
  | stopped
  | poll
  | look (connected : Bool)
  | store (connected : Bool) (next : WifiState)
deriving DecidableEq

structure Monitor where
  wasConnected : Bool
  phase : MonitorPhase
deriving DecidableEq

inductive Receiver where
  | stopped
  | test
  | receive
  | deliver (line : Bytes)
  | copySsid (line : Bytes)
  | copyPass (line : Bytes)
deriving DecidableEq

/-- A real configuration as it was written, and the lines received by then in the
round that wrote it. -/
structure Written where
  text : Bytes
  since : List Bytes

structure Wifi where
  gState : WifiState
  running : Bool
  credsReceived : Bool
  newSsid : Bytes
  newPass : Bytes
  mutex : Option Nat
  supplicant : Option Conf
  main : MainPhase
  monitors : Nat → Monitor
  monitorsStarted : Nat
  receivers : Nat → Receiver
  receiversStarted : Nat
  since : List Bytes
  written : List Written

inductive WifiEvent where
  /-- `choice` tells whether the configuration file can be opened, whether a wait
  ends before its time, whether an address is found. -/
  | main (choice : Bool)
  | monitor (i : Nat) (connected : Bool)
  | receiver (i : Nat) (line : Option Bytes)
  | signal

/-! ## The main thread -/

namespace Wifi

/-- A step under `g_mtx`. -/
def locked (s : Wifi) (next : Wifi) : Option Wifi := if s.mutex = none then some next else none

def goTo (s : Wifi) (phase : MainPhase) : Wifi := { s with main := phase }

/-- `wifi_stop`. -/
def stopSupplicant (s : Wifi) (phase : MainPhase) : Wifi :=
  { s with supplicant := none, main := phase }

/-- The phase of each `case` of the `switch`. -/
def enter (s : Wifi) : Wifi :=
  match s.gState with
  | .init => s.goTo (.setState .tryReal)
  | .tryReal => s.goTo .confExists
  | .onReal => s.goTo .onReal
  | .tryDefault => s.goTo (.stop .default)
  | .onDefault => { s with main := .detect, since := [] }
  | .exit => { s with running := false, main := .loop }

/-- The test of `wait_for_connect`, at its start or after a wake-up. -/
def testConnect (s : Wifi) (conf : Conf) : Wifi :=
  if s.gState.connected then s.goTo (.confirm conf)
  else if s.running then s.goTo (.waiting conf)
  else s.goTo (.giveUp conf)

/-- The test of the loop at the end of `state_on_default`. -/
def testCreds (s : Wifi) : Wifi :=
  if s.credsReceived then { s with credsReceived := false, main := .openConf }
  else if s.gState = .onDefault ∧ s.running then s
  else s.goTo .leaveDefault

end Wifi

def mainStep (s : Wifi) (choice : Bool) : Option Wifi :=
  match s.main with
  | .loop => some (s.goTo (if s.running then .dispatch else .shutdown))
  | .dispatch => s.locked s.enter
  | .setState next => s.locked { s with gState := next, main := .loop }
  | .confExists => some (s.goTo (if choice then .stop .real else .setState .tryDefault))
  | .stop conf => some (s.stopSupplicant (.start conf))
  | .start conf => some { s with supplicant := some conf, main := .startMonitor conf }
  | .startMonitor conf =>
      some { s with
        monitors := Function.update s.monitors s.monitorsStarted ⟨false, .poll⟩
        monitorsStarted := s.monitorsStarted + 1
        main := .firstTest conf }
  | .firstTest conf => s.locked (if s.running then s.testConnect conf else s.goTo (.giveUp conf))
  | .waiting conf => s.locked (if choice then s.testConnect conf else s.goTo (.giveUp conf))
  | .confirm conf => s.locked (s.goTo (if s.gState = conf.on then .loop else .giveUp conf))
  | .giveUp conf => some (s.stopSupplicant (.setState conf.otherwise))
  | .onReal => s.locked (s.goTo (if s.gState = .onReal ∧ s.running then .onReal else .leaveReal))
  | .leaveReal => some (s.stopSupplicant .loop)
  | .detect => some (s.goTo (if choice then .startReceiver else .setState .tryDefault))
  | .startReceiver =>
      some { s with
        receivers := Function.update s.receivers s.receiversStarted .test
        receiversStarted := s.receiversStarted + 1
        main := .onDefault }
  | .onDefault => s.locked s.testCreds
  | .openConf => some (s.goTo (if choice then .readSsid else .clearSsid))
  | .readSsid => some (s.goTo (.readPass s.newSsid))
  | .readPass ssid =>
      some { s with
        written := s.written ++ [⟨realConfText ssid s.newPass, s.since⟩]
        main := .clearSsid }
  | .clearSsid => some { s with newSsid := [], main := .clearPass }
  | .clearPass => some { s with newPass := [], main := .stopForReal }
  | .stopForReal => some (s.stopSupplicant (.setState .tryReal))
  | .leaveDefault => some (s.stopSupplicant .loop)
  | .shutdown => some (s.stopSupplicant .exited)
  | .exited => none

/-! ## Monitors and receivers -/

/-- The state a monitor sets when the connection has come or gone. -/
def reaction (connected wasConnected : Bool) : WifiState → Option WifiState
  | .tryReal => if connected && !wasConnected then some .onReal else none
  | .tryDefault => if connected && !wasConnected then some .onDefault else none
  | .onReal => if !connected && wasConnected then some .tryDefault else none
  | .onDefault => if !connected && wasConnected then some .tryReal else none
  | _ => none

namespace Wifi

def setMonitor (s : Wifi) (i : Nat) (m : Monitor) : Wifi :=
  { s with monitors := Function.update s.monitors i m }

def setReceiver (s : Wifi) (i : Nat) (r : Receiver) : Wifi :=
  { s with receivers := Function.update s.receivers i r }

end Wifi

/-- Nothing is connected while no `wpa_supplicant` runs. -/
def monitorStep (s : Wifi) (i : Nat) (connected : Bool) : Option Wifi :=
  let m := s.monitors i
  match m.phase with
  | .stopped => none
  | .poll =>
      some (s.setMonitor i { m with
        phase := if s.running then .look (connected && s.supplicant.isSome) else .stopped })
  | .look c =>
      s.locked (s.setMonitor i
        (match reaction c m.wasConnected s.gState with
          | none => ⟨c, .poll⟩
          | some next => { m with phase := .store c next }))
  | .store c next => s.locked ({ s with gState := next }.setMonitor i ⟨c, .poll⟩)

def receiverStep (s : Wifi) (i : Nat) (line : Option Bytes) : Option Wifi :=
  match s.receivers i with
  | .stopped => none
  | .test =>
      s.locked (s.setReceiver i
        (if s.running ∧ s.gState = .onDefault then .receive else .stopped))
  | .receive =>
      match line with
      | none => some (s.setReceiver i .test)
      | some l =>
          some ({ s with since := s.since ++ [l] }.setReceiver i
            (if ssidOf l = [] then .test else .deliver l))
  | .deliver l =>
      s.locked ({ s with mutex := some i, credsReceived := true }.setReceiver i (.copySsid l))
  | .copySsid l => some ({ s with newSsid := ssidOf l }.setReceiver i (.copyPass l))
  | .copyPass l =>
      some ({ s with newPass := passOf l, mutex := none }.setReceiver i .stopped)

/-! ## The service -/

def Wifi.started : Wifi :=
  { gState := .init, running := true, credsReceived := false, newSsid := [], newPass := []
    mutex := none, supplicant := none, main := .loop
    monitors := fun _ => ⟨false, .stopped⟩, monitorsStarted := 0
    receivers := fun _ => .stopped, receiversStarted := 0, since := [], written := [] }

def wifiMachine : Machine Wifi WifiEvent where
  initial s := s = .started
  step s
    | .main choice => mainStep s choice
    | .monitor i connected => monitorStep s i connected
    | .receiver i line => receiverStep s i line
    | .signal => some { s with running := false }

/-! ## What a step leaves alone -/

theorem locked_eq_some {s next s' : Wifi} (h : s.locked next = some s') :
    s.mutex = none ∧ s' = next := by
  unfold Wifi.locked at h
  split at h
  · next hfree => exact ⟨hfree, (Option.some.inj h).symm⟩
  · cases h

end QnxHypervisor.WifiService
