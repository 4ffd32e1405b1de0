import Mathlib.Logic.Function.Basic
import QnxHypervisor.Foundation.Machine
import QnxHypervisor.GuestManager.Metadata

/-! # Guests, records and processes

`discoverer.c`, `lifecycle.c` and the callbacks of `main.c`. Three places tell
whether a guest runs: the process table, the pid in the metadata file and the
record in memory. A step is one call; what files and kernel answer in it is
given with it. The legacy `qvm.pid` files are left out: nothing reads them.
-/

namespace QnxHypervisor.GuestManager

open Foundation

/-- A process. `launchedFor` is the guest whose `guest_start` forked it. -/
structure Proc where
  cmdline : Bytes
  launchedFor : Option Bytes

/-- A return of 0 from `guest_start`: the guest and the processes at that time. -/
structure Started where
  guest : Bytes
  procs : Int32 → Option Proc

/-- A SIGKILL that `guest_kill` delivered. -/
structure Killed where
  guest : Bytes
  target : Proc

structure Host where
  procs : Int32 → Option Proc
  /-- `/guests/<name>/.hms_metadata` -/
  metas : Bytes → Option Bytes
  guests : List Guest
  /-- pids given so far -/
  used : Int32 → Bool
  started : List Started
  killed : List Killed

/-- Some process launched for the guest is alive. -/
def Host.Alive (h : Host) (id : Bytes) (p : Int32) : Prop :=
  ∃ proc, h.procs p = some proc ∧ proc.launchedFor = some id

/-! ## Discovery -/

/-- `HmsConfig`, as far as `apply_defaults` reads it. -/
structure SshDefaults where
  user : CStr 64
  password : CStr 128
  port : Int32
  keyPath : CStr 512

/-- One entry of `/guests` with what discovery finds in it. -/
structure DirEntry where
  name : Bytes
  isDir : Bool
  /-- the first entry with `.qvmconf` in its name -/
  qvmconf : Option Bytes
  confExists : Bool
  /-- `guest_type_from_conf` and `guest_boot_image` -/
  type : GuestType
  bootImage : Option Bytes
  /-- `access` and `fopen` on the metadata file in `discover_one` -/
  metaExists : Bool
  metaOpens : Bool
  /-- what is there to read when its path had to be cut -/
  cutMeta : Option Bytes
  /-- `fopen` on the metadata file in `refresh_guest_state` -/
  stateOpens : Bool
  /-- `read_proc_cmdline` can open the entry -/
  procOpens : Bool
  /-- `refresh_guest_name` -/
  hostname : CStr 64

structure RefreshEnv where
  entries : List DirEntry
  cfg : SshDefaults

def pathJoin (a b : Bytes) : CStr 256 := .fit 256 (a ++ b)

def discoverOne (d : DirEntry) (text : Option Bytes) : Guest :=
  let dirPath := (pathJoin (utf8 "/guests/") d.name).bytes
  let confPath :=
    match d.qvmconf with
    | some file => pathJoin (pathJoin dirPath (utf8 "/")).bytes file
    | none => pathJoin dirPath (utf8 "/guest.conf")
  let fields : MetaFields := ⟨.fit 64 [], .fit 64 (utf8 "root"), .fit 128 [], .fit 512 [], 22, 0⟩
  let fields :=
    if d.confExists ∧ d.metaExists then
      parseConfNetwork (if d.metaOpens then text else none) fields
    else fields
  { id := .fit 32 d.name
    name := .fit 64 []
    type := if d.confExists then d.type else .qnx
    state := .stopped
    pid := fields.pid
    confPath := confPath
    bootPath :=
      match d.confExists, d.bootImage with
      | true, some boot => .fit 256 boot
      | _, _ => pathJoin dirPath (utf8 "/boot.img")
    rootfsPath := pathJoin dirPath (utf8 "/rootfs.img")
    ip := fields.ip
    sshUser := fields.sshUser
    sshPassword := fields.sshPassword
    sshKey := fields.sshKey
    sshPort := fields.sshPort }

/-- `read_proc_cmdline`: the separators become blanks, the last byte stays. -/
def readProcCmdline (cmdline : Bytes) : Option Bytes :=
  let buf := cmdline.take 4095
  match buf.getLast? with
  | none => none
  | some last => some (buf.dropLast.map (fun b => if b = 0 then 32 else b) ++ [last])

/-- The command line counts as a qvm's. -/
def looksLikeQvm (proc : Proc) : Bool :=
  match readProcCmdline proc.cmdline with
  | none => false
  | some line => containsText (utf8 "qvm") (cString line)

/-- The metadata file that `discover_one` reads is named by the whole directory name;
behind more than 233 bytes its path does not fit. -/
def DirEntry.metaText (d : DirEntry) (h : Host) : Option Bytes :=
  let name := cString d.name
  if (utf8 "/guests/").length + name.length + (utf8 "/.hms_metadata").length < 256 then
    h.metas name
  else d.cutMeta

/-- The metadata file that all others use is named by the id, the first 31 bytes. -/
def DirEntry.stateText (d : DirEntry) (h : Host) : Option Bytes := h.metas (CStr.fit 32 d.name).bytes

/-- The checks of `refresh_guest_state` on the stored pid. -/
def runningPid (d : DirEntry) (text : Option Bytes) (procs : Int32 → Option Proc) : Option Int32 :=
  let pid := storedPid (if d.stateOpens then text else none)
  if pid ≤ 0 then none
  else
    match procs pid with
    | none => none
    | some proc => if d.procOpens ∧ looksLikeQvm proc = true then some pid else none

/-- `refresh_guest_state`. -/
def refreshGuestState (d : DirEntry) (text : Option Bytes) (procs : Int32 → Option Proc)
    (g : Guest) : Guest :=
  match runningPid d text procs with
  | none => { g with state := .stopped, pid := 0 }
  | some pid => { g with state := .running, pid := pid }

def applyDefaults (cfg : SshDefaults) (g : Guest) : Guest :=
  { g with
    sshPort := if g.sshPort ≤ 0 then cfg.port else g.sshPort
    sshUser := if g.sshUser.bytes = [] then cfg.user else g.sshUser
    sshPassword := if g.sshPassword.bytes = [] then cfg.password else g.sshPassword
    sshKey := if g.sshKey.bytes = [] then cfg.keyPath else g.sshKey }

/-- `refresh_guest_name` as far as the record goes: no name while stopped. -/
def refreshGuestName (d : DirEntry) (g : Guest) : Guest :=
  { g with name := if g.state ≠ .running ∨ g.ip.bytes = [] then .fit 64 [] else d.hostname }

/-- The filter of `discover_guests`. -/
def DirEntry.IsGuest (d : DirEntry) : Prop :=
  d.name.head? ≠ some 46 ∧ (utf8 "guest-").isPrefixOf d.name = true ∧ d.isDir = true

instance (d : DirEntry) : Decidable d.IsGuest := inferInstanceAs (Decidable (_ ∧ _ ∧ _))

def guestOf (cfg : SshDefaults) (h : Host) (d : DirEntry) : Guest :=
  refreshGuestName d (applyDefaults cfg
    (refreshGuestState d (d.stateText h) h.procs (discoverOne d (d.metaText h))))

def discoverGuests (env : RefreshEnv) (h : Host) : List Guest :=
  ((env.entries.filter fun d => decide d.IsGuest).take maxGuests).map (guestOf env.cfg h)

/-- `refresh`. -/
def refresh (env : RefreshEnv) (h : Host) : Host := { h with guests := discoverGuests env h }

/-! ## Starting and killing -/

namespace Host

def setMeta (h : Host) (id : Bytes) (text : Option Bytes) : Host :=
  { h with metas := Function.update h.metas id text }

def spawn (h : Host) (p : Int32) (proc : Proc) : Host :=
  { h with procs := Function.update h.procs p (some proc), used := Function.update h.used p true }

def exit (h : Host) (p : Int32) : Host := { h with procs := Function.update h.procs p none }

/-- The found record is changed in place. -/
def setGuest (h : Host) (id : Bytes) (f : Guest → Guest) : Host :=
  { h with guests := updateGuest f id h.guests }

end Host

/-- The base name of a path: `strrchr(path, '/')`. -/
def baseName (path : Bytes) : Bytes := (path.reverse.takeWhile fun b => b != 47).reverse

/-- The arguments of `execl("/sbin/qvm", "qvm", conf_arg)`. -/
def qvmCmdline (confPath : Bytes) : Bytes :=
  utf8 "qvm" ++ 0 :: (64 :: (baseName confPath).take 254 ++ [0])

structure StartEnv where
  confExists : Bool
  /-- `fork`'s answer -/
  pid : Option Int32
  store : MetaEnv
  /-- the process is alive half a second later -/
  survives : Bool

/-- `fork` and `exec` of the qvm, its pid stored in the metadata file. -/
def launch (store : MetaEnv) (g : Guest) (p : Int32) (h : Host) : Host :=
  (h.spawn p ⟨qvmCmdline g.confPath.bytes, some g.id.bytes⟩).setMeta g.id.bytes
    (metaSet store pidKey (decimalInt p.toInt) (h.metas g.id.bytes))

def noteStarted (g : Guest) (h : Host) : Host :=
  let start : Started := ⟨g.id.bytes, h.procs⟩
  { h with started := h.started ++ [start] }

/-- `guest_start`. -/
def guestStart (env : StartEnv) (g : Guest) (h : Host) : Int × Host :=
  if g.state = .running then (0, noteStarted g h)
  else if ¬ env.confExists then (-1, h)
  else
    match env.pid with
    | none => (-1, h)
    | some p =>
        let h := launch env.store g p h
        if env.survives then (0, noteStarted g h) else (-1, h.exit p)

/-- The signal is delivered and the stored pid cleared. -/
def killProcess (store : MetaEnv) (g : Guest) (proc : Proc) (h : Host) : Host :=
  let kill : Killed := ⟨g.id.bytes, proc⟩
  { h.exit g.pid with killed := h.killed ++ [kill] }.setMeta g.id.bytes
    (metaSet store pidKey (utf8 "0") (h.metas g.id.bytes))

/-- `guest_kill`. -/
def guestKill (store : MetaEnv) (g : Guest) (h : Host) : Int × Host :=
  if g.state ≠ .running ∨ g.pid ≤ 0 then (-1, h)
  else
    match h.procs g.pid with
    | none => (-1, h)
    | some proc => (0, killProcess store g proc h)

/-! ## Commands and callbacks -/

def Guest.withIp (ip : Bytes) (g : Guest) : Guest := { g with ip := .fit 64 ip }

/-- The record as `ota_kill_cb` leaves it. -/
def Guest.markStopped (g : Guest) : Guest := { g with state := .stopped, pid := 0 }

/-- The record as `ota_start_cb` leaves it: the discoverer finds the pid later. -/
def Guest.markRunning (g : Guest) : Guest := { g with state := .running, pid := 0 }

/-- `cmd_start`; `after` is what its closing refresh finds. -/
def cmdStart (id ip : Bytes) (ipStore : MetaEnv) (env : StartEnv) (after : RefreshEnv)
    (h : Host) : Host :=
  match findGuest h.guests id with
  | none => h
  | some g =>
      if ip = [] then refresh after (guestStart env g h).2
      else
        let g := g.withIp ip
        let h := h.setGuest id (Guest.withIp ip)
        let h := h.setMeta g.id.bytes (guestSetIp ipStore g.ip.bytes (h.metas g.id.bytes))
        refresh after (guestStart env g h).2

def cmdKill (id : Bytes) (store : MetaEnv) (after : RefreshEnv) (h : Host) : Host :=
  match findGuest h.guests id with
  | none => h
  | some g => refresh after (guestKill store g h).2

def cmdInfo (id : Bytes) (after : RefreshEnv) (h : Host) : Host :=
  match findGuest h.guests id with
  | none => h
  | some _ => refresh after h

def otaKillCb (store : MetaEnv) (id : Bytes) (h : Host) : Int × Host :=
  match findGuest h.guests id with
  | none => (0, h)
  | some g =>
      if g.state ≠ .running then (0, h)
      else
        let result := guestKill store g h
        (result.1, result.2.setGuest id Guest.markStopped)

def otaStartCb (env : StartEnv) (id : Bytes) (h : Host) : Int × Host :=
  match findGuest h.guests id with
  | none => (-1, h)
  | some g =>
      let result := guestStart env g h
      if result.1 = 0 then
        (0, result.2.setGuest id Guest.markRunning)
      else result

/-! ## Steps -/

inductive HostEvent where
  | refresh (env : RefreshEnv)
  | start (id ip : Bytes) (ipStore : MetaEnv) (env : StartEnv) (after : RefreshEnv)
  | kill (id : Bytes) (store : MetaEnv) (after : RefreshEnv)
  | info (id : Bytes) (after : RefreshEnv)
  | otaKill (id : Bytes) (store : MetaEnv)
  | otaStart (id : Bytes) (env : StartEnv)
  /-- HMS ends and begins anew; the processes live on -/
  | restart (env : RefreshEnv)
  /-- a process ends by itself -/
  | exit (p : Int32)
  /-- some other process begins -/
  | spawn (p : Int32) (cmdline : Bytes)

def HostEvent.newPid : HostEvent → Option Int32
  | .start _ _ _ env _ => env.pid
  | .otaStart _ env => env.pid
  | .spawn p _ => some p
  | _ => none

/-- The kernel gives positive pids that no process has. -/
def FreshPid (h : Host) (e : HostEvent) : Prop :=
  ∀ p ∈ e.newPid, 0 < p ∧ (h.procs p).isNone = true

instance (h : Host) (e : HostEvent) : Decidable (FreshPid h e) :=
  Option.decidableForallMem e.newPid

def hostEffect (h : Host) : HostEvent → Host
  | .refresh env => refresh env h
  | .start id ip ipStore env after => cmdStart id ip ipStore env after h
  | .kill id store after => cmdKill id store after h
  | .info id after => cmdInfo id after h
  | .otaKill id store => (otaKillCb store id h).2
  | .otaStart id env => (otaStartCb env id h).2
  | .restart env => refresh env { h with guests := [] }
  | .exit p => h.exit p
  | .spawn p cmdline => h.spawn p ⟨cmdline, none⟩

def hostStep (h : Host) (e : HostEvent) : Option Host :=
  if FreshPid h e then some (hostEffect h e) else none

/-- No guest runs, and what metadata files name as pid is gone. -/
structure HostStart (h : Host) : Prop where
  procs : ∀ p proc, h.procs p = some proc → proc.launchedFor = none
  stored : ∀ id, h.procs (storedPid (h.metas id)) = none
  guests : h.guests = []
  usedProcs : ∀ p, h.procs p ≠ none → h.used p = true
  usedStored : ∀ id, h.used (storedPid (h.metas id)) = true
  started : h.started = []
  killed : h.killed = []

def hostMachine : Machine Host HostEvent where
  initial := HostStart
  step := hostStep

/-- No pid is given a second time. -/
def NoReuse (h : Host) (e : HostEvent) : Prop := ∀ p ∈ e.newPid, h.used p = false

instance (h : Host) (e : HostEvent) : Decidable (NoReuse h e) :=
  Option.decidableForallMem e.newPid

end QnxHypervisor.GuestManager
