import QnxHypervisor.OtaUpdate.Files

/-! # The update jobs

The threads of `ota.c` behind the commands `ota`, `fetch`, `apply`, `addfile` and
`addguest`, and the part of `handle_command` that starts them. Progress reports
while a child runs are left out.
-/

namespace QnxHypervisor.OtaUpdate

open Foundation GuestManager HmsStatus

/-- `%.<n>s`. -/
def clipped (n : Nat) (t : Bytes) : Bytes := t.take n

/-! ## ota -/

/-- `ota_apply`: an archive goes to the stage directory, a plain file to the
guest's. -/
def otaApply (env : JobEnv) (id pkg : Bytes) (w : World) : Int × World :=
  let w := w.mkdirs env (stageDir id)
  if isArchive pkg then
    let w := w.report id "extract" 0 (utf8 "Extracting package")
    let (rc, w) := w.untar env (stageDir id) pkg
    if rc ≠ 0 then (-1, w.report id "extract" 0 (utf8 "Extraction failed")) else (0, w)
  else
    let w := w.report id "extract" 0 (utf8 "Copying file into guest directory")
    w.cp env 0 pkg (join (guestDir id) (baseOnly pkg))

/-- `ota_thread` -/
def otaThread (env : JobEnv) (id remote : Bytes) (w : World) : World :=
  let pkg := join (packageDir id) (baseOnly remote)
  let w := w.report id "download" 0 (utf8 "Starting pull from server")
  let (size, w) := w.remoteSize env 0 remote
  let (ok, w) := w.pullFile env 0 1 size remote pkg
  if ¬ ok then w.report id "failed" 0 (utf8 "Failed to pull package from server")
  else
    let w := w.report id "download" 100 (utf8 "Package pulled")
    let w := w.report id "prep" 0 (utf8 "Stopping guest before applying update")
    let w := (w.call id (otaKillCb env.killStore id)).2
    let (rc, w) := otaApply env id pkg w
    if rc ≠ 0 then w.report id "failed" 0 (utf8 "Failed to apply update")
    else
      let w := w.report id "apply" 100 (utf8 "Update applied")
      let w := w.report id "restart" 0 (utf8 "Restarting guest")
      let (rc, w) := w.call id (otaStartCb env.start id)
      w.publish (.otaResult id (rc = 0)
        (if rc = 0 then utf8 "OTA update applied and guest restarted"
         else utf8 "Update applied but guest restart failed"))

/-! ## fetch -/

/-- The attempts on one file, `left` of the three being left. -/
def fetchAttempts (env : JobEnv) (id remote : Bytes) (i : Nat) (size : Option Nat) :
    Nat → World → Bool × World
  | 0, w => (false, w)
  | left + 1, w =>
      let attempt := 3 - left
      let name := baseOnly remote
      let file := join (stageDir id) name
      let w :=
        if attempt > 1 then
          (w.report id "download" 0
            (utf8 "Retry " ++ decimal attempt ++ utf8 "/3 for " ++ clipped 100 name)).unlink file
        else w
      let (ok, w) := w.pullFile env i attempt size remote file
      if ok then (true, w) else fetchAttempts env id remote i size left w

/-- The loop over the remote files from index `i` on. -/
def fetchFiles (env : JobEnv) (id : Bytes) : Nat → List Bytes → World → Bool × World
  | _, [], w => (true, w)
  | i, remote :: rest, w =>
      let name := baseOnly remote
      if isControlFile name then
        (false, w.report id "failed" 0
          (utf8 "Refused to fetch control file '" ++ clipped 120 name ++ utf8 "'"))
      else
        let (size, w) := w.remoteSize env i remote
        let w := w.report id "download" 0 (utf8 "Starting pull from server")
        let w := w.unlink (join (stageDir id) name)
        let (ok, w) := fetchAttempts env id remote i size 3 w
        if ¬ ok then
          (false, w.report id "failed" 0 (utf8 "Failed to pull file from server after 3 attempts"))
        else
          fetchFiles env id (i + 1) rest
            (w.report id "download" 100 (utf8 "Fetched file from server"))

/-- `ota_fetch_thread` -/
def fetchThread (env : JobEnv) (id : Bytes) (paths : List Bytes) (w : World) : World :=
  let (ok, w) := fetchFiles env id 0 paths (w.mkdirs env (stageDir id))
  if ok then
    w.publish (.otaResult id true
      (decimal paths.length ++ utf8 " file(s) fetched, ready to apply"))
  else w

/-! ## apply -/

def maxFiles : Nat := 16

/-- The `readdir` loop with `room` names left; a control file ends it. -/
def readStaged : Nat → List Bytes → Except Bytes (List Bytes)
  | _, [] => .ok []
  | 0, _ :: _ => .ok []
  | room + 1, name :: rest =>
      if name = utf8 "." ∨ name = utf8 ".." then readStaged (room + 1) rest
      else if isControlFile name then .error name
      else (readStaged room rest).map (name :: ·)

/-- The copy loop from index `i` of `n` on. -/
def copyStaged (env : JobEnv) (id : Bytes) (n : Nat) : Nat → List Bytes → World → Bool × World
  | _, [], w => (true, w)
  | i, name :: rest, w =>
      let (rc, w) := w.cp env i (join (stageDir id) name) (join (guestDir id) name)
      if rc ≠ 0 then
        (false, w.report id "failed" 0 (utf8 "Failed to place file in guest directory"))
      else
        copyStaged env id n (i + 1) rest
          (w.report id "apply" (Int32.ofNat ((i + 1) * 100 / n)) (utf8 "Updated " ++ clipped 120 name))

/-- Image files force a restart. -/
def restartAfter (restart : Bool) (names : List Bytes) : Bool :=
  if names.any isImageFile then true else restart

def restartGuest (env : JobEnv) (id : Bytes) (restart : Bool) (w : World) : World :=
  if restart then
    let w := w.report id "restart" 50 (utf8 "Guest stopped, starting now")
    let (rc, w) := w.call id (otaStartCb env.start id)
    w.report id "restart" 100 (if rc = 0 then utf8 "Guest restarted" else utf8 "Guest restart failed")
  else w.report id "restart" 100 (utf8 "Files replaced (guest left running)")

/-- The clean-up loop. -/
def unlinkStaged (id : Bytes) (names : List Bytes) (w : World) : World :=
  names.foldl (fun w name => w.unlink (join (stageDir id) name)) w

/-- `ota_apply_thread` -/
def applyThread (env : JobEnv) (id : Bytes) (restart : Bool) (w : World) : World :=
  if ¬ w.fs.isDir (resolve (stageDir id)) then
    w.report id "failed" 0 (utf8 "No staged files found — run Update (fetch) first")
  else
    match readStaged maxFiles env.listing with
    | .error name =>
        w.report id "failed" 0
          (utf8 "Refused to apply control file '" ++ clipped 120 name ++ utf8 "'")
    | .ok [] => w.report id "failed" 0 (utf8 "No staged files found — run Update (fetch) first")
    | .ok names =>
        let w := w.report id "restart" 0 (utf8 "Stopping guest before applying changes")
        let w := (w.call id (otaKillCb env.killStore id)).2
        let (ok, w) := copyStaged env id names.length 0 names w
        if ¬ ok then w
        else
          let restart := restartAfter restart names
          let w := unlinkStaged id names (restartGuest env id restart w)
          w.publish (.otaResult id true (decimal names.length ++ utf8 " file(s) applied" ++
            if restart then utf8 " and guest restarted" else utf8 " (no restart)"))

/-! ## addfile -/

/-- `addfile_thread` -/
def addfileThread (env : JobEnv) (id remote : Bytes) (w : World) : World :=
  let name := baseOnly remote
  if isControlFile name then
    w.publish (.addfileResult id false
      (utf8 "Refused to add control file '" ++ clipped 120 name ++ utf8 "'"))
  else
    let w := w.mkdirs env (addfileDir id)
    let file := join (addfileDir id) name
    let (size, w) := w.remoteSize env 0 remote
    let (ok, w) := (w.unlink file).pullFile env 0 1 size remote file
    let (ok, w) :=
      if ok then
        let (rc, w) := w.cp env 0 file (join (guestDir id) name)
        (rc == 0, w.unlink file)
      else (ok, w)
    if ok then
      w.publish (.addfileResult id true
        (utf8 "Added " ++ clipped 120 name ++ utf8 " to " ++ guestDir id ++
          utf8 " (no guest restart needed)"))
    else w.publish (.addfileResult id false (utf8 "failed to add the file to the guest directory"))

/-! ## addguest -/

/-- `fopen(meta, "a")` and `fprintf`. -/
def appendIp (id ip : Bytes) (w : World) : World :=
  let p := resolve (metaFile id)
  { w with fs := w.fs.write p ((textAt w.fs p).getD [] ++ utf8 "ip=" ++ ip ++ [newline]) }

/-- `addguest_thread` -/
def addguestThread (env : JobEnv) (id ifs conf ip : Bytes) (w : World) : World :=
  if w.fs.isDir (resolve (guestDir id)) ∨ w.fs.node (resolve (guestDir id)) ≠ none then
    w.publish (.addguestResult id false (utf8 "a guest with this ID already exists"))
  else
    let confName := baseOnly conf
    let ifsName := baseOnly ifs
    if isControlFile confName ∨ isControlFile ifsName then
      w.publish (.addguestResult id false (utf8 "refusing control-file names"))
    else
      let w := w.mkdirs env (guestDir id)
      let (size, w) := w.remoteSize env 0 conf
      let (ok, w) := w.pullFile env 0 1 size conf (join (guestDir id) confName)
      let (ok, w) :=
        if ok then
          let (size, w) := w.remoteSize env 1 ifs
          w.pullFile env 1 1 size ifs (join (guestDir id) ifsName)
        else (ok, w)
      let w := if ok ∧ ip ≠ [] then appendIp id ip w else w
      if ok then
        w.publish (.addguestResult id true
          (utf8 "guest '" ++ clipped 32 id ++ utf8 "' created (" ++ clipped 60 confName ++
            utf8 ", " ++ clipped 60 ifsName ++ utf8 ") — refresh the list"))
      else
        w.publish (.addguestResult id false (utf8 "failed to pull the guest files from the server"))

/-! ## Starting a job -/

inductive Job where
  | ota (id remote : Bytes)
  | fetch (id : Bytes) (paths : List Bytes)
  | apply (id : Bytes) (restart : Bool)
  | addfile (id remote : Bytes)
  | addguest (id ifs conf ip : Bytes)
  deriving DecidableEq

/-- A job begins: no messages yet and nothing written. -/
def World.begin (fs : FileTree) (host : Host) : World := ⟨fs, host, [], []⟩

def Job.run (env : JobEnv) (w : World) : Job → World
  | .ota id remote => otaThread env id remote w
  | .fetch id paths => fetchThread env id paths w
  | .apply id restart => applyThread env id restart w
  | .addfile id remote => addfileThread env id remote w
  | .addguest id ifs conf ip => addguestThread env id ifs conf ip w

/-- `strtok(s, " ")`: the token and what is left behind it. -/
def strtok (s : Bytes) : Option (Bytes × Bytes) :=
  match s.dropWhile fun b => b == 32 with
  | [] => none
  | rest => some (rest.takeWhile fun b => b != 32, (rest.dropWhile fun b => b != 32).drop 1)

/-- The tokens of repeated calls. -/
def tokens (s : Bytes) : List Bytes := (s.splitOn 32).filter fun t => t ≠ []

/-- The paths of `fetch`: one entry less than fit, and a mark for what is dropped. -/
def fetchPaths (args : List Bytes) : List Bytes :=
  if args.length ≤ maxFiles - 1 then args.map fun t => (CStr.fit 1024 t).bytes
  else (args.take (maxFiles - 1)).map (fun t => (CStr.fit 1024 t).bytes) ++ [utf8 "(truncated)"]

/-- `cmd_ota`, `cmd_fetch`, `cmd_apply`, `cmd_addfile` and `cmd_addguest` behind
`handle_command`: the job a command starts. -/
def handleCommand (guests : List Guest) (cmd : Bytes) : Option Job :=
  match strtok (CStr.fit 2048 cmd).bytes with
  | none => none
  | some (action, line) =>
      if action = utf8 "ota" then
        match strtok line with
        | some (id, remote) =>
            if remote = [] ∨ findGuest guests id = none then none
            else some (.ota (CStr.fit 32 id).bytes (CStr.fit 1024 remote).bytes)
        | none => none
      else if action = utf8 "fetch" then
        match tokens line with
        | id :: arg :: args =>
            let paths := fetchPaths (arg :: args)
            if findGuest guests id = none then none
            else if paths.any fun path => isControlFile (baseOnly path) then none
            else some (.fetch (CStr.fit 32 id).bytes paths)
        | _ => none
      else if action = utf8 "apply" then
        match tokens line with
        | id :: args =>
            if findGuest guests id = none then none
            else some (.apply (CStr.fit 32 id).bytes (args.head? ≠ some (utf8 "--no-restart")))
        | _ => none
      else if action = utf8 "addfile" then
        match tokens line with
        | id :: path :: _ =>
            if findGuest guests id = none then none
            else some (.addfile (CStr.fit 32 id).bytes (CStr.fit 1024 path).bytes)
        | _ => none
      else if action = utf8 "addguest" then
        match tokens line with
        | id :: ifs :: conf :: args =>
            some (.addguest (CStr.fit 32 id).bytes (CStr.fit 1024 ifs).bytes
              (CStr.fit 1024 conf).bytes (CStr.fit 64 (args.headD [])).bytes)
        | _ => none
      else none

/-- What `readdir` may answer: the entries of the stage directory in some order,
with or without `.` and `..`. -/
def JobEnv.Lists (env : JobEnv) (t : FileTree) (id : Bytes) : Prop :=
  (env.listing.filter fun name => name ≠ utf8 "." ∧ name ≠ utf8 "..").Perm
    (t.children (resolve (stageDir id)))

instance (env : JobEnv) (t : FileTree) (id : Bytes) : Decidable (env.Lists t id) :=
  inferInstanceAs (Decidable (List.Perm _ _))

end QnxHypervisor.OtaUpdate
