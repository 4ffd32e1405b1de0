import QnxHypervisor.Foundation.FileTree
import QnxHypervisor.GuestManager.Host
import QnxHypervisor.HmsStatus.Message

/-! # File names and shell commands of the update jobs

`ota.c` moves files by command lines: `scp`, `cp`, `tar` and `mkdir -p`. Their
success is judged by exit codes and file sizes. What a command line does is
given here for words that the shell takes literally; any other command line does
whatever its environment says.
-/

namespace QnxHypervisor.OtaUpdate

open Foundation GuestManager HmsStatus

/-! ## Names -/

/-- `base_only`. -/
def baseOnly (path : Bytes) : Bytes := baseName path

def metaName : Bytes := utf8 ".hms_metadata"

/-- A path string up to its last slash. -/
def dirPart (path : Bytes) : Bytes := path.take (path.length - (baseOnly path).length)

def isControlFile (name : Bytes) : Bool :=
  if (utf8 "qvm.").isPrefixOf name then true
  else if name = metaName then true
  else false

def isImageFile (name : Bytes) : Bool :=
  if containsText (utf8 ".ifs") name then true
  else if name = utf8 "boot.img" then true
  else if name = utf8 "bootimg" then true
  else if (utf8 "vmlinuz").isPrefixOf name then true
  else if name = utf8 "rootfs.img" then true
  else false

/-- `strrchr(path, '.')`. -/
def extension (path : Bytes) : Option Bytes :=
  if (46 : UInt8) ∈ path then
    some (46 :: (path.reverse.takeWhile fun b => b != 46).reverse)
  else none

def isArchive (path : Bytes) : Bool :=
  match extension path with
  | none => false
  | some ext =>
      if ext ∈ [utf8 ".tar", utf8 ".gz", utf8 ".tgz", utf8 ".bz2", utf8 ".xz"] then true
      else containsText (utf8 ".tar.gz") path || containsText (utf8 ".tar.bz2") path

def guestDir (id : Bytes) : Bytes := join (utf8 "/guests") id

def jobDir (id sub : Bytes) : Bytes := join (join (utf8 "/tmp/ota") id) sub

def stageDir (id : Bytes) : Bytes := jobDir id (utf8 "stage")
def packageDir (id : Bytes) : Bytes := jobDir id (utf8 "package")
def addfileDir (id : Bytes) : Bytes := jobDir id (utf8 "addfile")

def metaFile (id : Bytes) : Bytes := join (guestDir id) metaName

/-! ## Words of a command line -/

/-- No byte that `sh` acts on between double quotes. It also keeps a backslash or a dollar
in front of an ordinary byte, but the words of `ssh` and `scp` are read by a second shell. -/
def Quotable (word : Bytes) : Prop := ∀ b ∈ word, b ≠ 34 ∧ b ≠ 36 ∧ b ≠ 92 ∧ b ≠ 96

instance (word : Bytes) : Decidable (Quotable word) := List.decidableBAll _ word

/-- Bytes that `sh` keeps without quotes: letters, digits and `+,-./:=@_`. -/
def isWordByte (b : UInt8) : Bool :=
  isDigit b || (65 ≤ b && b ≤ 90) || (97 ≤ b && b ≤ 122) || b ∈ utf8 "+,-./:=@_"

/-- An unquoted word that `sh` takes literally. -/
def Bare (word : Bytes) : Prop := ∀ b ∈ word, isWordByte b = true

instance (word : Bytes) : Decidable (Bare word) := List.decidableBAll _ word

theorem Bare.quotable {word : Bytes} (h : Bare word) : Quotable word := by
  intro b hb
  have hbyte := h b hb
  refine ⟨?_, ?_, ?_, ?_⟩ <;>
  · rintro rfl
    exact absurd hbyte (by decide)

theorem quotable_join {dir name : Bytes} : Quotable (join dir name) ↔ Quotable dir ∧ Quotable name := by
  have hslash : slash ≠ 34 ∧ slash ≠ 36 ∧ slash ≠ 92 ∧ slash ≠ 96 := by decide
  simp only [Quotable, join, List.forall_mem_append, List.forall_mem_cons]
  exact ⟨fun h => ⟨h.1, h.2.2⟩, fun h => ⟨h.1, hslash, h.2⟩⟩

theorem bare_join {dir name : Bytes} : Bare (join dir name) ↔ Bare dir ∧ Bare name := by
  have hslash : isWordByte slash = true := by decide
  simp only [Bare, join, List.forall_mem_append, List.forall_mem_cons, hslash, true_and]

/-! ## The state of a job -/

/-- The files, guests and processes, the messages published so far and the paths
that transfers, copies and extractions have written. Metadata files are
read from the tree. -/
structure World where
  fs : FileTree
  host : Host
  published : List StatusMessage
  writes : List Path

def textAt (t : FileTree) (p : Path) : Option Bytes :=
  match t.node p with
  | some (.file c) => some c
  | _ => none

/-- The content of a regular file. A path string that ends in no name is a
directory's. -/
def regularAt (t : FileTree) (path : Bytes) : Option Bytes :=
  if ProperName (baseOnly path) then textAt t (resolve path) else none

/-- `st_size`, 0 when `stat` fails: what stands before the last slash has to be a directory. -/
def statSize (t : FileTree) (path : Bytes) : Nat :=
  if t.isDir (resolve (dirPart path)) then t.size (resolve path) else 0

namespace World

def publish (w : World) (m : StatusMessage) : World := { w with published := w.published ++ [m] }

/-- `ota_report`. -/
def report (w : World) (id : Bytes) (stage : String) (progress : Int32) (msg : Bytes) : World :=
  w.publish (.otaProgress id (utf8 stage) progress msg)

/-- `remove`: a path that ends in a slash has to be a directory's, and one that ends in `.` or
`..` is refused. -/
def unlink (w : World) (path : Bytes) : World :=
  if ProperName (baseOnly path) ∨ baseOnly path = [] ∧ w.fs.isDir (resolve path) then
    { w with fs := w.fs.remove (resolve path) }
  else w

/-- A command writes a file, if it can. -/
def put (w : World) (p : Path) (c : Bytes) : World :=
  if w.fs.Writable p then { w with fs := w.fs.write p c, writes := w.writes ++ [p] } else w

/-- Guests and processes with the metadata files of the tree. -/
def calls (w : World) : Host := { w.host with metas := fun id => textAt w.fs (resolve (metaFile id)) }

/-- A lifecycle call for one guest: it writes no metadata file but that guest's. -/
def call (w : World) (id : Bytes) (f : Host → Int × Host) : Int × World :=
  let (rc, h) := f w.calls
  let fs :=
    match h.metas id with
    | some text => w.fs.write (resolve (metaFile id)) text
    | none => w.fs
  (rc, { w with fs := fs, host := h })

end World

/-! ## Commands -/

/-- What a command line does whose words the shell does not take literally. -/
structure ShellRun where
  fs : FileTree
  procs : Int32 → Option Proc
  writes : List Path
  status : Int

abbrev Shell := List Bytes → FileTree → (Int32 → Option Proc) → ShellRun

/-- The update server: its regular files by path string and what `stat` answers
over `ssh`. A path that ends in no name is a directory's; the shell at the other
end takes only bare words literally. -/
structure Server where
  file : Bytes → Option Bytes
  stat : Bytes → Option Nat
  named : ∀ path, file path ≠ none → ProperName (baseOnly path)
  statFile : ∀ path c, Bare path → file path = some c → stat path = some c.length

inductive CopyOutcome where
  | done
  /-- an error after the first `k` bytes -/
  | cut (k : Nat)
  | failed
  deriving DecidableEq

/-- A regular file or, without content, a directory in an archive. `tar` drops a slash in
front of its name and takes no `..`. -/
structure Member where
  path : Path
  content : Option Bytes
  nonempty : path ≠ []
  proper : ∀ n ∈ path, ProperName n
  deriving DecidableEq

structure Tar where
  /-- what it reads from a file under these option letters -/
  members : Bytes → Bytes → List Member
  /-- when every member asked for has been extracted -/
  status : Int

/-- What the rest of the system does in the course of one job. -/
structure JobEnv where
  server : Server
  shell : Shell
  mkdirOk : Bool
  /-- `remote_size` of the i-th file gets an answer -/
  sized : Nat → Bool
  /-- how much of the i-th file each attempt stores, if it opens the local file -/
  stored : Nat → Nat → Option Nat
  tar : Tar
  /-- the i-th `cp` -/
  copied : Nat → CopyOutcome
  /-- `readdir` on the stage directory -/
  listing : List Bytes
  killStore : MetaEnv
  start : StartEnv

/-- The file that `scp` and `cp` write for a destination. -/
def target (t : FileTree) (dst : Path) (name : Bytes) : Path :=
  if t.isDir dst then dst ++ [name] else dst

namespace World

def runShell (w : World) (env : JobEnv) (words : List Bytes) : Int × World :=
  let run := env.shell words w.fs w.host.procs
  (run.status, { w with
    fs := run.fs
    host := { w.host with procs := run.procs }
    writes := w.writes ++ run.writes })

/-- `mkdirs`. -/
def mkdirs (w : World) (env : JobEnv) (path : Bytes) : World :=
  if ¬ Bare path then (w.runShell env [utf8 "mkdir", utf8 "-p", path]).2
  else if ¬ env.mkdirOk then w
  else { w with fs := w.fs.mkdirs (steps path) }

/-- `remote_size`: no answer and an empty file are one. -/
def remoteSize (w : World) (env : JobEnv) (i : Nat) (remote : Bytes) : Option Nat × World :=
  if ¬ Quotable remote then
    let answer := w.runShell env [utf8 "ssh", utf8 "stat", remote]
    (if answer.1 ≤ 0 then none else some answer.1.toNat, answer.2)
  else if ¬ env.sized i then (none, w)
  else
    match env.server.stat remote with
    | none => (none, w)
    | some size => (if size = 0 then none else some size, w)

/-- The `scp` child of `ota_download` and `pull_file`. -/
def scp (w : World) (env : JobEnv) (i attempt : Nat) (remote dst : Bytes) : World :=
  if ¬ (Quotable remote ∧ Quotable dst) then (w.runShell env [utf8 "scp", remote, dst]).2
  else
    match env.server.file remote, env.stored i attempt with
    | some c, some k => w.put (target w.fs (resolve dst) (baseOnly remote)) (c.take k)
    | _, _ => w

/-- The test after the transfer: has the local file reached the remote size? -/
def landed (size : Option Nat) (localSize : Nat) : Bool :=
  match size with
  | some remote => remote ≤ localSize
  | none => 0 < localSize

/-- `pull_file`, and `ota_download` as far as files go. -/
def pullFile (w : World) (env : JobEnv) (i attempt : Nat) (size : Option Nat) (remote dst : Bytes) :
    Bool × World :=
  let w := w.scp env i attempt remote dst
  (landed size (statSize w.fs dst), w)

/-- `cp -f "src" "dst"`. -/
def cp (w : World) (env : JobEnv) (i : Nat) (src dst : Bytes) : Int × World :=
  if ¬ (Quotable src ∧ Quotable dst) then w.runShell env [utf8 "cp", utf8 "-f", src, dst]
  else
    match regularAt w.fs src with
    | none => (1, w)
    | some c =>
        let p := target w.fs (resolve dst) (baseOnly src)
        match env.copied i with
        | .done => (if w.fs.Writable p then 0 else 1, w.put p c)
        | .cut k => (1, w.put p (c.take k))
        | .failed => (1, w)

/-- One member; false when something stands in its way. -/
def extract (dir : Path) (w : World) (m : Member) : Bool × World :=
  let p := dir ++ m.path
  match m.content with
  | none =>
      let fs := w.fs.mkdirs p.inits
      (fs.isDir p, { w with fs := fs, writes := w.writes ++ [p] })
  | some c =>
      let w := { w with fs := w.fs.mkdirs p.dropLast.inits }
      (w.fs.Writable p, w.put p c)

def extractAll (dir : Path) : List Member → World → Bool × World
  | [], w => (true, w)
  | m :: rest, w =>
      let (ok, w) := extract dir w m
      let (restOk, w) := extractAll dir rest w
      (ok && restOk, w)

end World

/-! ## The command line of tar -/

/-- The arguments of `f` and `C` and the members asked for. -/
structure TarCall where
  files : List Bytes
  dirs : List Bytes
  names : List Bytes
  deriving DecidableEq

/-- The first letter of an option word that takes an argument, and what stands behind it. -/
def letterWithArg (letters : Bytes) : Option (UInt8 × Bytes) :=
  match letters.dropWhile fun b => b != 102 && b != 67 with
  | [] => none
  | letter :: value => some (letter, value)

def TarCall.take (letter : UInt8) (value : Bytes) (call : TarCall) : TarCall :=
  if letter = 102 then { call with files := value :: call.files }
  else { call with dirs := value :: call.dirs }

/-- What `tar` makes of the words behind it. The argument of a letter is the rest of its
word or else the next word, whatever it looks like. -/
def tarCall : Option UInt8 → List Bytes → TarCall
  | _, [] => ⟨[], [], []⟩
  | some letter, value :: rest => (tarCall none rest).take letter value
  | none, (45 :: letters) :: rest =>
      match letterWithArg letters with
      | none => tarCall none rest
      | some (letter, []) => tarCall (some letter) rest
      | some (letter, value) => (tarCall none rest).take letter value
  | none, name :: rest =>
      let call := tarCall none rest
      { call with names := name :: call.names }

/-- Of two archives the last counts. -/
def TarCall.file (call : TarCall) : Option Bytes := call.files.getLast?

/-- HMS runs in the root directory. -/
def TarCall.dir (call : TarCall) : Path := (call.dirs.getLast?.map resolve).getD []

/-- Without names all members are meant, else those of that name or below it. -/
def TarCall.asksFor (call : TarCall) (m : Member) : Bool :=
  call.names.isEmpty || call.names.any fun name => (resolve name).isPrefixOf m.path

/-- The option `ota_apply` gives to `tar`. -/
def tarOpt (pkg : Bytes) : Bytes :=
  if containsText (utf8 ".tar") pkg ∧ ¬ containsText (utf8 ".gz") pkg then utf8 "xf" else utf8 "xzf"

/-- The words of `tar -opt -C stage -f pkg`. -/
def tarWords (stage pkg : Bytes) : List Bytes :=
  [45 :: tarOpt pkg, utf8 "-C", stage, utf8 "-f", pkg]

/-- To find nothing that was asked for is an error. -/
def World.unpack (w : World) (status : Int) (dir : Path) (found : List Member) : Int × World :=
  if found = [] ∨ ¬ w.fs.isDir dir then (1, w)
  else
    let (ok, w) := w.extractAll dir found
    (if ok then status else 1, w)

/-- The extraction of `ota_apply`. -/
def World.untar (w : World) (env : JobEnv) (stage pkg : Bytes) : Int × World :=
  let words := tarWords stage pkg
  if ¬ (Bare stage ∧ Bare pkg) then w.runShell env (utf8 "tar" :: words)
  else
    let call := tarCall none words
    match call.file.bind (regularAt w.fs) with
    | none => (1, w)
    | some c =>
        w.unpack env.tar.status call.dir ((env.tar.members (tarOpt pkg) c).filter call.asksFor)

/-- `f` is the last of its letters, so it takes the `-C` for an archive: nothing changes the
directory, and the stage is the member asked for. -/
theorem tarCall_tarWords {stage pkg : Bytes} (hstage : stage.head? = some slash) :
    tarCall none (tarWords stage pkg) = ⟨[utf8 "-C", pkg], [], [stage]⟩ := by
  obtain ⟨rest, rfl⟩ : ∃ rest, stage = slash :: rest := by
    cases stage with
    | nil => cases hstage
    | cons b rest => exact ⟨rest, congrArg (· :: rest) (Option.some.inj hstage)⟩
  have hopt : letterWithArg (tarOpt pkg) = some (102, []) := by
    unfold tarOpt
    split <;> decide
  have hdash : utf8 "-f" = 45 :: utf8 "f" := by decide
  simp only [tarWords, tarCall, hopt, hdash, TarCall.take]
  rfl

end QnxHypervisor.OtaUpdate
