import QnxHypervisor.GuestManager.Guest

/-! # The metadata file

`/guests/<id>/.hms_metadata`: plain `key=value` lines in which HMS keeps the
address, the ssh settings and the pid of the guest's qvm. The discoverer reads
all keys, `meta_set` rewrites the lines of one.
-/

namespace QnxHypervisor.GuestManager

open Foundation

/-! ## Source functions -/

/-- `char line[256]` holds 255 bytes of a line. -/
def metaLineRoom : Nat := 255

/-- `char lines[64][256]`. -/
def metaLineMax : Nat := 64

/-- `strstr(t, needle) != NULL`. -/
def containsText (needle t : Bytes) : Bool := t.tails.any fun rest => needle.isPrefixOf rest

def trimLine (line : Bytes) : Bytes := (lineText line).takeWhile fun b => b != newline

/-- What the parser compares with the keys: a leading `#` is skipped. -/
def metaEntry (line : Bytes) : Bytes :=
  match trimLine line with
  | 35 :: rest => trimLine rest
  | entry => entry

/-- The outputs of `parse_conf_network`. -/
structure MetaFields where
  ip : CStr 64
  sshUser : CStr 64
  sshPassword : CStr 128
  sshKey : CStr 512
  sshPort : Int32
  pid : Int32

def ipKey : Bytes := utf8 "ip"
def sshUserKey : Bytes := utf8 "ssh_user"
def sshPasswordKey : Bytes := utf8 "ssh_password"
def sshPortKey : Bytes := utf8 "ssh_port"
def sshKeyKey : Bytes := utf8 "ssh_key"
def pidKey : Bytes := utf8 "pid"

/-- The bytes behind `key=`. -/
def valueOf (key entry : Bytes) : Bytes := entry.drop (key.length + 1)

/-- One turn of the parser's loop. -/
def MetaFields.readLine (f : MetaFields) (line : Bytes) : MetaFields :=
  let entry := metaEntry line
  if startsWithKey ipKey entry then
    { f with ip := .fit 64 (skipBlanks (valueOf ipKey entry)) }
  else if startsWithKey sshUserKey entry then
    { f with sshUser := .fit 64 (skipBlanks (valueOf sshUserKey entry)) }
  else if startsWithKey sshPasswordKey entry then
    { f with sshPassword := .fit 128 (skipBlanks (valueOf sshPasswordKey entry)) }
  else if startsWithKey sshPortKey entry then
    { f with sshPort := Int32.ofInt (atoi (valueOf sshPortKey entry)) }
  else if startsWithKey sshKeyKey entry then
    { f with sshKey := .fit 512 (skipBlanks (valueOf sshKeyKey entry)) }
  else if startsWithKey pidKey entry then
    { f with pid := Int32.ofInt (atoi (valueOf pidKey entry)) }
  else f

/-- `parse_conf_network`; `none` is a file that cannot be opened. -/
def parseConfNetwork (text : Option Bytes) (f : MetaFields) : MetaFields :=
  match text with
  | none => f
  | some t => (linesOf metaLineRoom t).foldl MetaFields.readLine f

/-- The pid `refresh_guest_state` gets: the only output it asks for. -/
def storedPid (text : Option Bytes) : Int32 :=
  (parseConfNetwork text ⟨.fit 64 [], .fit 64 [], .fit 128 [], .fit 512 [], 0, 0⟩).pid

/-- What the file calls of `meta_set` answer. -/
structure MetaEnv where
  readOk : Bool
  tmpOk : Bool
  /-- how many bytes a full disk still takes -/
  room : Option Nat
  renameOk : Bool

/-- The lines `meta_set` has read. -/
def metaLines (env : MetaEnv) (text : Option Bytes) : List Bytes :=
  if env.readOk then (linesOf metaLineRoom (text.getD [])).take metaLineMax else []

def metaSetLine (key val line : Bytes) : Bytes :=
  if keyIn key line then keyLine key val else cString line

def metaSetText (lines : List Bytes) (key val : Bytes) : Bytes :=
  (lines.map (metaSetLine key val)).flatten ++
    if lines.any (keyIn key) then [] else keyLine key val

/-- `meta_set`: the file that is left. Failed writes go unnoticed. -/
def metaSet (env : MetaEnv) (key val : Bytes) (text : Option Bytes) : Option Bytes :=
  if ¬ env.tmpOk then text
  else if ¬ env.renameOk then text
  else
    let written := metaSetText (metaLines env text) key val
    some (env.room.elim written fun n => written.take n)

/-- The search of `guest_set_ip` for an `ip=` line with the address. -/
def ipStored (ip text : Bytes) : Bool :=
  (linesOf metaLineRoom text).any fun line =>
    let p := match lineText line with
      | 35 :: rest => rest
      | p => p
    let p := skipBlanks p
    startsWithKey ipKey p && containsText ip p

/-- `guest_set_ip`: the file that is left. -/
def guestSetIp (env : MetaEnv) (ip : Bytes) (text : Option Bytes) : Option Bytes :=
  if env.readOk ∧ text.elim false (ipStored ip) then text else metaSet env ipKey ip text

end QnxHypervisor.GuestManager
