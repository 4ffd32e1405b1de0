import QnxHypervisor.OtaUpdate.Writes

/-! # The courses of the jobs

`fetch`, `addfile` and `addguest` cut into their parts: the state after each of them,
and the equation that puts the job together from them. The parts of `apply` and
`ota` are with their promises.
-/

namespace QnxHypervisor.OtaUpdate

open Foundation GuestManager HmsStatus

variable {w : World} {env : JobEnv} {id remote ifs conf ip : Bytes} {size : Option Nat} {i left : Nat}

/-! ## fetch -/

/-- The state in which an attempt begins: a later one removes what the last one left. -/
def retrying (id remote : Bytes) (left : Nat) (w : World) : World :=
  if 3 - left > 1 then
    (w.report id "download" 0 (utf8 "Retry " ++ decimal (3 - left) ++ utf8 "/3 for " ++
      clipped 100 (baseOnly remote))).unlink (join (stageDir id) (baseOnly remote))
  else w

theorem retrying_writes : (retrying id remote left w).writes = w.writes := by
  unfold retrying
  split
  · exact World.unlink_writes
  · rfl

def attempted (env : JobEnv) (id remote : Bytes) (i : Nat) (size : Option Nat) (left : Nat) (w : World) :
    Bool × World :=
  (retrying id remote left w).pullFile env i (3 - left) size remote (join (stageDir id) (baseOnly remote))

theorem fetchAttempts_succ (env : JobEnv) (id remote : Bytes) (i : Nat) (size : Option Nat) (left : Nat)
    (w : World) : fetchAttempts env id remote i size (left + 1) w =
      if (attempted env id remote i size left w).1 then (true, (attempted env id remote i size left w).2)
      else fetchAttempts env id remote i size left (attempted env id remote i size left w).2 := rfl

/-- The transfer of one file. -/
def fetchOne (env : JobEnv) (id : Bytes) (i : Nat) (remote : Bytes) (w : World) : Bool × World :=
  let (size, w) := w.remoteSize env i remote
  fetchAttempts env id remote i size 3 ((w.report id "download" 0
    (utf8 "Starting pull from server")).unlink (join (stageDir id) (baseOnly remote)))

theorem fetchFiles_cons (env : JobEnv) (id : Bytes) (i : Nat) (remote : Bytes) (rest : List Bytes)
    (w : World) : fetchFiles env id i (remote :: rest) w =
      if isControlFile (baseOnly remote) then
        (false, w.report id "failed" 0 (utf8 "Refused to fetch control file '" ++
          clipped 120 (baseOnly remote) ++ utf8 "'"))
      else if ¬ (fetchOne env id i remote w).1 then
        (false, (fetchOne env id i remote w).2.report id "failed" 0
          (utf8 "Failed to pull file from server after 3 attempts"))
      else fetchFiles env id (i + 1) rest ((fetchOne env id i remote w).2.report id "download" 100
        (utf8 "Fetched file from server")) := rfl

theorem fetchThread_writes {paths : List Bytes} : (fetchThread env id paths w).writes =
    (fetchFiles env id 0 paths (w.mkdirs env (stageDir id))).2.writes := by
  unfold fetchThread
  dsimp only
  split <;> rfl

/-! ## addfile -/

/-- The local file of `addfile`. -/
def addedFile (id remote : Bytes) : Bytes := join (addfileDir id) (baseOnly remote)

theorem addedFile_quotable (hid : Quotable id) (hremote : Quotable remote) :
    Quotable (addedFile id remote) :=
  quotable_join.mpr ⟨quotable_jobDir.mpr ⟨hid, by decide⟩, quotable_base hremote⟩

theorem baseOnly_addedFile : baseOnly (addedFile id remote) = baseOnly remote :=
  baseOnly_join _ (baseOnly_noSlash remote)

def addPulled (env : JobEnv) (id remote : Bytes) (w : World) : Bool × World :=
  let (size, w) := (w.mkdirs env (addfileDir id)).remoteSize env 0 remote
  (w.unlink (addedFile id remote)).pullFile env 0 1 size remote (addedFile id remote)

def added (env : JobEnv) (id remote : Bytes) (w : World) : Int × World :=
  (addPulled env id remote w).2.cp env 0 (addedFile id remote) (join (guestDir id) (baseOnly remote))

def addedOrNot (env : JobEnv) (id remote : Bytes) (w : World) : Bool × World :=
  if (addPulled env id remote w).1 then
    ((added env id remote w).1 == 0, (added env id remote w).2.unlink (addedFile id remote))
  else ((addPulled env id remote w).1, (addPulled env id remote w).2)

theorem addfileThread_eq (env : JobEnv) (id remote : Bytes) (w : World) :
    addfileThread env id remote w =
      if isControlFile (baseOnly remote) then
        w.publish (.addfileResult id false
          (utf8 "Refused to add control file '" ++ clipped 120 (baseOnly remote) ++ utf8 "'"))
      else if (addedOrNot env id remote w).1 then
        (addedOrNot env id remote w).2.publish (.addfileResult id true
          (utf8 "Added " ++ clipped 120 (baseOnly remote) ++ utf8 " to " ++ guestDir id ++
            utf8 " (no guest restart needed)"))
      else (addedOrNot env id remote w).2.publish
        (.addfileResult id false (utf8 "failed to add the file to the guest directory")) := by
  unfold addfileThread
  rfl

theorem addfileThread_cases (env : JobEnv) (id remote : Bytes) (w : World) :
    isControlFile (baseOnly remote) = true ∧ (∃ m, addfileThread env id remote w = w.publish m) ∨
      isControlFile (baseOnly remote) = false ∧ ∃ m, addfileThread env id remote w =
        (addedOrNot env id remote w).2.publish m := by
  rw [addfileThread_eq]
  split
  · next hcontrol => exact .inl ⟨hcontrol, _, rfl⟩
  · next hcontrol =>
    refine .inr ⟨by simpa using hcontrol, ?_⟩
    split <;> exact ⟨_, rfl⟩

/-! ## addguest -/

def confPulled (env : JobEnv) (id conf : Bytes) (w : World) : Bool × World :=
  let (size, w) := (w.mkdirs env (guestDir id)).remoteSize env 0 conf
  w.pullFile env 0 1 size conf (join (guestDir id) (baseOnly conf))

def ifsPulled (env : JobEnv) (id ifs : Bytes) (w : World) : Bool × World :=
  let (size, w) := w.remoteSize env 1 ifs
  w.pullFile env 1 1 size ifs (join (guestDir id) (baseOnly ifs))

/-- The state behind the two transfers; the second needs the first. -/
def guestPulled (env : JobEnv) (id ifs conf : Bytes) (w : World) : Bool × World :=
  if (confPulled env id conf w).1 then ifsPulled env id ifs (confPulled env id conf w).2
  else ((confPulled env id conf w).1, (confPulled env id conf w).2)

/-- The metadata of a guest that has arrived. -/
def withIp (env : JobEnv) (id ifs conf ip : Bytes) (w : World) : World :=
  if (guestPulled env id ifs conf w).1 ∧ ip ≠ [] then appendIp id ip (guestPulled env id ifs conf w).2
  else (guestPulled env id ifs conf w).2

theorem addguestThread_eq (env : JobEnv) (id ifs conf ip : Bytes) (w : World) :
    addguestThread env id ifs conf ip w =
      if w.fs.isDir (resolve (guestDir id)) ∨ w.fs.node (resolve (guestDir id)) ≠ none then
        w.publish (.addguestResult id false (utf8 "a guest with this ID already exists"))
      else if isControlFile (baseOnly conf) ∨ isControlFile (baseOnly ifs) then
        w.publish (.addguestResult id false (utf8 "refusing control-file names"))
      else if (guestPulled env id ifs conf w).1 then
        (withIp env id ifs conf ip w).publish (.addguestResult id true
          (utf8 "guest '" ++ clipped 32 id ++ utf8 "' created (" ++ clipped 60 (baseOnly conf) ++
            utf8 ", " ++ clipped 60 (baseOnly ifs) ++ utf8 ") — refresh the list"))
      else (withIp env id ifs conf ip w).publish
        (.addguestResult id false (utf8 "failed to pull the guest files from the server")) := by
  unfold addguestThread
  rfl

theorem addguestThread_cases (env : JobEnv) (id ifs conf ip : Bytes) (w : World) :
    (w.fs.isDir (resolve (guestDir id)) = true ∨ w.fs.node (resolve (guestDir id)) ≠ none ∨
        isControlFile (baseOnly conf) = true ∨ isControlFile (baseOnly ifs) = true) ∧
      (∃ m, addguestThread env id ifs conf ip w = w.publish m) ∨
    (w.fs.isDir (resolve (guestDir id)) = false ∧ w.fs.node (resolve (guestDir id)) = none ∧
        isControlFile (baseOnly conf) = false ∧ isControlFile (baseOnly ifs) = false) ∧
      ∃ m, addguestThread env id ifs conf ip w = (withIp env id ifs conf ip w).publish m := by
  rw [addguestThread_eq]
  split
  · next hold => exact .inl ⟨hold.imp_right .inl, _, rfl⟩
  · next hnew =>
    obtain ⟨hdir, hnode⟩ := not_or.mp hnew
    split
    · next hcontrol => exact .inl ⟨.inr (.inr hcontrol), _, rfl⟩
    · next hcontrol =>
      obtain ⟨hconf, hifs⟩ := not_or.mp hcontrol
      refine .inr ⟨⟨by simpa using hdir, not_not.mp hnode, by simpa using hconf, by simpa using hifs⟩, ?_⟩
      split <;> exact ⟨_, rfl⟩

theorem withIp_writes :
    (withIp env id ifs conf ip w).writes = (guestPulled env id ifs conf w).2.writes := by
  unfold withIp
  split <;> rfl

end QnxHypervisor.OtaUpdate
