import QnxHypervisor.OtaUpdate.Writes

/-! # Where the jobs may write

The rule for transfers, copies and extractions: no control file of a guest, and
nothing outside the guest directories and the job directories. For each job the
condition on its words and on the tree under which no run of it breaks the rule,
whatever the server, the shell and the commands answer.
-/

namespace QnxHypervisor.OtaUpdate

open Foundation GuestManager HmsStatus

variable {w : World} {env : JobEnv} {id name remote dst : Bytes} {p q dir : Path} {t : FileTree}

/-! ## The rule -/

structure WellPlaced (p : Path) : Prop where
  noControl : ∀ g n, ProperName g → p = guestPath g ++ [n] → isControlFile n = false
  inside : ∃ g, ProperName g ∧
    (p = guestPath g ∨ (∃ n, p = guestPath g ++ [n]) ∨ ∃ rest, rest ≠ [] ∧ p = jobPath g ++ rest)

def Contained (w : World) : Prop := ∀ p ∈ w.writes, WellPlaced p

theorem wellPlaced_job {rest : Path} (hid : ProperName id) (hrest : rest ≠ []) :
    WellPlaced (jobPath id ++ rest) where
  noControl := fun g n _ heq => absurd heq.symm (guest_ne_job g id [n] rest)
  inside := ⟨id, hid, .inr (.inr ⟨rest, hrest, rfl⟩)⟩

theorem wellPlaced_entry (hid : ProperName id) :
    WellPlaced (guestPath id ++ [name]) ↔ isControlFile name = false := by
  refine ⟨fun h => h.noControl id name hid rfl, fun hname => ⟨fun g n _ heq => ?_, ?_⟩⟩
  · have hsame : id = g ∧ name = n := by simpa [guestPath] using heq
    exact hsame.2 ▸ hname
  · exact ⟨id, hid, .inr (.inl ⟨name, rfl⟩)⟩

theorem not_wellPlaced_below {n : Bytes} : ¬ WellPlaced (guestPath id ++ [name] ++ [n]) := by
  rintro ⟨-, g, -, heq | ⟨m, heq⟩ | ⟨rest, -, heq⟩⟩
  · simp [guestPath] at heq
  · simp [guestPath] at heq
  · rw [List.append_assoc] at heq
    exact guest_ne_job _ _ _ _ heq

theorem wellPlaced_copyTarget (hid : ProperName id) : WellPlaced (copyTarget t id name) ↔
    isControlFile name = false ∧ t.isDir (guestPath id ++ [name]) = false := by
  unfold copyTarget target
  split
  · next hdir =>
    refine iff_of_false not_wellPlaced_below fun h => ?_
    rw [hdir] at h
    cases h.2
  · next hdir => simp [wellPlaced_entry hid, hdir]

/-! ## Conditions on the jobs -/

/-- A copy into the guest directory arrives as an entry of it, and not as a control file. -/
def Receives (t : FileTree) (id name : Bytes) : Prop :=
  t.Writable (copyTarget t id name) →
    isControlFile name = false ∧ t.isDir (guestPath id ++ [name]) = false

/-- `ota`: no check of the name at all. -/
def otaSafe (t : FileTree) (id remote : Bytes) : Prop :=
  Quotable remote ∧ Quotable id ∧
    (Landable t (packageFile id remote) (baseOnly remote) → Bare id ∧
      if isArchive (packageFile id remote) then Bare (baseOnly remote)
      else ProperName (baseOnly remote) → t.Writable (packagePath id ++ [baseOnly remote]) →
        Receives t id (baseOnly remote))

/-- A file of this name can get through its attempts. Entries of a directory in its place keep
that directory there; behind a path without a name it is the directory that is measured, and an
empty stage is removed before. -/
def Fetchable (t : FileTree) (id : Bytes) (filled : Prop) (name : Bytes) : Prop :=
  t.isDir (stagePath id) = true ∧
    if ProperName name then
      t.children (stagePath id ++ [name]) ≠ [] → 0 < t.size (stagePath id ++ [name])
    else (name = [] → filled) ∧ 0 < statSize t (join (stageDir id) name)

/-- The paths are literal, up to the first that can never be fetched. -/
def pathsSafe (t : FileTree) (id : Bytes) : Prop → List Bytes → Prop
  | _, [] => True
  | filled, remote :: rest => Quotable remote ∧
      (Fetchable t id filled (baseOnly remote) →
        pathsSafe t id (filled ∨ ProperName (baseOnly remote)) rest)

def fetchSafe (t : FileTree) (id : Bytes) (paths : List Bytes) : Prop :=
  let made := t.mkdirs (steps (stageDir id))
  Bare id ∧ pathsSafe made id (made.children (stagePath id) ≠ []) paths

/-- `apply`: a control file among few others stops it. -/
def applySafe (t : FileTree) (id : Bytes) : Prop :=
  (∃ name ∈ t.children (stagePath id), isControlFile name = true) ∧
      ((t.children (stagePath id)).filter fun name => !isControlFile name).length < maxFiles ∨
    ∀ name ∈ t.children (stagePath id), isControlFile name = false →
      Quotable id ∧ Quotable name ∧
        ((∃ c, t.node (stagePath id ++ [name]) = some (.file c)) → Receives t id name)

/-- The local file of `addfile` can be written: its directory can be made, and no
directory with entries stands in its place. -/
def AddfileReady (t : FileTree) (id name : Bytes) : Prop :=
  (t.mkdirs (steps (addfileDir id))).isDir (addfilePath id) = true ∧
    (t.isDir (addfilePath id ++ [name]) = true → t.children (addfilePath id ++ [name]) = [])

def addfileSafe (t : FileTree) (id remote : Bytes) : Prop :=
  isControlFile (baseOnly remote) = true ∨
    Bare id ∧ Quotable remote ∧
      (ProperName (baseOnly remote) → AddfileReady t id (baseOnly remote) → Receives t id (baseOnly remote))

/-- A file put into this directory is in one that is a guest's or below a job's. -/
def Roomy (t : FileTree) (dir : Path) (name : Bytes) : Prop :=
  (∃ g rest, ProperName g ∧ dir = jobPath g ++ rest) ∨ dir = [utf8 "guests"] ∨
    if t.isDir (dir ++ [name]) then dir = [utf8 "tmp", utf8 "ota"]
    else ∃ g, ProperName g ∧ dir = guestPath g

/-- The transfer of this file, if it can be written, meets the rule. -/
def Takes (t : FileTree) (dir : Path) (remote : Bytes) : Prop :=
  ProperName (baseOnly remote) →
    t.Writable (target t (dir ++ [baseOnly remote]) (baseOnly remote)) → Roomy t dir (baseOnly remote)

/-- `addguest`: the id is any word. -/
def addguestSafe (t : FileTree) (id ifs conf : Bytes) : Prop :=
  let dir := resolve (guestDir id)
  let made := t.mkdirs (steps (guestDir id))
  t.isDir dir = true ∨ t.node dir ≠ none ∨
    isControlFile (baseOnly conf) = true ∨ isControlFile (baseOnly ifs) = true ∨
    Bare id ∧ Quotable conf ∧ Takes made dir conf ∧
      (Landable made (join (guestDir id) (baseOnly conf)) (baseOnly conf) →
        Quotable ifs ∧ Takes made dir ifs)

end QnxHypervisor.OtaUpdate
