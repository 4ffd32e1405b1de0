import QnxHypervisor.OtaUpdate.AddedFile

/-! # What addguest leaves

A guest that cannot be completed should leave nothing, so that the command can be sent
again. The job makes the directory first and never takes it away: the condition under
which it ends with a complete guest or with what there was.
-/

namespace QnxHypervisor.OtaUpdate

open Foundation GuestManager HmsStatus

variable {w : World} {env : JobEnv} {id ifs conf ip remote name : Bytes} {noted : Option Nat} {p q : Path}
  {t t' made : FileTree} {i attempt : Nat}

/-! ## The metadata line -/

def ipLine (ip : Bytes) : Bytes := utf8 "ip=" ++ ip ++ [newline]

/-- `fopen(meta, "a")` and `fprintf`, of which so many bytes reach the file if it can be
opened. -/
def appendIpWith (noted : Option Nat) (id ip : Bytes) (w : World) : World :=
  match noted with
  | none => w
  | some k =>
      let p := resolve (metaFile id)
      { w with fs := w.fs.write p ((textAt w.fs p).getD [] ++ (ipLine ip).take k) }

/-- `addguest_thread` with the outcome of the metadata write. -/
def addguestThreadWith (noted : Option Nat) (env : JobEnv) (id ifs conf ip : Bytes) (w : World) : World :=
  if w.fs.isDir (resolve (guestDir id)) ∨ w.fs.node (resolve (guestDir id)) ≠ none then
    w.publish (.addguestResult id false (utf8 "a guest with this ID already exists"))
  else
    let confName := baseOnly conf
    let ifsName := baseOnly ifs
    if isControlFile confName ∨ isControlFile ifsName then
      w.publish (.addguestResult id false (utf8 "refusing control-file names"))
    else
      let w := w.mkdirs env (guestDir id)
      let (size, w) := w.remoteSize env 0 conf
      let (ok, w) := w.pullFile env 0 1 size conf (join (guestDir id) confName)
      let (ok, w) :=
        if ok then
          let (size, w) := w.remoteSize env 1 ifs
          w.pullFile env 1 1 size ifs (join (guestDir id) ifsName)
        else (ok, w)
      let w := if ok ∧ ip ≠ [] then appendIpWith noted id ip w else w
      if ok then
        w.publish (.addguestResult id true
          (utf8 "guest '" ++ clipped 32 id ++ utf8 "' created (" ++ clipped 60 confName ++
            utf8 ", " ++ clipped 60 ifsName ++ utf8 ") — refresh the list"))
      else
        w.publish (.addguestResult id false (utf8 "failed to pull the guest files from the server"))

theorem appendIpWith_whole {k : Nat} (h : (ipLine ip).length ≤ k) :
    appendIpWith (some k) id ip w = appendIp id ip w := by
  rw [appendIpWith, appendIp, List.take_of_length_le h, ipLine]
  simp only [List.append_assoc]

/-- With the whole line written it is the thread as before. -/
theorem addguestThreadWith_whole {k : Nat} (h : (ipLine ip).length ≤ k) :
    addguestThreadWith (some k) env id ifs conf ip w = addguestThread env id ifs conf ip w := by
  unfold addguestThreadWith addguestThread
  simp only [appendIpWith_whole h]

/-- The metadata of a guest that has arrived. -/
def withIpNoted (noted : Option Nat) (env : JobEnv) (id ifs conf ip : Bytes) (w : World) : World :=
  if (guestPulled env id ifs conf w).1 ∧ ip ≠ [] then
    appendIpWith noted id ip (guestPulled env id ifs conf w).2
  else (guestPulled env id ifs conf w).2

/-- What sends the command back before anything is done. -/
def AddguestRefused (t : FileTree) (id ifs conf : Bytes) : Prop :=
  t.isDir (resolve (guestDir id)) = true ∨ t.node (resolve (guestDir id)) ≠ none ∨
    isControlFile (baseOnly conf) = true ∨ isControlFile (baseOnly ifs) = true

theorem addguestWith_refused (h : AddguestRefused w.fs id ifs conf) :
    ∃ msg, addguestThreadWith noted env id ifs conf ip w = w.publish (.addguestResult id false msg) := by
  unfold addguestThreadWith
  split
  · exact ⟨_, rfl⟩
  · next hnew =>
    obtain ⟨hdir, hnode⟩ := not_or.mp hnew
    have hcontrol := (h.resolve_left hdir).resolve_left hnode
    exact ⟨_, if_pos hcontrol⟩

theorem addguestWith_course (h : ¬ AddguestRefused w.fs id ifs conf) :
    ∃ msg, addguestThreadWith noted env id ifs conf ip w = (withIpNoted noted env id ifs conf ip w).publish
      (.addguestResult id (guestPulled env id ifs conf w).1 msg) := by
  obtain ⟨hdir, hnode, hconf, hifs⟩ : _ ∧ _ ∧ _ ∧ _ := by simpa only [AddguestRefused, not_or] using h
  have heq : addguestThreadWith noted env id ifs conf ip w =
      if (guestPulled env id ifs conf w).1 then
        (withIpNoted noted env id ifs conf ip w).publish (.addguestResult id true
          (utf8 "guest '" ++ clipped 32 id ++ utf8 "' created (" ++ clipped 60 (baseOnly conf) ++
            utf8 ", " ++ clipped 60 (baseOnly ifs) ++ utf8 ") — refresh the list"))
      else (withIpNoted noted env id ifs conf ip w).publish
        (.addguestResult id false (utf8 "failed to pull the guest files from the server")) := by
    unfold addguestThreadWith
    rw [if_neg (not_or.mpr ⟨hdir, hnode⟩), if_neg (not_or.mpr ⟨hconf, hifs⟩)]
    rfl
  rw [heq]
  cases hok : (guestPulled env id ifs conf w).1 with
  | true => exact ⟨_, if_pos rfl⟩
  | false => exact ⟨_, if_neg (by decide)⟩

/-! ## The promise -/

/-- All that is below `/guests`, and the place of the guest's directory, are as before. -/
structure LeftAlone (id : Bytes) (t t' : FileTree) : Prop where
  guests : ∀ rest, t'.node (utf8 "guests" :: rest) = t.node (utf8 "guests" :: rest)
  place : t'.node (resolve (guestDir id)) = t.node (resolve (guestDir id))

/-- The remote file stands whole in the guest's directory. -/
def WholeAt (server : Server) (id remote : Bytes) (t : FileTree) : Prop :=
  ∃ c, server.file remote = some c ∧ t.node (resolve (guestDir id) ++ [baseOnly remote]) = some (.file c)

/-- Both files whole under base names of their own, the ip noted, and success reported. -/
structure GuestMade (server : Server) (id ifs conf ip : Bytes) (w w' : World) : Prop where
  reported : ∃ msg, w'.published = w.published ++ [.addguestResult id true msg]
  confWhole : WholeAt server id conf w'.fs
  ifsWhole : WholeAt server id ifs w'.fs
  distinct : conf ≠ ifs → baseOnly conf ≠ baseOnly ifs
  ipNoted : ip ≠ [] → w'.fs.node (resolve (metaFile id)) = some (.file (ipLine ip))

/-- Nothing left behind, and failure reported. -/
structure GuestNotMade (id : Bytes) (w w' : World) : Prop where
  reported : ∃ msg, w'.published = w.published ++ [.addguestResult id false msg]
  left : LeftAlone id w.fs w'.fs

def MakesOrLeaves (server : Server) (id ifs conf ip : Bytes) (w w' : World) : Prop :=
  GuestMade server id ifs conf ip w w' ∨ GuestNotMade id w w'

/-! ## The condition -/

/-- The tree behind `mkdir -p`. -/
def madeTree (env : JobEnv) (t : FileTree) (id : Bytes) : FileTree :=
  if env.mkdirOk then t.mkdirs (steps (guestDir id)) else t

/-- What the transfer of the i-th file stores, if it opens the local file. -/
def sent (env : JobEnv) (i : Nat) (remote : Bytes) : Option Bytes :=
  (env.server.file remote).bind fun c => (env.stored i 1).map fun k => c.take k

/-- The size test on what stands in a file's place. -/
def testedAt (env : JobEnv) (t : FileTree) (id : Bytes) (i : Nat) (remote : Bytes) : Bool :=
  World.landed (sizeAnswer env i remote) (statSize t (join (guestDir id) (baseOnly remote)))

/-- Both transfers store the whole files in places of their own and pass the size tests.
The same file asked for twice is stored twice. -/
structure FilesArrive (env : JobEnv) (made : FileTree) (id ifs conf : Bytes) : Prop where
  distinct : conf ≠ ifs → baseOnly conf ≠ baseOnly ifs
  confRoom : made.Writable (resolve (guestDir id) ++ [baseOnly conf])
  ifsRoom : made.Writable (resolve (guestDir id) ++ [baseOnly ifs])
  whole : ∃ x y, sent env 0 conf = some x ∧ World.landed (sizeAnswer env 0 conf) x.length = true ∧
    (if conf = ifs then y = (sent env 1 ifs).getD x
      else env.server.file conf = some x ∧ sent env 1 ifs = some y) ∧
    env.server.file ifs = some y ∧ World.landed (sizeAnswer env 1 ifs) y.length = true

/-- The files arrive, and the line with the ip goes into the metadata whole. -/
structure GuestArrives (noted : Option Nat) (env : JobEnv) (made : FileTree) (id ifs conf ip : Bytes) :
    Prop where
  literal : Quotable ifs
  files : FilesArrive env made id ifs conf
  ipNoted : ip ≠ [] → made.Writable (resolve (metaFile id)) ∧
    ∃ k, noted = some k ∧ (ipLine ip).length ≤ k

/-- The command is refused; or `mkdir` makes nothing and the size tests do not both pass on
what is there; or everything arrives. -/
def AddguestKeeps (noted : Option Nat) (env : JobEnv) (t : FileTree) (id ifs conf ip : Bytes) : Prop :=
  AddguestRefused t id ifs conf ∨
    Bare id ∧ Quotable conf ∧
      (LeftAlone id t (madeTree env t id) ∧ (testedAt env (madeTree env t id) id 0 conf = true →
          Quotable ifs ∧ testedAt env (madeTree env t id) id 1 ifs = false) ∨
        GuestArrives noted env (madeTree env t id) id ifs conf ip)

/-! ## Words that the shell reads -/

theorem resolve_meta (id : Bytes) : resolve (metaFile id) = resolve (guestDir id) ++ [metaName] :=
  resolve_join_proper _ (by decide)

theorem unwritable_below (h : t.isDir p = false) : ¬ t.Writable (p ++ [name]) := fun hwrite => by
  have hparent := hwrite.2.1
  rw [List.dropLast_concat, h] at hparent
  cases hparent

theorem withIpNoted_stuck (hdir : t.isDir (resolve (guestDir id)) = false)
    (hfs : (guestPulled env id ifs conf w).2.fs = t) : (withIpNoted noted env id ifs conf ip w).fs = t := by
  unfold withIpNoted
  split
  · unfold appendIpWith
    split
    · exact hfs
    · dsimp only
      rw [hfs, resolve_meta, FileTree.write_eq_self (unwritable_below hdir)]
  · exact hfs

section
variable (hshell : env.shell = leaving t) (hdir : t.isDir (resolve (guestDir id)) = false)
include hshell hdir

theorem scp_stuck (hfs : w.fs = t) :
    (w.scp env i attempt remote (join (guestDir id) (baseOnly remote))).fs = t := by
  by_cases hwords : Quotable remote ∧ Quotable (join (guestDir id) (baseOnly remote))
  · rcases World.scp_cases hwords.1 hwords.2 with ⟨heq, -⟩ | ⟨c, k, hfile, -, heq⟩
    · rw [heq, hfs]
    · have hname : ProperName (baseOnly remote) := env.server.named remote (by simp [hfile])
      have hnot : ¬ w.fs.Writable (target w.fs (resolve (join (guestDir id) (baseOnly remote)))
          (baseOnly remote)) := by
        rw [resolve_join_proper _ hname, hfs]
        exact not_writable_target hdir
      rw [heq, World.put_fs, FileTree.write_eq_self hnot, hfs]
  · rw [World.scp, if_pos hwords, runShell_leaving hshell]

theorem guestPulled_stuck (hwords : ¬ (Bare id ∧ Quotable conf) ∨
    (confPulled env id conf w).1 = true ∧ ¬ Quotable ifs) : (guestPulled env id ifs conf w).2.fs = t := by
  have hfirst : ¬ (Bare id ∧ Quotable conf) → (confPulled env id conf w).2.fs = t := fun hnot =>
    scp_stuck hshell hdir (sized_leaving hshell fun h => hnot ⟨bare_guestDir.mp h.1, h.2⟩)
  unfold guestPulled
  split
  · have hsized : ((confPulled env id conf w).2.remoteSize env 1 ifs).2.fs = t := by
      by_cases hifs : Quotable ifs
      · rw [World.remoteSize_quotable hifs]
        exact hfirst (hwords.resolve_right fun h => h.2 hifs)
      · exact remoteSize_leaving hshell hifs
    exact scp_stuck hshell hdir hsized
  · next hok => exact hfirst (hwords.resolve_right fun h => hok h.1)

end

theorem root_not_new (h : ¬ AddguestRefused t id ifs conf) : resolve (guestDir id) ≠ [] := by
  intro hroot
  exact h (.inl (FileTree.isDir_iff.mpr (.inl hroot)))

/-- A shell that gets one of the words to read can take all guests away or put a file in
their place. -/
theorem unsafe_guest_words_break (hnew : ¬ AddguestRefused w.fs id ifs conf) :
    ∃ shell, MakesOrLeaves env.server id ifs conf ip w
        (addguestThreadWith noted { env with shell := shell } id ifs conf ip w) →
      Bare id ∧ Quotable conf ∧
        ((confPulled { env with shell := shell } id conf w).1 = true → Quotable ifs) := by
  obtain ⟨t, hother, hdirs⟩ := FileTree.exists_node_ne (p := [utf8 "guests"]) (by simp)
    (w.fs.node [utf8 "guests"])
  have hdir : t.isDir (resolve (guestDir id)) = false := by
    rw [← Bool.not_eq_true]
    exact fun hroot => root_not_new hnew (List.prefix_nil.mp (hdirs _ hroot))
  refine ⟨leaving t, fun h => ?_⟩
  generalize henv : { env with shell := leaving t } = env' at h ⊢
  have hshell : env'.shell = leaving t := by rw [← henv]
  by_contra hnot
  have hwords : ¬ (Bare id ∧ Quotable conf) ∨ (confPulled env' id conf w).1 = true ∧ ¬ Quotable ifs := by
    by_cases hliteral : Bare id ∧ Quotable conf
    · exact .inr (Classical.not_imp.mp fun hifs => hnot ⟨hliteral.1, hliteral.2, hifs⟩)
    · exact .inl hliteral
  obtain ⟨msg, heq⟩ := @addguestWith_course w env' id ifs conf ip noted hnew
  have hfs : (addguestThreadWith noted env' id ifs conf ip w).fs = t := by
    rw [heq]
    exact withIpNoted_stuck hdir (guestPulled_stuck hshell hdir hwords)
  rcases h with hmade | hleft
  · -- no file below the guests
    obtain ⟨c, -, hnode⟩ := hmade.confWhole
    rw [hfs] at hnode
    exact unwritable_below hdir (writable_of_file hnode (by simp))
  · refine hother ?_
    rw [← hfs]
    exact hleft.left.guests []

/-! ## Transfers into the guest's directory -/

/-- What a transfer does to the entries of the directory: it stores what is sent, if the
entry can be written. -/
structure Transfers (env : JobEnv) (id : Bytes) (i : Nat) (remote : Bytes) (t t' : FileTree) : Prop where
  dirs : ∀ q, t'.isDir q = t.isDir q
  arrived : ∀ x, sent env i remote = some x → t.Writable (resolve (guestDir id) ++ [baseOnly remote]) →
    t'.node (resolve (guestDir id) ++ [baseOnly remote]) = some (.file x)
  kept : ∀ n, n ≠ baseOnly remote ∨ sent env i remote = none ∨
      ¬ t.Writable (resolve (guestDir id) ++ [n]) →
    t'.node (resolve (guestDir id) ++ [n]) = t.node (resolve (guestDir id) ++ [n])
  outside : t.isDir (resolve (guestDir id)) = false → t' = t

theorem sent_some {x : Bytes} (h : sent env i remote = some x) :
    ∃ c k, env.server.file remote = some c ∧ env.stored i 1 = some k ∧ x = c.take k := by
  obtain ⟨c, hfile, hk⟩ := Option.bind_eq_some_iff.mp h
  obtain ⟨k, hstored, rfl⟩ := Option.map_eq_some_iff.mp hk
  exact ⟨c, k, hfile, hstored, rfl⟩

theorem sent_proper {x : Bytes} (h : sent env i remote = some x) : ProperName (baseOnly remote) := by
  obtain ⟨c, -, hfile, -⟩ := sent_some h
  exact env.server.named remote (by simp [hfile])

theorem transfers_scp (hid : Quotable id) (hremote : Quotable remote) :
    Transfers env id i remote w.fs
      (w.scp env i 1 remote (join (guestDir id) (baseOnly remote))).fs := by
  have hdst : Quotable (join (guestDir id) (baseOnly remote)) :=
    quotable_guestFile hid (quotable_base hremote)
  rcases @World.scp_cases w env _ _ i 1 hremote hdst with ⟨heq, hnothing⟩ | ⟨c, k, hfile, hstored, heq⟩
  · have hnone : sent env i remote = none := by
      rcases hnothing with hnone | hnone
      · simp [sent, hnone]
      · simp [sent, hnone]
    rw [heq]
    exact ⟨fun _ => rfl, fun x hx => absurd (hnone.symm.trans hx) (Option.some_ne_none x).symm,
      fun _ _ => rfl, fun _ => rfl⟩
  · have hsent : sent env i remote = some (c.take k) := by simp [sent, hfile, hstored]
    have hplace : resolve (join (guestDir id) (baseOnly remote)) =
        resolve (guestDir id) ++ [baseOnly remote] := resolve_join_proper _ (sent_proper hsent)
    rw [heq, hplace]
    refine ⟨fun q => World.isDir_put, fun x hx hwrite => ?_, fun n hn => ?_, fun hdir => ?_⟩
    · obtain rfl : c.take k = x := Option.some.inj (hsent.symm.trans hx)
      rw [target, hwrite.2.2, World.node_put]
      exact if_pos ⟨rfl, hwrite⟩
    · rw [World.node_put, if_neg]
      rintro ⟨hq, hwrite⟩
      by_cases hdir : w.fs.isDir (resolve (guestDir id) ++ [baseOnly remote]) = true
      · rw [target, if_pos hdir] at hq
        simpa using congrArg List.length hq
      · rw [target, if_neg hdir] at hq hwrite
        obtain rfl : n = baseOnly remote := List.singleton_inj.mp (List.append_cancel_left hq)
        rcases hn with hne | hnone | hnot
        · exact hne rfl
        · rw [hsent] at hnone
          cases hnone
        · exact hnot hwrite
    · rw [World.put_fs, FileTree.write_eq_self (not_writable_target hdir)]

theorem confPulled_eq (hconf : Quotable conf) : confPulled env id conf w =
    (testedAt env ((w.mkdirs env (guestDir id)).scp env 0 1 conf
        (join (guestDir id) (baseOnly conf))).fs id 0 conf,
      (w.mkdirs env (guestDir id)).scp env 0 1 conf (join (guestDir id) (baseOnly conf))) := by
  simp only [confPulled, remoteSize_answer hconf]
  rfl

theorem ifsPulled_eq (hifs : Quotable ifs) : ifsPulled env id ifs w =
    (testedAt env (w.scp env 1 1 ifs (join (guestDir id) (baseOnly ifs))).fs id 1 ifs,
      w.scp env 1 1 ifs (join (guestDir id) (baseOnly ifs))) := by
  simp only [ifsPulled, remoteSize_answer hifs]
  rfl

theorem pulled_trees (hbare : Bare id) (hconf : Quotable conf)
    (hifs : (confPulled env id conf w).1 = true → Quotable ifs) :
    ∃ t₁ t₂, Transfers env id 0 conf (madeTree env w.fs id) t₁ ∧
      (testedAt env t₁ id 0 conf = true → Transfers env id 1 ifs t₁ t₂) ∧
      (confPulled env id conf w).1 = testedAt env t₁ id 0 conf ∧
      (guestPulled env id ifs conf w).1 = (testedAt env t₁ id 0 conf && testedAt env t₂ id 1 ifs) ∧
      (guestPulled env id ifs conf w).2.fs = if testedAt env t₁ id 0 conf then t₂ else t₁ := by
  have hmade : (w.mkdirs env (guestDir id)).fs = madeTree env w.fs id :=
    World.mkdirs_fs (bare_guestDir.mpr hbare)
  have hfirst := @transfers_scp (w.mkdirs env (guestDir id)) env id conf 0 hbare.quotable hconf
  rw [hmade] at hfirst
  rw [guestPulled, confPulled_eq hconf]
  rw [confPulled_eq hconf] at hifs
  generalize (w.mkdirs env (guestDir id)).scp env 0 1 conf (join (guestDir id) (baseOnly conf)) = w₁ at *
  cases hok : testedAt env w₁.fs id 0 conf with
  | true =>
      have hsecond := @transfers_scp w₁ env id ifs 1 hbare.quotable (hifs hok)
      refine ⟨w₁.fs, _, hfirst, fun _ => hsecond, hok.symm, ?_, ?_⟩
      · rw [if_pos rfl, ifsPulled_eq (hifs hok), hok]
        rfl
      · rw [if_pos rfl, ifsPulled_eq (hifs hok), if_pos hok]
  | false =>
      refine ⟨w₁.fs, w₁.fs, hfirst, fun htrue => ?_, hok.symm, ?_, ?_⟩
      · rw [hok] at htrue
        cases htrue
      · rw [hok]
        rfl
      · rw [hok]
        rfl

theorem testedAt_file {x : Bytes} (hname : ProperName (baseOnly remote))
    (h : t.node (resolve (guestDir id) ++ [baseOnly remote]) = some (.file x)) :
    testedAt env t id i remote = World.landed (sizeAnswer env i remote) x.length := by
  rw [testedAt, statSize_proper _ hname, resolve_join_proper _ hname, FileTree.size, h]

theorem file_of_tested (hname : ProperName (baseOnly remote)) (hok : testedAt env t id i remote = true)
    (hdir : t.isDir (resolve (guestDir id) ++ [baseOnly remote]) = false) :
    ∃ x, t.node (resolve (guestDir id) ++ [baseOnly remote]) = some (.file x) ∧
      World.landed (sizeAnswer env i remote) x.length = true := by
  have hpos := landed_pos sizeAnswer_ne_zero hok
  rw [statSize_proper _ hname, resolve_join_proper _ hname] at hpos
  cases hnode : t.node (resolve (guestDir id) ++ [baseOnly remote]) with
  | none =>
      rw [FileTree.size_none (by simp) hnode] at hpos
      cases hpos
  | some node =>
      cases node with
      | file x => exact ⟨x, rfl, (testedAt_file hname hnode).symm.trans hok⟩
      | dir size =>
          rw [FileTree.isDir_iff.mpr (.inr ⟨size, hnode⟩)] at hdir
          cases hdir

theorem Transfers.file {x : Bytes} (h : Transfers env id i remote t t')
    (hfresh : ∀ c, t.node (resolve (guestDir id) ++ [baseOnly remote]) ≠ some (.file c))
    (hnode : t'.node (resolve (guestDir id) ++ [baseOnly remote]) = some (.file x)) :
    sent env i remote = some x ∧ t.Writable (resolve (guestDir id) ++ [baseOnly remote]) := by
  by_cases hwrite : t.Writable (resolve (guestDir id) ++ [baseOnly remote])
  · cases hsent : sent env i remote with
    | none =>
        rw [h.kept _ (.inr (.inl hsent))] at hnode
        exact absurd hnode (hfresh x)
    | some y =>
        rw [h.arrived y hsent hwrite] at hnode
        obtain rfl : y = x := by simpa using hnode
        exact ⟨rfl, hwrite⟩
  · rw [h.kept _ (.inr (.inr hwrite))] at hnode
    exact absurd hnode (hfresh x)

theorem conf_passes {t₁ : FileTree} (h₁ : Transfers env id 0 conf made t₁)
    (h : FilesArrive env made id ifs conf) : testedAt env t₁ id 0 conf = true := by
  obtain ⟨x, -, hsent, hland, -⟩ := h.whole
  exact (testedAt_file (sent_proper hsent) (h₁.arrived x hsent h.confRoom)).trans hland

section
variable {t₁ t₂ : FileTree} (h₁ : Transfers env id 0 conf made t₁) (h₂ : Transfers env id 1 ifs t₁ t₂)
include h₁ h₂

theorem arrive_of_whole (hfresh : ∀ n c, made.node (resolve (guestDir id) ++ [n]) ≠ some (.file c))
    (hconfOk : testedAt env t₁ id 0 conf = true) (hifsOk : testedAt env t₂ id 1 ifs = true)
    (hconf : WholeAt env.server id conf t₂) (hifs : WholeAt env.server id ifs t₂)
    (hdistinct : conf ≠ ifs → baseOnly conf ≠ baseOnly ifs) : FilesArrive env made id ifs conf := by
  obtain ⟨c, hc, hconfNode⟩ := hconf
  obtain ⟨y, hy, hifsNode⟩ := hifs
  have hconfName : ProperName (baseOnly conf) := env.server.named conf (by simp [hc])
  have hifsName : ProperName (baseOnly ifs) := env.server.named ifs (by simp [hy])
  have hlandIfs : World.landed (sizeAnswer env 1 ifs) y.length = true :=
    (testedAt_file hifsName hifsNode).symm.trans hifsOk
  have hconfDir : t₁.isDir (resolve (guestDir id) ++ [baseOnly conf]) = false := by
    rw [← h₂.dirs]
    exact FileTree.not_isDir_file hconfNode (by simp)
  obtain ⟨x, hx, hlandConf⟩ := file_of_tested hconfName hconfOk hconfDir
  obtain ⟨hsent, hroom⟩ := h₁.file (hfresh _) hx
  by_cases hsame : conf = ifs
  · subst hsame
    refine ⟨hdistinct, hroom, hroom, x, y, hsent, hlandConf, ?_, hy, hlandIfs⟩
    rw [if_pos rfl]
    cases hsecond : sent env 1 conf with
    | none =>
        rw [h₂.kept _ (.inr (.inl hsecond)), hx] at hifsNode
        simpa [eq_comm] using hifsNode
    | some z =>
        rw [h₂.arrived z hsecond ((writable_congr h₁.dirs).mpr hroom)] at hifsNode
        simpa [eq_comm] using hifsNode
  · have hne : baseOnly conf ≠ baseOnly ifs := hdistinct hsame
    have hnotYet : ∀ c, t₁.node (resolve (guestDir id) ++ [baseOnly ifs]) ≠ some (.file c) := fun c => by
      rw [h₁.kept _ (.inl hne.symm)]
      exact hfresh _ c
    obtain ⟨hsecond, hifsRoom⟩ := h₂.file hnotYet hifsNode
    rw [h₂.kept _ (.inl hne), hx] at hconfNode
    obtain rfl : x = c := by simpa using hconfNode
    refine ⟨hdistinct, hroom, (writable_congr h₁.dirs).mp hifsRoom, x, y, hsent, hlandConf, ?_, hy, hlandIfs⟩
    rw [if_neg hsame]
    exact ⟨hc, hsecond⟩

theorem whole_of_arrive (h : FilesArrive env made id ifs conf) :
    testedAt env t₁ id 0 conf = true ∧ testedAt env t₂ id 1 ifs = true ∧
      WholeAt env.server id conf t₂ ∧ WholeAt env.server id ifs t₂ := by
  obtain ⟨x, y, hsent, hlandConf, hsecond, hy, hlandIfs⟩ := h.whole
  have hifsName : ProperName (baseOnly ifs) := env.server.named ifs (by simp [hy])
  have hx := h₁.arrived x hsent h.confRoom
  have hifsRoom : t₁.Writable (resolve (guestDir id) ++ [baseOnly ifs]) :=
    (writable_congr h₁.dirs).mpr h.ifsRoom
  have hconfOk := (testedAt_file (sent_proper hsent) hx).trans hlandConf
  have hifsNode : t₂.node (resolve (guestDir id) ++ [baseOnly ifs]) = some (.file y) := by
    by_cases hsame : conf = ifs
    · subst hsame
      rw [if_pos rfl] at hsecond
      cases hz : sent env 1 conf with
      | none => rw [h₂.kept _ (.inr (.inl hz)), hx, hsecond, hz, Option.getD_none]
      | some z => rw [h₂.arrived z hz hifsRoom, hsecond, hz, Option.getD_some]
    · rw [if_neg hsame] at hsecond
      exact h₂.arrived y hsecond.2 hifsRoom
  refine ⟨hconfOk, (testedAt_file hifsName hifsNode).trans hlandIfs, ?_, y, hy, hifsNode⟩
  by_cases hsame : conf = ifs
  · subst hsame
    exact ⟨y, hy, hifsNode⟩
  · rw [if_neg hsame] at hsecond
    exact ⟨x, hsecond.1, (h₂.kept _ (.inl (h.distinct hsame))).trans hx⟩

end

/-! ## The metadata -/

theorem appendIpWith_node_ne (hq : q ≠ resolve (metaFile id)) :
    (appendIpWith noted id ip w).fs.node q = w.fs.node q := by
  unfold appendIpWith
  split
  · rfl
  · exact (FileTree.node_write _ _ _ _).trans (if_neg fun h => hq h.1)

theorem appendIpWith_isDir : (appendIpWith noted id ip w).fs.isDir q = w.fs.isDir q := by
  unfold appendIpWith
  split
  · rfl
  · exact FileTree.isDir_write _ _ _ _

theorem appendIpWith_meta (hfresh : ∀ c, w.fs.node (resolve (metaFile id)) ≠ some (.file c)) :
    (appendIpWith noted id ip w).fs.node (resolve (metaFile id)) = some (.file (ipLine ip)) ↔
      w.fs.Writable (resolve (metaFile id)) ∧ ∃ k, noted = some k ∧ (ipLine ip).length ≤ k := by
  have hnone : textAt w.fs (resolve (metaFile id)) = none := by
    cases htext : textAt w.fs (resolve (metaFile id)) with
    | none => rfl
    | some c => exact absurd (textAt_eq_some.mp htext) (hfresh c)
  cases noted with
  | none => exact iff_of_false (hfresh _) fun ⟨_, k, hk, _⟩ => nomatch hk
  | some k =>
      simp only [appendIpWith, hnone, Option.getD_none, List.nil_append, FileTree.node_write, true_and,
        Option.some.injEq, exists_eq_left']
      by_cases hwrite : w.fs.Writable (resolve (metaFile id))
      · simp [hwrite]
      · simp [hwrite, hfresh]

theorem withIpNoted_node_ne (hq : q ≠ resolve (metaFile id)) :
    (withIpNoted noted env id ifs conf ip w).fs.node q = (guestPulled env id ifs conf w).2.fs.node q := by
  unfold withIpNoted
  split
  · exact appendIpWith_node_ne hq
  · rfl

theorem withIpNoted_isDir :
    (withIpNoted noted env id ifs conf ip w).fs.isDir q = (guestPulled env id ifs conf w).2.fs.isDir q := by
  unfold withIpNoted
  split
  · exact appendIpWith_isDir
  · rfl

theorem withIpNoted_published :
    (withIpNoted noted env id ifs conf ip w).published = w.published := by
  have hconf : (confPulled env id conf w).2.published = w.published :=
    World.scp_published.trans (World.remoteSize_published.trans World.mkdirs_published)
  have hpulled : (guestPulled env id ifs conf w).2.published = w.published := by
    unfold guestPulled
    split
    · exact World.scp_published.trans (World.remoteSize_published.trans hconf)
    · exact hconf
  unfold withIpNoted
  split
  · unfold appendIpWith
    split <;> exact hpulled
  · exact hpulled

theorem whole_withIpNoted {server : Server} (hcontrol : isControlFile (baseOnly remote) = false) :
    WholeAt server id remote (withIpNoted noted env id ifs conf ip w).fs ↔
      WholeAt server id remote (guestPulled env id ifs conf w).2.fs := by
  have hne : resolve (guestDir id) ++ [baseOnly remote] ≠ resolve (metaFile id) := by
    rw [resolve_meta]
    exact fun h => control_ne_meta hcontrol (List.singleton_inj.mp (List.append_cancel_left h))
  rw [WholeAt, withIpNoted_node_ne hne]
  rfl

/-! ## What was there -/

theorem made_fresh (hdir : t.isDir (resolve (guestDir id)) = false) (n c : Bytes) :
    (madeTree env t id).node (resolve (guestDir id) ++ [n]) ≠ some (.file c) := by
  intro h
  have hold : t.node (resolve (guestDir id) ++ [n]) = some (.file c) := by
    unfold madeTree at h
    split at h
    · exact FileTree.file_mkdirs.mp h
    · exact h
  rw [FileTree.isDir_parent (n := n) (by simp [hold])] at hdir
  cases hdir

theorem leftAlone_made (hdirs : ∀ q, t'.isDir q = (madeTree env t id).isDir q)
    (h : LeftAlone id t t') : LeftAlone id t (madeTree env t id) := by
  have hstay : ∀ q, t'.node q = t.node q → (madeTree env t id).node q = t.node q := fun q hq => by
    unfold madeTree at hdirs ⊢
    split at hdirs
    · rcases FileTree.node_mkdirs t (steps (guestDir id)) q with hsame | ⟨hnone, hne, -, hdir⟩
      · rw [if_pos ‹_›, hsame]
      · have hmade := (hdirs q).trans (FileTree.isDir_iff.mpr (.inr ⟨_, hdir⟩))
        rcases FileTree.isDir_iff.mp hmade with hroot | ⟨size, hnode⟩
        · exact absurd hroot hne
        · rw [hq, hnone] at hnode
          cases hnode
    · rw [if_neg ‹_›]
  exact ⟨fun rest => hstay _ (h.guests rest), hstay _ h.place⟩

theorem no_place (hnew : ¬ AddguestRefused t id ifs conf) (h : LeftAlone id t made) :
    made.isDir (resolve (guestDir id)) = false := by
  obtain ⟨-, hnode, -, -⟩ : _ ∧ _ ∧ _ ∧ _ := by simpa only [AddguestRefused, not_or] using hnew
  rw [← Bool.not_eq_true, FileTree.isDir_iff, h.place, not_not.mp hnode]
  rintro (hroot | ⟨size, hdir⟩)
  · exact root_not_new hnew hroot
  · cases hdir

/-! ## The job -/

section
variable {t₁ t₂ : FileTree} (hnew : ¬ AddguestRefused w.fs id ifs conf)
  (h₁ : Transfers env id 0 conf (madeTree env w.fs id) t₁)
  (h₂ : testedAt env t₁ id 0 conf = true → Transfers env id 1 ifs t₁ t₂)
  (hfs : (guestPulled env id ifs conf w).2.fs = if testedAt env t₁ id 0 conf then t₂ else t₁)
include hnew h₁ h₂

theorem trees_still (hleft : LeftAlone id w.fs (madeTree env w.fs id)) :
    t₁ = madeTree env w.fs id ∧ (testedAt env t₁ id 0 conf = true → t₂ = madeTree env w.fs id) := by
  have hno := no_place hnew hleft
  have hsame := h₁.outside hno
  exact ⟨hsame, fun hpass => ((h₂ hpass).outside (hsame ▸ hno)).trans hsame⟩

include hfs

/-- Only `mkdir` makes directories and nothing takes them away, so the job leaves what there
was exactly when none was made. -/
theorem leftAlone_iff : LeftAlone id w.fs (withIpNoted noted env id ifs conf ip w).fs ↔
    LeftAlone id w.fs (madeTree env w.fs id) := by
  constructor
  · refine leftAlone_made fun q => ?_
    rw [withIpNoted_isDir, hfs]
    split
    · next hpass => rw [(h₂ hpass).dirs, h₁.dirs]
    · exact h₁.dirs q
  · intro hleft
    obtain ⟨hfirst, hsecond⟩ := trees_still hnew h₁ h₂ hleft
    have hpulled : (guestPulled env id ifs conf w).2.fs = madeTree env w.fs id := by
      rw [hfs]
      split
      · next hpass => exact hsecond hpass
      · exact hfirst
    rwa [withIpNoted_stuck (no_place hnew hleft) hpulled]

theorem ipNoted_iff (hpass : (guestPulled env id ifs conf w).1 = true)
    (hconfOk : testedAt env t₁ id 0 conf = true) (hip : ip ≠ []) :
    (withIpNoted noted env id ifs conf ip w).fs.node (resolve (metaFile id)) =
        some (.file (ipLine ip)) ↔
      (madeTree env w.fs id).Writable (resolve (metaFile id)) ∧
        ∃ k, noted = some k ∧ (ipLine ip).length ≤ k := by
  obtain ⟨hdir, -, hconfName, hifsName⟩ : _ ∧ _ ∧ _ ∧ _ := by
    simpa only [AddguestRefused, not_or, Bool.not_eq_true] using hnew
  have hpulled : (guestPulled env id ifs conf w).2.fs = t₂ := by rw [hfs, if_pos hconfOk]
  have hfresh : ∀ c, (guestPulled env id ifs conf w).2.fs.node (resolve (metaFile id)) ≠
      some (.file c) := fun c => by
    rw [hpulled, resolve_meta, (h₂ hconfOk).kept _ (.inl (control_ne_meta hifsName).symm),
      h₁.kept _ (.inl (control_ne_meta hconfName).symm)]
    exact made_fresh hdir _ c
  rw [withIpNoted, if_pos ⟨hpass, hip⟩, appendIpWith_meta hfresh, hpulled,
    writable_congr (h₂ hconfOk).dirs, writable_congr h₁.dirs]

end

theorem literal_guest (hnew : ¬ AddguestRefused w.fs id ifs conf) (hbare : Bare id)
    (hconf : Quotable conf) (hifs : (confPulled env id conf w).1 = true → Quotable ifs) :
    MakesOrLeaves env.server id ifs conf ip w (addguestThreadWith noted env id ifs conf ip w) ↔
      AddguestKeeps noted env w.fs id ifs conf ip := by
  obtain ⟨t₁, t₂, h₁, h₂, hfirst, hok, hfs⟩ := pulled_trees hbare hconf hifs
  obtain ⟨msg, heq⟩ := @addguestWith_course w env id ifs conf ip noted hnew
  obtain ⟨hdir, -, hconfName, hifsName⟩ : _ ∧ _ ∧ _ ∧ _ := by
    simpa only [AddguestRefused, not_or, Bool.not_eq_true] using hnew
  have hkeeps : AddguestKeeps noted env w.fs id ifs conf ip ↔
      LeftAlone id w.fs (madeTree env w.fs id) ∧
          (testedAt env (madeTree env w.fs id) id 0 conf = true →
            Quotable ifs ∧ testedAt env (madeTree env w.fs id) id 1 ifs = false) ∨
        GuestArrives noted env (madeTree env w.fs id) id ifs conf ip := by
    simp only [AddguestKeeps, hnew, hbare, hconf, true_and, false_or]
  rw [hkeeps, heq]
  cases hpass : (guestPulled env id ifs conf w).1 with
  | false =>
      constructor
      · rintro (hmade | hleft)
        · obtain ⟨msg', hmsg⟩ := hmade.reported
          simp [withIpNoted_published] at hmsg
        · have hleft := (leftAlone_iff hnew h₁ h₂ hfs).mp hleft.left
          refine .inl ⟨hleft, fun htest => ?_⟩
          obtain ⟨hfirstTree, hsecondTree⟩ := trees_still hnew h₁ h₂ hleft
          have htest' : testedAt env t₁ id 0 conf = true := hfirstTree.symm ▸ htest
          rw [hok, htest', hsecondTree htest'] at hpass
          exact ⟨hifs (hfirst.trans htest'), hpass⟩
      · rintro (⟨hleft, -⟩ | harrives)
        · exact .inr ⟨⟨_, congrArg (· ++ [_]) withIpNoted_published⟩,
            (leftAlone_iff hnew h₁ h₂ hfs).mpr hleft⟩
        · have hconfOk := conf_passes h₁ harrives.files
          have hifsOk := (whole_of_arrive h₁ (h₂ hconfOk) harrives.files).2.1
          rw [hok, hconfOk, hifsOk] at hpass
          cases hpass
  | true =>
      obtain ⟨hconfOk, hifsOk⟩ : testedAt env t₁ id 0 conf = true ∧ testedAt env t₂ id 1 ifs = true := by
        rwa [hok, Bool.and_eq_true] at hpass
      have hpulled : (guestPulled env id ifs conf w).2.fs = t₂ := by rw [hfs, if_pos hconfOk]
      constructor
      · rintro (hmade | hleft)
        · have hconfWhole := (whole_withIpNoted hconfName).mp hmade.confWhole
          have hifsWhole := (whole_withIpNoted hifsName).mp hmade.ifsWhole
          rw [hpulled] at hconfWhole hifsWhole
          exact .inr ⟨hifs (hfirst.trans hconfOk), arrive_of_whole h₁ (h₂ hconfOk) (made_fresh hdir) hconfOk
            hifsOk hconfWhole hifsWhole hmade.distinct, fun hip =>
            (ipNoted_iff hnew h₁ h₂ hfs hpass hconfOk hip).mp (hmade.ipNoted hip)⟩
        · obtain ⟨msg', hmsg⟩ := hleft.reported
          simp [withIpNoted_published] at hmsg
      · rintro (⟨hleft, htests⟩ | harrives)
        · obtain ⟨hfirstTree, hsecondTree⟩ := trees_still hnew h₁ h₂ hleft
          have hfails := (htests (hfirstTree ▸ hconfOk)).2
          rw [← hsecondTree hconfOk, hifsOk] at hfails
          cases hfails
        · obtain ⟨-, -, hconfWhole, hifsWhole⟩ := whole_of_arrive h₁ (h₂ hconfOk) harrives.files
          rw [← hpulled] at hconfWhole hifsWhole
          exact .inl ⟨⟨_, congrArg (· ++ [_]) withIpNoted_published⟩,
            (whole_withIpNoted hconfName).mpr hconfWhole, (whole_withIpNoted hifsName).mpr hifsWhole,
            harrives.files.distinct, fun hip =>
            (ipNoted_iff hnew h₁ h₂ hfs hpass hconfOk hip).mpr (harrives.ipNoted hip)⟩

theorem keeps_withShell (shell : Shell) :
    AddguestKeeps noted { env with shell := shell } t id ifs conf ip ↔
      AddguestKeeps noted env t id ifs conf ip := by
  have hfiles : FilesArrive { env with shell := shell } (madeTree env t id) id ifs conf ↔
      FilesArrive env (madeTree env t id) id ifs conf :=
    ⟨fun h => ⟨h.1, h.2, h.3, h.4⟩, fun h => ⟨h.1, h.2, h.3, h.4⟩⟩
  have harrives : GuestArrives noted { env with shell := shell } (madeTree env t id) id ifs conf ip ↔
      GuestArrives noted env (madeTree env t id) id ifs conf ip :=
    ⟨fun h => ⟨h.1, hfiles.mp h.2, h.3⟩, fun h => ⟨h.1, hfiles.mpr h.2, h.3⟩⟩
  exact or_congr_right (and_congr_right fun _ => and_congr_right fun _ => or_congr_right harrives)

theorem AddguestKeeps.literal (hnew : ¬ AddguestRefused w.fs id ifs conf)
    (h : AddguestKeeps noted env w.fs id ifs conf ip) :
    Bare id ∧ Quotable conf ∧ ((confPulled env id conf w).1 = true → Quotable ifs) := by
  obtain ⟨hbare, hconf, hcourse⟩ := h.resolve_left hnew
  refine ⟨hbare, hconf, fun hpass => ?_⟩
  rcases hcourse with ⟨hleft, htests⟩ | harrives
  · have hmade : (w.mkdirs env (guestDir id)).fs = madeTree env w.fs id :=
      World.mkdirs_fs (bare_guestDir.mpr hbare)
    have htrees := @transfers_scp (w.mkdirs env (guestDir id)) env id conf 0 hbare.quotable hconf
    rw [hmade] at htrees
    rw [confPulled_eq hconf] at hpass
    exact (htests (htrees.outside (no_place hnew hleft) ▸ hpass)).1
  · exact harrives.literal

/-- No file can be fetched. -/
def nothingSent : JobEnv := { calmEnv with stored := fun _ _ => none }

end QnxHypervisor.OtaUpdate
