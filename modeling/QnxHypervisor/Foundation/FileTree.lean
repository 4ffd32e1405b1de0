import Mathlib.Data.List.AList
import QnxHypervisor.Foundation.Text

/-! # File trees

Files and directories by absolute path, as system calls change them. A path
string is resolved to its components; every node's parent is a directory, so a
tree with orphans cannot be built.
-/

namespace QnxHypervisor.Foundation

abbrev Path := List Bytes

inductive Node where
  | file (content : Bytes)
  | dir (size : Nat)
  deriving DecidableEq

abbrev NodeMap := AList fun _ : Path => Node

def NodeMap.isDir (m : NodeMap) (p : Path) : Bool :=
  p = [] || match m.lookup p with
    | some (.dir _) => true
    | _ => false

/-- Nodes by path. The root is a directory without an entry. -/
structure FileTree where
  nodes : NodeMap
  closed : ∀ p n, nodes.lookup (p ++ [n]) ≠ none → nodes.isDir p = true

/-! ## Path strings -/

def slash : UInt8 := 47

/-- One component after those resolved so far. -/
def descend (p : Path) (n : Bytes) : Path :=
  if n = [] ∨ n = [46] then p else if n = [46, 46] then p.dropLast else p ++ [n]

/-- The path a string names. -/
def resolve (s : Bytes) : Path := (s.splitOn slash).foldl descend []

/-- The paths on the way there, one for each component of the string. -/
def steps (s : Bytes) : List Path := (s.splitOn slash).inits.map fun names => names.foldl descend []

/-- A name that a directory entry can have. -/
structure ProperName (n : Bytes) : Prop where
  nonempty : n ≠ []
  notDot : n ≠ [46]
  notDotDot : n ≠ [46, 46]
  noSlash : slash ∉ n

instance (n : Bytes) : Decidable (ProperName n) :=
  decidable_of_iff (n ≠ [] ∧ n ≠ [46] ∧ n ≠ [46, 46] ∧ slash ∉ n)
    ⟨fun ⟨h₁, h₂, h₃, h₄⟩ => ⟨h₁, h₂, h₃, h₄⟩, fun h => ⟨h.1, h.2, h.3, h.4⟩⟩

theorem descend_proper {n : Bytes} (h : ProperName n) (p : Path) : descend p n = p ++ [n] := by
  simp [descend, h.nonempty, h.notDot, h.notDotDot]

/-- The string `dir/name`. -/
def join (dir name : Bytes) : Bytes := dir ++ slash :: name

theorem splitOn_join (dir : Bytes) {n : Bytes} (h : slash ∉ n) :
    (join dir n).splitOn slash = dir.splitOn slash ++ [n] := by
  rw [join, List.splitOn_append_cons_self, List.splitOn_eq_singleton h]

theorem resolve_join (dir : Bytes) {n : Bytes} (h : slash ∉ n) :
    resolve (join dir n) = descend (resolve dir) n := by
  rw [resolve, resolve, splitOn_join dir h, List.foldl_append]
  rfl

/-- `dir/name` names the entry `name` of `dir`. -/
theorem resolve_join_proper (dir : Bytes) {n : Bytes} (h : ProperName n) :
    resolve (join dir n) = resolve dir ++ [n] := by
  rw [resolve_join dir h.noSlash, descend_proper h]

theorem steps_join (dir : Bytes) {n : Bytes} (h : slash ∉ n) :
    steps (join dir n) = steps dir ++ [resolve (join dir n)] := by
  rw [steps, steps, resolve, splitOn_join dir h, List.inits_append, List.map_append]
  simp

namespace FileTree

/-- A root without entries. -/
def empty : FileTree := ⟨∅, fun _ _ h => absurd (AList.lookup_empty _) h⟩

variable {t : FileTree} {p q : Path} {c : Bytes}

def node (t : FileTree) (p : Path) : Option Node := t.nodes.lookup p

def isDir (t : FileTree) (p : Path) : Bool := t.nodes.isDir p

/-- `st_size`, 0 when `stat` fails. -/
def size (t : FileTree) (p : Path) : Nat :=
  match t.node p with
  | some (.file c) => c.length
  | some (.dir size) => size
  | none => if p = [] then 4096 else 0

theorem size_none (hp : p ≠ []) (h : t.node p = none) : t.size p = 0 := by
  rw [size, h]
  exact if_neg hp

theorem isDir_iff : t.isDir p = true ↔ p = [] ∨ ∃ size, t.node p = some (.dir size) := by
  unfold isDir NodeMap.isDir node
  cases h : t.nodes.lookup p with
  | none => simp
  | some node => cases node <;> simp

theorem isDir_parent {n : Bytes} (h : t.node (p ++ [n]) ≠ none) : t.isDir p = true := t.closed p n h

theorem not_isDir_file (h : t.node p = some (.file c)) (hp : p ≠ []) : t.isDir p = false := by
  simp [isDir, NodeMap.isDir, show t.nodes.lookup p = some (.file c) from h, hp]

/-! ## Writing a file -/

/-- A file can be opened for writing: its directory exists and it is none itself. -/
def Writable (t : FileTree) (p : Path) : Prop :=
  p ≠ [] ∧ t.isDir p.dropLast = true ∧ t.isDir p = false

instance (t : FileTree) (p : Path) : Decidable (t.Writable p) := inferInstanceAs (Decidable (_ ∧ _))

theorem lookup_isDir_insert {m : NodeMap} {x : Node} (hp : p ≠ []) :
    NodeMap.isDir (m.insert p x) q = if q = p then (match x with | .dir _ => true | _ => false)
      else m.isDir q := by
  by_cases hq : q = p
  · subst hq
    cases x <;> simp [NodeMap.isDir, hp]
  · simp [NodeMap.isDir, AList.lookup_insert_ne hq, hq]

def write (t : FileTree) (p : Path) (c : Bytes) : FileTree :=
  if h : t.Writable p then
    { nodes := t.nodes.insert p (.file c)
      closed := by
        intro q n hq
        obtain ⟨hne, hparent, hnot⟩ := h
        rw [lookup_isDir_insert hne]
        by_cases hqp : q ++ [n] = p
        · have hqne : q ≠ p := by
            rintro rfl
            simpa using congrArg List.length hqp
          rw [if_neg hqne]
          rw [← hqp, List.dropLast_concat] at hparent
          exact hparent
        · rw [AList.lookup_insert_ne hqp] at hq
          have hdir := t.closed q n hq
          have hqne : q ≠ p := by
            rintro rfl
            exact absurd hdir (by simpa [isDir] using hnot)
          rwa [if_neg hqne] }
  else t

theorem write_eq_self (h : ¬ t.Writable p) : t.write p c = t := by
  rw [write, dif_neg h]

theorem node_write (t : FileTree) (p : Path) (c : Bytes) (q : Path) :
    (t.write p c).node q = if q = p ∧ t.Writable p then some (.file c) else t.node q := by
  unfold write
  split
  · next h =>
    by_cases hq : q = p
    · subst hq
      simp [node, h]
    · simp [node, AList.lookup_insert_ne hq, hq]
  · next h => simp [h]

theorem isDir_write (t : FileTree) (p : Path) (c : Bytes) (q : Path) :
    (t.write p c).isDir q = t.isDir q := by
  unfold write
  split
  · next h =>
    simp only [isDir]
    rw [lookup_isDir_insert h.1]
    split
    · next hq =>
      subst hq
      exact h.2.2.symm
    · rfl
  · rfl

/-! ## Directories -/

/-- The names in a directory. -/
def children (t : FileTree) (p : Path) : List Bytes :=
  t.nodes.keys.filterMap fun q =>
    match q.getLast? with
    | some n => if q = p ++ [n] then some n else none
    | none => none

theorem mem_children {n : Bytes} : n ∈ t.children p ↔ t.node (p ++ [n]) ≠ none := by
  unfold children node
  rw [List.mem_filterMap, ← Option.isSome_iff_ne_none, AList.lookup_isSome]
  constructor
  · rintro ⟨q, hq, hmatch⟩
    split at hmatch
    · split at hmatch
      · next n' _ heq =>
        obtain rfl := Option.some.inj hmatch
        exact heq ▸ AList.mem_keys.mpr hq
      · cases hmatch
    · cases hmatch
  · intro hmem
    exact ⟨p ++ [n], AList.mem_keys.mp hmem, by simp⟩

/-! ## Removing -/

theorem children_file (h : t.node p = some (.file c)) (hp : p ≠ []) : t.children p = [] := by
  refine List.eq_nil_iff_forall_not_mem.mpr fun n hn => ?_
  have hdir := isDir_parent (mem_children.mp hn)
  rw [not_isDir_file h hp] at hdir
  cases hdir

/-- `remove`: a file or an empty directory goes. -/
def remove (t : FileTree) (p : Path) : FileTree :=
  if h : t.children p = [] then
    { nodes := t.nodes.erase p
      closed := by
        intro q n hq
        have hne : q ++ [n] ≠ p := by
          rintro rfl
          exact hq (AList.lookup_erase _ _)
        rw [AList.lookup_erase_ne hne] at hq
        have hqp : q ≠ p := by
          rintro rfl
          exact absurd (mem_children.mpr hq) (by simp [h])
        have hdir := t.closed q n hq
        simpa [NodeMap.isDir, AList.lookup_erase_ne hqp] using hdir }
  else t

theorem node_remove (t : FileTree) (p q : Path) :
    (t.remove p).node q = if q = p ∧ t.children p = [] then none else t.node q := by
  unfold remove
  split
  · next h =>
    by_cases hq : q = p
    · subst hq
      simp [node, h]
    · simp [node, AList.lookup_erase_ne hq, hq]
  · next h => simp [h]

theorem isDir_remove_ne (t : FileTree) (h : q ≠ p) : (t.remove p).isDir q = t.isDir q := by
  have hnode := node_remove t p q
  rw [if_neg fun hq => h hq.1] at hnode
  simp only [isDir, NodeMap.isDir]
  rw [show (t.remove p).nodes.lookup q = t.nodes.lookup q from hnode]

/-! ## Making directories -/

/-- `mkdir`: a new entry of an existing directory. -/
def mkdir (t : FileTree) (p : Path) : FileTree :=
  if h : p ≠ [] ∧ t.isDir p.dropLast = true ∧ t.node p = none then
    { nodes := t.nodes.insert p (.dir 4096)
      closed := by
        intro q n hq
        obtain ⟨hne, hparent, -⟩ := h
        rw [lookup_isDir_insert hne]
        by_cases hqp : q = p
        · rw [if_pos hqp]
        · rw [if_neg hqp]
          by_cases hself : q ++ [n] = p
          · rw [← hself, List.dropLast_concat] at hparent
            exact hparent
          · rw [AList.lookup_insert_ne hself] at hq
            exact t.closed q n hq }
  else t

/-- `mkdir -p` on the way `way`. -/
def mkdirs (t : FileTree) (way : List Path) : FileTree := way.foldl mkdir t

theorem node_mkdir (t : FileTree) (p q : Path) :
    (t.mkdir p).node q =
      if q = p ∧ p ≠ [] ∧ t.isDir p.dropLast = true ∧ t.node p = none then some (.dir 4096)
      else t.node q := by
  unfold mkdir
  split
  · next h =>
    by_cases hq : q = p
    · subst hq
      simp [node, h.1, h.2.1, show t.nodes.lookup q = none from h.2.2]
    · simp [node, AList.lookup_insert_ne hq, hq]
  · next h => rw [if_neg fun hq => h hq.2]

theorem node_mkdirs (t : FileTree) (way : List Path) (q : Path) :
    (t.mkdirs way).node q = t.node q ∨
      t.node q = none ∧ q ≠ [] ∧ q ∈ way ∧ (t.mkdirs way).node q = some (.dir 4096) := by
  unfold mkdirs
  induction way generalizing t with
  | nil => exact .inl rfl
  | cons p way ih =>
      have hnode := node_mkdir t p q
      have hrest := ih (t.mkdir p)
      rw [List.foldl_cons]
      split at hnode
      · next hnew =>
        obtain ⟨rfl, hne, -, hnone⟩ := hnew
        refine .inr ⟨hnone, hne, List.mem_cons_self, ?_⟩
        rcases hrest with hsame | ⟨hnone', -⟩
        · rw [hsame, hnode]
        · rw [hnode] at hnone'
          cases hnone'
      · rw [hnode] at hrest
        exact hrest.imp_right fun ⟨h₁, h₂, h₃, h₄⟩ => ⟨h₁, h₂, List.mem_cons_of_mem _ h₃, h₄⟩

variable {way : List Path}

theorem file_mkdirs : (t.mkdirs way).node q = some (.file c) ↔ t.node q = some (.file c) := by
  rcases node_mkdirs t way q with hsame | ⟨hnone, -, -, hdir⟩
  · rw [hsame]
  · simp [hnone, hdir]

theorem isDir_mkdirs (h : t.isDir q = true) : (t.mkdirs way).isDir q = true := by
  rcases isDir_iff.mp h with rfl | ⟨size, hnode⟩
  · exact isDir_iff.mpr (.inl rfl)
  · rcases node_mkdirs t way q with hsame | ⟨hnone, -⟩
    · exact isDir_iff.mpr (.inr ⟨size, hsame.trans hnode⟩)
    · rw [hnone] at hnode
      cases hnode

/-! ## Trees with a given file -/

theorem node_empty : empty.node p = none := AList.lookup_empty _

theorem isDir_way (h : ∀ q, q <+: p → ∀ c, t.node q ≠ some (.file c)) :
    (t.mkdirs p.inits).isDir p = true := by
  induction p using List.reverseRecOn with
  | nil => exact isDir_iff.mpr (.inl rfl)
  | append_singleton p n ih =>
      have hway : t.mkdirs (p ++ [n]).inits = (t.mkdirs p.inits).mkdir (p ++ [n]) := by
        rw [List.inits_append]
        simp [mkdirs]
      have hparent : (t.mkdirs p.inits).isDir p = true :=
        ih fun q hq => h q (hq.trans (List.prefix_append _ _))
      have hnode := node_mkdir (t.mkdirs p.inits) (p ++ [n]) (p ++ [n])
      rw [hway, isDir_iff, hnode]
      refine .inr ?_
      cases hold : (t.mkdirs p.inits).node (p ++ [n]) with
      | none =>
          refine ⟨4096, if_pos ⟨rfl, by simp, ?_, rfl⟩⟩
          rwa [List.dropLast_concat]
      | some x =>
          cases x with
          | file c => exact absurd (file_mkdirs.mp hold) (h _ List.prefix_rfl c)
          | dir size => exact ⟨size, if_neg fun hnew => by cases hnew.2.2.2⟩

theorem isDir_made (p : Path) : (empty.mkdirs p.inits).isDir p = true :=
  isDir_way fun q _ c h => by cases node_empty.symm.trans h

theorem isDir_empty (h : empty.isDir q = true) : q = [] := by
  rcases isDir_iff.mp h with hroot | ⟨size, hdir⟩
  · exact hroot
  · rw [node_empty] at hdir
    cases hdir

theorem made_way (h : (empty.mkdirs p.inits).isDir q = true) : q <+: p := by
  rcases isDir_iff.mp h with rfl | ⟨size, hdir⟩
  · exact List.nil_prefix
  · rcases node_mkdirs empty p.inits q with hsame | ⟨-, -, hmem, -⟩
    · rw [hsame, node_empty] at hdir
      cases hdir
    · exact (List.mem_inits _ _).mp hmem

theorem exists_file (hp : p ≠ []) (c : Bytes) : ∃ t : FileTree, t.node p = some (.file c) ∧
    ∀ q, t.isDir q = true → q <+: p.dropLast := by
  have hwrite : (empty.mkdirs p.dropLast.inits).Writable p := by
    refine ⟨hp, isDir_made _, ?_⟩
    rw [← Bool.not_eq_true]
    intro hdir
    have hlen := (made_way hdir).length_le
    have hpos := List.length_pos_iff.mpr hp
    rw [List.length_dropLast] at hlen
    omega
  refine ⟨(empty.mkdirs p.dropLast.inits).write p c, ?_, fun q hq => ?_⟩
  · rw [node_write, if_pos ⟨rfl, hwrite⟩]
  · rw [isDir_write] at hq
    exact made_way hq

/-- Files of one directory, one after the other. -/
def writeAll (t : FileTree) (p : Path) (names : List Bytes) (c : Bytes) : FileTree :=
  names.foldl (fun t name => t.write (p ++ [name]) c) t

theorem isDir_writeAll (names : List Bytes) : (t.writeAll p names c).isDir q = t.isDir q := by
  induction names generalizing t with
  | nil => rfl
  | cons name rest ih => exact ih.trans (isDir_write t (p ++ [name]) c q)

theorem node_writeAll {name : Bytes} {names : List Bytes} (hdir : t.isDir p = true)
    (hfree : t.isDir (p ++ [name]) = false)
    (h : name ∈ names ∨ t.node (p ++ [name]) = some (.file c)) :
    (t.writeAll p names c).node (p ++ [name]) = some (.file c) := by
  induction names generalizing t with
  | nil => exact h.resolve_left List.not_mem_nil
  | cons first rest ih =>
      have hwrite : t.Writable (p ++ [name]) := ⟨by simp, by rwa [List.dropLast_concat], hfree⟩
      refine ih (t := t.write (p ++ [first]) c) ((isDir_write ..).trans hdir)
        ((isDir_write ..).trans hfree) ?_
      rw [node_write]
      by_cases heq : name = first
      · subst heq
        exact .inr (if_pos ⟨rfl, hwrite⟩)
      · rw [if_neg fun hq => heq (by simpa using hq.1)]
        exact h.imp_left fun hmem => (List.mem_cons.mp hmem).resolve_left heq

theorem exists_files {names : List Bytes} (hfree : ∀ name ∈ names, ¬ p ++ [name] <+: q) :
    ∃ t : FileTree, t.isDir q = true ∧ (∀ name ∈ names, t.node (p ++ [name]) = some (.file [])) ∧
      ∀ d, t.isDir d = true → d <+: p ∨ d <+: q := by
  obtain ⟨t, ht⟩ : ∃ t, t = (empty.mkdirs p.inits).mkdirs q.inits := ⟨_, rfl⟩
  have hnofile : ∀ d c, t.node d ≠ some (.file c) := fun d c hfile => by
    rw [ht, file_mkdirs, file_mkdirs, node_empty] at hfile
    cases hfile
  have hway : ∀ d, t.isDir d = true → d <+: p ∨ d <+: q := fun d hd => by
    rcases isDir_iff.mp hd with rfl | ⟨size, hdir⟩
    · exact .inl List.nil_prefix
    · rcases node_mkdirs (empty.mkdirs p.inits) q.inits d with hsame | ⟨-, -, hmem, -⟩
      · rw [ht, hsame] at hdir
        exact .inl (made_way (isDir_iff.mpr (.inr ⟨size, hdir⟩)))
      · exact .inr ((List.mem_inits _ _).mp hmem)
  have hp : t.isDir p = true := ht ▸ isDir_mkdirs (isDir_made p)
  have hq : t.isDir q = true := by
    rw [ht]
    refine isDir_way fun d _ c hfile => hnofile d c ?_
    rw [ht, file_mkdirs, hfile]
  refine ⟨t.writeAll p names [], (isDir_writeAll names).trans hq, fun name hname => ?_, fun d hd => ?_⟩
  · refine node_writeAll hp ?_ (.inl hname)
    rw [← Bool.not_eq_true]
    intro hdir
    rcases hway _ hdir with hpre | hpre
    · simpa using hpre.length_le
    · exact hfree name hname hpre
  · rw [isDir_writeAll] at hd
    exact hway d hd

/-- Whatever is at a path, some tree with no more directories than lead there has
something else there. -/
theorem exists_node_ne (hp : p ≠ []) (x : Option Node) : ∃ t : FileTree, t.node p ≠ x ∧
    ∀ q, t.isDir q = true → q <+: p.dropLast := by
  by_cases hx : x = none
  · obtain ⟨t, hfile, hdirs⟩ := exists_file hp []
    exact ⟨t, by simp [hfile, hx], hdirs⟩
  · refine ⟨empty, ?_, fun q hq => ?_⟩
    · rw [node_empty]
      exact fun h => hx h.symm
    · rw [isDir_empty hq]
      exact List.nil_prefix

end FileTree

end QnxHypervisor.Foundation
