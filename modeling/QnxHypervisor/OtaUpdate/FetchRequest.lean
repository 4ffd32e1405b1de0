import QnxHypervisor.OtaUpdate.Apply

/-! # The files a fetch asks for

The payload is cut at 2047 bytes, each path at 1023, and a sixteenth path makes room for
a mark. What the job gets is compared with the tokens of the whole payload.
-/

namespace QnxHypervisor.OtaUpdate

open Foundation GuestManager

variable {a b s w t : Bytes} {cmd : Bytes} {read asked rest more : List Bytes} {n : Nat}

/-! ## Tokens -/

theorem tokens_space (s : Bytes) : tokens (32 :: s) = tokens s := by
  have hsplit : (32 :: s).splitOn 32 = [] :: s.splitOn 32 :=
    List.splitOn_append_cons_self_of_not_mem (List.not_mem_nil (a := (32 : UInt8))) s
  simp [tokens, hsplit]

theorem tokens_word (hw : (32 : UInt8) ∉ w) (hne : w ≠ []) (s : Bytes) :
    tokens (w ++ 32 :: s) = w :: tokens s := by
  simp [tokens, List.splitOn_append_cons_self_of_not_mem hw, hne]

theorem tokens_last (hw : (32 : UInt8) ∉ w) (hne : w ≠ []) : tokens w = [w] := by
  simp [tokens, List.splitOn_eq_singleton hw, hne]

/-- A text that does not begin with a space, cut behind its first word. -/
theorem word_split {c : UInt8} (hc : c ≠ 32) (s : Bytes) :
    ∃ w, (32 : UInt8) ∉ w ∧ w ≠ [] ∧ (c :: s = w ∨ ∃ rest, c :: s = w ++ 32 :: rest) := by
  refine ⟨(c :: s).takeWhile fun b => b != 32, ?_, ?_, ?_⟩
  · intro hmem
    simpa using List.mem_takeWhile_imp hmem
  · simp [hc]
  · have hsplit := List.takeWhile_append_dropWhile (p := fun b => b != 32) (l := c :: s)
    cases hrest : (c :: s).dropWhile fun b => b != 32 with
    | nil =>
        rw [hrest, List.append_nil] at hsplit
        exact .inl hsplit.symm
    | cons d rest =>
        have hd : d = 32 := by simpa using dropWhile_stops hrest
        rw [hrest, hd] at hsplit
        exact .inr ⟨rest, hsplit.symm⟩

/-- The first tokens of a text that goes on: the last of them may be cut. -/
def CutTokens : List Bytes → List Bytes → Prop
  | [], _ => True
  | _ :: _, [] => False
  | t :: rest, u :: more => t <+: u ∧ (rest ≠ [] → t = u) ∧ CutTokens rest more

theorem tokens_append (a b : Bytes) : CutTokens (tokens a) (tokens (a ++ b)) := by
  induction hn : a.length using Nat.strong_induction_on generalizing a with
  | _ n ih =>
  subst hn
  cases a with
  | nil => exact trivial
  | cons c s =>
      by_cases hc : c = 32
      · rw [hc, List.cons_append, tokens_space, tokens_space]
        exact ih s.length (Nat.lt_succ_self _) s rfl
      · obtain ⟨w, hw, hne, heq | ⟨rest, heq⟩⟩ := word_split hc s
        · -- the text ends within a word
          rw [heq, tokens_last hw hne]
          have hfull : ∃ v more, tokens (w ++ b) = (w ++ v) :: more := by
            have hw' : ∀ v : Bytes, (32 : UInt8) ∉ v → (32 : UInt8) ∉ w ++ v := fun v hv =>
              fun hmem => (List.mem_append.mp hmem).elim hw hv
            have hne' : ∀ v : Bytes, w ++ v ≠ [] := fun v => List.append_ne_nil_of_left_ne_nil hne v
            cases b with
            | nil => exact ⟨[], [], tokens_last (hw' [] List.not_mem_nil) (hne' [])⟩
            | cons d u =>
                by_cases hd : d = 32
                · refine ⟨[], tokens u, ?_⟩
                  rw [hd, tokens_word hw hne, List.append_nil]
                · obtain ⟨v, hv, -, hd | ⟨r, hd⟩⟩ := word_split hd u
                  · exact ⟨v, [], by rw [hd, tokens_last (hw' v hv) (hne' v)]⟩
                  · refine ⟨v, tokens r, ?_⟩
                    rw [hd, ← List.append_assoc, tokens_word (hw' v hv) (hne' v)]
          obtain ⟨v, more, hfull⟩ := hfull
          rw [hfull]
          exact ⟨List.prefix_append w v, fun h => absurd rfl h, trivial⟩
        · have hlen : rest.length < (c :: s).length := by
            rw [heq, List.length_append, List.length_cons]
            omega
          rw [heq, List.append_assoc, List.cons_append, tokens_word hw hne, tokens_word hw hne]
          exact ⟨List.prefix_rfl, fun _ => rfl, ih rest.length hlen rest rfl⟩

/-- `strtok` takes the first of the tokens. -/
theorem strtok_tokens (h : strtok s = some (t, b)) : tokens s = t :: tokens b := by
  have hskip : tokens s = tokens (s.dropWhile fun b => b == 32) := by
    clear h
    induction s with
    | nil => rfl
    | cons c s ih =>
        by_cases hc : c = 32
        · rw [hc, tokens_space, ih]
          rfl
        · rw [List.dropWhile_cons_of_neg (by simpa using hc)]
  rw [hskip]
  unfold strtok at h
  cases hrest : s.dropWhile fun b => b == 32 with
  | nil =>
      rw [hrest] at h
      cases h
  | cons c u =>
      rw [hrest] at h
      have hc : c ≠ 32 := by simpa using dropWhile_stops hrest
      obtain ⟨ht, hb⟩ := Prod.mk.inj (Option.some.inj h)
      obtain ⟨w, hw, hne, heq | ⟨r, heq⟩⟩ := word_split hc u
      · have hall : ∀ b ∈ w, (b != 32) = true := fun b hb => by
          rw [bne_iff_ne]
          rintro rfl
          exact hw hb
        rw [heq, List.takeWhile_eq_self_iff.mpr hall] at ht
        rw [heq, List.dropWhile_eq_nil_iff.mpr hall] at hb
        rw [heq, ← ht, ← hb, tokens_last hw hne]
        rfl
      · have hall : ∀ b ∈ w, (b != 32) = true := fun b hb => by
          rw [bne_iff_ne]
          rintro rfl
          exact hw hb
        rw [heq, List.takeWhile_append_of_pos hall] at ht
        rw [heq, List.dropWhile_append_of_pos hall] at hb
        have hw' : w = t := by simpa using ht
        have hr : r = b := by simpa using hb
        rw [heq, tokens_word hw hne, hw', hr]

theorem CutTokens.take (h : CutTokens read asked) (hn : n < read.length) :
    read.take n = asked.take n := by
  induction read generalizing asked n with
  | nil => cases hn
  | cons t rest ih =>
      cases asked with
      | nil => exact h.elim
      | cons u more =>
          cases n with
          | zero => rfl
          | succ n =>
              have hrest : n < rest.length := Nat.lt_of_succ_lt_succ hn
              have hne : rest ≠ [] := List.ne_nil_of_length_pos (Nat.zero_lt_of_lt hrest)
              rw [List.take_succ_cons, List.take_succ_cons, h.2.1 hne, ih h.2.2 hrest]

/-! ## The paths of the job -/

/-- What the buffer of a path holds of a token. -/
def cutPath (t : Bytes) : Bytes := (CStr.fit 1024 t).bytes

theorem cutPath_eq (ht : (0 : UInt8) ∉ t) : cutPath t = t.take 1023 := by
  simp only [cutPath, CStr.fit, cString_of_no_nul ht]

theorem cutPath_whole_iff (ht : (0 : UInt8) ∉ t) : cutPath t = t ↔ t.length ≤ 1023 := by
  rw [cutPath_eq ht, List.take_eq_self_iff]

theorem mem_of_mem_token (ht : t ∈ tokens s) {c : UInt8} (hc : c ∈ t) : c ∈ s := by
  induction hn : s.length using Nat.strong_induction_on generalizing s with
  | _ n ih =>
  subst hn
  cases s with
  | nil => cases ht
  | cons d u =>
      by_cases hd : d = 32
      · rw [hd, tokens_space] at ht
        exact List.mem_cons_of_mem d (ih u.length (Nat.lt_succ_self _) ht rfl)
      · obtain ⟨w, hw, hne, heq | ⟨rest, heq⟩⟩ := word_split hd u
        · rw [heq, tokens_last hw hne, List.mem_singleton] at ht
          rwa [heq, ← ht]
        · have hlen : rest.length < (d :: u).length := by
            rw [heq, List.length_append, List.length_cons]
            omega
          rw [heq, tokens_word hw hne] at ht
          rw [heq]
          rcases List.mem_cons.mp ht with rfl | ht
          · exact List.mem_append_left _ hc
          · exact List.mem_append_right _ (List.mem_cons_of_mem _ (ih rest.length hlen ht rfl))

theorem cutPaths_prefix_iff (h : CutTokens read asked) (hnul : ∀ t ∈ read, (0 : UInt8) ∉ t) :
    read.map cutPath <+: asked ↔ (∀ t ∈ read, t.length ≤ 1023) ∧ read <+: asked := by
  induction read generalizing asked with
  | nil => simp
  | cons t rest ih =>
      cases asked with
      | nil => exact h.elim
      | cons u more =>
          have ht := hnul t List.mem_cons_self
          rw [List.map_cons, List.cons_prefix_cons, List.cons_prefix_cons, List.forall_mem_cons,
            ih h.2.2 fun t' ht' => hnul t' (List.mem_cons_of_mem t ht')]
          constructor
          · rintro ⟨hcut, hshort, hrest⟩
            have heq : t = u := by
              refine h.1.eq_of_length_le ?_
              rw [← hcut, cutPath_eq ht]
              exact List.length_take_le' _ _
            exact ⟨⟨(cutPath_whole_iff ht).mp (hcut.trans heq.symm), hshort⟩, heq, hrest⟩
          · rintro ⟨⟨ht', hshort⟩, heq, hrest⟩
            exact ⟨((cutPath_whole_iff ht).mpr ht').trans heq, hshort, hrest⟩

theorem markedPaths_prefix_iff (h : CutTokens read asked) (hnul : ∀ t ∈ read, (0 : UInt8) ∉ t)
    (hn : n < read.length) (mark : Bytes) :
    (read.take n).map cutPath ++ [mark] <+: asked ↔
      (∀ t ∈ read.take n, t.length ≤ 1023) ∧ asked[n]? = some mark := by
  have htake := h.take hn
  have hlen : (read.take n).length = n := by
    rw [List.length_take]
    omega
  have hmap : (read.take n).map cutPath = read.take n ↔ ∀ t ∈ read.take n, t.length ≤ 1023 := by
    have hid : (read.take n).map cutPath = (read.take n).map id ↔ ∀ t ∈ read.take n, cutPath t = t :=
      List.map_inj_left
    rw [List.map_id] at hid
    rw [hid]
    exact forall₂_congr fun t ht => cutPath_whole_iff (hnul t (List.mem_of_mem_take ht))
  have hsplit := List.take_append_drop n asked
  constructor
  · rintro ⟨tail, htail⟩
    have hpaths : (read.take n).map cutPath = asked.take n := by
      rw [← htail, List.append_assoc, List.take_left' (by rw [List.length_map, hlen])]
    refine ⟨hmap.mp (hpaths.trans htake.symm), ?_⟩
    rw [← htail, List.append_assoc, List.getElem?_append_right (by rw [List.length_map, hlen]),
      List.length_map, hlen, Nat.sub_self]
    rfl
  · rintro ⟨hshort, hmark⟩
    rw [hmap.mpr hshort, htake]
    refine ⟨asked.drop (n + 1), ?_⟩
    obtain ⟨hlt, hget⟩ := List.getElem?_eq_some_iff.mp hmark
    rw [List.append_assoc, List.singleton_append, ← hget, ← List.drop_eq_getElem_cons hlt, hsplit]

/-! ## The request -/

def readTokens (cmd : Bytes) : List Bytes := (tokens (CStr.fit 2048 cmd).bytes).drop 2

/-- The file tokens of the payload. -/
def askedTokens (cmd : Bytes) : List Bytes := (tokens (cString cmd)).drop 2

/-- The job gets the first of the files asked for, whole and in order, and up to sixteen
it gets all of them. -/
def FetchesAsked (cmd : Bytes) (paths : List Bytes) : Prop :=
  paths <+: askedTokens cmd ∧ ((askedTokens cmd).length ≤ maxFiles → paths = askedTokens cmd)

/-- Up to fifteen files none of which is cut, or more of them with a sixteenth whose name
happens to be the mark. -/
structure FetchFits (cmd : Bytes) : Prop where
  short : ∀ t ∈ (readTokens cmd).take (maxFiles - 1), t.length ≤ 1023
  few : (readTokens cmd).length ≤ maxFiles - 1 → readTokens cmd <+: askedTokens cmd ∧
    ((askedTokens cmd).length ≤ maxFiles → (readTokens cmd).length = (askedTokens cmd).length)
  many : maxFiles - 1 < (readTokens cmd).length →
    (askedTokens cmd)[maxFiles - 1]? = some (utf8 "(truncated)")

theorem CutTokens.drop (h : CutTokens read asked) (hn : n < read.length) :
    CutTokens (read.drop n) (asked.drop n) := by
  induction n generalizing read asked with
  | zero => exact h
  | succ n ih =>
      cases read with
      | nil => cases hn
      | cons t rest =>
          cases asked with
          | nil => exact h.elim
          | cons u more => exact ih h.2.2 (Nat.lt_of_succ_lt_succ hn)

theorem fetch_paths {guests : List Guest} {id : Bytes} {paths : List Bytes}
    (h : handleCommand guests cmd = some (.fetch id paths)) :
    readTokens cmd ≠ [] ∧ paths = fetchPaths (readTokens cmd) := by
  unfold handleCommand at h
  split at h
  · cases h
  · next action line hline =>
    have htokens := strtok_tokens hline
    split at h
    · split at h
      · split at h
        · cases h
        · cases h
      · cases h
    · split at h
      · split at h
        · next gid arg args hargs =>
          have hread : readTokens cmd = arg :: args := by
            rw [readTokens, htokens, hargs]
            rfl
          dsimp only at h
          split at h
          · cases h
          · split at h
            · cases h
            · cases h
              rw [hread]
              exact ⟨List.cons_ne_nil _ _, rfl⟩
        · cases h
      · -- no other action starts a fetch
        exfalso
        revert h
        split_ifs
        all_goals
          intro h
          repeat' split at h
          all_goals cases h

theorem readTokens_cut (h : readTokens cmd ≠ []) : CutTokens (readTokens cmd) (askedTokens cmd) := by
  have hpos := List.length_pos_iff.mpr h
  rw [readTokens, List.length_drop] at hpos
  have hcut := tokens_append ((cString cmd).take 2047) ((cString cmd).drop 2047)
  rw [List.take_append_drop] at hcut
  exact hcut.drop (by simpa [CStr.fit] using hpos)

theorem readTokens_no_nul (ht : t ∈ readTokens cmd) : (0 : UInt8) ∉ t :=
  fun hzero => (CStr.fit 2048 cmd).noNul (mem_of_mem_token (List.mem_of_mem_drop ht) hzero)

/-- The job gets what was asked for exactly when nothing was cut. -/
theorem fetch_gets_asked {guests : List Guest} {id : Bytes} {paths : List Bytes}
    (h : handleCommand guests cmd = some (.fetch id paths)) :
    FetchesAsked cmd paths ↔ FetchFits cmd := by
  obtain ⟨hne, rfl⟩ := fetch_paths h
  have hcut := readTokens_cut hne
  have hnul : ∀ t ∈ readTokens cmd, (0 : UInt8) ∉ t := fun t ht => readTokens_no_nul ht
  unfold FetchesAsked fetchPaths
  split
  · next hfew =>
    have htake : (readTokens cmd).take (maxFiles - 1) = readTokens cmd := List.take_of_length_le hfew
    have hiff := cutPaths_prefix_iff hcut hnul
    rw [show (readTokens cmd).map (fun t => (CStr.fit 1024 t).bytes) = (readTokens cmd).map cutPath from rfl]
    constructor
    · rintro ⟨hfront, hall⟩
      obtain ⟨hshort, hread⟩ := hiff.mp hfront
      refine ⟨by rwa [htake], fun _ => ⟨hread, fun hk => ?_⟩, fun hmany => absurd hfew (Nat.not_le.mpr hmany)⟩
      have hlen := congrArg List.length (hall hk)
      rwa [List.length_map] at hlen
    · intro hfits
      obtain ⟨hread, hall⟩ := hfits.few hfew
      have hshort := hfits.short
      rw [htake] at hshort
      have hfront := hiff.mpr ⟨hshort, hread⟩
      refine ⟨hfront, fun hk => hfront.eq_of_length ?_⟩
      rw [List.length_map, hall hk]
  · next hmany =>
    have hlt : maxFiles - 1 < (readTokens cmd).length := Nat.not_le.mp hmany
    have hiff := markedPaths_prefix_iff hcut hnul hlt (utf8 "(truncated)")
    rw [show ((readTokens cmd).take (maxFiles - 1)).map (fun t => (CStr.fit 1024 t).bytes) =
      ((readTokens cmd).take (maxFiles - 1)).map cutPath from rfl]
    constructor
    · rintro ⟨hfront, -⟩
      obtain ⟨hshort, hmark⟩ := hiff.mp hfront
      exact ⟨hshort, fun hfew => absurd hfew hmany, fun _ => hmark⟩
    · intro hfits
      have hfront := hiff.mpr ⟨hfits.short, hfits.many hlt⟩
      refine ⟨hfront, fun hk => hfront.eq_of_length_le ?_⟩
      rw [List.length_append, List.length_map, List.length_take, List.length_singleton,
        Nat.min_eq_left (Nat.le_of_lt hlt)]
      exact hk

theorem fetch_gets_asked_two :
    FetchesAsked (utf8 "fetch guest-a /up/a.bin /up/b.bin") [utf8 "/up/a.bin", utf8 "/up/b.bin"] :=
  have hjob : handleCommand [recordOf .stopped 0] (utf8 "fetch guest-a /up/a.bin /up/b.bin") =
      some (.fetch (utf8 "guest-a") [utf8 "/up/a.bin", utf8 "/up/b.bin"]) := by
    decide +kernel
  (fetch_gets_asked hjob).mpr
    ⟨by decide +kernel, fun _ => by decide +kernel, fun hmany => absurd hmany (by decide +kernel)⟩

/-- As many files as the job has places. -/
def sixteenFiles : Bytes :=
  utf8 "fetch guest-a" ++ (List.range 16).flatMap fun i => utf8 " /up/" ++ [UInt8.ofNat (97 + i)]

/-- The sixteenth file is not fetched, a file of the mark's name is. -/
theorem sixteenth_file_replaced :
    (askedTokens sixteenFiles).length = 16 ∧ utf8 "(truncated)" ∉ askedTokens sixteenFiles ∧
      ∃ paths, handleCommand [recordOf .stopped 0] sixteenFiles = some (.fetch (utf8 "guest-a") paths) ∧
        utf8 "(truncated)" ∈ paths ∧ ¬ FetchesAsked sixteenFiles paths := by
  have hmark : utf8 "(truncated)" ∉ askedTokens sixteenFiles := by
    decide +kernel
  have hin : utf8 "(truncated)" ∈ fetchPaths (readTokens sixteenFiles) := by
    decide +kernel
  refine ⟨by decide +kernel, hmark, fetchPaths (readTokens sixteenFiles), by decide +kernel, hin, ?_⟩
  exact fun h => hmark (h.1.subset hin)

end QnxHypervisor.OtaUpdate
