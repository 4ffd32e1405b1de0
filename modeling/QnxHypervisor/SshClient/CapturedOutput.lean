import QnxHypervisor.Foundation.HeapBuffer
import QnxHypervisor.Foundation.Text

/-! # Captured output

`ssh_exec` and `run_local` collect what a child prints in a buffer that grows: the first
doubles it before a line that does not fit, the second after a read that leaves less than
1024 bytes. All reallocations succeed here.
-/

namespace QnxHypervisor.SshClient

open Foundation

/-! ## Source functions -/

structure Capture where
  out : Bytes
  cap : Nat
  len : Nat

/-- `cap *= 2` and `realloc`. -/
def Capture.double (fresh : Nat → UInt8) (c : Capture) : Capture :=
  { c with out := realloc fresh c.out (c.cap * 2), cap := c.cap * 2 }

/-- A turn of `ssh_exec`'s loop: `buf` as `fgets` leaves it. -/
def sshTurn (fresh : Nat → UInt8) (c : Capture) (buf : Bytes) : Option Capture :=
  let blen := (cString buf).length
  let c := if c.cap < c.len + blen + 1 then c.double fresh else c
  (writeAt c.out c.len (cString buf ++ [0])).map fun out => { c with out, len := c.len + blen }

def sshCapture (fresh : Nat → UInt8) (pieces : List Bytes) : Option Capture :=
  (writeAt (malloc fresh 4096) 0 [0]).bind fun out =>
    pieces.foldlM (sshTurn fresh) ⟨out, 4096, 0⟩

/-- What `ssh_exec` returns when `pclose` returns `ret`; the inner `none` is `NULL`. -/
def sshExec (fresh : Nat → UInt8) (ret : Int) (pieces : List Bytes) : Option (Option Bytes) :=
  (sshCapture fresh pieces).map fun c => if ret ≠ 0 ∧ c.len = 0 then none else some c.out

/-- The body of `run_local`'s loop: `n` bytes have been read into the buffer. -/
def localTurn (fresh : Nat → UInt8) (c : Capture) (got : Bytes) : Option Capture :=
  (writeAt c.out c.len got).map fun out =>
    let c : Capture := { c with out, len := c.len + got.length }
    if c.cap - c.len - 1 < 1024 then c.double fresh else c

/-- The loop of `run_local` over what is left of the stream. `fread` hands out at most what
is asked for, and at least one byte while there is one; `want` decides how many. The sizes
asked for are returned as well. -/
def localLoop (fresh : Nat → UInt8) (want : Nat → Nat) (stream : Bytes) (turn : Nat)
    (c : Capture) : Option (Capture × List Nat) :=
  -- the size would wrap
  if c.cap < c.len + 1 then none
  else
    let request := c.cap - c.len - 1
    let got := stream.take (min request (want turn + 1))
    if got = [] then some (c, [request])
    else (localTurn fresh c got).bind fun c' =>
      (localLoop fresh want (stream.drop got.length) (turn + 1) c').map fun r =>
        (r.1, request :: r.2)
termination_by stream.length
decreasing_by
  have hpos : 0 < (stream.take (min (c.cap - c.len - 1) (want turn + 1))).length :=
    List.length_pos_iff.mpr ‹_›
  simp only [List.length_drop, List.length_take] at hpos ⊢
  omega

def runLocal (fresh : Nat → UInt8) (want : Nat → Nat) (stream : Bytes) :
    Option (Bytes × List Nat) :=
  (localLoop fresh want stream 0 ⟨malloc fresh 16384, 16384, 0⟩).bind fun r =>
    (writeAt r.1.out r.1.len [0]).map fun out => (out, r.2)

/-! ## What is promised -/

/-- `fgets(buf, 1024)` leaves at most 1023 bytes before the NUL. -/
structure FgetsPiece (piece : Bytes) : Prop where
  short : piece.length ≤ 1023
  noNul : (0 : UInt8) ∉ piece

/-- The whole stream and a NUL. -/
structure Captured (stream out : Bytes) : Prop where
  ended : stream ++ [0] <+: out
  text : (0 : UInt8) ∉ stream → cString out = stream

variable {c : Capture} {text piece got stream : Bytes} {pieces : List Bytes}

theorem Captured.of_ended {out : Bytes} (h : stream ++ [0] <+: out) : Captured stream out where
  ended := h
  text hnul := by
    obtain ⟨rest, rfl⟩ := h
    rw [List.append_assoc, cString_append hnul]
    exact List.append_nil stream

/-! ## The capture of `ssh_exec` -/

/-- The text so far, its NUL, and room that a piece fills after one doubling. -/
structure SshHolds (c : Capture) (text : Bytes) : Prop where
  size : c.out.length = c.cap
  enough : 4096 ≤ c.cap
  len : c.len = text.length
  ended : text ++ [0] <+: c.out

theorem SshHolds.fits (h : SshHolds c text) : text.length + 1 ≤ c.cap := by
  have hle := h.ended.length_le
  rw [List.length_append, h.size] at hle
  exact hle

theorem SshHolds.double (fresh : Nat → UInt8) (h : SshHolds c text) :
    SshHolds (c.double fresh) text where
  size := realloc_length
  enough := by
    have henough := h.enough
    show 4096 ≤ c.cap * 2
    omega
  len := h.len
  ended := by
    have hfits := h.fits
    refine prefix_realloc h.ended ?_
    rw [List.length_append, List.length_singleton]
    omega

theorem SshHolds.write (piece : Bytes) (h : SshHolds c text)
    (hroom : text.length + piece.length + 1 ≤ c.cap) :
    ∃ out, writeAt c.out c.len (piece ++ [0]) = some out ∧
      SshHolds { c with out, len := c.len + piece.length } (text ++ piece) := by
  have hsize := h.size
  have htext : text <+: c.out := (List.prefix_append text [0]).trans h.ended
  obtain ⟨out, hwrite, hlen, hprefix⟩ := writeAt_prefix (piece ++ [0]) htext (by
    rw [List.length_append, List.length_singleton]
    omega)
  refine ⟨out, by rw [h.len, hwrite], hlen.trans hsize, h.enough, ?_, ?_⟩
  · rw [List.length_append, h.len]
  · rwa [List.append_assoc]

theorem sshTurn_holds (fresh : Nat → UInt8) (h : SshHolds c text) (hpiece : FgetsPiece piece) :
    ∃ c', sshTurn fresh c (piece ++ [0]) = some c' ∧ SshHolds c' (text ++ piece) := by
  have hshort := hpiece.short
  have hfits := h.fits
  have henough := h.enough
  have hbuf : cString (piece ++ [0]) = piece := by
    rw [cString_append hpiece.noNul]
    exact List.append_nil piece
  simp only [sshTurn, hbuf, h.len]
  split
  case isTrue hfull =>
    -- the old buffer was more than three quarters full
    obtain ⟨out, hwrite, hholds⟩ := (h.double fresh).write piece (by
      show text.length + piece.length + 1 ≤ c.cap * 2
      omega)
    refine ⟨_, ?_, hholds⟩
    have hlen : (c.double fresh).len = text.length := h.len
    rw [hlen] at hwrite ⊢
    rw [hwrite]
    rfl
  case isFalse hroom =>
    obtain ⟨out, hwrite, hholds⟩ := h.write piece (by omega)
    exact ⟨_, by rw [hwrite]; rfl, hholds⟩

theorem sshTurns_hold (fresh : Nat → UInt8) (h : SshHolds c text)
    (hpieces : ∀ piece ∈ pieces, FgetsPiece piece) :
    ∃ c', (pieces.map (· ++ [0])).foldlM (sshTurn fresh) c = some c' ∧
      SshHolds c' (text ++ pieces.flatten) := by
  induction pieces generalizing c text with
  | nil => exact ⟨c, rfl, by rwa [List.flatten_nil, List.append_nil]⟩
  | cons piece pieces ih =>
      obtain ⟨c', hturn, hholds⟩ := sshTurn_holds fresh h (hpieces piece (by simp))
      obtain ⟨c'', hrun, hall⟩ := ih hholds fun p hp => hpieces p (List.mem_cons_of_mem _ hp)
      refine ⟨c'', ?_, ?_⟩
      · rw [List.map_cons, List.foldlM_cons, hturn]
        exact hrun
      · rwa [List.flatten_cons, ← List.append_assoc]

theorem sshCapture_holds (fresh : Nat → UInt8)
    (hpieces : ∀ piece ∈ pieces, FgetsPiece piece) :
    ∃ c, sshCapture fresh (pieces.map (· ++ [0])) = some c ∧ SshHolds c pieces.flatten := by
  obtain ⟨out, hwrite, hlen, hprefix⟩ := writeAt_prefix [0] (List.nil_prefix (l := malloc fresh 4096)) (by
    rw [malloc_length]
    decide)
  have hstart : SshHolds ⟨out, 4096, 0⟩ [] :=
    ⟨by rw [hlen, malloc_length], Nat.le_refl _, rfl, hprefix⟩
  obtain ⟨c, hrun, hholds⟩ := sshTurns_hold fresh hstart hpieces
  refine ⟨c, ?_, hholds⟩
  rw [sshCapture, show writeAt (malloc fresh 4096) 0 [0] = some out from hwrite]
  exact hrun

/-! ## The capture of `run_local` -/

structure LocalHolds (c : Capture) (text : Bytes) : Prop where
  size : c.out.length = c.cap
  room : text.length + 1025 ≤ c.cap
  len : c.len = text.length
  held : text <+: c.out

theorem localTurn_holds (fresh : Nat → UInt8) (h : LocalHolds c text)
    (hgot : got.length ≤ c.cap - text.length - 1) :
    ∃ c', localTurn fresh c got = some c' ∧ LocalHolds c' (text ++ got) := by
  have hsize := h.size
  have hroom := h.room
  have hlen := h.len
  obtain ⟨out, hwrite, hout, hprefix⟩ := writeAt_prefix got h.held (by omega)
  simp only [localTurn, hlen, hwrite, Option.map_some]
  split
  case isTrue hfull =>
    refine ⟨_, rfl, realloc_length, ?_, ?_, prefix_realloc hprefix ?_⟩
    · show (text ++ got).length + 1025 ≤ c.cap * 2
      rw [List.length_append]
      omega
    · exact List.length_append.symm
    · show (text ++ got).length ≤ c.cap * 2
      rw [List.length_append]
      omega
  case isFalse hleft =>
    refine ⟨_, rfl, hout.trans hsize, ?_, List.length_append.symm, hprefix⟩
    show (text ++ got).length + 1025 ≤ c.cap
    rw [List.length_append]
    omega

theorem localLoop_holds (fresh : Nat → UInt8) (want : Nat → Nat) (turn : Nat)
    (h : LocalHolds c text) (stream : Bytes) :
    ∃ c' requests, localLoop fresh want stream turn c = some (c', requests) ∧
      LocalHolds c' (text ++ stream) ∧ ∀ r ∈ requests, 0 < r := by
  induction hn : stream.length using Nat.strong_induction_on generalizing stream turn c text with
  | h n ih =>
      have hroom := h.room
      have hlen := h.len
      have hrequest : 0 < c.cap - c.len - 1 := by omega
      rw [localLoop, if_neg (by omega)]
      simp only
      split
      case isTrue hnone =>
        -- with a positive size `fread` returns 0 only at the end of the stream
        have hstream : stream = [] := by
          rcases List.take_eq_nil_iff.mp hnone with hzero | hnil
          · omega
          · exact hnil
        subst hstream
        refine ⟨c, _, rfl, by rwa [List.append_nil], ?_⟩
        intro r hr
        rwa [List.mem_singleton.mp hr]
      case isFalse hsome =>
        set got := stream.take (min (c.cap - c.len - 1) (want turn + 1)) with hgot
        have hle : got.length ≤ c.cap - text.length - 1 := by
          rw [hgot, List.length_take]
          omega
        have hpos : 0 < got.length := List.length_pos_iff.mpr hsome
        have hcut : got ++ stream.drop got.length = stream := by
          have hprefix : got <+: stream := List.take_prefix ..
          obtain ⟨rest, hrest⟩ := hprefix
          rw [← hrest, List.drop_left]
        have hless : (stream.drop got.length).length < n := by
          have htotal := congrArg List.length hcut
          rw [List.length_append] at htotal
          omega
        obtain ⟨c', hturn, hholds⟩ := localTurn_holds fresh h hle
        obtain ⟨c'', requests, hloop, hall, hsizes⟩ := ih _ hless (turn + 1) hholds _ rfl
        refine ⟨c'', _, by rw [hturn, Option.bind_some, hloop]; rfl, ?_, ?_⟩
        · rwa [List.append_assoc, hcut] at hall
        · intro r hr
          rcases List.mem_cons.mp hr with rfl | hr
          · exact hrequest
          · exact hsizes r hr

theorem localStart_holds (fresh : Nat → UInt8) :
    LocalHolds ⟨malloc fresh 16384, 16384, 0⟩ [] := by
  -- the capacity as a variable: the unifier would count up to it
  suffices hany : ∀ cap, 1025 ≤ cap → LocalHolds ⟨malloc fresh cap, cap, 0⟩ [] from
    hany 16384 (by omega)
  intro cap hcap
  exact ⟨malloc_length, by rwa [List.length_nil, Nat.zero_add], rfl, List.nil_prefix⟩

/-! ## The law -/

theorem captured_output_complete :
    (∀ (fresh : Nat → UInt8) (ret : Int) (pieces : List Bytes),
      (∀ piece ∈ pieces, FgetsPiece piece) →
        ∃ result, sshExec fresh ret (pieces.map (· ++ [0])) = some result ∧
          (result = none ↔ ret ≠ 0 ∧ pieces.flatten = []) ∧
          ∀ out, result = some out → Captured pieces.flatten out) ∧
    ∀ (fresh : Nat → UInt8) (want : Nat → Nat) (stream : Bytes),
      ∃ out requests, runLocal fresh want stream = some (out, requests) ∧
        Captured stream out ∧ ∀ r ∈ requests, 0 < r := by
  refine ⟨?_, ?_⟩
  · intro fresh ret pieces hpieces
    obtain ⟨c, hcapture, hholds⟩ := sshCapture_holds fresh hpieces
    refine ⟨if ret ≠ 0 ∧ c.len = 0 then none else some c.out, by rw [sshExec, hcapture]; rfl,
      ?_, ?_⟩
    · have hempty : c.len = 0 ↔ pieces.flatten = [] := by rw [hholds.len, List.length_eq_zero_iff]
      rw [← hempty]
      split
      case isTrue hnull => exact iff_of_true rfl hnull
      case isFalse hkept => exact iff_of_false (Option.some_ne_none _) hkept
    · intro out hout
      split at hout
      case isTrue => cases hout
      case isFalse =>
        cases hout
        exact Captured.of_ended hholds.ended
  · intro fresh want stream
    obtain ⟨c, requests, hloop, hholds, hsizes⟩ :=
      localLoop_holds fresh want 0 (localStart_holds fresh) stream
    rw [List.nil_append] at hholds
    have hroom := hholds.room
    have hsize := hholds.size
    obtain ⟨out, hwrite, -, hprefix⟩ := writeAt_prefix [0] hholds.held (by
      rw [List.length_singleton]
      omega)
    refine ⟨out, requests, ?_, .of_ended hprefix, hsizes⟩
    rw [runLocal, hloop, Option.bind_some, hholds.len, hwrite]
    rfl

/-- More than the first buffer holds. -/
def manyPieces : List Bytes := List.replicate 20 (List.replicate 254 45 ++ [newline])

theorem captured_output_complete_doubled :
    ∃ out, sshExec (fun _ => 0) 0 (manyPieces.map (· ++ [0])) = some (some out) ∧
      Captured manyPieces.flatten out := by
  obtain ⟨result, hexec, hnone, hout⟩ :=
    captured_output_complete.1 (fun _ => 0) 0 manyPieces fun piece hpiece => by
      rw [(List.mem_replicate.mp hpiece).2]
      exact ⟨by decide +kernel, by decide +kernel⟩
  cases result with
  | none => exact absurd rfl (hnone.mp rfl).1
  | some out => exact ⟨out, hexec, hout out rfl⟩

end QnxHypervisor.SshClient
