import Mathlib.Data.List.Basic
import Mathlib.Logic.Function.Iterate

/-! # Checksums by a shift register with feedback

`Register.run poly c bits` feeds a message into a `w`-bit register, most
significant bit first.  The register is linear over exclusive or, and one-to-one
when the feedback polynomial has its lowest bit set.  A change of the message
that lies within `w` neighbouring bits therefore always changes the register.
-/

namespace QnxHypervisor.Foundation.Register

variable {w : Nat} (poly : BitVec w)

/-- One step without input. -/
def shift (c : BitVec w) : BitVec w := if c.msb then (c <<< 1) ^^^ poly else c <<< 1

/-- The register whose highest bit alone may be set. -/
def topBit (w : Nat) (b : Bool) : BitVec w := if b then BitVec.twoPow w (w - 1) else 0#w

/-- A message bit enters at the top, then the register steps. -/
def feed (c : BitVec w) (b : Bool) : BitVec w := shift poly (c ^^^ topBit w b)

def run (c : BitVec w) (bits : List Bool) : BitVec w := bits.foldl (feed poly) c

/-- The leading bits of a message laid into the register from the top. -/
def pack (w : Nat) : List Bool → BitVec w
  | [] => 0#w
  | b :: bits => topBit w b ^^^ (pack w bits >>> 1)

/-! ## Linearity -/

theorem shift_xor (a b : BitVec w) : shift poly (a ^^^ b) = shift poly a ^^^ shift poly b := by
  simp only [shift, BitVec.msb_xor, BitVec.shiftLeft_xor_distrib]
  cases ha : a.msb <;> cases hb : b.msb
  · simp
  · simp [BitVec.xor_assoc]
  · simp only [Bool.bne_false, if_true, Bool.false_eq_true, if_false]
    rw [BitVec.xor_assoc, BitVec.xor_comm (b <<< 1) poly, BitVec.xor_assoc]
  · simp only [bne_self_eq_false, Bool.false_eq_true, if_false, if_true]
    rw [BitVec.xor_assoc, ← BitVec.xor_assoc poly, BitVec.xor_comm poly, BitVec.xor_assoc,
      BitVec.xor_self, BitVec.xor_zero]

theorem shift_zero : shift poly 0#w = 0#w := by
  simp [shift]

theorem topBit_xor (a b : Bool) : topBit w (a ^^ b) = topBit w a ^^^ topBit w b := by
  cases a <;> cases b <;> simp [topBit]

theorem iterate_shift_zero (n : Nat) : (shift poly)^[n] 0#w = 0#w :=
  Function.iterate_fixed (shift_zero poly) n

theorem feed_xor (a b : BitVec w) (x y : Bool) :
    feed poly (a ^^^ b) (x ^^ y) = feed poly a x ^^^ feed poly b y := by
  rw [feed, topBit_xor, feed, feed, ← shift_xor]
  congr 1
  rw [BitVec.xor_assoc, BitVec.xor_assoc, ← BitVec.xor_assoc b, BitVec.xor_comm b,
    BitVec.xor_assoc]

theorem run_xor (a b : BitVec w) {xs ys : List Bool} (hlen : xs.length = ys.length) :
    run poly (a ^^^ b) (List.zipWith (· ^^ ·) xs ys) = run poly a xs ^^^ run poly b ys := by
  induction xs generalizing a b ys with
  | nil =>
      obtain rfl := List.length_eq_zero_iff.mp hlen.symm
      rfl
  | cons x xs ih =>
      cases ys with
      | nil => simp at hlen
      | cons y ys =>
          have hrest := ih (feed poly a x) (feed poly b y) (by simpa using hlen)
          rw [← feed_xor] at hrest
          exact hrest

theorem run_append (c : BitVec w) (xs ys : List Bool) :
    run poly c (xs ++ ys) = run poly (run poly c xs) ys :=
  List.foldl_append

theorem run_zeros (c : BitVec w) (n : Nat) :
    run poly c (List.replicate n false) = (shift poly)^[n] c := by
  induction n generalizing c with
  | zero => rfl
  | succ n ih =>
      have hfeed : feed poly c false = shift poly c := by simp [feed, topBit]
      rw [List.replicate_succ, run, List.foldl_cons, hfeed, Function.iterate_succ_apply]
      exact ih (shift poly c)

/-! ## No step forgets -/

section
variable {poly} (hpoly : poly.getLsbD 0 = true)
include hpoly

theorem eq_zero_of_shift {c : BitVec w} (h : shift poly c = 0#w) : c = 0#w := by
  by_cases hmsb : c.msb = true
  · -- the lowest bit comes from the polynomial
    have hbit : (shift poly c).getLsbD 0 = true := by
      rw [shift, if_pos hmsb, BitVec.getLsbD_xor, hpoly]
      simp
    rw [h] at hbit
    simp at hbit
  · rw [shift, if_neg hmsb] at h
    apply BitVec.eq_of_getLsbD_eq
    intro i hi
    rw [Bool.not_eq_true] at hmsb
    by_cases htop : i = w - 1
    · rw [BitVec.msb_eq_getLsbD_last] at hmsb
      rw [htop, hmsb]
      simp
    · have hnext : (c <<< 1).getLsbD (i + 1) = c.getLsbD i := by
        simp only [BitVec.getLsbD_shiftLeft]
        simp only [Nat.add_sub_cancel]
        have hlt : i + 1 < w := by omega
        simp [hlt]
      rw [← hnext, h]
      simp

theorem shift_injective : Function.Injective (shift poly) := by
  intro a b h
  have hzero : shift poly (a ^^^ b) = 0#w := by
    rw [shift_xor, h, BitVec.xor_self]
  exact BitVec.xor_eq_zero_iff.mp (eq_zero_of_shift hpoly hzero)

theorem eq_zero_of_iterate {n : Nat} {c : BitVec w} (h : (shift poly)^[n] c = 0#w) : c = 0#w :=
  (shift_injective hpoly).iterate n (h.trans (iterate_shift_zero poly n).symm)

end

/-! ## A whole register of input -/

theorem getLsbD_topBit (b : Bool) (i : Nat) :
    (topBit w b).getLsbD i = (b && decide (i + 1 = w)) := by
  cases b
  · simp [topBit]
  · simp only [topBit, if_true, BitVec.getLsbD_twoPow, Bool.and_eq_decide]
    by_cases h : i + 1 = w
    · simp [h]
      omega
    · simp [h]
      omega

theorem getLsbD_pack (bits : List Bool) (i : Nat) :
    (pack w bits).getLsbD i = (decide (i < w) && bits.getD (w - 1 - i) false) := by
  induction bits generalizing i with
  | nil => simp [pack]
  | cons b bits ih =>
      rw [pack, BitVec.getLsbD_xor, getLsbD_topBit, BitVec.getLsbD_ushiftRight, ih]
      by_cases htop : i + 1 = w
      · have hidx : w - 1 - i = 0 := by omega
        have hlt : i < w := by omega
        simp [htop, hidx, hlt, Nat.add_comm 1 i]
      · by_cases hlt : i < w
        · have hidx : w - 1 - i = w - 1 - (1 + i) + 1 := by omega
          have hlt' : 1 + i < w := by omega
          simp [htop, hidx, hlt, hlt']
        · have hlt' : ¬ 1 + i < w := by omega
          simp [htop, hlt, hlt']

/-- Bits that leave room in the register are not met by the feedback. -/
theorem shift_pack {bits : List Bool} (h : bits.length < w) :
    shift poly (pack w bits >>> 1) = pack w bits := by
  have hmsb : (pack w bits >>> 1).msb = false := by
    rw [BitVec.msb_eq_getLsbD_last, BitVec.getLsbD_ushiftRight, getLsbD_pack]
    have hlt : ¬ 1 + (w - 1) < w := by omega
    simp [hlt]
  rw [shift, hmsb, if_neg (by simp)]
  apply BitVec.eq_of_getLsbD_eq
  intro i hi
  rw [BitVec.getLsbD_shiftLeft, BitVec.getLsbD_ushiftRight]
  cases i with
  | zero =>
      have hout : bits[w - 1]? = none := List.getElem?_eq_none (by omega)
      simp [getLsbD_pack, hout]
  | succ i => simp [Nat.add_comm 1 i, hi]

theorem run_pack (c : BitVec w) {bits : List Bool} (h : bits.length ≤ w) :
    run poly c bits = (shift poly)^[bits.length] (c ^^^ pack w bits) := by
  induction bits generalizing c with
  | nil => simp [run, pack]
  | cons b bits ih =>
      have hlt : bits.length < w := h
      have hfirst : shift poly (c ^^^ pack w (b :: bits)) = feed poly c b ^^^ pack w bits := by
        rw [pack, ← BitVec.xor_assoc, shift_xor, shift_pack poly hlt]
        rfl
      rw [List.length_cons, Function.iterate_succ_apply, hfirst, ← ih _ (Nat.le_of_lt hlt)]
      rfl

theorem pack_ne_zero {bits : List Bool} (h : bits.length ≤ w) (hset : true ∈ bits) :
    pack w bits ≠ 0#w := by
  obtain ⟨j, hj, hbit⟩ := List.getElem_of_mem hset
  intro hzero
  have hread := @getLsbD_pack w bits (w - 1 - j)
  have hlt : w - 1 - j < w := by omega
  have hidx : w - 1 - (w - 1 - j) = j := by omega
  rw [hzero, hidx] at hread
  simp [hlt, hj, hbit] at hread

/-! ## Bursts -/

/-- A change that is not empty and lies within `w` neighbouring positions. -/
structure Burst (w : Nat) (err : List Bool) : Prop where
  set : true ∈ err
  window : ∃ k, ∀ i, err[i]? = some true → k ≤ i ∧ i < k + w

theorem eq_zeros {bits : List Bool} (h : true ∉ bits) :
    bits = List.replicate bits.length false := by
  refine List.eq_replicate_of_mem fun b hb => ?_
  cases b with
  | false => rfl
  | true => exact absurd hb h

theorem Burst.word {err : List Bool} (h : Burst w err) :
    ∃ m n bits, err = List.replicate m false ++ (bits ++ List.replicate n false) ∧
      bits.length ≤ w ∧ true ∈ bits := by
  obtain ⟨k, hwindow⟩ := h.window
  have hbefore : true ∉ err.take k := fun hmem => by
    obtain ⟨i, hi, hbit⟩ := List.getElem_of_mem hmem
    rw [List.length_take] at hi
    rw [List.getElem_take] at hbit
    have hat := hwindow i (by rw [List.getElem?_eq_getElem (by omega), hbit])
    omega
  have hafter : true ∉ (err.drop k).drop w := fun hmem => by
    obtain ⟨i, hi, hbit⟩ := List.getElem_of_mem hmem
    rw [List.length_drop, List.length_drop] at hi
    rw [List.getElem_drop, List.getElem_drop] at hbit
    have hat := hwindow (k + (w + i)) (by rw [List.getElem?_eq_getElem (by omega), hbit])
    omega
  have hsplit : err = err.take k ++ ((err.drop k).take w ++ (err.drop k).drop w) := by
    rw [List.take_append_drop, List.take_append_drop]
  refine ⟨(err.take k).length, ((err.drop k).drop w).length, (err.drop k).take w, ?_,
    List.length_take_le _ _, ?_⟩
  · rw [← eq_zeros hbefore, ← eq_zeros hafter]
    exact hsplit
  · have hset := h.set
    rw [hsplit, List.mem_append, List.mem_append] at hset
    exact (hset.resolve_left hbefore).resolve_right hafter

theorem Burst.of_word {m n : Nat} {bits : List Bool} (hlen : bits.length ≤ w)
    (hset : true ∈ bits) :
    Burst w (List.replicate m false ++ (bits ++ List.replicate n false)) := by
  refine ⟨by simp [hset], m, fun i hi => ?_⟩
  rw [List.getElem?_append, List.length_replicate] at hi
  split at hi
  · rw [List.getElem?_replicate] at hi
    split at hi <;> simp at hi
  · rw [List.getElem?_append] at hi
    split at hi
    · omega
    · rw [List.getElem?_replicate] at hi
      split at hi <;> simp at hi

theorem run_burst_ne_zero {poly : BitVec w} (hpoly : poly.getLsbD 0 = true) {err : List Bool}
    (h : Burst w err) : run poly 0#w err ≠ 0#w := by
  obtain ⟨m, n, bits, rfl, hlen, hset⟩ := h.word
  intro hzero
  rw [run_append, run_zeros, iterate_shift_zero, run_append, run_zeros, run_pack poly 0#w hlen] at hzero
  have hpack := eq_zero_of_iterate hpoly (eq_zero_of_iterate hpoly hzero)
  rw [BitVec.zero_xor] at hpack
  exact pack_ne_zero hlen hset hpack

theorem run_corrupted_ne {poly : BitVec w} (hpoly : poly.getLsbD 0 = true) (c : BitVec w)
    {bits err : List Bool} (hlen : bits.length = err.length) (h : Burst w err) :
    run poly c (List.zipWith (· ^^ ·) bits err) ≠ run poly c bits := by
  intro heq
  have hsum := run_xor poly c 0#w hlen
  rw [BitVec.xor_zero, heq] at hsum
  apply run_burst_ne_zero hpoly h
  calc run poly 0#w err = run poly c bits ^^^ (run poly c bits ^^^ run poly 0#w err) := by
        rw [← BitVec.xor_assoc, BitVec.xor_self, BitVec.zero_xor]
    _ = 0#w := by rw [← hsum, BitVec.xor_self]

/-! ## Messages of bytes -/

def byteBits (b : UInt8) : List Bool := (List.range 8).map fun i => b.toBitVec.getLsbD (7 - i)

def messageBits (data : List UInt8) : List Bool := data.flatMap byteBits

/-- The message with the bits of `err` flipped. -/
def corrupt (data err : List UInt8) : List UInt8 := List.zipWith (· ^^^ ·) data err

@[simp] theorem byteBits_length (b : UInt8) : (byteBits b).length = 8 := by simp [byteBits]

theorem messageBits_length (data : List UInt8) :
    (messageBits data).length = 8 * data.length := by
  induction data with
  | nil => rfl
  | cons b data ih =>
      have hcons : messageBits (b :: data) = byteBits b ++ messageBits data := rfl
      rw [hcons, List.length_append, ih, byteBits_length, List.length_cons]
      omega

theorem byteBits_xor (a b : UInt8) :
    byteBits (a ^^^ b) = List.zipWith (· ^^ ·) (byteBits a) (byteBits b) := by
  simp [byteBits, List.zipWith_map]

theorem messageBits_corrupt {data err : List UInt8} (h : data.length = err.length) :
    messageBits (corrupt data err) =
      List.zipWith (· ^^ ·) (messageBits data) (messageBits err) := by
  induction data generalizing err with
  | nil =>
      obtain rfl := List.length_eq_zero_iff.mp h.symm
      rfl
  | cons a data ih =>
      cases err with
      | nil => simp at h
      | cons b err =>
          have hrest := @ih err (by simpa using h)
          have hfirst : messageBits (corrupt (a :: data) (b :: err)) =
              byteBits (a ^^^ b) ++ messageBits (corrupt data err) := rfl
          rw [hfirst, hrest, byteBits_xor, ← List.zipWith_append (by simp)]
          rfl

end QnxHypervisor.Foundation.Register
