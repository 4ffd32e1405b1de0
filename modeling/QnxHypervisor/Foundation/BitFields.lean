import Mathlib.Algebra.Group.Nat.Defs
import Mathlib.Logic.Function.Basic

/-! # Fields packed into words

A bank of words holds equal fields, several to a word, from a base word on. Putting a
field is the usual read, mask and merge; it is what a later get of that field finds,
and it leaves every other field of the bank, and every other word, as it was.
-/

namespace QnxHypervisor.Foundation

/-- Fields of `width` bits, `perWord` of them in a word of `w` bits. -/
structure Packing (w : Nat) where
  base : Nat
  width : Nat
  perWord : Nat
  pos : 0 < perWord
  fits : perWord * width ≤ w

namespace Packing

variable {w : Nat}

def word (p : Packing w) (i : Nat) : Nat := p.base + i / p.perWord

def shift (p : Packing w) (i : Nat) : Nat := i % p.perWord * p.width

/-- A field of ones at bit 0. -/
def mask (p : Packing w) : BitVec w := BitVec.ofNat w (2 ^ p.width - 1)

def get (p : Packing w) (words : Nat → BitVec w) (i : Nat) : BitVec w :=
  (words (p.word i) >>> p.shift i) &&& p.mask

def put (p : Packing w) (words : Nat → BitVec w) (i : Nat) (v : BitVec w) : Nat → BitVec w :=
  Function.update words (p.word i)
    ((words (p.word i) &&& ~~~(p.mask <<< p.shift i)) ||| (v <<< p.shift i))

/-! ## Bits -/

theorem mask_bit (p : Packing w) (b : Nat) :
    p.mask.getLsbD b = (decide (b < w) && decide (b < p.width)) := by
  rw [mask, BitVec.getLsbD_ofNat, Nat.testBit_two_pow_sub_one]

theorem shift_bound (p : Packing w) (i : Nat) : p.shift i + p.width ≤ w := by
  have hslot := Nat.mod_lt i p.pos
  have hrow : (i % p.perWord + 1) * p.width ≤ p.perWord * p.width :=
    Nat.mul_le_mul_right _ hslot
  rw [Nat.add_mul, Nat.one_mul] at hrow
  exact Nat.le_trans hrow p.fits

theorem shift_apart (p : Packing w) {i j : Nat} (hword : p.word i = p.word j) (hne : i ≠ j) :
    p.shift i + p.width ≤ p.shift j ∨ p.shift j + p.width ≤ p.shift i := by
  have hdiv : i / p.perWord = j / p.perWord := Nat.add_left_cancel hword
  have hmod : i % p.perWord ≠ j % p.perWord := by
    intro hmod
    apply hne
    rw [← Nat.div_add_mod i p.perWord, ← Nat.div_add_mod j p.perWord, hdiv, hmod]
  have hstep : ∀ a b : Nat, a < b → a * p.width + p.width ≤ b * p.width := by
    intro a b hab
    have hrow := Nat.mul_le_mul_right p.width (show a + 1 ≤ b from hab)
    rwa [Nat.add_mul, Nat.one_mul] at hrow
  rcases Nat.lt_or_gt_of_ne hmod with hlt | hgt
  · exact .inl (hstep _ _ hlt)
  · exact .inr (hstep _ _ hgt)

theorem get_bit (p : Packing w) (words : Nat → BitVec w) (i b : Nat) :
    (p.get words i).getLsbD b =
      (decide (b < p.width) && (words (p.word i)).getLsbD (p.shift i + b)) := by
  have hbound := p.shift_bound i
  rw [get, BitVec.getLsbD_and, BitVec.getLsbD_ushiftRight, mask_bit]
  by_cases hb : b < p.width
  · have hw : b < w := by omega
    simp [hb, hw]
  · simp [hb]

theorem put_bit (p : Packing w) (words : Nat → BitVec w) (i : Nat) {v : BitVec w}
    (hv : ∀ b, p.width ≤ b → v.getLsbD b = false) (k : Nat) :
    (p.put words i v (p.word i)).getLsbD k =
      if p.shift i ≤ k ∧ k < p.shift i + p.width then v.getLsbD (k - p.shift i)
      else (words (p.word i)).getLsbD k := by
  have hbound := p.shift_bound i
  rw [put, Function.update_self]
  simp only [BitVec.getLsbD_or, BitVec.getLsbD_and, BitVec.getLsbD_not,
    BitVec.getLsbD_shiftLeft, mask_bit]
  by_cases hfield : p.shift i ≤ k ∧ k < p.shift i + p.width
  · have hk : k < w := by omega
    have hlow : ¬ k < p.shift i := by omega
    have hin : k - p.shift i < p.width := by omega
    have hin' : k - p.shift i < w := by omega
    simp [hfield, hk, hlow, hin, hin']
  · rw [if_neg hfield]
    by_cases hk : k < w
    · by_cases hlow : k < p.shift i
      · simp [hk, hlow]
      · have hout : p.width ≤ k - p.shift i := by omega
        have hout' : ¬ k - p.shift i < p.width := by omega
        simp [hk, hlow, hout', hv _ hout]
    · simp [hk, BitVec.getLsbD_of_ge _ _ (Nat.le_of_not_lt hk)]

/-! ## Laws -/

variable (p : Packing w) (words : Nat → BitVec w) {i j : Nat} {v : BitVec w}

theorem get_put (hv : ∀ b, p.width ≤ b → v.getLsbD b = false) :
    p.get (p.put words i v) i = v := by
  apply BitVec.eq_of_getLsbD_eq
  intro b hb
  rw [get_bit, put_bit p words i hv]
  by_cases hin : b < p.width
  · have hfield : p.shift i ≤ p.shift i + b ∧ p.shift i + b < p.shift i + p.width := by omega
    rw [if_pos hfield, Nat.add_sub_cancel_left, decide_eq_true hin, Bool.true_and]
  · rw [decide_eq_false hin, Bool.false_and, hv b (Nat.le_of_not_lt hin)]

theorem put_of_ne {r : Nat} (hr : r ≠ p.word i) : p.put words i v r = words r := by
  rw [put, Function.update_of_ne hr]

theorem get_put_of_ne (hv : ∀ b, p.width ≤ b → v.getLsbD b = false) (hne : j ≠ i) :
    p.get (p.put words i v) j = p.get words j := by
  by_cases hword : p.word j = p.word i
  · have hapart := p.shift_apart hword hne
    apply BitVec.eq_of_getLsbD_eq
    intro b hb
    rw [get_bit, get_bit, hword, put_bit p words i hv]
    by_cases hin : b < p.width
    · have hout : ¬ (p.shift i ≤ p.shift j + b ∧ p.shift j + b < p.shift i + p.width) := by omega
      rw [if_neg hout]
    · rw [decide_eq_false hin, Bool.false_and, Bool.false_and]
  · rw [get, put_of_ne p words hword, get]

end Packing

end QnxHypervisor.Foundation
