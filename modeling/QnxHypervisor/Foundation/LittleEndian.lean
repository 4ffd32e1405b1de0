import Mathlib.Algebra.Group.Nat.Defs
import Mathlib.Data.List.Basic
import Mathlib.Tactic.TypeStar

/-! # Little-endian fields in byte strings

`leBytes k n` lays out the low `k` bytes of `n`, least significant first.
`fieldAt b off k` reads the `k`-byte field at byte offset `off`, as a load
through a packed structure does. The simp lemmas walk a layout that is a
right-nested concatenation of fields.
-/

namespace QnxHypervisor.Foundation

abbrev Bytes := List UInt8

def leBytes : Nat → Nat → Bytes
  | 0, _ => []
  | k + 1, n => UInt8.ofNat n :: leBytes k (n / 256)

def leNat : Bytes → Nat
  | [] => 0
  | b :: bs => b.toNat + 256 * leNat bs

@[simp] theorem leBytes_length (k n : Nat) : (leBytes k n).length = k := by
  induction k generalizing n with
  | zero => rfl
  | succ k ih => simp [leBytes, ih]

theorem leNat_leBytes (k n : Nat) : leNat (leBytes k n) = n % 256 ^ k := by
  induction k generalizing n with
  | zero => simp [leBytes, leNat, Nat.mod_one]
  | succ k ih =>
      have hsplit : n % 256 ^ (k + 1) = n % 256 + 256 * (n / 256 % 256 ^ k) := by
        rw [Nat.pow_succ', Nat.mod_mul]
      simp [leBytes, leNat, ih, hsplit]

/-- The `k`-byte field at byte offset `off`. -/
def fieldAt (b : Bytes) (off k : Nat) : Nat := leNat ((b.drop off).take k)

@[simp] theorem fieldAt_here (k n : Nat) (rest : Bytes) :
    fieldAt (leBytes k n ++ rest) 0 k = n % 256 ^ k := by
  simp [fieldAt, leNat_leBytes]

theorem fieldAt_append_right (pre rest : Bytes) (off k : Nat) (h : pre.length ≤ off) :
    fieldAt (pre ++ rest) off k = fieldAt rest (off - pre.length) k := by
  simp [fieldAt, List.drop_append, List.drop_eq_nil_of_le h]

theorem fieldAt_drop (b : Bytes) (skip off k : Nat) :
    fieldAt (b.drop skip) off k = fieldAt b (skip + off) k := by
  simp [fieldAt, List.drop_drop]

/-- Dropping whole records from a sequence of equally long encodings. -/
theorem drop_flatMap {α : Type*} (f : α → Bytes) (w : Nat) (hw : ∀ a, (f a).length = w)
    (l : List α) (i : Nat) : (l.flatMap f).drop (w * i) = (l.drop i).flatMap f := by
  induction i generalizing l with
  | zero => simp
  | succ i ih =>
      cases l with
      | nil => simp
      | cons a l =>
          have hsplit : w * (i + 1) = (f a).length + w * i := by
            rw [hw a, Nat.mul_succ, Nat.add_comm]
          simp only [List.flatMap_cons, List.drop_succ_cons]
          rw [hsplit, ← List.drop_drop, List.drop_left, ih]

theorem length_flatMap {α : Type*} (f : α → Bytes) (w : Nat) (hw : ∀ a, (f a).length = w)
    (l : List α) : (l.flatMap f).length = w * l.length := by
  induction l with
  | nil => simp
  | cons a l ih => simp [hw a, ih, Nat.mul_succ, Nat.add_comm]

/-- A byte buffer of fixed size, as a C array is. -/
abbrev Buffer (n : Nat) := { b : Bytes // b.length = n }

/-- Copy `b` to the start of a zeroed buffer of `n` bytes. -/
def Buffer.fill (n : Nat) (b : Bytes) : Buffer n :=
  ⟨(b ++ List.replicate n 0).take n, by simp⟩

theorem Buffer.fill_val {n : Nat} {b : Bytes} (h : b.length ≤ n) :
    (Buffer.fill n b).val = b ++ List.replicate (n - b.length) 0 := by
  simp only [Buffer.fill, List.take_append, List.take_of_length_le h, List.take_replicate]
  congr 2
  omega

/-- The all-zero buffer. -/
def Buffer.zero (n : Nat) : Buffer n := ⟨List.replicate n 0, by simp⟩

end QnxHypervisor.Foundation
