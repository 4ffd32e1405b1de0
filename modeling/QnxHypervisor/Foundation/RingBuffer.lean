import Mathlib.Data.List.Basic
import Mathlib.Logic.Function.Basic

/-! # Ring buffers of one producer and one consumer

The producer moves `head`, the consumer moves `tail`, and one cell stays free, so
that equal indexes mean an empty ring. `Holds` relates a ring to everything that
was ever put into it and to how much of that was taken out; the indexes are
these two counts modulo the size.
-/

namespace QnxHypervisor.Foundation

structure RingBuffer (α : Type*) where
  cells : Nat → α
  head : Nat
  tail : Nat

namespace RingBuffer

variable {α : Type*} {size taken : Nat} {log : List α} {r : RingBuffer α}

def store (r : RingBuffer α) (x : α) : RingBuffer α :=
  { r with cells := Function.update r.cells r.head x }

@[simp] theorem store_cell (r : RingBuffer α) (x : α) : (r.store x).cells r.head = x := by
  simp [store]

/-- `log` went in, and its first `taken` members came out again. -/
structure Holds (size : Nat) (r : RingBuffer α) (log : List α) (taken : Nat) : Prop where
  head : r.head = log.length % size
  tail : r.tail = taken % size
  taken_le : taken ≤ log.length
  lt : log.length < taken + size
  cell : ∀ i (h : i < log.length), taken ≤ i → r.cells (i % size) = log[i]

theorem eq_of_mod_eq {a b : Nat} (hle : a ≤ b) (hlt : b < a + size)
    (h : b % size = a % size) : a = b := by
  have hz : (b - a) % size = 0 := Nat.sub_mod_eq_zero_of_mod_eq h
  have hs : (b - a) % size = b - a := Nat.mod_eq_of_lt (by omega)
  omega

namespace Holds

theorem new (cells : Nat → α) (hsize : 0 < size) : Holds size ⟨cells, 0, 0⟩ [] 0 where
  head := by simp
  tail := by simp
  taken_le := by simp
  lt := by simpa
  cell := by simp

theorem empty_iff (h : Holds size r log taken) : r.head = r.tail ↔ taken = log.length := by
  rw [h.head, h.tail]
  constructor
  · exact eq_of_mod_eq h.taken_le h.lt
  · intro heq
    rw [heq]

theorem full_iff (h : Holds size r log taken) :
    (r.head + 1) % size = r.tail ↔ log.length + 1 = taken + size := by
  rw [h.head, h.tail, Nat.mod_add_mod]
  have hlt := h.lt
  have hle := h.taken_le
  constructor
  · intro heq
    by_contra hne
    have hcounts : taken = log.length + 1 :=
      eq_of_mod_eq (by omega) (by omega) heq
    omega
  · intro heq
    rw [heq, Nat.add_mod_right]

/-- The producer writes a free cell. -/
theorem store (h : Holds size r log taken) (x : α) : Holds size (r.store x) log taken where
  head := h.head
  tail := h.tail
  taken_le := h.taken_le
  lt := h.lt
  cell := by
    intro i hi ht
    have hne : i % size ≠ r.head := by
      intro heq
      rw [h.head] at heq
      have hcounts : i = log.length :=
        eq_of_mod_eq (by omega) (by have := h.lt; omega) heq.symm
      omega
    simp only [RingBuffer.store, Function.update_of_ne hne]
    exact h.cell i hi ht

theorem publish {x : α} (h : Holds size r log taken) (hroom : log.length + 1 < taken + size)
    (hcell : r.cells r.head = x) :
    Holds size { r with head := (r.head + 1) % size } (log ++ [x]) taken where
  head := by
    rw [h.head, Nat.mod_add_mod]
    simp
  tail := h.tail
  taken_le := by
    have := h.taken_le
    simp only [List.length_append, List.length_singleton]
    omega
  lt := by simpa using hroom
  cell := by
    intro i hi ht
    simp only [List.length_append, List.length_singleton] at hi
    by_cases hold : i < log.length
    · rw [List.getElem_append_left hold]
      exact h.cell i hold ht
    · have heq : i = log.length := by omega
      subst heq
      rw [← h.head, List.getElem_concat_length rfl]
      exact hcell

theorem read (h : Holds size r log taken) (hlt : taken < log.length) :
    r.cells r.tail = log[taken] := by
  rw [h.tail]
  exact h.cell taken hlt (Nat.le_refl _)

/-- The consumer gives the cell back. -/
theorem release (h : Holds size r log taken) (hlt : taken < log.length) :
    Holds size { r with tail := (r.tail + 1) % size } log (taken + 1) where
  head := h.head
  tail := by
    rw [h.tail, Nat.mod_add_mod]
  taken_le := hlt
  lt := by
    have := h.lt
    omega
  cell := fun i hi ht => h.cell i hi (by omega)

end Holds

end RingBuffer

/-! ## Copies in parts -/

/-- A value copied part by part, `part src dst` being one of the stores. -/
structure CopyPlan (α : Type*) where
  parts : List (α → α → α)
  whole : ∀ src dst, parts.foldl (fun dst part => part src dst) dst = src

/-- The stores that are left. -/
def copyRest {α : Type*} (src : α) (parts : List (α → α → α)) (dst : α) : α :=
  parts.foldl (fun dst part => part src dst) dst

theorem CopyPlan.copyRest {α : Type*} (plan : CopyPlan α) (src dst : α) :
    Foundation.copyRest src plan.parts dst = src := plan.whole src dst

end QnxHypervisor.Foundation
