import Mathlib.Data.List.Infix

/-! # Buffers on the heap

What `malloc` hands out and what `realloc` adds comes with any content, here a function of
the position. A write past the end of a buffer has no result.
-/

namespace QnxHypervisor.Foundation

variable {α : Type}

def malloc (fresh : Nat → α) (size : Nat) : List α := (List.range size).map fresh

/-- The old content as far as there is room for it. -/
def realloc (fresh : Nat → α) (out : List α) (size : Nat) : List α :=
  out.take size ++ (List.range (size - out.length)).map fun i => fresh (out.length + i)

/-- Copy `src` to the places from `pos` on. -/
def writeAt (out : List α) (pos : Nat) (src : List α) : Option (List α) :=
  if pos + src.length ≤ out.length then
    some (out.take pos ++ src ++ out.drop (pos + src.length))
  else none

variable {fresh : Nat → α} {out text : List α} {size : Nat}

@[simp] theorem malloc_length : (malloc fresh size).length = size := by
  simp [malloc]

@[simp] theorem realloc_length : (realloc fresh out size).length = size := by
  simp only [realloc, List.length_append, List.length_take, List.length_map, List.length_range]
  omega

theorem prefix_realloc (h : text <+: out) (hsize : text.length ≤ size) :
    text <+: realloc fresh out size := by
  obtain ⟨rest, rfl⟩ := h
  rw [realloc, List.take_append, List.take_of_length_le hsize, List.append_assoc]
  exact List.prefix_append ..

theorem writeAt_prefix (src : List α) (h : text <+: out)
    (hroom : text.length + src.length ≤ out.length) :
    ∃ out', writeAt out text.length src = some out' ∧ out'.length = out.length ∧
      text ++ src <+: out' := by
  obtain ⟨rest, rfl⟩ := h
  refine ⟨_, if_pos hroom, ?_, ?_⟩
  · simp only [List.length_append, List.length_take, List.length_drop] at hroom ⊢
    omega
  · rw [List.take_left]
    exact List.prefix_append ..

end QnxHypervisor.Foundation
