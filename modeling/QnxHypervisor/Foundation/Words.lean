import QnxHypervisor.Foundation.Text

/-! # Words of a text

The parts of a text between white space.
-/

namespace QnxHypervisor.Foundation

def firstWord (t : Bytes) : Bytes := (t.dropWhile isSpace).takeWhile fun b => !isSpace b

def behindWord (t : Bytes) : Bytes := (t.dropWhile isSpace).dropWhile fun b => !isSpace b

theorem firstWord_append_behindWord (t : Bytes) :
    firstWord t ++ behindWord t = t.dropWhile isSpace :=
  List.takeWhile_append_dropWhile ..

theorem behindWord_length (t : Bytes) (h : firstWord t ≠ []) :
    (behindWord t).length < t.length := by
  have hpos : 0 < (firstWord t).length := List.length_pos_iff.mpr h
  have htotal := congrArg List.length (firstWord_append_behindWord t)
  have hle : (t.dropWhile isSpace).length ≤ t.length := (List.dropWhile_sublist _).length_le
  rw [List.length_append] at htotal
  omega

def words (t : Bytes) : List Bytes :=
  if firstWord t = [] then [] else firstWord t :: words (behindWord t)
termination_by t.length
decreasing_by exact behindWord_length t ‹_›

variable {t a : Bytes} {b : UInt8}

theorem words_nil (h : firstWord t = []) : words t = [] := by
  rw [words, if_pos h]

theorem words_cons (h : firstWord t ≠ []) : words t = firstWord t :: words (behindWord t) := by
  rw [words, if_neg h]

theorem isSpace_of_words (h : words t = []) (hb : b ∈ t) : isSpace b = true := by
  have hnone : firstWord t = [] := by
    by_contra hne
    rw [words_cons hne] at h
    cases h
  have hall : t.dropWhile isSpace = [] := by
    cases hrest : t.dropWhile isSpace with
    | nil => rfl
    | cons c rest =>
        have hc : isSpace c = false := dropWhile_stops hrest
        rw [firstWord, hrest, List.takeWhile_cons_of_pos (by rw [hc]; rfl)] at hnone
        cases hnone
  exact List.dropWhile_eq_nil_iff.mp hall b hb

theorem behindWord_head : ∀ c ∈ (behindWord t).head?, isSpace c = true := by
  intro c hc
  simpa using dropWhile_head _ _ c hc

end QnxHypervisor.Foundation
