import QnxHypervisor.Foundation.Text

/-! # UTF-8

Well-formed byte sequences as a machine reads them, one byte at a time: the
state says which bytes the character in progress still needs.
-/

namespace QnxHypervisor.Foundation

/-- Between two characters, or the number of bytes still owed; after some lead
bytes the next one has a narrower range. -/
inductive Utf8State where
  | start
  | one
  | two
  | three
  | afterE0
  | afterED
  | afterF0
  | afterF4
  deriving DecidableEq

def utf8Lead (c : UInt8) : Option Utf8State :=
  if c < 0x80 then some .start
  else if c < 0xC2 then none
  else if c < 0xE0 then some .one
  else if c = 0xE0 then some .afterE0
  else if c = 0xED then some .afterED
  else if c < 0xF0 then some .two
  else if c = 0xF0 then some .afterF0
  else if c < 0xF4 then some .three
  else if c = 0xF4 then some .afterF4
  else none

/-- The range of the next byte and the state after it. -/
def utf8Tail : Utf8State → UInt8 × UInt8 × Utf8State
  | .start => (0x80, 0x80, .start)
  | .one => (0x80, 0xBF, .start)
  | .two => (0x80, 0xBF, .one)
  | .three => (0x80, 0xBF, .two)
  | .afterE0 => (0xA0, 0xBF, .one)
  | .afterED => (0x80, 0x9F, .one)
  | .afterF0 => (0x90, 0xBF, .two)
  | .afterF4 => (0x80, 0x8F, .two)

def utf8Step (s : Utf8State) (c : UInt8) : Option Utf8State :=
  if s = .start then utf8Lead c
  else if (utf8Tail s).1 ≤ c ∧ c ≤ (utf8Tail s).2.1 then some (utf8Tail s).2.2
  else none

def utf8Run : Utf8State → Bytes → Option Utf8State
  | s, [] => some s
  | s, c :: rest => (utf8Step s c).bind fun s' => utf8Run s' rest

/-- The bytes are whole characters. -/
def IsUtf8 (t : Bytes) : Prop := utf8Run .start t = some .start

instance (t : Bytes) : Decidable (IsUtf8 t) := inferInstanceAs (Decidable (_ = _))

def Ascii (t : Bytes) : Prop := ∀ c ∈ t, c < 0x80

instance (t : Bytes) : Decidable (Ascii t) := List.decidableBAll _ t

variable {s : Utf8State} {c : UInt8} {t a b : Bytes}

theorem utf8Run_append (s : Utf8State) (a b : Bytes) :
    utf8Run s (a ++ b) = (utf8Run s a).bind fun s' => utf8Run s' b := by
  induction a generalizing s with
  | nil => rfl
  | cons c rest ih =>
      simp only [List.cons_append, utf8Run]
      cases utf8Step s c with
      | none => rfl
      | some s' => exact ih s'

theorem utf8Step_ascii (hc : c < 0x80) :
    utf8Step s c = if s = .start then some .start else none := by
  unfold utf8Step
  split
  · simp [utf8Lead, hc]
  · have hlow : ∀ lo : UInt8, 0x80 ≤ lo → ¬ lo ≤ c := fun lo hlo hle =>
      absurd (UInt8.lt_of_lt_of_le hc (UInt8.le_trans hlo hle)) (UInt8.lt_irrefl c)
    have hrange : 0x80 ≤ (utf8Tail s).1 := by
      cases s <;> decide
    simp [hlow _ hrange]

theorem utf8Run_ascii (ht : Ascii t) (hne : t ≠ []) :
    utf8Run s t = if s = .start then some .start else none := by
  induction t generalizing s with
  | nil => exact absurd rfl hne
  | cons c rest ih =>
      have hrest : Ascii rest := fun d hd => ht d (List.mem_cons_of_mem c hd)
      simp only [utf8Run, utf8Step_ascii (ht c List.mem_cons_self)]
      split
      · next hs =>
        cases rest with
        | nil => rfl
        | cons d more => exact ih hrest (List.cons_ne_nil d more)
      · rfl

theorem Ascii.isUtf8 (ht : Ascii t) : IsUtf8 t := by
  cases t with
  | nil => rfl
  | cons c rest => exact utf8Run_ascii ht (List.cons_ne_nil c rest)

theorem IsUtf8.append_iff (ha : IsUtf8 a) : IsUtf8 (a ++ b) ↔ IsUtf8 b := by
  unfold IsUtf8 at ha ⊢
  rw [utf8Run_append, ha]
  rfl

theorem IsUtf8.append (ha : IsUtf8 a) (hb : IsUtf8 b) : IsUtf8 (a ++ b) := ha.append_iff.mpr hb

/-- Where an ASCII byte follows, a character ends. -/
theorem isUtf8_append_cons (hc : c < 0x80) :
    IsUtf8 (a ++ c :: b) ↔ IsUtf8 a ∧ IsUtf8 b := by
  unfold IsUtf8
  rw [utf8Run_append]
  cases utf8Run .start a with
  | none => simp
  | some s =>
      simp only [Option.bind_some, utf8Run, utf8Step_ascii hc, Option.some.injEq]
      split
      · next hs => simp [hs]
      · next hs => simp [hs]

theorem isUtf8_append_ascii (hb : Ascii b) (hne : b ≠ []) : IsUtf8 (a ++ b) ↔ IsUtf8 a := by
  cases b with
  | nil => exact absurd rfl hne
  | cons c rest =>
      have hrest : IsUtf8 rest := Ascii.isUtf8 fun d hd => hb d (List.mem_cons_of_mem c hd)
      rw [isUtf8_append_cons (hb c List.mem_cons_self)]
      simp [hrest]

end QnxHypervisor.Foundation
