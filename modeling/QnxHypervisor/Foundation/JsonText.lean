import QnxHypervisor.Foundation.Utf8

/-! # JSON texts

A decoder for JSON as bytes. Strings are read by a machine that goes from byte
to byte, so that what it makes of the first part of a string can be stated
apart from the rest; values are read by recursive descent with fuel. Objects
keep all their members.
-/

namespace QnxHypervisor.Foundation

/-! ## Strings -/

def quote : UInt8 := 34

def backslash : UInt8 := 92

def hexValue (c : UInt8) : Option Nat :=
  if 48 ≤ c ∧ c ≤ 57 then some (c.toNat - 48)
  else if 97 ≤ c ∧ c ≤ 102 then some (c.toNat - 87)
  else if 65 ≤ c ∧ c ≤ 70 then some (c.toNat - 55)
  else none

/-- The character after a backslash, `u` apart. -/
def simpleEscape (c : UInt8) : Option UInt8 :=
  if c = 34 ∨ c = 92 ∨ c = 47 then some c
  else if c = 98 then some 8
  else if c = 102 then some 12
  else if c = 110 then some 10
  else if c = 114 then some 13
  else if c = 116 then some 9
  else none

/-- Where a string is between two bytes. A hexadecimal number has `more` digits
to come after the next one. -/
inductive StringState where
  | text
  | escape
  | hex (more value : Nat)
  /-- after a high surrogate: a low one has to follow -/
  | lowEscape (high : Nat)
  | lowU (high : Nat)
  | lowHex (high more value : Nat)
  deriving DecidableEq

def scalarBytes (n : Nat) : Bytes := String.utf8EncodeChar (Char.ofNat n)

def unitRead (n : Nat) : Option (StringState × Bytes) :=
  if 0xD800 ≤ n ∧ n < 0xDC00 then some (.lowEscape n, [])
  else if 0xDC00 ≤ n ∧ n < 0xE000 then none
  else some (.text, scalarBytes n)

def lowRead (high n : Nat) : Option (StringState × Bytes) :=
  if 0xDC00 ≤ n ∧ n < 0xE000 then
    some (.text, scalarBytes (0x10000 + 0x400 * (high - 0xD800) + (n - 0xDC00)))
  else none

def stringStep : StringState → UInt8 → Option (StringState × Bytes)
  | .text, c =>
      if c = backslash then some (.escape, [])
      else if c < 32 ∨ c = quote then none
      else some (.text, [c])
  | .escape, c =>
      if c = 117 then some (.hex 3 0, []) else (simpleEscape c).map fun d => (.text, [d])
  | .hex more value, c =>
      (hexValue c).bind fun d =>
        if more = 0 then unitRead (16 * value + d) else some (.hex (more - 1) (16 * value + d), [])
  | .lowEscape high, c => if c = backslash then some (.lowU high, []) else none
  | .lowU high, c => if c = 117 then some (.lowHex high 3 0, []) else none
  | .lowHex high more value, c =>
      (hexValue c).bind fun d =>
        if more = 0 then lowRead high (16 * value + d)
        else some (.lowHex high (more - 1) (16 * value + d), [])

def stringRun : StringState → Bytes → Option (StringState × Bytes)
  | st, [] => some (st, [])
  | st, c :: rest =>
      (stringStep st c).bind fun p => (stringRun p.1 rest).map fun q => (q.1, p.2 ++ q.2)

def parseStringFrom : StringState → Bytes → Option (Bytes × Bytes)
  | _, [] => none
  | st, c :: rest =>
      if st = .text ∧ c = quote then some ([], rest)
      else
        (stringStep st c).bind fun p =>
          (parseStringFrom p.1 rest).map fun q => (p.2 ++ q.1, q.2)

/-- After the opening quote. -/
def parseString (t : Bytes) : Option (Bytes × Bytes) := parseStringFrom .text t

/-! ## Values -/

inductive JsonValue where
  | null
  | bool (b : Bool)
  | number (literal : Bytes)
  | string (s : Bytes)
  | array (items : List JsonValue)
  | object (members : List (Bytes × JsonValue))

def isWhite (c : UInt8) : Bool := c == 32 || c == 9 || c == 10 || c == 13

def skipWhite (t : Bytes) : Bytes := t.dropWhile isWhite

/-- `t` without the word it begins with. -/
def stripWord (word t : Bytes) : Option Bytes :=
  if word.isPrefixOf t then some (t.drop word.length) else none

def parseDigits (t : Bytes) : Option (Bytes × Bytes) :=
  if t.takeWhile isDigit = [] then none else some (t.takeWhile isDigit, t.dropWhile isDigit)

def parseFraction (t : Bytes) : Option (Bytes × Bytes) :=
  match t with
  | 46 :: rest => (parseDigits rest).map fun p => (46 :: p.1, p.2)
  | t => some ([], t)

def parseSign (t : Bytes) : Bytes × Bytes :=
  match t with
  | 43 :: rest => ([43], rest)
  | 45 :: rest => ([45], rest)
  | t => ([], t)

def parseExponent (t : Bytes) : Option (Bytes × Bytes) :=
  match t with
  | c :: rest =>
      if c = 69 ∨ c = 101 then
        (parseDigits (parseSign rest).2).map fun p => (c :: ((parseSign rest).1 ++ p.1), p.2)
      else some ([], t)
  | [] => some ([], [])

/-- Digits without a needless zero in front. -/
def parseWhole (t : Bytes) : Option (Bytes × Bytes) :=
  (parseDigits t).bind fun p => if p.1.head? = some 48 ∧ p.1 ≠ [48] then none else some p

def parseUnsigned (t : Bytes) : Option (Bytes × Bytes) :=
  (parseWhole t).bind fun whole =>
    (parseFraction whole.2).bind fun fraction =>
      (parseExponent fraction.2).map fun exponent =>
        (whole.1 ++ (fraction.1 ++ exponent.1), exponent.2)

def parseNumber (t : Bytes) : Option (Bytes × Bytes) :=
  match t with
  | 45 :: rest => (parseUnsigned rest).map fun p => (45 :: p.1, p.2)
  | t => parseUnsigned t

def parseScalar (t : Bytes) : Option (JsonValue × Bytes) :=
  match stripWord (utf8 "true") t, stripWord (utf8 "false") t, stripWord (utf8 "null") t with
  | some rest, _, _ => some (.bool true, rest)
  | none, some rest, _ => some (.bool false, rest)
  | none, none, some rest => some (.null, rest)
  | none, none, none => (parseNumber t).map fun p => (.number p.1, p.2)

/-- The opening byte of a value, after white space. -/
inductive Opening where
  | string (rest : Bytes)
  | array (rest : Bytes)
  | object (rest : Bytes)
  | scalar (t : Bytes)

def opening (t : Bytes) : Opening :=
  match skipWhite t with
  | [] => .scalar []
  | c :: rest =>
      if c = quote then .string rest
      else if c = 91 then .array rest
      else if c = 123 then .object rest
      else .scalar (c :: rest)

/-- The byte after white space, if it is this one. -/
def expect (c : UInt8) (t : Bytes) : Option Bytes :=
  match skipWhite t with
  | [] => none
  | d :: rest => if d = c then some rest else none

/-- A member's name with its colon. -/
def parseName (t : Bytes) : Option (Bytes × Bytes) :=
  (expect quote t).bind fun t =>
    (parseString t).bind fun p => (expect 58 p.2).map fun rest => (p.1, rest)

/-- What follows an item: another one after a comma, or the closing byte. -/
inductive Following where
  | more (rest : Bytes)
  | done (rest : Bytes)

def following (close : UInt8) (t : Bytes) : Option Following :=
  match expect 44 t, expect close t with
  | some rest, _ => some (.more rest)
  | none, some rest => some (.done rest)
  | none, none => none

mutual

def parseValue : Nat → Bytes → Option (JsonValue × Bytes)
  | 0, _ => none
  | fuel + 1, t =>
      match opening t with
      | .string rest => (parseString rest).map fun p => (.string p.1, p.2)
      | .array rest =>
          match expect 93 rest with
          | some rest => some (.array [], rest)
          | none => (parseItems fuel rest).map fun p => (.array p.1, p.2)
      | .object rest =>
          match expect 125 rest with
          | some rest => some (.object [], rest)
          | none => (parseMembers fuel rest).map fun p => (.object p.1, p.2)
      | .scalar t => parseScalar t

def parseItems : Nat → Bytes → Option (List JsonValue × Bytes)
  | 0, _ => none
  | fuel + 1, t =>
      (parseValue fuel t).bind fun v =>
        (following 93 v.2).bind fun
          | .more rest => (parseItems fuel rest).map fun p => (v.1 :: p.1, p.2)
          | .done rest => some ([v.1], rest)

def parseMembers : Nat → Bytes → Option (List (Bytes × JsonValue) × Bytes)
  | 0, _ => none
  | fuel + 1, t =>
      (parseName t).bind fun name =>
        (parseValue fuel name.2).bind fun v =>
          (following 125 v.2).bind fun
            | .more rest => (parseMembers fuel rest).map fun p => ((name.1, v.1) :: p.1, p.2)
            | .done rest => some ([(name.1, v.1)], rest)

end

/-- The value of a text that is UTF-8 and one complete JSON value. Every byte
takes one unit of fuel at most, and one is left for the end. -/
def decodeJson (t : Bytes) : Option JsonValue :=
  if IsUtf8 t then
    (parseValue (t.length + 1) t).bind fun p => if skipWhite p.2 = [] then some p.1 else none
  else none

def JsonValue.member (name : Bytes) : JsonValue → Option JsonValue
  | .object members =>
      match members.filter fun m => m.1 = name with
      | [m] => some m.2
      | _ => none
  | _ => none

def JsonValue.stringMember (name : Bytes) (v : JsonValue) : Option Bytes :=
  match v.member name with
  | some (.string s) => some s
  | _ => none

/-- A complete JSON object. -/
def IsJsonObject (t : Bytes) : Prop := ∃ members, decodeJson t = some (.object members)

def jsonString (name t : Bytes) : Option Bytes := (decodeJson t).bind (JsonValue.stringMember name)

/-! ## Strings and what they are read as -/

/-- Bytes that a string holds as they are. -/
def PlainText (t : Bytes) : Prop := ∀ c ∈ t, c ≠ backslash ∧ c ≠ quote ∧ 32 ≤ c

instance (t : Bytes) : Decidable (PlainText t) := List.decidableBAll _ t

section Strings

variable {st st' : StringState} {c : UInt8} {raw rest t s r out : Bytes}

theorem stringStep_plain (h : c ≠ backslash ∧ c ≠ quote ∧ 32 ≤ c) :
    stringStep .text c = some (.text, [c]) := by
  simp [stringStep, h.1, h.2.1, UInt8.not_lt.mpr h.2.2]

theorem stringRun_plain (h : PlainText raw) : stringRun .text raw = some (.text, raw) := by
  induction raw with
  | nil => rfl
  | cons c rest ih =>
      have hrest : PlainText rest := fun d hd => h d (List.mem_cons_of_mem c hd)
      simp [stringRun, stringStep_plain (h c List.mem_cons_self), ih hrest]

theorem stringRun_append (st : StringState) (a b : Bytes) :
    stringRun st (a ++ b) =
      (stringRun st a).bind fun p => (stringRun p.1 b).map fun q => (q.1, p.2 ++ q.2) := by
  induction a generalizing st with
  | nil => simp [stringRun]
  | cons c rest ih =>
      simp only [List.cons_append, stringRun]
      cases stringStep st c with
      | none => rfl
      | some p =>
          simp only [Option.bind_some, ih]
          cases stringRun p.1 rest with
          | none => rfl
          | some q =>
              simp only [Option.bind_some, Option.map_some]
              cases stringRun q.1 b with
              | none => rfl
              | some q' => simp

theorem stringStep_open {p : StringState × Bytes} (h : stringStep st c = some p) :
    ¬ (st = .text ∧ c = quote) := by
  rintro ⟨rfl, rfl⟩
  simp [stringStep, quote, backslash] at h

theorem parseStringFrom_run (h : stringRun st raw = some (st', out)) (t : Bytes) :
    parseStringFrom st (raw ++ t) =
      (parseStringFrom st' t).map fun p => (out ++ p.1, p.2) := by
  induction raw generalizing st out with
  | nil =>
      obtain ⟨rfl, rfl⟩ : st = st' ∧ [] = out := by simpa [stringRun] using h
      simp
  | cons c rest ih =>
      simp only [stringRun] at h
      obtain ⟨p, hp, hq⟩ := Option.bind_eq_some_iff.mp h
      obtain ⟨q, hrun, heq⟩ := Option.map_eq_some_iff.mp hq
      obtain ⟨rfl, rfl⟩ : q.1 = st' ∧ p.2 ++ q.2 = out := by simpa using heq
      simp only [List.cons_append, parseStringFrom, if_neg (stringStep_open hp), hp,
        Option.bind_some, ih hrun]
      cases parseStringFrom q.1 t with
      | none => rfl
      | some r => simp

theorem stringRun_none (h : stringRun st raw = none) :
    ∃ u c v st₁ out₁, raw = u ++ c :: v ∧ stringRun st u = some (st₁, out₁) ∧
      stringStep st₁ c = none := by
  induction raw generalizing st with
  | nil => simp [stringRun] at h
  | cons c rest ih =>
      simp only [stringRun] at h
      cases hp : stringStep st c with
      | none => exact ⟨[], c, rest, st, [], rfl, rfl, hp⟩
      | some p =>
          simp only [hp, Option.bind_some, Option.map_eq_none_iff] at h
          obtain ⟨u, d, v, st₁, out₁, rfl, hrun, hstep⟩ := ih h
          exact ⟨c :: u, d, v, st₁, p.2 ++ out₁, rfl, by simp [stringRun, hp, hrun], hstep⟩

/-- What the bytes read since the last output may still add. -/
def StringState.credit : StringState → Nat
  | .text | .escape => 0
  | .hex more _ => 4 - more
  | .lowEscape _ => 5
  | .lowU _ => 6
  | .lowHex _ more _ => 10 - more

theorem scalarBytes_length (n : Nat) : (scalarBytes n).length ≤ 4 := by
  unfold scalarBytes
  rw [String.length_utf8EncodeChar]
  exact Char.utf8Size_le_four _

theorem unitRead_length {n : Nat} (h : unitRead n = some (st, out)) :
    out.length + st.credit ≤ 5 := by
  unfold unitRead at h
  split at h
  · obtain ⟨rfl, rfl⟩ : .lowEscape n = st ∧ [] = out := by simpa using h
    simp [StringState.credit]
  · split at h
    · cases h
    · cases h
      exact Nat.le_succ_of_le (scalarBytes_length n)

theorem lowRead_length {high n : Nat} (h : lowRead high n = some (st, out)) :
    out.length + st.credit ≤ 4 := by
  unfold lowRead at h
  split at h
  · simp only [Option.some.injEq, Prod.mk.injEq] at h
    obtain ⟨rfl, rfl⟩ := h
    have hzero : StringState.text.credit = 0 := rfl
    rw [hzero, Nat.add_zero]
    exact scalarBytes_length _
  · cases h

/-- A byte adds one byte at most, counted over a whole escape. -/
theorem stringStep_length (h : stringStep st c = some (st', out)) :
    out.length + st'.credit ≤ st.credit + 1 := by
  cases st with
  | text =>
      simp only [stringStep] at h
      split at h
      · cases h
        decide
      · split at h
        · cases h
        · cases h
          exact le_rfl
  | escape =>
      simp only [stringStep] at h
      split at h
      · cases h
        decide
      · obtain ⟨d, -, hd⟩ := Option.map_eq_some_iff.mp h
        cases hd
        exact le_rfl
  | hex more value =>
      obtain ⟨d, -, hd⟩ := Option.bind_eq_some_iff.mp h
      split at hd
      · next hlast =>
        have hbound := unitRead_length hd
        have hcredit : (StringState.hex more value).credit = 4 - more := rfl
        omega
      · cases hd
        simp only [StringState.credit, List.length_nil]
        omega
  | lowEscape high =>
      simp only [stringStep] at h
      split at h
      · cases h
        exact le_rfl
      · cases h
  | lowU high =>
      simp only [stringStep] at h
      split at h
      · cases h
        exact le_rfl
      · cases h
  | lowHex high more value =>
      obtain ⟨d, -, hd⟩ := Option.bind_eq_some_iff.mp h
      split at hd
      · next hlast =>
        have hbound := lowRead_length hd
        have hcredit : (StringState.lowHex high more value).credit = 10 - more := rfl
        omega
      · cases hd
        simp only [StringState.credit, List.length_nil]
        omega

theorem stringRun_length (h : stringRun st raw = some (st', out)) :
    out.length + st'.credit ≤ st.credit + raw.length := by
  induction raw generalizing st out with
  | nil =>
      obtain ⟨rfl, rfl⟩ : st = st' ∧ [] = out := by simpa [stringRun] using h
      simp
  | cons c rest ih =>
      simp only [stringRun] at h
      obtain ⟨p, hp, hq⟩ := Option.bind_eq_some_iff.mp h
      obtain ⟨q, hrun, heq⟩ := Option.map_eq_some_iff.mp hq
      obtain ⟨rfl, rfl⟩ : q.1 = st' ∧ p.2 ++ q.2 = out := by simpa using heq
      have hstep := stringStep_length hp
      have hrest := ih hrun
      simp only [List.length_append, List.length_cons]
      omega

/-- Only bytes that stand for themselves are read without loss of length. -/
theorem stringRun_full (h : stringRun .text raw = some (st', out)) (hlen : raw.length ≤ out.length) :
    out = raw ∧ PlainText raw := by
  induction raw generalizing out with
  | nil =>
      obtain ⟨-, rfl⟩ : .text = st' ∧ [] = out := by simpa [stringRun] using h
      exact ⟨rfl, by simp [PlainText]⟩
  | cons c rest ih =>
      simp only [stringRun] at h
      obtain ⟨p, hp, hq⟩ := Option.bind_eq_some_iff.mp h
      obtain ⟨q, hrun, heq⟩ := Option.map_eq_some_iff.mp hq
      obtain ⟨rfl, rfl⟩ : q.1 = st' ∧ p.2 ++ q.2 = out := by simpa using heq
      simp only [List.length_append, List.length_cons] at hlen
      simp only [stringStep] at hp
      split at hp
      · -- a backslash adds nothing by itself
        cases hp
        have hbound := stringRun_length hrun
        simp only [StringState.credit, List.length_nil] at hbound hlen
        omega
      · next hback =>
        split at hp
        · cases hp
        · next hplain =>
          cases hp
          simp only [not_or, UInt8.not_lt] at hplain
          obtain ⟨hout, hrest⟩ := ih hrun (by simp only [List.length_singleton] at hlen; omega)
          refine ⟨by simp [hout], fun d hd => ?_⟩
          rcases List.mem_cons.mp hd with rfl | hmem
          · exact ⟨hback, hplain.2, hplain.1⟩
          · exact hrest d hmem

theorem parseString_plain (h : PlainText raw) (rest : Bytes) :
    parseString (raw ++ quote :: rest) = some (raw, rest) := by
  unfold parseString
  rw [parseStringFrom_run (stringRun_plain h)]
  simp [parseStringFrom]

/-- Text put between quotes is read as itself, as something shorter, or the
quote after it does not end the string. -/
theorem parseString_quoted (h : parseString (raw ++ quote :: rest) = some (s, r)) :
    (s = raw ∧ r = rest ∧ PlainText raw) ∨ s.length < raw.length ∨
      ∃ s', parseString rest = some (s', r) := by
  unfold parseString at h
  cases hrun : stringRun .text raw with
  | none =>
      obtain ⟨u, c, v, st₁, out₁, rfl, hu, hstep⟩ := stringRun_none hrun
      rw [List.append_assoc, parseStringFrom_run hu] at h
      simp only [List.cons_append, parseStringFrom, hstep] at h
      split at h
      · have hbound := stringRun_length hu
        obtain ⟨rfl, -⟩ : out₁ = s ∧ v ++ quote :: rest = r := by simpa using h
        simp only [StringState.credit] at hbound
        simp only [List.length_append, List.length_cons]
        omega
      · simp at h
  | some p =>
      obtain ⟨st', out⟩ := p
      rw [parseStringFrom_run hrun] at h
      by_cases hend : st' = .text
      · subst hend
        obtain ⟨rfl, rfl⟩ : out = s ∧ rest = r := by simpa [parseStringFrom] using h
        by_cases hfull : raw.length ≤ out.length
        · obtain ⟨hout, hplain⟩ := stringRun_full hrun hfull
          exact .inl ⟨hout, rfl, hplain⟩
        · exact .inr (.inl (by omega))
      · right; right
        have hhex : hexValue quote = none := rfl
        have hsimple : simpleEscape quote = some quote := rfl
        have hu : ¬ quote = 117 := by decide
        have hback : ¬ quote = backslash := by decide
        cases st' with
        | text => exact absurd rfl hend
        | escape =>
            simp only [parseStringFrom, stringStep, hu, hsimple, reduceCtorEq, false_and,
              if_false, Option.map_some, Option.bind_some, Option.map_map] at h
            obtain ⟨p, hp, heq⟩ := Option.map_eq_some_iff.mp h
            obtain ⟨-, rfl⟩ : _ ∧ p.2 = r := by simpa using heq
            exact ⟨p.1, hp⟩
        | hex more value => simp [parseStringFrom, stringStep, hhex] at h
        | lowEscape high => simp [parseStringFrom, stringStep, hback] at h
        | lowU high => simp [parseStringFrom, stringStep, hu] at h
        | lowHex high more value => simp [parseStringFrom, stringStep, hhex] at h

end Strings

end QnxHypervisor.Foundation
