import QnxHypervisor.Foundation.JsonText

/-! # Texts of JSON values

`Denotes lit v`: the decoder reads `lit` as `v` wherever a value may stand. The
rules build the text of a value from the texts of its parts, as a program that
prints the value does.
-/

namespace QnxHypervisor.Foundation

variable {c d : UInt8} {k lit raw rest s t : Bytes} {v : JsonValue} {fuel : Nat}

/-! ## Tokens -/

theorem skipWhite_cons (hc : isWhite c = false) (t : Bytes) : skipWhite (c :: t) = c :: t := by
  simp [skipWhite, hc]

theorem expect_cons (hd : isWhite d = false) (t : Bytes) :
    expect c (d :: t) = if d = c then some t else none := by
  simp [expect, skipWhite_cons hd]

@[simp] theorem expect_quote (t : Bytes) : expect quote (quote :: t) = some t :=
  expect_cons (by decide) t

@[simp] theorem following_comma (close : UInt8) (t : Bytes) :
    following close (44 :: t) = some (.more t) := by
  simp [following, expect_cons (show isWhite 44 = false by decide)]

@[simp] theorem following_object (t : Bytes) : following 125 (125 :: t) = some (.done t) := by
  simp [following, expect_cons (show isWhite 125 = false by decide)]

@[simp] theorem following_array (t : Bytes) : following 93 (93 :: t) = some (.done t) := by
  simp [following, expect_cons (show isWhite 93 = false by decide)]

/-- Neither a comma nor the closing byte follows. -/
theorem following_none {close : UInt8} (hc : isWhite c = false) (hcomma : c ≠ 44)
    (hclose : c ≠ close) (t : Bytes) : following close (c :: t) = none := by
  simp [following, expect_cons hc, hcomma, hclose]

theorem parseName_plain (hk : PlainText k) (t : Bytes) :
    parseName (quote :: (k ++ quote :: 58 :: t)) = some (k, t) := by
  simp [parseName, parseString_plain hk, expect_cons (show isWhite 58 = false by decide)]

theorem parseValue_string (fuel : Nat) (t : Bytes) :
    parseValue (fuel + 1) (quote :: t) = (parseString t).map fun p => (.string p.1, p.2) := by
  have hopen : opening (quote :: t) = .string t := by
    simp [opening, skipWhite_cons (show isWhite quote = false by decide)]
  simp [parseValue, hopen]

theorem parseValue_object (fuel : Nat) (t : Bytes) :
    parseValue (fuel + 1) (123 :: quote :: t) =
      (parseMembers fuel (quote :: t)).map fun p => (.object p.1, p.2) := by
  have hopen : opening (123 :: quote :: t) = .object (quote :: t) := by
    simp [opening, skipWhite_cons (show isWhite 123 = false by decide), quote]
  have hfirst : expect 125 (quote :: t) = none := by
    rw [expect_cons (by decide), if_neg (by decide)]
  simp [parseValue, hopen, hfirst]

theorem parseMembers_inv {members : List (Bytes × JsonValue)}
    (h : parseMembers (fuel + 1) t = some (members, rest)) :
    ∃ name t₁ v t₂ more, parseName t = some (name, t₁) ∧ parseValue fuel t₁ = some (v, t₂) ∧
      following 125 t₂ ≠ none ∧ members = (name, v) :: more := by
  simp only [parseMembers] at h
  obtain ⟨⟨name, t₁⟩, hname, h⟩ := Option.bind_eq_some_iff.mp h
  obtain ⟨⟨v, t₂⟩, hvalue, h⟩ := Option.bind_eq_some_iff.mp h
  obtain ⟨f, hf, h⟩ := Option.bind_eq_some_iff.mp h
  have hfollow : following 125 t₂ ≠ none := by simp [hf]
  cases f with
  | more rest' =>
      obtain ⟨p, -, heq⟩ := Option.map_eq_some_iff.mp h
      obtain ⟨rfl, -⟩ : (name, v) :: p.1 = members ∧ p.2 = rest := by simpa using heq
      exact ⟨name, t₁, v, t₂, p.1, hname, hvalue, hfollow, rfl⟩
  | done rest' =>
      obtain ⟨rfl, -⟩ : [(name, v)] = members ∧ rest' = rest := by simpa using h
      exact ⟨name, t₁, v, t₂, [], hname, hvalue, hfollow, rfl⟩

theorem parseMembers_string (hk : PlainText k) (hs : PlainText s) (t : Bytes) :
    parseMembers (fuel + 2) (quote :: (k ++ quote :: 58 :: quote :: (s ++ quote :: 44 :: t))) =
      (parseMembers (fuel + 1) t).map fun p => ((k, .string s) :: p.1, p.2) := by
  rw [parseMembers, parseName_plain hk]
  simp [parseValue_string, parseString_plain hs]

/-- A member inserted as it is and read as itself stands for itself: with its closing
quote escaped, the string would end at the quote of the next name. -/
theorem parseMembers_inserted {members : List (Bytes × JsonValue)} {first : Bytes × JsonValue}
    (hk : PlainText k) (hwhite : isWhite c = false) (hcomma : c ≠ 44) (hclose : c ≠ 125)
    (h : parseMembers (fuel + 2)
      (quote :: (k ++ quote :: 58 :: quote :: (s ++ quote :: 44 :: quote :: c :: t))) =
        some (first :: members, rest)) (hfirst : first.2 = .string s) : PlainText s := by
  obtain ⟨name, t₁, v₁, t₂, more, hname, hvalue, hfollow, hmembers⟩ := parseMembers_inv h
  rw [parseName_plain hk] at hname
  obtain ⟨rfl, rfl⟩ := Prod.mk.inj (Option.some.inj hname)
  rw [parseValue_string] at hvalue
  obtain ⟨⟨s', t₂'⟩, hs, hsv⟩ := Option.map_eq_some_iff.mp hvalue
  obtain ⟨rfl, rfl⟩ := Prod.mk.inj hsv
  rw [(List.cons.inj hmembers).1] at hfirst
  obtain rfl : s' = s := JsonValue.string.inj hfirst
  rcases parseString_quoted hs with ⟨-, -, hplain⟩ | hshort | ⟨s'', hs''⟩
  · exact hplain
  · exact absurd hshort (Nat.lt_irrefl _)
  · have hplain : PlainText [44] := by decide
    have hnext : parseString (44 :: quote :: c :: t) = some ([44], c :: t) := parseString_plain hplain _
    rw [hnext] at hs''
    obtain ⟨-, rfl⟩ := Prod.mk.inj (Option.some.inj hs'')
    exact absurd (following_none hwhite hcomma hclose _) hfollow

/-- The whole text has been read. -/
theorem decodeJson_inv (h : decodeJson t = some v) :
    IsUtf8 t ∧ ∃ rest, parseValue (t.length + 1) t = some (v, rest) := by
  unfold decodeJson at h
  split at h
  · next hu =>
    obtain ⟨p, hp, hend⟩ := Option.bind_eq_some_iff.mp h
    split at hend
    · obtain rfl := Option.some.inj hend
      exact ⟨hu, p.2, hp⟩
    · cases hend
  · cases h

theorem stringMember_first {members : List (Bytes × JsonValue)}
    (h : JsonValue.stringMember k (.object ((k, v) :: members)) = some s) : v = .string s := by
  unfold JsonValue.stringMember JsonValue.member at h
  simp only [decide_true, List.filter_cons_of_pos] at h
  cases hmore : members.filter fun m => m.1 = k with
  | nil =>
      rw [hmore] at h
      cases v <;> simp_all
  | cons m more =>
      rw [hmore] at h
      simp at h

theorem stringMember_cons {members : List (Bytes × JsonValue)} {k' : Bytes} (hne : k' ≠ k) :
    JsonValue.stringMember k (.object ((k', v) :: members)) =
      JsonValue.stringMember k (.object members) := by
  simp [JsonValue.stringMember, JsonValue.member, hne]

/-! ## Values -/

def EndsValue (rest : Bytes) : Prop := ∀ c ∈ rest.head?, c = 44 ∨ c = 125 ∨ c = 93

theorem endsValue_cons (hc : c = 44 ∨ c = 125 ∨ c = 93) : EndsValue (c :: rest) := by
  intro d hd
  obtain rfl : c = d := by simpa using hd
  exact hc

/-- The decoder reads `lit` as `v`. -/
def Denotes (lit : Bytes) (v : JsonValue) : Prop :=
  ∀ fuel rest, lit.length ≤ fuel → EndsValue rest → parseValue fuel (lit ++ rest) = some (v, rest)

theorem Denotes.of_eq {text : Bytes} (h : Denotes t v) (heq : text = t) : Denotes text v := heq ▸ h

theorem Denotes.decode (h : Denotes t v) (hu : IsUtf8 t) : decodeJson t = some v := by
  have hparse := h (t.length + 1) [] (by omega) (by simp [EndsValue])
  rw [List.append_nil] at hparse
  simp [decodeJson, hu, hparse, skipWhite]

/-- The value of one complete JSON text, the bytes from 0x80 on taken as they are. -/
def readJson (t : Bytes) : Option JsonValue :=
  (parseValue (t.length + 1) t).bind fun p => if skipWhite p.2 = [] then some p.1 else none

theorem Denotes.read (h : Denotes t v) : readJson t = some v := by
  have hparse := h (t.length + 1) [] (by omega) (by simp [EndsValue])
  rw [List.append_nil] at hparse
  simp [readJson, hparse, skipWhite]

theorem denotes_string (h : stringRun .text raw = some (.text, s)) :
    Denotes (quote :: (raw ++ [quote])) (.string s) := by
  intro fuel rest hfuel _
  obtain ⟨fuel, rfl⟩ : ∃ n, fuel = n + 1 := ⟨fuel - 1, by simp at hfuel; omega⟩
  have hclosed : parseString (raw ++ quote :: rest) = some (s, rest) := by
    unfold parseString
    rw [parseStringFrom_run h]
    simp [parseStringFrom]
  simp only [List.cons_append, List.append_assoc, List.nil_append]
  rw [parseValue_string, hclosed]
  rfl

theorem denotes_plain (h : PlainText s) : Denotes (quote :: (s ++ [quote])) (.string s) :=
  denotes_string (stringRun_plain h)

theorem denotes_scalar (hhead : ∀ c ∈ lit.head?, isWhite c = false ∧ c ≠ quote ∧ c ≠ 91 ∧ c ≠ 123)
    (hne : lit ≠ []) (hscalar : ∀ rest, EndsValue rest → parseScalar (lit ++ rest) = some (v, rest)) :
    Denotes lit v := by
  intro fuel rest hfuel hend
  cases lit with
  | nil => exact absurd rfl hne
  | cons c lit =>
      obtain ⟨fuel, rfl⟩ : ∃ n, fuel = n + 1 := ⟨fuel - 1, by simp at hfuel; omega⟩
      obtain ⟨hwhite, hq, ha, ho⟩ := hhead c rfl
      have hopen : opening (c :: lit ++ rest) = .scalar (c :: lit ++ rest) := by
        simp [opening, skipWhite_cons hwhite, hq, ha, ho]
      simp only [parseValue, hopen]
      exact hscalar rest hend

theorem stripWord_append (word t : Bytes) : stripWord word (word ++ t) = some t := by
  simp [stripWord]

theorem denotes_true : Denotes (utf8 "true") (.bool true) := by
  refine denotes_scalar (by rintro c ⟨⟩; decide) (by decide) fun rest _ => ?_
  simp [parseScalar, stripWord_append]

theorem denotes_false : Denotes (utf8 "false") (.bool false) := by
  refine denotes_scalar (by rintro c ⟨⟩; decide) (by decide) fun rest _ => ?_
  have htrue : stripWord (utf8 "true") (utf8 "false" ++ rest) = none := by rfl
  simp [parseScalar, htrue, stripWord_append]

/-! ## Numbers -/

theorem parseDigits_append {digits : Bytes} (hd : ∀ b ∈ digits, isDigit b = true) (hne : digits ≠ [])
    (hend : EndsValue rest) : parseDigits (digits ++ rest) = some (digits, rest) := by
  have hstop : rest.takeWhile isDigit = [] ∧ rest.dropWhile isDigit = rest := by
    cases rest with
    | nil => exact ⟨rfl, rfl⟩
    | cons c rest =>
        have hc : isDigit c = false := by
          rcases hend c rfl with rfl | rfl | rfl <;> decide
        simp [hc]
  have htake : (digits ++ rest).takeWhile isDigit = digits := by
    rw [List.takeWhile_append_of_pos hd, hstop.1, List.append_nil]
  have hdrop : (digits ++ rest).dropWhile isDigit = rest := by
    rw [List.dropWhile_append_of_pos hd, hstop.2]
  simp [parseDigits, htake, hdrop, hne]

theorem decimal_no_zero (n : Nat) (hne : decimal n ≠ [48]) : (decimal n).head? ≠ some 48 := by
  unfold decimal at hne ⊢
  split at hne
  · exact absurd rfl hne
  · next hn =>
    rw [if_neg hn, List.head?_map, List.head?_reverse]
    have hlast := Nat.getLast_digit_ne_zero 10 hn
    rw [List.getLast?_eq_some_getLast (Nat.digits_ne_nil_iff_ne_zero.mpr hn)]
    simp only [Option.map_some, ne_eq, Option.some.injEq]
    intro hzero
    have hlt := Nat.digits_lt_base (by decide : 1 < 10)
      (List.getLast_mem (Nat.digits_ne_nil_iff_ne_zero.mpr hn))
    have hspec := decimalDigit_spec _ hlt
    rw [hzero] at hspec
    exact hlast hspec.2.symm

theorem parseUnsigned_decimal (n : Nat) (hend : EndsValue rest) :
    parseUnsigned (decimal n ++ rest) = some (decimal n, rest) := by
  have hwhole : parseWhole (decimal n ++ rest) = some (decimal n, rest) := by
    rw [parseWhole, parseDigits_append (decimal_isDigit n) (decimal_ne_nil n) hend,
      Option.bind_some, if_neg]
    rintro ⟨hhead, hne⟩
    exact decimal_no_zero n hne hhead
  have hfraction : parseFraction rest = some ([], rest) := by
    cases rest with
    | nil => rfl
    | cons c rest =>
        rcases hend c rfl with rfl | rfl | rfl <;> rfl
  have hexponent : parseExponent rest = some ([], rest) := by
    cases rest with
    | nil => rfl
    | cons c rest =>
        rcases hend c rfl with rfl | rfl | rfl <;> rfl
  simp [parseUnsigned, hwhole, hfraction, hexponent]

theorem stripWord_none {word : Bytes} (h : word.head? ≠ (lit ++ rest).head?) (hword : word ≠ []) :
    stripWord word (lit ++ rest) = none := by
  cases word with
  | nil => exact absurd rfl hword
  | cons w word =>
      unfold stripWord
      rw [if_neg]
      intro hp
      obtain ⟨more, hmore⟩ := List.isPrefixOf_iff_prefix.mp hp
      rw [← hmore] at h
      exact h rfl

theorem parseScalar_number (hhead : ∀ c ∈ (lit ++ rest).head?, isDigit c = true ∨ c = 45)
    (hnumber : parseNumber (lit ++ rest) = some (lit, rest)) :
    parseScalar (lit ++ rest) = some (.number lit, rest) := by
  have hword : ∀ (c : UInt8) (word : Bytes), isDigit c = false → c ≠ 45 →
      stripWord (c :: word) (lit ++ rest) = none := by
    intro c word hdigit hsign
    refine stripWord_none (fun heq => ?_) (List.cons_ne_nil _ _)
    rcases hhead c heq.symm with hd | hs
    · rw [hdigit] at hd
      cases hd
    · exact hsign hs
  have htrue : stripWord (utf8 "true") (lit ++ rest) = none :=
    hword 116 (utf8 "rue") (by decide) (by decide)
  have hfalse : stripWord (utf8 "false") (lit ++ rest) = none :=
    hword 102 (utf8 "alse") (by decide) (by decide)
  have hnull : stripWord (utf8 "null") (lit ++ rest) = none :=
    hword 110 (utf8 "ull") (by decide) (by decide)
  simp [parseScalar, htrue, hfalse, hnull, hnumber]

theorem denotes_decimal (n : Nat) : Denotes (decimal n) (.number (decimal n)) := by
  have hdigit : ∀ rest : Bytes, ∀ c ∈ (decimal n ++ rest).head?, isDigit c = true :=
    fun rest => decimal_head n rest
  refine denotes_scalar (fun c hc => ?_) (decimal_ne_nil n) fun rest hend => ?_
  · have hd := hdigit [] c (by simpa using hc)
    refine ⟨?_, ?_, ?_, ?_⟩
    · by_contra hwhite
      simp only [isWhite, Bool.not_eq_false, Bool.or_eq_true, beq_iff_eq] at hwhite
      rcases hwhite with ((rfl | rfl) | rfl) | rfl <;> revert hd <;> decide
    all_goals
      rintro rfl
      revert hd
      decide
  · refine parseScalar_number (fun c hc => .inl (hdigit rest c hc)) ?_
    have hunsigned := parseUnsigned_decimal n hend
    unfold parseNumber
    split
    · next rest' heq =>
      have hminus := hdigit rest 45 (by simp [heq])
      exact absurd hminus (by decide)
    · exact hunsigned

theorem denotes_int (i : Int) : Denotes (decimalInt i) (.number (decimalInt i)) := by
  unfold decimalInt
  split
  · refine denotes_scalar (by simp [isWhite, quote]) (by simp) fun rest hend => ?_
    refine parseScalar_number (by simp) ?_
    simp [parseNumber, parseUnsigned_decimal i.natAbs hend]
  · exact denotes_decimal i.natAbs

/-! ## Text that stands for itself -/

/-- May be put between quotes as it is. -/
def Verbatim (t : Bytes) : Prop := PlainText t ∧ IsUtf8 t

instance (t : Bytes) : Decidable (Verbatim t) := inferInstanceAs (Decidable (_ ∧ _))

theorem Verbatim.append {a b : Bytes} (ha : Verbatim a) (hb : Verbatim b) : Verbatim (a ++ b) :=
  ⟨fun c hc => (List.mem_append.mp hc).elim (ha.1 c) (hb.1 c), ha.2.append hb.2⟩

theorem Verbatim.no_nul (h : Verbatim t) : (0 : UInt8) ∉ t := fun hzero =>
  absurd (h.1 0 hzero).2.2 (by decide)

theorem Verbatim.of_append_cons {a b : Bytes} (hc : c < 0x80) (h : Verbatim (a ++ c :: b)) :
    Verbatim b :=
  ⟨fun d hd => h.1 d (List.mem_append_right a (List.mem_cons_of_mem c hd)),
    ((isUtf8_append_cons hc).mp h.2).2⟩

theorem decimal_isUtf8 (n : Nat) : IsUtf8 (decimal n) := by
  refine Ascii.isUtf8 fun c hc => ?_
  have hdigit := decimal_isDigit n c hc
  simp only [isDigit, Bool.and_eq_true, decide_eq_true_eq] at hdigit
  exact UInt8.lt_of_le_of_lt hdigit.2 (by decide)

theorem decimalInt_isUtf8 (i : Int) : IsUtf8 (decimalInt i) := by
  unfold decimalInt
  split
  · exact IsUtf8.append (a := [45]) (by decide) (decimal_isUtf8 _)
  · exact decimal_isUtf8 _

/-! ## Objects and arrays -/

/-- The members between the braces. -/
inductive MembersText : Bytes → List (Bytes × JsonValue) → Prop
  | last {k lit : Bytes} {v : JsonValue} (hk : PlainText k) (hv : Denotes lit v) :
      MembersText (quote :: (k ++ quote :: 58 :: lit)) [(k, v)]
  | cons {k lit t : Bytes} {v : JsonValue} {members : List (Bytes × JsonValue)} (hk : PlainText k)
      (hv : Denotes lit v) (hmore : MembersText t members) :
      MembersText (quote :: (k ++ quote :: 58 :: (lit ++ 44 :: t))) ((k, v) :: members)

inductive ItemsText : Bytes → List JsonValue → Prop
  | last {lit : Bytes} {v : JsonValue} (hv : Denotes lit v) : ItemsText lit [v]
  | cons {lit t : Bytes} {v : JsonValue} {items : List JsonValue} (hv : Denotes lit v)
      (hmore : ItemsText t items) : ItemsText (lit ++ 44 :: t) (v :: items)

theorem MembersText.parse {members : List (Bytes × JsonValue)} (h : MembersText t members) :
    ∀ fuel rest, t.length ≤ fuel →
      parseMembers fuel (t ++ 125 :: rest) = some (members, rest) := by
  induction h with
  | @last k lit v hk hv =>
      intro fuel rest hfuel
      simp only [List.length_cons, List.length_append] at hfuel
      obtain ⟨fuel, rfl⟩ : ∃ n, fuel = n + 1 := ⟨fuel - 1, by omega⟩
      have hvalue := hv fuel (125 :: rest) (by omega) (endsValue_cons (by simp))
      simp [parseMembers, parseName_plain hk, hvalue]
  | @cons k lit t v members hk hv _ ih =>
      intro fuel rest hfuel
      simp only [List.length_cons, List.length_append] at hfuel
      obtain ⟨fuel, rfl⟩ : ∃ n, fuel = n + 1 := ⟨fuel - 1, by omega⟩
      have hvalue := hv fuel (44 :: (t ++ 125 :: rest)) (by omega) (endsValue_cons (by simp))
      have hrest := ih fuel rest (by omega)
      simp [parseMembers, parseName_plain hk, hvalue, hrest]

theorem ItemsText.parse {items : List JsonValue} (h : ItemsText t items) :
    ∀ fuel rest, t.length + 1 ≤ fuel → parseItems fuel (t ++ 93 :: rest) = some (items, rest) := by
  induction h with
  | @last lit v hv =>
      intro fuel rest hfuel
      obtain ⟨fuel, rfl⟩ : ∃ n, fuel = n + 1 := ⟨fuel - 1, by omega⟩
      have hvalue := hv fuel (93 :: rest) (by omega) (endsValue_cons (by simp))
      simp [parseItems, hvalue]
  | @cons lit t v items hv _ ih =>
      intro fuel rest hfuel
      simp only [List.length_cons, List.length_append] at hfuel
      obtain ⟨fuel, rfl⟩ : ∃ n, fuel = n + 1 := ⟨fuel - 1, by omega⟩
      have hvalue := hv fuel (44 :: (t ++ 93 :: rest)) (by omega) (endsValue_cons (by simp))
      have hrest := ih fuel rest (by omega)
      simp [parseItems, hvalue, hrest]

theorem MembersText.parse_object {members : List (Bytes × JsonValue)} (h : MembersText t members)
    (rest : Bytes) (hfuel : t.length + 1 ≤ fuel) :
    parseValue fuel (123 :: (t ++ 125 :: rest)) = some (.object members, rest) := by
  obtain ⟨fuel, rfl⟩ : ∃ n, fuel = n + 1 := ⟨fuel - 1, by omega⟩
  have hmembers := h.parse fuel rest (by omega)
  obtain ⟨t', rfl⟩ : ∃ t', t = quote :: t' := by
    cases h with
    | last hk hv => exact ⟨_, rfl⟩
    | cons hk hv hmore => exact ⟨_, rfl⟩
  simp only [List.cons_append] at hmembers ⊢
  rw [parseValue_object, hmembers]
  rfl

theorem denotes_object {members : List (Bytes × JsonValue)} (h : MembersText t members) :
    Denotes (123 :: (t ++ [125])) (.object members) := by
  intro fuel rest hfuel _
  simp only [List.length_cons, List.length_append, List.length_nil] at hfuel
  have hparse := h.parse_object rest (show t.length + 1 ≤ fuel by omega)
  simpa only [List.cons_append, List.append_assoc, List.nil_append] using hparse

theorem decode_object {text : Bytes} {members : List (Bytes × JsonValue)}
    (h : MembersText t members) (heq : text = 123 :: (t ++ [125])) (hu : IsUtf8 text) :
    decodeJson text = some (.object members) :=
  ((denotes_object h).of_eq heq).decode hu

/-- What stands behind an item of an array. -/
def parseMore (fuel : Nat) (t : Bytes) : Option (List JsonValue × Bytes) :=
  (following 93 t).bind fun
    | .more rest => parseItems fuel rest
    | .done rest => some ([], rest)

theorem parseItems_of_value (hv : parseValue fuel t = some (v, rest)) :
    parseItems (fuel + 1) t = (parseMore fuel rest).map fun p => (v :: p.1, p.2) := by
  rw [parseItems, hv, parseMore, Option.bind_some]
  cases following 93 rest with
  | none => rfl
  | some f =>
      cases f with
      | more rest' => rfl
      | done rest' => rfl

theorem parseValue_array (fuel : Nat) (hwhite : isWhite c = false) (hclose : c ≠ 93) (t : Bytes) :
    parseValue (fuel + 1) (91 :: c :: t) =
      (parseItems fuel (c :: t)).map fun p => (.array p.1, p.2) := by
  have hopen : opening (91 :: c :: t) = .array (c :: t) := by
    simp [opening, skipWhite_cons (show isWhite 91 = false by decide), quote]
  have hfirst : expect 93 (c :: t) = none := by
    rw [expect_cons hwhite, if_neg hclose]
  simp [parseValue, hopen, hfirst]

theorem parseValue_empty_array (fuel : Nat) (t : Bytes) :
    parseValue (fuel + 1) (91 :: 93 :: t) = some (.array [], t) := by
  have hopen : opening (91 :: 93 :: t) = .array (93 :: t) := by
    simp [opening, skipWhite_cons (show isWhite 91 = false by decide), quote]
  have hfirst : expect 93 (93 :: t) = some t := by
    rw [expect_cons (by decide), if_pos rfl]
  simp [parseValue, hopen, hfirst]

theorem denotes_array {items : List JsonValue} (h : ItemsText (123 :: t) items) :
    Denotes (91 :: (123 :: t ++ [93])) (.array items) := by
  intro fuel rest hfuel _
  simp only [List.length_cons, List.length_append] at hfuel
  obtain ⟨fuel, rfl⟩ : ∃ n, fuel = n + 1 := ⟨fuel - 1, by omega⟩
  have hitems := h.parse fuel rest (by simp only [List.length_cons]; omega)
  simp only [List.cons_append, List.append_assoc, List.nil_append] at hitems ⊢
  rw [parseValue_array fuel (by decide) (by decide), hitems]
  rfl

theorem denotes_empty_array : Denotes [91, 93] (.array []) := by
  intro fuel rest hfuel _
  obtain ⟨fuel, rfl⟩ : ∃ n, fuel = n + 1 := ⟨fuel - 1, by simp at hfuel; omega⟩
  exact parseValue_empty_array fuel rest

/-! ## Values with cut strings -/

mutual

def JsonValue.cutOf : JsonValue → JsonValue → Bool
  | .null, .null => true
  | .bool a, .bool b => a == b
  | .number a, .number b => a == b
  | .string s, .string t => s.isPrefixOf t
  | .array xs, .array ys => itemsCutOf xs ys
  | .object ms, .object ns => membersCutOf ms ns
  | _, _ => false

def itemsCutOf : List JsonValue → List JsonValue → Bool
  | [], [] => true
  | x :: xs, y :: ys => x.cutOf y && itemsCutOf xs ys
  | _, _ => false

def membersCutOf : List (Bytes × JsonValue) → List (Bytes × JsonValue) → Bool
  | [], [] => true
  | (k, v) :: ms, (l, w) :: ns => k == l && v.cutOf w && membersCutOf ms ns
  | _, _ => false

end

end QnxHypervisor.Foundation
