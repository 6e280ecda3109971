import Chooser.Lib.CStr

/-!
# JSON

A parser for the JSON grammar over the bytes of a text (`parse`), in the way of `JSON.parse`: one
value, with white space around it, and nothing else.  A string is the bytes of its decoded text; a
number is kept as a decimal mantissa and exponent, so that no precision is lost.

The text of a string is read by a machine that takes one byte at a time (`stringStep`), and
composite values by recursive descent, with a bound on the depth that `parse` chooses larger than
any text needs.  The rules at the end say what the parser does on the texts that a printer makes,
one for each kind of piece.
-/

namespace Json

open CStr

/-- A JSON value. `number m e` is `m` times ten to the power `e`. -/
inductive Value where
  | null
  | bool (b : Bool)
  | number (mantissa exponent : ℤ)
  | string (text : Bytes)
  | array (elems : List Value)
  | object (members : List (Bytes × Value))

/-- The value of a key; of the last one, when a key is repeated. -/
def Value.field : Value → Bytes → Option Value
  | .object members, key => (members.reverse.find? fun m => m.1 = key).map (·.2)
  | _, _ => none

/-! ## White space -/

/-- Space, tab, line feed and carriage return. -/
def isWs (c : UInt8) : Bool := c == 32 || c == 9 || c == 10 || c == 13

def skipWs (s : Bytes) : Bytes := s.dropWhile isWs

/-- White space, and then the byte `c`. -/
def expect (c : UInt8) (s : Bytes) : Option Bytes :=
  match skipWs s with
  | d :: rest => if d = c then some rest else none
  | [] => none

/-! ## Strings -/

/-- Where the reader of a string stands: between characters, behind a backslash, behind the first
half of a surrogate pair, or inside the four digits of `\u`. The first half is kept until the
second has been read. -/
inductive StringMode where
  | plain
  | escape (high : Option ℕ)
  | awaitLow (high : ℕ)
  | hex (high : Option ℕ) (left acc : ℕ)
deriving DecidableEq, Repr

/-- What a backslash and this byte stand for. -/
def simpleEscape (c : UInt8) : Option UInt8 :=
  if c = 34 then some 34
  else if c = 92 then some 92
  else if c = 47 then some 47
  else if c = 98 then some 8
  else if c = 102 then some 12
  else if c = 110 then some 10
  else if c = 114 then some 13
  else if c = 116 then some 9
  else none

/-- The UTF-8 bytes of a code point. -/
def utf8 (n : ℕ) : Bytes := String.utf8EncodeChar (Char.ofNat n)

/-- A complete `\u` escape. A surrogate without its other half is refused: it stands for no
character. -/
def codeUnit (high : Option ℕ) (u : ℕ) : Option (StringMode × Bytes) :=
  match high with
  | none =>
      if 0xD800 ≤ u ∧ u < 0xDC00 then some (.awaitLow u, [])
      else if 0xDC00 ≤ u ∧ u < 0xE000 then none
      else some (.plain, utf8 u)
  | some h =>
      if 0xDC00 ≤ u ∧ u < 0xE000 then
        some (.plain, utf8 (0x10000 + (h - 0xD800) * 0x400 + (u - 0xDC00)))
      else none

/-- One byte of a string that is not the quote at its end: the next mode and the bytes it gives. -/
def stringStep : StringMode → UInt8 → Option (StringMode × Bytes)
  | .plain, c =>
      if c = 92 then some (.escape none, [])
      else if c < 32 then none
      else some (.plain, [c])
  | .escape high, c =>
      if c = 117 then some (.hex high 4 0, [])
      else
        match high, simpleEscape c with
        | none, some b => some (.plain, [b])
        | _, _ => none
  | .awaitLow high, c => if c = 92 then some (.escape (some high), []) else none
  | .hex high left acc, c =>
      if digitVal c < 16 then
        if left = 1 then codeUnit high (acc * 16 + digitVal c)
        else some (.hex high (left - 1) (acc * 16 + digitVal c), [])
      else none

/-- A string behind its opening quote: the decoded text, and what follows the closing quote. -/
def stringBody : StringMode → Bytes → Option (Bytes × Bytes)
  | _, [] => none
  | mode, c :: cs =>
      if mode = .plain ∧ c = 34 then some ([], cs)
      else
        match stringStep mode c with
        | none => none
        | some (mode', out) => (stringBody mode' cs).map fun r => (out ++ r.1, r.2)

example : stringBody .plain (ascii "\\u20ac\\n\",") = some ([0xE2, 0x82, 0xAC, 10], [44]) := by
  decide

/-! ## Numbers -/

/-- The digits behind a decimal point, if there is one. -/
def fraction : Bytes → Option (Bytes × Bytes)
  | 46 :: s =>
      if s.takeWhile isDigit = [] then none
      else some (s.takeWhile isDigit, s.dropWhile isDigit)
  | s => some ([], s)

/-- The exponent, if there is one. -/
def exponent : Bytes → Option (ℤ × Bytes)
  | [] => some (0, [])
  | c :: s =>
      if c = 101 ∨ c = 69 then
        let signed := strtolSign s
        let digits := signed.2.takeWhile isDigit
        let e : ℤ := readDigits 10 0 digits
        if digits = [] then none
        else some (if signed.1 then -e else e, signed.2.dropWhile isDigit)
      else some (0, c :: s)

/-- A number without its sign: no leading zeros, and at least one digit. -/
def unsigned (s : Bytes) : Option (ℕ × ℤ × Bytes) :=
  let digits := s.takeWhile isDigit
  if digits = [] ∨ digits.head? = some 48 ∧ digits ≠ [48] then none
  else
    match fraction (s.dropWhile isDigit) with
    | none => none
    | some (frac, s') =>
        match exponent s' with
        | none => none
        | some (e, rest) => some (readDigits 10 0 (digits ++ frac), e - frac.length, rest)

def number : Bytes → Option (Value × Bytes)
  | 45 :: s => (unsigned s).map fun r => (.number (-r.1) r.2.1, r.2.2)
  | s => (unsigned s).map fun r => (.number r.1 r.2.1, r.2.2)

/-! ## Values -/

/-- `null`, `true` and `false`. -/
def literal (s : Bytes) : Option (Value × Bytes) :=
  if ascii "null" <+: s then some (.null, s.drop 4)
  else if ascii "true" <+: s then some (.bool true, s.drop 4)
  else if ascii "false" <+: s then some (.bool false, s.drop 5)
  else none

mutual

/-- A value, with white space in front of it, and what follows it. -/
def value : ℕ → Bytes → Option (Value × Bytes)
  | 0, _ => none
  | n + 1, s =>
      match skipWs s with
      | [] => none
      | c :: cs =>
          if c = 123 then
            match expect 125 cs with
            | some rest => some (.object [], rest)
            | none => (members n cs).map fun r => (.object r.1, r.2)
          else if c = 91 then
            match expect 93 cs with
            | some rest => some (.array [], rest)
            | none => (elements n cs).map fun r => (.array r.1, r.2)
          else if c = 34 then (stringBody .plain cs).map fun r => (.string r.1, r.2)
          else if c = 45 ∨ isDigit c = true then number (c :: cs)
          else literal (c :: cs)

/-- The elements of an array, and what follows its closing bracket. -/
def elements : ℕ → Bytes → Option (List Value × Bytes)
  | 0, _ => none
  | n + 1, s =>
      match value n s with
      | none => none
      | some (v, s') =>
          match expect 44 s' with
          | some rest => (elements n rest).map fun r => (v :: r.1, r.2)
          | none => (expect 93 s').map fun rest => ([v], rest)

/-- The members of an object, and what follows its closing brace. -/
def members : ℕ → Bytes → Option (List (Bytes × Value) × Bytes)
  | 0, _ => none
  | n + 1, s =>
      match (expect 34 s).bind (stringBody .plain) with
      | none => none
      | some (key, s') =>
          match (expect 58 s').bind (value n) with
          | none => none
          | some (v, s'') =>
              match expect 44 s'' with
              | some rest => (members n rest).map fun r => ((key, v) :: r.1, r.2)
              | none => (expect 125 s'').map fun rest => ([(key, v)], rest)

end

/-- A whole text. Every second level of the recursion consumes a byte. -/
def parse (s : Bytes) : Option Value :=
  match value (2 * s.length + 2) s with
  | some (v, rest) => if skipWs rest = [] then some v else none
  | none => none

/-! ## UTF-8 -/

/-- The bytes encode a sequence of characters. -/
def ValidUtf8 (b : Bytes) : Prop := ∃ cs : List Char, b = cs.flatMap String.utf8EncodeChar

lemma ValidUtf8.append {a b : Bytes} (ha : ValidUtf8 a) (hb : ValidUtf8 b) :
    ValidUtf8 (a ++ b) := by
  obtain ⟨cs, rfl⟩ := ha
  obtain ⟨ds, rfl⟩ := hb
  exact ⟨cs ++ ds, List.flatMap_append.symm⟩

lemma utf8EncodeChar_of_lt {b : UInt8} (h : b < 128) :
    String.utf8EncodeChar (Char.ofNat b.toNat) = [b] := by
  have hlt : b.toNat < 128 := UInt8.lt_iff_toNat_lt.mp h
  have hval : (Char.ofNat b.toNat).val.toNat = b.toNat := by
    rw [Char.ofNat, dif_pos (Or.inl (by omega))]
    rfl
  rw [String.utf8EncodeChar, hval, if_pos (by omega), UInt8.ofNat_toNat]

/-- ASCII is UTF-8. -/
lemma validUtf8_ascii {b : Bytes} (h : ∀ c ∈ b, c < 128) : ValidUtf8 b := by
  induction b with
  | nil => exact ⟨[], rfl⟩
  | cons c cs ih =>
      obtain ⟨ds, hds⟩ := ih fun d hd => h d (by simp [hd])
      refine ⟨Char.ofNat c.toNat :: ds, ?_⟩
      rw [List.flatMap_cons, utf8EncodeChar_of_lt (h c (by simp)), ← hds]
      rfl

lemma le_ofNat {n : ℕ} (hlo : 128 ≤ n) (hhi : n < 256) : (128 : UInt8) ≤ UInt8.ofNat n := by
  rw [UInt8.le_iff_toNat_le, UInt8.toNat_ofNat', Nat.mod_eq_of_lt hhi]
  exact hlo

/-- A character is one ASCII byte, or bytes that are all above ASCII. -/
lemma utf8EncodeChar_cases (c : Char) :
    (∃ b, b < 128 ∧ String.utf8EncodeChar c = [b]) ∨ ∀ b ∈ String.utf8EncodeChar c, 128 ≤ b := by
  rw [String.utf8EncodeChar]
  split_ifs with h1 h2 h3
  · refine Or.inl ⟨_, ?_, rfl⟩
    rw [UInt8.lt_iff_toNat_lt, UInt8.toNat_ofNat', Nat.mod_eq_of_lt (by omega)]
    exact Nat.lt_succ_of_le h1
  · refine Or.inr fun b hb => ?_
    simp only [List.mem_cons, List.not_mem_nil, or_false] at hb
    rcases hb with rfl | rfl <;> exact le_ofNat (by omega) (by omega)
  · refine Or.inr fun b hb => ?_
    simp only [List.mem_cons, List.not_mem_nil, or_false] at hb
    rcases hb with rfl | rfl | rfl <;> exact le_ofNat (by omega) (by omega)
  · refine Or.inr fun b hb => ?_
    simp only [List.mem_cons, List.not_mem_nil, or_false] at hb
    rcases hb with rfl | rfl | rfl | rfl <;> exact le_ofNat (by omega) (by omega)

/-- Rewriting the ASCII bytes of a text, each into ASCII bytes, leaves it UTF-8. -/
theorem ValidUtf8.flatMap {g : UInt8 → Bytes} (hlow : ∀ c, c < 128 → ∀ b ∈ g c, b < 128)
    (hhigh : ∀ c, 128 ≤ c → g c = [c]) {b : Bytes} (h : ValidUtf8 b) : ValidUtf8 (b.flatMap g) := by
  obtain ⟨cs, rfl⟩ := h
  induction cs with
  | nil => exact ⟨[], rfl⟩
  | cons c cs ih =>
      rw [List.flatMap_cons, List.flatMap_append]
      refine ValidUtf8.append ?_ ih
      rcases utf8EncodeChar_cases c with ⟨b, hb, heq⟩ | hall
      · rw [heq, List.flatMap_singleton]
        exact validUtf8_ascii (hlow b hb)
      · refine ⟨[c], ?_⟩
        rw [List.flatMap_singleton, List.flatMap_congr fun b hb => hhigh b (hall b hb),
          List.flatMap_singleton']

/-! ## Rules -/

section Rules

variable {n : ℕ} {s s₁ s₂ rest : Bytes}

lemma expect_cons (c d : UInt8) (s : Bytes) :
    expect c (d :: s) = if isWs d then expect c s else if d = c then some s else none := by
  cases h : isWs d <;> simp [expect, skipWs, h]

lemma expect_ws {d : UInt8} (c : UInt8) (s : Bytes) (h : isWs d = true) :
    expect c (d :: s) = expect c s := by
  rw [expect_cons, if_pos h]

lemma expect_self {c : UInt8} (s : Bytes) (h : isWs c = false) : expect c (c :: s) = some s := by
  rw [expect_cons, h]
  simp

lemma expect_other {c d : UInt8} (s : Bytes) (h : isWs d = false) (hne : d ≠ c) :
    expect c (d :: s) = none := by
  rw [expect_cons, h]
  simp [hne]

/-- A value that starts with this byte. -/
lemma value_cons (n : ℕ) (c : UInt8) (s : Bytes) (h : isWs c = false) :
    value (n + 1) (c :: s) =
      if c = 123 then
        match expect 125 s with
        | some rest => some (.object [], rest)
        | none => (members n s).map fun r => (.object r.1, r.2)
      else if c = 91 then
        match expect 93 s with
        | some rest => some (.array [], rest)
        | none => (elements n s).map fun r => (.array r.1, r.2)
      else if c = 34 then (stringBody .plain s).map fun r => (.string r.1, r.2)
      else if c = 45 ∨ isDigit c = true then number (c :: s)
      else literal (c :: s) := by
  rw [value, skipWs, List.dropWhile_cons_of_neg (by simp [h])]

lemma value_ws {c : UInt8} (n : ℕ) (s : Bytes) (h : isWs c = true) :
    value (n + 1) (c :: s) = value (n + 1) s := by
  rw [value, value, skipWs, List.dropWhile_cons_of_pos h]
  rfl

lemma value_object (n : ℕ) (h : expect 125 s = none) :
    value (n + 1) (123 :: s) = (members n s).map fun r => (.object r.1, r.2) := by
  rw [value_cons n 123 s (by decide), if_pos rfl, h]

lemma value_array (n : ℕ) (h : expect 93 s = none) :
    value (n + 1) (91 :: s) = (elements n s).map fun r => (.array r.1, r.2) := by
  rw [value_cons n 91 s (by decide), if_neg (by decide), if_pos rfl, h]

lemma value_array_nil (n : ℕ) (h : expect 93 s = some rest) :
    value (n + 1) (91 :: s) = some (.array [], rest) := by
  rw [value_cons n 91 s (by decide), if_neg (by decide), if_pos rfl, h]

lemma value_string (n : ℕ) (s : Bytes) :
    value (n + 1) (34 :: s) = (stringBody .plain s).map fun r => (.string r.1, r.2) := by
  rw [value_cons n 34 s (by decide), if_neg (by decide), if_neg (by decide), if_pos rfl]

lemma elements_ws {c : UInt8} (n : ℕ) (s : Bytes) (h : isWs c = true) :
    elements (n + 2) (c :: s) = elements (n + 2) s := by
  rw [elements, elements, value_ws n s h]

/-! ### Strings -/

/-- A byte that stands for itself. -/
lemma stringBody_self {c : UInt8} (h34 : c ≠ 34) (h92 : c ≠ 92) (h32 : 32 ≤ c) (s : Bytes) :
    stringBody .plain (c :: s) = (stringBody .plain s).map fun r => (c :: r.1, r.2) := by
  simp [stringBody, stringStep, h34, h92, UInt8.not_lt.mpr h32]

lemma stringBody_escape {e b : UInt8} (h : simpleEscape e = some b) (s : Bytes) :
    stringBody .plain (92 :: e :: s) = (stringBody .plain s).map fun r => (b :: r.1, r.2) := by
  have hu : e ≠ 117 := by
    rintro rfl
    rw [show simpleEscape 117 = none by decide] at h
    exact absurd h (by simp)
  simp [stringBody, stringStep, h, hu, Function.comp_def]

/-- **Control characters are not allowed in a string.** -/
lemma stringBody_control {c : UInt8} (h : c < 32) (s : Bytes) :
    stringBody .plain (c :: s) = none := by
  have h34 : c ≠ 34 := by
    rintro rfl
    exact absurd h (by decide)
  have h92 : c ≠ 92 := by
    rintro rfl
    exact absurd h (by decide)
  simp [stringBody, stringStep, h34, h92, h]

@[simp] lemma stringBody_quote (s : Bytes) : stringBody .plain (34 :: s) = some ([], s) := by
  simp [stringBody]

/-- A text that needs no escapes. -/
lemma stringBody_text {text : Bytes} (h : ∀ c ∈ text, c ≠ 34 ∧ c ≠ 92 ∧ 32 ≤ c) (s : Bytes) :
    stringBody .plain (text ++ 34 :: s) = some (text, s) := by
  induction text with
  | nil => simp
  | cons c text ih =>
      obtain ⟨h34, h92, h32⟩ := h c (by simp)
      rw [List.cons_append, stringBody_self h34 h92 h32, ih fun c hc => h c (by simp [hc])]
      rfl

/-- For a literal the check is a computation. -/
lemma text_of_all {text : Bytes}
    (h : text.all (fun c => c != 34 && c != 92 && decide (32 ≤ c)) = true) :
    ∀ c ∈ text, c ≠ 34 ∧ c ≠ 92 ∧ 32 ≤ c := by
  simpa [and_assoc] using h

/-- A key, with its quotes. -/
lemma expect_key (key : Bytes)
    (h : key.all (fun c => c != 34 && c != 92 && decide (32 ≤ c)) = true) (s : Bytes) :
    (expect 34 (34 :: (key ++ 34 :: s))).bind (stringBody .plain) = some (key, s) := by
  rw [expect_self _ (by decide), Option.bind_some, stringBody_text (text_of_all h)]

/-! ### Numbers -/

/-- What follows does not continue a number. -/
def EndsNumber (s : Bytes) : Prop :=
  ∀ c cs, s = c :: cs → isDigit c = false ∧ c ≠ 46 ∧ c ≠ 101 ∧ c ≠ 69

lemma endsNumber_cons {c : UInt8} {s : Bytes}
    (h : isDigit c = false ∧ c ≠ 46 ∧ c ≠ 101 ∧ c ≠ 69) : EndsNumber (c :: s) := by
  rintro d ds heq
  obtain ⟨rfl, _⟩ := List.cons.inj heq
  exact h

lemma takeWhile_decimal (k : ℕ) (h : EndsNumber s) :
    (decimal k ++ s).takeWhile isDigit = decimal k ∧ (decimal k ++ s).dropWhile isDigit = s := by
  have hall : ∀ c ∈ decimal k, isDigit c = true := fun c hc => isDigit_of_mem_decimal hc
  rw [List.takeWhile_append_of_pos hall, List.dropWhile_append_of_pos hall]
  cases s with
  | nil => simp
  | cons c cs =>
      have hc := (h c cs rfl).1
      simp [hc]

/-- A printed number has no leading zero. -/
lemma decimal_no_leading_zero (k : ℕ) :
    ¬ (decimal k = [] ∨ (decimal k).head? = some 48 ∧ decimal k ≠ [48]) := by
  rintro (h | ⟨hhead, hne⟩)
  · exact decimal_ne_nil k h
  · rw [decimal] at hhead hne
    split_ifs at hhead hne with hk
    · exact hne rfl
    · have hdigits : Nat.digits 10 k ≠ [] := Nat.digits_ne_nil_iff_ne_zero.mpr hk
      have hlast := Nat.getLast_digit_ne_zero 10 hk
      rw [List.head?_map, List.head?_reverse, List.getLast?_eq_some_getLast hdigits,
        Option.map_some] at hhead
      have hlt : (Nat.digits 10 k).getLast hdigits < 10 :=
        Nat.digits_lt_base (by omega) (List.getLast_mem hdigits)
      have hval := congrArg digitVal (Option.some.inj hhead)
      rw [digitVal_ofNat hlt] at hval
      exact hlast (hval.trans (by decide))

/-- **The parser reads a printed number.** -/
theorem value_decimal (n k : ℕ) (h : EndsNumber s) :
    value (n + 1) (decimal k ++ s) = some (.number k 0, s) := by
  obtain ⟨c, cs, hk, hc⟩ := decimal_head k
  have hws : isWs c = false := by
    by_contra hws
    simp only [isWs, Bool.not_eq_false, Bool.or_eq_true, beq_iff_eq] at hws
    rcases hws with ((rfl | rfl) | rfl) | rfl <;> exact absurd hc (by decide)
  have hunsigned : unsigned (decimal k ++ s) = some (k, 0, s) := by
    obtain ⟨htake, hdrop⟩ := takeWhile_decimal k h
    have hfrac : fraction s = some ([], s) := by
      unfold fraction
      split
      · exact absurd rfl (h _ _ rfl).2.1
      · rfl
    have hexp : exponent s = some (0, s) := by
      unfold exponent
      split
      · rfl
      · rename_i c cs
        have hc := (h c cs rfl).2.2
        rw [if_neg (by tauto)]
    simp only [unsigned, htake, hdrop, hfrac, hexp, if_neg (decimal_no_leading_zero k),
      List.append_nil, readDigits_decimal]
    rfl
  have h123 : c ≠ 123 := by rintro rfl; exact absurd hc (by decide)
  have h91 : c ≠ 91 := by rintro rfl; exact absurd hc (by decide)
  have h34 : c ≠ 34 := by rintro rfl; exact absurd hc (by decide)
  have h45 : c ≠ 45 := by rintro rfl; exact absurd hc (by decide)
  have hnumber : number (decimal k ++ s) = (unsigned (decimal k ++ s)).map
      fun r => (.number r.1 r.2.1, r.2.2) := by
    rw [hk, List.cons_append]
    unfold number
    split
    · rename_i heq
      exact absurd (List.cons.inj heq).1 h45
    · rfl
  rw [hk, List.cons_append, value_cons n c _ hws, if_neg h123, if_neg h91, if_neg h34,
    if_pos (Or.inr hc), ← List.cons_append, ← hk, hnumber, hunsigned]
  rfl

/-! ### Members and elements -/

variable {key : Bytes} {v : Value}

lemma members_next (hkey : (expect 34 s).bind (stringBody .plain) = some (key, s₁))
    (hval : (expect 58 s₁).bind (value n) = some (v, s₂)) (hsep : expect 44 s₂ = some rest) :
    members (n + 1) s = (members n rest).map fun r => ((key, v) :: r.1, r.2) := by
  rw [members, hkey]
  simp only [hval, hsep]

lemma members_last (hkey : (expect 34 s).bind (stringBody .plain) = some (key, s₁))
    (hval : (expect 58 s₁).bind (value n) = some (v, s₂)) (hsep : expect 44 s₂ = none)
    (hend : expect 125 s₂ = some rest) : members (n + 1) s = some ([(key, v)], rest) := by
  rw [members, hkey]
  simp only [hval, hsep, hend, Option.map_some]

lemma members_bad (hkey : (expect 34 s).bind (stringBody .plain) = some (key, s₁))
    (hval : (expect 58 s₁).bind (value n) = none) : members (n + 1) s = none := by
  rw [members, hkey]
  simp only [hval]

lemma elements_next (hval : value n s = some (v, s₁)) (hsep : expect 44 s₁ = some rest) :
    elements (n + 1) s = (elements n rest).map fun r => (v :: r.1, r.2) := by
  rw [elements, hval]
  simp only [hsep]

lemma elements_last (hval : value n s = some (v, s₁)) (hsep : expect 44 s₁ = none)
    (hend : expect 93 s₁ = some rest) : elements (n + 1) s = some ([v], rest) := by
  rw [elements, hval]
  simp only [hsep, hend, Option.map_some]

lemma elements_bad (hval : value n s = none) : elements (n + 1) s = none := by
  rw [elements, hval]

end Rules

end Json
