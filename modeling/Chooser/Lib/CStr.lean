import Mathlib

/-!
# C strings and the C library functions on them

A buffer is a list of bytes, and a C string is what stands before its first NUL (`cString`).
This file has the library functions a firmware handler calls on such buffers:

* `memcpy` — with the law the callers need: two adjacent copies are one (`memcpy_memcpy`).
* `decimal`, `sprintfD` — what `%d` prints.
* `strtol`, `atoi` — the parser for the other direction; `atoi_decimal` is the round trip.
* `wrapInt` — what an `int` holds of a number, where a sum or a difference may not fit.
* `fnmatch` — shell patterns with flags 0, as far as literals, `?` and `*`.
-/

namespace CStr

/-- A buffer of bytes. -/
abbrev Bytes := List UInt8

/-- The bytes of an ASCII literal. -/
def ascii (s : String) : Bytes := s.toList.map fun c => UInt8.ofNat c.toNat

/-- The C string at the start of a buffer: everything before the first NUL. -/
def cString (b : Bytes) : Bytes := b.takeWhile (· ≠ 0)

lemma cString_of_nul_free {b : Bytes} (h : ∀ c ∈ b, c ≠ 0) : cString b = b := by
  simpa [cString, List.takeWhile_eq_self_iff] using h

lemma cString_nul_free (b : Bytes) : ∀ c ∈ cString b, c ≠ 0 := by
  intro c hc
  simpa using List.mem_takeWhile_imp hc

/-- For a literal the check is a computation. -/
lemma ne_zero_of_all {b : Bytes} (h : b.all (· != 0) = true) : ∀ c ∈ b, c ≠ 0 := by
  simpa using h

/-! ## Copying into a buffer -/

/-- `memcpy(&dst[pos], src, n)` with `n` the length of `src`. -/
def memcpy (dst : Bytes) (pos : ℕ) (src : Bytes) : Bytes :=
  dst.take pos ++ src ++ dst.drop (pos + src.length)

lemma memcpy_nil (dst : Bytes) (pos : ℕ) : memcpy dst pos [] = dst := by
  simp [memcpy]

/-- A copy that stays inside the buffer keeps its length. -/
lemma length_memcpy {dst src : Bytes} {pos : ℕ} (h : pos + src.length ≤ dst.length) :
    (memcpy dst pos src).length = dst.length := by
  simp only [memcpy, List.length_append, List.length_take, List.length_drop]
  omega

/-- What stands in the buffer up to the end of the copy. -/
lemma take_memcpy {dst src : Bytes} {pos : ℕ} (h : pos ≤ dst.length) :
    (memcpy dst pos src).take (pos + src.length) = dst.take pos ++ src := by
  have hlen : (dst.take pos ++ src).length = pos + src.length := by simp [h]
  rw [memcpy, ← hlen, List.take_left']
  rfl

/-- Copying two blocks one after the other is copying them at once. -/
theorem memcpy_memcpy {dst a b : Bytes} {pos : ℕ} (h : pos ≤ dst.length) :
    memcpy (memcpy dst pos a) (pos + a.length) b = memcpy dst pos (a ++ b) := by
  have htake : (memcpy dst pos a).take (pos + a.length) = dst.take pos ++ a := take_memcpy h
  have hlen : (dst.take pos ++ a).length = pos + a.length := by simp [h]
  have hdrop : (memcpy dst pos a).drop (pos + a.length + b.length)
      = dst.drop (pos + (a ++ b).length) := by
    rw [memcpy, List.drop_append, hlen]
    simp only [List.drop_drop, List.length_append]
    rw [List.drop_eq_nil_of_le (by rw [hlen]; omega), List.nil_append]
    congr 1
    omega
  rw [memcpy, htake, hdrop, memcpy]
  simp [List.append_assoc]

/-! ## Printing numbers -/

/-- The digits of a natural number, as `%d` and `%u` print them. -/
def decimal (n : ℕ) : Bytes :=
  if n = 0 then [48] else (Nat.digits 10 n).reverse.map fun d => UInt8.ofNat (48 + d)

/-- `sprintf("%d")`. -/
def sprintfD (i : ℤ) : Bytes := if i < 0 then 45 :: decimal i.natAbs else decimal i.natAbs

lemma sprintfD_natCast (n : ℕ) : sprintfD (n : ℤ) = decimal n := by
  have h : ¬ ((n : ℤ) < 0) := by omega
  simp [sprintfD, h]

lemma sprintfD_of_nonneg {i : ℤ} (h : 0 ≤ i) : sprintfD i = decimal i.toNat := by
  obtain ⟨n, rfl⟩ := Int.eq_ofNat_of_zero_le h
  simpa using sprintfD_natCast n

/-- Is this byte one of `0`..`9`? -/
def isDigit (c : UInt8) : Bool := 48 ≤ c && c ≤ 57

lemma isDigit_ofNat {d : ℕ} (h : d < 10) : isDigit (UInt8.ofNat (48 + d)) = true := by
  interval_cases d <;> decide

lemma decimal_ne_nil (n : ℕ) : decimal n ≠ [] := by
  unfold decimal
  split_ifs with h
  · simp
  · simpa using Nat.digits_ne_nil_iff_ne_zero.mpr h

lemma isDigit_of_mem_decimal {n : ℕ} {c : UInt8} (h : c ∈ decimal n) : isDigit c = true := by
  unfold decimal at h
  split_ifs at h with hn
  · simp only [List.mem_singleton] at h
    subst h
    decide
  · obtain ⟨d, hd, rfl⟩ := List.mem_map.mp h
    exact isDigit_ofNat (Nat.digits_lt_base (by omega) (List.mem_reverse.mp hd))

/-- A number with at most `k` digits is printed in at most `k` bytes. -/
lemma length_decimal_le {n k : ℕ} (hk : 0 < k) (h : n < 10 ^ k) : (decimal n).length ≤ k := by
  unfold decimal
  split_ifs with hn
  · simpa using Nat.succ_le_of_lt hk
  · simpa using (Nat.digits_length_le_iff (by omega) n).mpr h

/-! ## Reading numbers -/

/-- `isspace` in the C locale. -/
def isSpace (c : UInt8) : Bool := c == 32 || (9 ≤ c && c ≤ 13)

/-- The value of a digit in bases up to 36; 255 for every other byte. -/
def digitVal (c : UInt8) : ℕ :=
  if 48 ≤ c ∧ c ≤ 57 then c.toNat - 48
  else if 97 ≤ c ∧ c ≤ 122 then c.toNat - 87
  else if 65 ≤ c ∧ c ≤ 90 then c.toNat - 55
  else 255

/-- Reads digits of the given base from the front, most significant first. -/
def readDigits (base : ℕ) : ℕ → Bytes → ℕ
  | acc, [] => acc
  | acc, c :: cs =>
      if digitVal c < base then readDigits base (acc * base + digitVal c) cs else acc

/-- The prefix rule of `strtol`: base 0 picks 16, 8 or 10 from the text, and base 16 skips an
`0x` that is followed by a hexadecimal digit. -/
def strtolPrefix (base : ℕ) (s : Bytes) : ℕ × Bytes :=
  match s with
  | 48 :: x :: c :: rest =>
      if (base = 0 ∨ base = 16) ∧ (x = 120 ∨ x = 88) ∧ digitVal c < 16 then (16, c :: rest)
      else (if base = 0 then 8 else base, s)
  | 48 :: _ => (if base = 0 then 8 else base, s)
  | _ => (if base = 0 then 10 else base, s)

/-- The optional sign in front of a number: is it a minus, and what follows it. -/
def strtolSign (s : Bytes) : Bool × Bytes :=
  match s with
  | 45 :: rest => (true, rest)
  | 43 :: rest => (false, rest)
  | s => (false, s)

/-- `strtol(s, NULL, base)` with a 32-bit `long`: leading white space, an optional sign, the
digits, and a result clamped to the range of the type. -/
def strtol (base : ℕ) (s : Bytes) : ℤ :=
  let signed := strtolSign (s.dropWhile isSpace)
  let based := strtolPrefix base signed.2
  let v : ℤ := readDigits based.1 0 based.2
  max (-2 ^ 31) (min (2 ^ 31 - 1) (if signed.1 then -v else v))

/-- `atoi(s)`. -/
def atoi (s : Bytes) : ℤ := strtol 10 s

/-- What a 32-bit `int` holds of a sum or difference.  C does not say what an overflow gives; here
it wraps around. -/
def wrapInt (v : ℤ) : ℤ := v.bmod (2 ^ 32)

lemma wrapInt_of_range {v : ℤ} (hlo : -2 ^ 31 ≤ v) (hhi : v < 2 ^ 31) : wrapInt v = v :=
  Int.bmod_eq_of_le (by omega) (by omega)

lemma strtol_range (base : ℕ) (s : Bytes) : -2 ^ 31 ≤ strtol base s ∧ strtol base s < 2 ^ 31 := by
  simp only [strtol]
  omega

lemma digitVal_ofNat {d : ℕ} (h : d < 10) : digitVal (UInt8.ofNat (48 + d)) = d := by
  interval_cases d <;> decide

lemma readDigits_map (ds : List ℕ) : ∀ (acc : ℕ), (∀ d ∈ ds, d < 10) →
    readDigits 10 acc (ds.map fun d => UInt8.ofNat (48 + d))
      = ds.foldl (fun a d => a * 10 + d) acc := by
  induction ds with
  | nil => intro acc _; rfl
  | cons d ds ih =>
      intro acc h
      have hd : d < 10 := h d (by simp)
      simp only [List.map_cons, readDigits, digitVal_ofNat hd, if_pos hd, List.foldl_cons]
      exact ih _ fun x hx => h x (by simp [hx])

lemma readDigits_decimal (n : ℕ) : readDigits 10 0 (decimal n) = n := by
  unfold decimal
  split_ifs with hn
  · subst hn; decide
  · rw [readDigits_map _ _ fun d hd => Nat.digits_lt_base (by omega) (List.mem_reverse.mp hd),
      List.foldl_reverse]
    calc (Nat.digits 10 n).foldr (fun d a => a * 10 + d) 0
        = Nat.ofDigits 10 (Nat.digits 10 n) := by
          rw [Nat.ofDigits_eq_foldr]
          congr 1
          funext d a
          simp only [Nat.cast_id]
          ring
      _ = n := Nat.ofDigits_digits 10 n

/-- A printed number starts with a digit, which is neither white space nor a sign. -/
lemma decimal_head (n : ℕ) : ∃ c cs, decimal n = c :: cs ∧ isDigit c = true := by
  cases h : decimal n with
  | nil => exact absurd h (decimal_ne_nil n)
  | cons c cs => exact ⟨c, cs, rfl, isDigit_of_mem_decimal (n := n) (by simp [h])⟩

lemma not_isSpace_of_isDigit {c : UInt8} (h : isDigit c = true) : isSpace c = false := by
  simp only [isDigit, isSpace, Bool.and_eq_true, decide_eq_true_eq, UInt8.le_iff_toNat_le] at h ⊢
  have h32 : c ≠ 32 := by rintro rfl; simp at h
  have hlo : 48 ≤ c.toNat := by simpa using h.1
  have hhi : ¬ c.toNat ≤ 13 := by omega
  simp [h32, hhi]

lemma ne_sign_of_isDigit {c : UInt8} (h : isDigit c = true) : c ≠ 45 ∧ c ≠ 43 := by
  constructor <;> rintro rfl <;> exact absurd h (by decide)

lemma strtolSign_of_isDigit {c : UInt8} (h : isDigit c = true) (cs : Bytes) :
    strtolSign (c :: cs) = (false, c :: cs) := by
  have hc := ne_sign_of_isDigit h
  unfold strtolSign
  split <;> simp_all

lemma strtolPrefix_ten (s : Bytes) : strtolPrefix 10 s = (10, s) := by
  unfold strtolPrefix
  split <;> simp

/-- **`atoi` reads back what `%d` printed**, for every value of a 32-bit `int`. -/
theorem atoi_decimal {n : ℕ} (h : n < 2 ^ 31) : atoi (decimal n) = n := by
  obtain ⟨c, cs, hn, hc⟩ := decimal_head n
  have hdrop : (decimal n).dropWhile isSpace = decimal n := by
    rw [hn, List.dropWhile_cons_of_neg (by simp [not_isSpace_of_isDigit hc])]
  have hsign : strtolSign (decimal n) = (false, decimal n) := by
    rw [hn]
    exact strtolSign_of_isDigit hc cs
  simp only [atoi, strtol, hdrop, hsign, strtolPrefix_ten, readDigits_decimal,
    Bool.false_eq_true, if_false]
  omega

/-! ## Shell patterns -/

/-- `fnmatch(pattern, s, 0) == 0` for patterns made of literals, `?` and `*`. -/
def fnmatch : Bytes → Bytes → Bool
  | [], s => s.isEmpty
  | p :: ps, s =>
      if p = 42 then s.tails.any (fnmatch ps)
      else match s with
        | [] => false
        | c :: cs => (p == 63 || p == c) && fnmatch ps cs

/-- For a literal the check is a computation. -/
lemma literal_of_all {b : Bytes} (h : b.all (fun c => c != 42 && c != 63) = true) :
    ∀ c ∈ b, c ≠ 42 ∧ c ≠ 63 := by
  simpa using h

/-- A literal prefix of the pattern matches exactly itself. -/
lemma fnmatch_append {lit : Bytes} (hlit : ∀ c ∈ lit, c ≠ 42 ∧ c ≠ 63) (ps s : Bytes) :
    fnmatch (lit ++ ps) s = true ↔ ∃ t, s = lit ++ t ∧ fnmatch ps t = true := by
  induction lit generalizing s with
  | nil => simp
  | cons p lit ih =>
      have hp := hlit p (by simp)
      have ih := ih fun c hc => hlit c (by simp [hc])
      cases s with
      | nil => simp [fnmatch, hp.1]
      | cons c cs =>
          simp only [List.cons_append, fnmatch, hp.1, if_false, Bool.and_eq_true, Bool.or_eq_true,
            beq_iff_eq, hp.2, false_or, ih, List.cons.injEq]
          constructor
          · rintro ⟨rfl, t, rfl, ht⟩
            exact ⟨t, ⟨rfl, rfl⟩, ht⟩
          · rintro ⟨t, ⟨rfl, rfl⟩, ht⟩
            exact ⟨rfl, t, rfl, ht⟩

lemma fnmatch_star (ps s : Bytes) :
    fnmatch (42 :: ps) s = true ↔ ∃ t, t <:+ s ∧ fnmatch ps t = true := by
  simp [fnmatch, List.mem_tails]

/-- **What `prefix*suffix` matches**: the names that start with the one, end with the other, and
are long enough to hold both. -/
theorem fnmatch_prefix_suffix {pre suf : Bytes} (hpre : ∀ c ∈ pre, c ≠ 42 ∧ c ≠ 63)
    (hsuf : ∀ c ∈ suf, c ≠ 42 ∧ c ≠ 63) (s : Bytes) :
    fnmatch (pre ++ 42 :: suf) s = true ↔ ∃ mid, s = pre ++ mid ++ suf := by
  have hlit : ∀ t, fnmatch suf t = true ↔ t = suf := by
    intro t
    have h := fnmatch_append hsuf [] t
    simp only [List.append_nil, fnmatch, List.isEmpty_iff] at h
    rw [h]
    simp
  rw [fnmatch_append hpre]
  constructor
  · rintro ⟨t, rfl, ht⟩
    obtain ⟨u, ⟨mid, rfl⟩, hu⟩ := (fnmatch_star suf t).mp ht
    exact ⟨mid, by rw [(hlit u).mp hu, List.append_assoc]⟩
  · rintro ⟨mid, rfl⟩
    refine ⟨mid ++ suf, by rw [List.append_assoc], (fnmatch_star suf _).mpr ?_⟩
    exact ⟨suf, List.suffix_append mid suf, (hlit suf).mpr rfl⟩

end CStr
