import Chooser.FileIdxJson
import Chooser.Lib.Buffer

/-!
# The stores of `json_esc`

`jsonEsc` says which string `json_esc` makes.  Here is how it makes it: `i` runs through the name,
`j` through the buffer, one or two stores a turn and one more for the NUL, and a single test at the
head of the loop that has to make room for all of them.

`jsonEscStores_eq` is the refinement: with a buffer of `bufsz` bytes no store faults, and what the
buffer then holds is the string of `jsonEsc`.  From the string the seven escapes can be undone
(`jsonUnesc`), which gives back the part of the name that there was room for.
-/

namespace Chooser

open CStr Buffer

/-! ## The loop on a buffer -/

/-- The loop of `json_esc`, with `j` bytes in the buffer: the buffer and `j` afterwards.  Reading on
behind the end of `in` faults as a store outside `out` does. -/
def jsonEscStores (bufsz : ℤ) : Bytes → ℤ → Bytes → Option (Bytes × ℤ)
  | _, _, [] => none
  | out, j, c :: cs =>
      if c = 0 then some (out, j)
      else if j ≥ bufsz - 3 then some (out, j)
      else
        match jsonEscChar c with
        | none => (store out j c).bind fun out => jsonEscStores bufsz out (j + 1) cs
        | some esc =>
            (store out j 92).bind fun out =>
              (store out (j + 1) esc).bind fun out => jsonEscStores bufsz out (j + 2) cs

/-- `json_esc(out, in, bufsz)`: the buffer afterwards. -/
def jsonEscInto (out name : Bytes) (bufsz : ℤ) : Option Bytes :=
  (jsonEscStores bufsz out 0 name).bind fun r => store r.1 r.2 0

/-- The loop ends at the NUL, or when the buffer is full. -/
lemma jsonEscStores_stop {bufsz : ℤ} {out : Bytes} {j : ℤ} {c : UInt8} {cs : Bytes}
    (h : c = 0 ∨ bufsz - 3 ≤ j) : jsonEscStores bufsz out j (c :: cs) = some (out, j) := by
  rw [jsonEscStores]
  split_ifs with hc hfull
  · rfl
  · rfl
  · exact absurd (h.resolve_left hc) hfull

/-- One turn of the loop stores the bytes that one byte of the name becomes. -/
lemma jsonEscStores_cons {bufsz : ℤ} {out : Bytes} {j : ℤ} {c : UInt8} {cs : Bytes} (hc : c ≠ 0)
    (hj : j < bufsz - 3) :
    jsonEscStores bufsz out j (c :: cs) = (storeAll out j (jsonEscByte c)).bind fun out =>
      jsonEscStores bufsz out (j + ((jsonEscByte c).length : ℕ)) cs := by
  have hroom : ¬ j ≥ bufsz - 3 := by omega
  rw [jsonEscStores, if_neg hc, if_neg hroom, jsonEscByte]
  cases jsonEscChar c with
  | none => simp [storeAll]
  | some esc => simp [storeAll, Option.bind_assoc]

lemma jsonEscByte_length_le (c : UInt8) : (jsonEscByte c).length ≤ 2 := by
  rw [jsonEscByte]
  split <;> simp

lemma cString_cons {c : UInt8} (hc : c ≠ 0) (cs : Bytes) : cString (c :: cs) = c :: cString cs := by
  simp [cString, hc]

/-- **The loop stays in the buffer.**  At its head `j` is inside: a turn that starts three bytes
before the end leaves a byte for the NUL even if it stores two. -/
theorem jsonEscStores_eq {bufsz : ℕ} {name : Bytes} (hname : 0 ∈ name) {out : Bytes}
    (hout : bufsz ≤ out.length) {j : ℕ} (hj : j < bufsz) :
    j + (jsonEscLoop bufsz j (cString name)).length < bufsz ∧
      jsonEscStores bufsz out j name
        = some (memcpy out j (jsonEscLoop bufsz j (cString name)),
            ((j + (jsonEscLoop bufsz j (cString name)).length : ℕ) : ℤ)) := by
  induction name generalizing out j with
  | nil => simp at hname
  | cons c cs ih =>
      by_cases hc : c = 0
      · subst hc
        have hnil : cString (0 :: cs) = [] := by simp [cString]
        rw [hnil, jsonEscLoop, jsonEscStores_stop (.inl rfl), memcpy_nil]
        exact ⟨hj, rfl⟩
      · rw [cString_cons hc, jsonEscLoop]
        have htail : 0 ∈ cs := by
          rcases List.mem_cons.mp hname with h | h
          · exact absurd h.symm hc
          · exact h
        split_ifs with hfull
        · rw [jsonEscStores_stop (.inr (by omega)), memcpy_nil]
          exact ⟨hj, rfl⟩
        · have hlen := jsonEscByte_length_le c
          have hin : j + (jsonEscByte c).length ≤ out.length := by omega
          have hout' : bufsz ≤ (memcpy out j (jsonEscByte c)).length := by
            rw [length_memcpy hin]
            exact hout
          have hj' : j + (jsonEscByte c).length < bufsz := by omega
          obtain ⟨hlt, heq⟩ := ih htail hout' hj'
          rw [List.length_append, ← Nat.add_assoc]
          refine ⟨hlt, ?_⟩
          rw [jsonEscStores_cons hc (by omega), storeAll_eq hin, Option.bind_some, ← Nat.cast_add,
            heq, memcpy_memcpy (by omega)]

lemma jsonEsc_ne_zero (name : Bytes) (bufsz : ℕ) : ∀ c ∈ jsonEsc name bufsz, c ≠ 0 :=
  jsonEscLoop_ne_zero (cString_nul_free name) 0

/-- **What `json_esc` leaves in the buffer**: its string, a NUL, and the rest as it was. -/
theorem jsonEscInto_eq {bufsz : ℕ} {name : Bytes} (hname : 0 ∈ name) {out : Bytes}
    (hbufsz : 0 < bufsz) (hout : bufsz ≤ out.length) :
    (jsonEsc name bufsz).length < bufsz ∧
      jsonEscInto out name bufsz = some (memcpy out 0 (jsonEsc name bufsz ++ [0])) := by
  obtain ⟨hlt, heq⟩ := jsonEscStores_eq hname hout hbufsz
  have hesc : jsonEscLoop bufsz 0 (cString name) = jsonEsc name bufsz := rfl
  rw [hesc, Nat.zero_add] at hlt heq
  have hlen : (memcpy out 0 (jsonEsc name bufsz)).length = out.length :=
    length_memcpy (by omega)
  have hin : (jsonEsc name bufsz).length < (memcpy out 0 (jsonEsc name bufsz)).length := by omega
  have happ : memcpy (memcpy out 0 (jsonEsc name bufsz)) (0 + (jsonEsc name bufsz).length) [0]
      = memcpy out 0 (jsonEsc name bufsz ++ [0]) := memcpy_memcpy (Nat.zero_le _)
  rw [Nat.zero_add] at happ
  refine ⟨hlt, ?_⟩
  rw [Nat.cast_zero] at heq
  rw [jsonEscInto, heq, Option.bind_some, store_eq 0 hin, happ]

/-! ## Undoing the escapes -/

/-- The byte that a letter behind a backslash stands for. -/
def jsonUnescChar (e : UInt8) : Option UInt8 :=
  if e = 98 then some 8
  else if e = 102 then some 12
  else if e = 110 then some 10
  else if e = 114 then some 13
  else if e = 116 then some 9
  else if e = 34 then some 34
  else if e = 92 then some 92
  else none

/-- Undoes the seven escapes.  It fails on a text that ends in the middle of an escape pair. -/
def jsonUnesc : Bytes → Option Bytes
  | [] => some []
  | c :: s =>
      if c = 92 then
        match s with
        | [] => none
        | e :: s => (jsonUnescChar e).bind fun c => (jsonUnesc s).map (c :: ·)
      else (jsonUnesc s).map (c :: ·)

lemma jsonUnescChar_jsonEscChar {c e : UInt8} (h : jsonEscChar c = some e) :
    jsonUnescChar e = some c := by
  unfold jsonEscChar at h
  split_ifs at h with h₁ h₂ h₃ h₄ h₅ h₆ h₇ <;> simp_all [jsonUnescChar, eq_comm]

lemma jsonUnesc_jsonEscByte (c : UInt8) (s : Bytes) :
    jsonUnesc (jsonEscByte c ++ s) = (jsonUnesc s).map (c :: ·) := by
  rw [jsonEscByte]
  cases hesc : jsonEscChar c with
  | none =>
      have h92 : c ≠ 92 := (jsonEscChar_of_ge hesc).2
      cases s <;> simp [jsonUnesc, h92]
  | some e =>
      simp [jsonUnesc, jsonUnescChar_jsonEscChar hesc]

/-- Escaping byte by byte can be undone. -/
lemma jsonUnesc_flatMap (name : Bytes) : jsonUnesc (name.flatMap jsonEscByte) = some name := by
  induction name with
  | nil => rfl
  | cons c cs ih => rw [List.flatMap_cons, jsonUnesc_jsonEscByte, ih, Option.map_some]

lemma jsonKept_prefix (bufsz : ℕ) (name : Bytes) (j : ℕ) : jsonKept bufsz j name <+: name := by
  induction name generalizing j with
  | nil => simp [jsonKept]
  | cons c cs ih =>
      rw [jsonKept]
      split_ifs
      · exact List.nil_prefix
      · exact (List.prefix_cons_inj c).mpr (ih _)

lemma length_flatMap_dropLast_lt {name : Bytes} (h : name ≠ []) :
    (name.dropLast.flatMap jsonEscByte).length < (name.flatMap jsonEscByte).length := by
  have hlast := jsonEscByte_length_pos (name.getLast h)
  conv_rhs => rw [← List.dropLast_append_getLast h]
  simpa using hlast

/-- A name whose escaped form fits is kept whole. -/
lemma jsonKept_of_fits {bufsz : ℕ} {name : Bytes}
    (h : (name.flatMap jsonEscByte).length ≤ bufsz - 3) : jsonKept bufsz 0 name = name := by
  refine jsonKept_eq_self.mpr (or_iff_not_imp_left.mpr fun hne => ?_)
  have hlt := length_flatMap_dropLast_lt hne
  omega

/-- **What escaping must leave in `out`**, for a buffer of which `bufsz` bytes may be written. -/
structure Escapes (name : Bytes) (bufsz : ℤ) (out out' : Bytes) : Prop where
  inside : out'.length = out.length ∧ out'.drop bufsz.toNat = out.drop bufsz.toNat
  terminated : 0 ∈ out'.take bufsz.toNat
  undone : ∃ kept, jsonUnesc (cString out') = some kept ∧ kept <+: cString name ∧
    ((((cString name).flatMap jsonEscByte).length : ℤ) ≤ bufsz - 3 → kept = cString name)

lemma jsonEscInto_escapes {name : Bytes} (hname : 0 ∈ name) {bufsz : ℕ} (hbufsz : 0 < bufsz)
    {out : Bytes} (hout : bufsz ≤ out.length) :
    Escapes name bufsz out (memcpy out 0 (jsonEsc name bufsz ++ [0])) := by
  have hlt := (jsonEscInto_eq hname hbufsz hout).1
  have hlen : (jsonEsc name bufsz ++ [0]).length ≤ bufsz := by
    rw [List.length_append, List.length_singleton]
    omega
  have hesc : jsonEsc name bufsz = (jsonKept bufsz 0 (cString name)).flatMap jsonEscByte :=
    jsonEscLoop_eq bufsz (cString name) 0
  have hin : 0 + (jsonEsc name bufsz ++ [0]).length ≤ out.length := by omega
  refine ⟨⟨length_memcpy hin, memcpy_terminated_drop hlt⟩, ?_, ?_⟩
  · rw [memcpy, List.take_zero, List.nil_append, Int.toNat_natCast, List.take_append,
      List.take_of_length_le hlen]
    simp
  · rw [cString_terminated (jsonEsc_ne_zero name bufsz), hesc]
    refine ⟨_, jsonUnesc_flatMap _, jsonKept_prefix bufsz _ 0, fun hfits => ?_⟩
    exact jsonKept_of_fits (by omega)

/-! ## The entry line -/

/-- The text that `sprintf` makes of an entry.  The address is 0, printed with `0x%X`. -/
def entryLine (comma : Bool) (fd : ℤ) (nameEsc : Bytes) (size : ℤ) : Bytes :=
  (if comma then ascii "," else []) ++ ascii "\x7b\"index\": " ++ sprintfD fd ++
    ascii ", \"name\": \"" ++ nameEsc ++ ascii "\", \"size\": " ++ sprintfD size ++
    ascii ", \"addr\": \"0x0\" \x7d\n"

/-- What `cgiFileIdx` does with its buffers `name_esc` and `buff` for one entry: `buff`
afterwards. -/
def formatEntry (nameEsc buff : Bytes) (comma : Bool) (fd : ℤ) (name : Bytes) (size : ℤ) :
    Option Bytes :=
  (jsonEscInto nameEsc name 128).bind fun nameEsc =>
    strcpy buff 0 (entryLine comma fd (cString nameEsc) size)

/-- The rows of the index are such lines. -/
lemma print_eq_entryLine (comma : Bool) (r : FileRow) :
    r.print comma = entryLine comma r.fd (jsonEsc r.name 128) r.size := rfl

/-- A 32-bit `int` is printed in at most eleven bytes. -/
lemma length_sprintfD_toInt (i : Int32) : (sprintfD i.toInt).length ≤ 11 := by
  have hlo := i.le_toInt
  have hhi := i.toInt_lt
  have hdigits : (decimal i.toInt.natAbs).length ≤ 10 := length_decimal_le (by decide) (by omega)
  rw [sprintfD]
  split_ifs
  · rw [List.length_cons]
    omega
  · omega

lemma entryLine_ne_zero {comma : Bool} {fd : ℤ} {nameEsc : Bytes} {size : ℤ}
    (hname : ∀ c ∈ nameEsc, c ≠ 0) : ∀ c ∈ entryLine comma fd nameEsc size, c ≠ 0 := by
  intro c hc
  simp only [entryLine, List.mem_append] at hc
  rcases hc with ((((((hc | hc) | hc) | hc) | hc) | hc) | hc) | hc
  · cases comma
    · simp at hc
    · exact ne_zero_of_all (by decide) c hc
  · exact ne_zero_of_all (by decide) c hc
  · exact sprintfD_ne_zero c hc
  · exact ne_zero_of_all (by decide) c hc
  · exact hname c hc
  · exact ne_zero_of_all (by decide) c hc
  · exact sprintfD_ne_zero c hc
  · exact ne_zero_of_all (by decide) c hc

/-- **The longest line has 200 bytes**: 62 of the format, two numbers and a full `name_esc`. -/
lemma length_entryLine_le (comma : Bool) (fd size : Int32) {nameEsc : Bytes}
    (hname : nameEsc.length < 128) :
    (entryLine comma fd.toInt nameEsc size.toInt).length < 256 := by
  have hcomma : (if comma then ascii "," else []).length ≤ 1 := by cases comma <;> decide
  have hfd := length_sprintfD_toInt fd
  have hsize := length_sprintfD_toInt size
  have hindex : (ascii "\x7b\"index\": ").length = 10 := rfl
  have hkey : (ascii ", \"name\": \"").length = 11 := rfl
  have hsizeKey : (ascii "\", \"size\": ").length = 11 := rfl
  have haddr : (ascii ", \"addr\": \"0x0\" \x7d\n").length = 18 := rfl
  simp only [entryLine, List.length_append]
  omega

/-- **Bounded escaping.**  For every name and every `bufsz` from 1 on, `json_esc` stores inside
`out[0..bufsz-1]` only, whatever lies in the buffer and behind it, and what it leaves there is the
escaped name, cut between two characters if it is too long.  The line made of a name escaped into
128 bytes, a handle and a size fits in the 256 bytes of `buff`, and is the row of the index. -/
theorem jsonEsc_bounded {name : Bytes} (hname : 0 ∈ name) :
    (∀ (bufsz : ℤ) (out : Bytes), 1 ≤ bufsz → bufsz ≤ out.length →
      ∃ out', jsonEscInto out name bufsz = some out' ∧ Escapes name bufsz out out') ∧
    ∀ (comma : Bool) (fd size : Int32) (nameEsc buff : Bytes), nameEsc.length = 128 →
      buff.length = 256 →
      ∃ buff', formatEntry nameEsc buff comma fd.toInt name size.toInt = some buff' ∧
        cString buff' = entryLine comma fd.toInt (jsonEsc name 128) size.toInt ∧
        (cString buff').length + 1 ≤ 256 := by
  constructor
  · intro bufsz out hbufsz hout
    lift bufsz to ℕ using by omega
    have hpos : 0 < bufsz := by omega
    have hle : bufsz ≤ out.length := by omega
    exact ⟨_, (jsonEscInto_eq hname hpos hle).2, jsonEscInto_escapes hname hpos hle⟩
  · intro comma fd size nameEsc buff hnameEsc hbuff
    have hbufsz : 0 < 128 := by decide
    obtain ⟨hlt, hinto⟩ := jsonEscInto_eq hname hbufsz hnameEsc.ge
    have hname' : cString (memcpy nameEsc 0 (jsonEsc name 128 ++ [0])) = jsonEsc name 128 :=
      cString_terminated (jsonEsc_ne_zero name 128)
    have hline := length_entryLine_le comma fd size hlt
    have hnul : ∀ c ∈ entryLine comma fd.toInt (jsonEsc name 128) size.toInt, c ≠ 0 :=
      entryLine_ne_zero (jsonEsc_ne_zero name 128)
    refine ⟨memcpy buff 0 (entryLine comma fd.toInt (jsonEsc name 128) size.toInt ++ [0]), ?_, ?_⟩
    · have hcopy := strcpy_eq hnul (b := buff) (i := 0) (by omega)
      rw [formatEntry, ← Nat.cast_ofNat, hinto, Option.bind_some, hname']
      exact hcopy
    · rw [cString_terminated hnul]
      exact ⟨rfl, hline⟩

/-- A name with a quote, into a buffer of five bytes that cuts it. -/
theorem jsonEsc_bounded_quote :
    (∃ out', jsonEscInto [7, 7, 7, 7, 7] (ascii "\"a" ++ [0]) 5 = some out' ∧
      Escapes (ascii "\"a" ++ [0]) 5 [7, 7, 7, 7, 7] out') ∧
    ∃ buff', formatEntry (List.replicate 128 7) (List.replicate 256 7) true (-1)
        (ascii "\"a" ++ [0]) (-2147483648) = some buff' ∧
      cString buff' = entryLine true (-1) (jsonEsc (ascii "\"a" ++ [0]) 128) (-2147483648) ∧
      (cString buff').length + 1 ≤ 256 := by
  have hname : (0 : UInt8) ∈ ascii "\"a" ++ [0] := by decide
  obtain ⟨hinto, hformat⟩ := jsonEsc_bounded hname
  exact ⟨hinto 5 _ (by decide) (by decide),
    hformat true (-1) (-2147483648) (List.replicate 128 7) (List.replicate 256 7)
      List.length_replicate List.length_replicate⟩

end Chooser
