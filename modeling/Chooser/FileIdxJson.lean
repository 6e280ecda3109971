import Chooser.FileIdx
import Chooser.Lib.Json
import Chooser.RamAppfs

/-!
# Is the index JSON?

`main.js` hands the text of the index to `JSON.parse`.  What that finds depends on the names:
`json_esc` leaves control characters other than its five as they are, which JSON does not allow in
a string, and it stops when its buffer is full, so that a long name loses its end.  With names that
are neither, and only with those, the text is JSON and says what is stored (`cgiFileIdx_json`).

The parser is run on the text from the inside out: a name, a row, all rows, the whole.
-/

namespace Chooser

open CStr Json

/-! ## Names -/

/-- The part of a name that `json_esc` has room for. -/
def jsonKept (bufsz : ℕ) : ℕ → Bytes → Bytes
  | _, [] => []
  | j, c :: cs =>
      if bufsz - 3 ≤ j then [] else c :: jsonKept bufsz (j + (jsonEscByte c).length) cs

/-- A byte that is allowed in a string, or escaped. -/
def Printable (c : UInt8) : Prop := 32 ≤ c ∨ (jsonEscChar c).isSome

instance : DecidablePred Printable := fun c => inferInstanceAs (Decidable (32 ≤ c ∨ _))

/-- **The names that can be listed**: no control character that `json_esc` does not know, and not
longer, escaped and without the last byte, than its buffer has room for. -/
def Listable (name : Bytes) : Prop :=
  (∀ c ∈ name, Printable c) ∧ (name.dropLast.flatMap jsonEscByte).length < 125

lemma jsonEscLoop_eq (bufsz : ℕ) (name : Bytes) (j : ℕ) :
    jsonEscLoop bufsz j name = (jsonKept bufsz j name).flatMap jsonEscByte := by
  induction name generalizing j with
  | nil => rfl
  | cons c cs ih =>
      rw [jsonEscLoop, jsonKept]
      split_ifs
      · rfl
      · rw [List.flatMap_cons, ih]

lemma jsonEscByte_length_pos (c : UInt8) : 0 < (jsonEscByte c).length := by
  rw [jsonEscByte]
  split <;> simp

/-- A name is kept whole if all but its last byte leave room. -/
lemma jsonKept_eq_self {bufsz : ℕ} {name : Bytes} {j : ℕ} :
    jsonKept bufsz j name = name ↔
      name = [] ∨ j + (name.dropLast.flatMap jsonEscByte).length < bufsz - 3 := by
  induction name generalizing j with
  | nil => simp [jsonKept]
  | cons c cs ih =>
      have hpos := jsonEscByte_length_pos c
      rw [jsonKept]
      split_ifs with hfull
      · simp
        omega
      · rw [List.cons_inj_right, ih]
        cases cs with
        | nil => simp; omega
        | cons d ds =>
            simp only [List.dropLast_cons_of_ne_nil (List.cons_ne_nil d ds), List.flatMap_cons,
              List.length_append, reduceCtorEq, false_or]
            omega

/-- The escapes of `json_esc` are JSON escapes. -/
lemma simpleEscape_jsonEscChar {c e : UInt8} (h : jsonEscChar c = some e) :
    simpleEscape e = some c := by
  unfold jsonEscChar at h
  split_ifs at h <;> (obtain rfl := Option.some.inj h; subst_vars; decide)

lemma jsonEscChar_of_ge {c : UInt8} (h : jsonEscChar c = none) : c ≠ 34 ∧ c ≠ 92 := by
  constructor <;> rintro rfl <;> exact absurd h (by decide)

/-- One byte of a name, read back. -/
lemma stringBody_jsonEscByte (c : UInt8) (s : Bytes) :
    stringBody .plain (jsonEscByte c ++ s) =
      if Printable c then (stringBody .plain s).map fun r => (c :: r.1, r.2) else none := by
  rw [jsonEscByte]
  cases hesc : jsonEscChar c with
  | some e =>
      have hc : Printable c := Or.inr (by simp [hesc])
      rw [if_pos hc]
      exact stringBody_escape (simpleEscape_jsonEscChar hesc) s
  | none =>
      obtain ⟨h34, h92⟩ := jsonEscChar_of_ge hesc
      by_cases h32 : 32 ≤ c
      · have hc : Printable c := Or.inl h32
        rw [if_pos hc]
        exact stringBody_self h34 h92 h32 s
      · have hc : ¬ Printable c := by simp [Printable, h32, hesc]
        rw [if_neg hc]
        exact stringBody_control (UInt8.not_le.mp h32) s

/-- **A name, read back.** -/
lemma stringBody_jsonEsc (name s : Bytes) :
    stringBody .plain (name.flatMap jsonEscByte ++ 34 :: s) =
      if ∀ c ∈ name, Printable c then some (name, s) else none := by
  induction name with
  | nil => simp
  | cons c cs ih =>
      rw [List.flatMap_cons, List.append_assoc, stringBody_jsonEscByte, ih]
      by_cases hc : Printable c <;> by_cases hcs : ∀ c ∈ cs, Printable c <;> simp [hc, hcs]

/-! ## Rows -/

/-- The name of a row as `json_esc` prints it, before the escapes. -/
def FileRow.keptName (r : FileRow) : Bytes := jsonKept 128 0 (cString r.name)

/-- Can the row be parsed? -/
def FileRow.Parses (r : FileRow) : Prop := ∀ c ∈ r.keptName, Printable c

instance : DecidablePred FileRow.Parses :=
  fun r => inferInstanceAs (Decidable (∀ c ∈ r.keptName, Printable c))

/-- The object that a row is. -/
def FileRow.json (r : FileRow) : Value :=
  .object [(ascii "index", .number r.fd 0), (ascii "name", .string r.keptName),
    (ascii "size", .number r.size 0), (ascii "addr", .string (ascii "0x0"))]

/-- The members of a row, the last first. -/
lemma members_addr (n : ℕ) (s : Bytes) :
    members (n + 2) (ascii " \"addr\": \"0x0\" \x7d\n" ++ s)
      = some ([(ascii "addr", .string (ascii "0x0"))], 10 :: s) := by
  have htext : ascii " \"addr\": \"0x0\" \x7d\n" ++ s
      = 32 :: 34 :: (ascii "addr" ++ 34 :: 58 :: 32 :: 34 :: (ascii "0x0" ++ 34 :: 32 :: 125 ::
        10 :: s)) := rfl
  have hval : value (n + 1) (32 :: 34 :: (ascii "0x0" ++ 34 :: 32 :: 125 :: 10 :: s))
      = some (.string (ascii "0x0"), 32 :: 125 :: 10 :: s) := by
    rw [value_ws n _ (by decide), value_string, stringBody_text (text_of_all (by decide))]
    rfl
  rw [htext]
  refine members_last (by rw [expect_ws _ _ (by decide)]; exact expect_key _ (by decide) _)
    (by rw [expect_self _ (by decide)]; exact hval) ?_ ?_
  · rw [expect_ws _ _ (by decide), expect_other _ (by decide) (by decide)]
  · rw [expect_ws _ _ (by decide), expect_self _ (by decide)]

lemma members_size (n size : ℕ) (s : Bytes) :
    members (n + 3)
        (ascii " \"size\": " ++ (decimal size ++ (ascii ", \"addr\": \"0x0\" \x7d\n" ++ s)))
      = some ([(ascii "size", .number size 0), (ascii "addr", .string (ascii "0x0"))],
          10 :: s) := by
  have htext : ∀ t, ascii " \"size\": " ++ t = 32 :: 34 :: (ascii "size" ++ 34 :: 58 :: 32 :: t) :=
    fun _ => rfl
  have hrest : ascii ", \"addr\": \"0x0\" \x7d\n" ++ s
      = 44 :: (ascii " \"addr\": \"0x0\" \x7d\n" ++ s) := rfl
  rw [htext, hrest, members_next (v := .number size 0)
    (by rw [expect_ws _ _ (by decide)]; exact expect_key _ (by decide) _)
    (by
      rw [expect_self _ (by decide), Option.bind_some, value_ws _ _ (by decide)]
      exact value_decimal _ _ (endsNumber_cons (by decide)))
    (expect_self _ (by decide)), members_addr]
  rfl

lemma members_name (n : ℕ) (r : FileRow) (s : Bytes) :
    members (n + 4) (ascii " \"name\": \"" ++ (r.keptName.flatMap jsonEscByte ++
        (ascii "\", \"size\": " ++ (decimal r.size ++ (ascii ", \"addr\": \"0x0\" \x7d\n" ++ s)))))
      = if r.Parses then some ([(ascii "name", .string r.keptName),
          (ascii "size", .number r.size 0), (ascii "addr", .string (ascii "0x0"))], 10 :: s)
        else none := by
  have htext : ∀ t, ascii " \"name\": \"" ++ t
      = 32 :: 34 :: (ascii "name" ++ 34 :: 58 :: 32 :: 34 :: t) := fun _ => rfl
  have hrest : ∀ t, ascii "\", \"size\": " ++ t = 34 :: 44 :: (ascii " \"size\": " ++ t) :=
    fun _ => rfl
  have hval : ∀ t, value (n + 3) (32 :: 34 :: (r.keptName.flatMap jsonEscByte ++ 34 :: t))
      = if r.Parses then some (.string r.keptName, t) else none := by
    intro t
    rw [value_ws _ _ (by decide), value_string, stringBody_jsonEsc]
    by_cases hr : r.Parses
    · rw [if_pos hr, if_pos (show ∀ c ∈ r.keptName, Printable c from hr), Option.map_some]
    · rw [if_neg hr, if_neg (show ¬ ∀ c ∈ r.keptName, Printable c from hr), Option.map_none]
  rw [htext, hrest]
  have hkey := expect_key (ascii "name") (by decide)
    (58 :: 32 :: 34 :: (r.keptName.flatMap jsonEscByte ++ 34 :: 44 :: (ascii " \"size\": " ++
      (decimal r.size ++ (ascii ", \"addr\": \"0x0\" \x7d\n" ++ s)))))
  rw [← expect_ws (d := 32) _ _ (by decide)] at hkey
  by_cases hr : r.Parses
  · rw [members_next hkey (by rw [expect_self _ (by decide), Option.bind_some, hval, if_pos hr])
      (expect_self _ (by decide)), members_size, if_pos hr]
    rfl
  · rw [members_bad hkey (by rw [expect_self _ (by decide), Option.bind_some, hval, if_neg hr]),
      if_neg hr]

/-- **A row, read back.** -/
lemma value_row (n : ℕ) {r : FileRow} (hfd : 0 ≤ r.fd) (s : Bytes) :
    value (n + 6) (r.print false ++ s) = if r.Parses then some (r.json, 10 :: s) else none := by
  obtain ⟨k, hk⟩ := Int.eq_ofNat_of_zero_le hfd
  have htext : r.print false ++ s = 123 :: 34 :: (ascii "index" ++ 34 :: 58 :: 32 :: (decimal k ++
      44 :: (ascii " \"name\": \"" ++ (r.keptName.flatMap jsonEscByte ++ (ascii "\", \"size\": " ++
        (decimal r.size ++ (ascii ", \"addr\": \"0x0\" \x7d\n" ++ s))))))) := by
    rw [FileRow.print, jsonEsc, jsonEscLoop_eq, hk, sprintfD_natCast, sprintfD_natCast]
    simp only [Bool.false_eq_true, if_false, List.nil_append, List.append_assoc]
    rfl
  have hopen : ∀ t, expect 125 (34 :: t) = none := fun t => expect_other t (by decide) (by decide)
  rw [htext, value_object _ (hopen _), members_next (expect_key _ (by decide) _) (v := .number k 0)
    (by
      rw [expect_self _ (by decide), Option.bind_some, value_ws _ _ (by decide)]
      exact value_decimal _ _ (endsNumber_cons (by decide)))
    (expect_self _ (by decide)), members_name]
  by_cases hr : r.Parses
  · rw [if_pos hr, if_pos hr, FileRow.json, hk]
    rfl
  · rw [if_neg hr, if_neg hr]
    rfl

/-! ## The whole text -/

/-- All rows, of which there is at least one. -/
lemma elements_rows {rows : List FileRow} (hfd : ∀ r ∈ rows, 0 ≤ r.fd) {r : FileRow}
    (hr : 0 ≤ r.fd) (n : ℕ) (s : Bytes) :
    elements (n + rows.length + 7) (r.print false ++ (printRows true rows ++ 93 :: s))
      = if ∀ r' ∈ r :: rows, r'.Parses then some ((r :: rows).map FileRow.json, s) else none := by
  induction rows generalizing r with
  | nil =>
      have hrow := value_row n hr (93 :: s)
      rw [printRows, List.nil_append, List.length_nil, Nat.add_zero]
      by_cases hp : r.Parses
      · rw [if_pos hp] at hrow
        rw [elements_last hrow
          ((expect_ws _ _ (by decide)).trans (expect_other _ (by decide) (by decide)))
          ((expect_ws _ _ (by decide)).trans (expect_self _ (by decide))),
          if_pos (by simpa using hp)]
        rfl
      · rw [if_neg hp] at hrow
        rw [elements_bad hrow, if_neg (by simpa using hp)]
  | cons r' rows ih =>
      have hrest := ih (fun q hq => hfd q (by simp [hq])) (hfd r' (by simp))
      have hrow := value_row (n + rows.length + 1) hr (44 :: (r'.print false ++
        (printRows true rows ++ 93 :: s)))
      rw [printRows_cons, print_true, List.cons_append, List.cons_append, List.append_assoc,
        List.length_cons]
      by_cases hp : r.Parses
      · rw [if_pos hp] at hrow
        rw [show n + (rows.length + 1) + 7 = (n + rows.length + 7) + 1 from by omega,
          elements_next hrow ((expect_ws _ _ (by decide)).trans (expect_self _ (by decide))),
          hrest]
        by_cases hps : ∀ q ∈ r' :: rows, q.Parses
        · rw [if_pos hps, if_pos (List.forall_mem_cons.mpr ⟨hp, hps⟩)]
          rfl
        · rw [if_neg hps, if_neg fun h => hps (List.forall_mem_cons.mp h).2]
          rfl
      · rw [if_neg hp] at hrow
        rw [show n + (rows.length + 1) + 7 = (n + rows.length + 7) + 1 from by omega,
          elements_bad hrow, if_neg fun h => hp (List.forall_mem_cons.mp h).1]

/-- The value of the key `files`. -/
lemma value_files {rows : List FileRow} (hfd : ∀ r ∈ rows, 0 ≤ r.fd) (n : ℕ) (s : Bytes) :
    value (n + rows.length + 8) (32 :: 91 :: 10 :: (printRows false rows ++ 93 :: s))
      = if ∀ r ∈ rows, r.Parses then some (.array (rows.map FileRow.json), s) else none := by
  rw [value_ws _ _ (by decide)]
  cases rows with
  | nil =>
      rw [printRows, List.nil_append, value_array_nil _
        ((expect_ws _ _ (by decide)).trans (expect_self _ (by decide))), if_pos (by simp)]
      rfl
  | cons r rows =>
      have hopen : expect 93 (10 :: (printRows false (r :: rows) ++ 93 :: s)) = none := by
        rw [expect_ws _ _ (by decide), printRows_cons]
        exact expect_other _ (by decide) (by decide)
      rw [value_array _ hopen, printRows_cons, List.append_assoc, List.length_cons,
        show n + (rows.length + 1) + 7 = (n + 1 + rows.length) + 7 from by omega,
        elements_ws _ _ (by decide), elements_rows (fun q hq => hfd q (by simp [hq]))
          (hfd r (by simp))]
      by_cases hps : ∀ q ∈ r :: rows, q.Parses
      · rw [if_pos hps, if_pos hps]
        rfl
      · rw [if_neg hps, if_neg hps]
        rfl

/-- The object that an index is. -/
def indexJson (rows : List FileRow) (free : ℕ) : Value :=
  .object [(ascii "files", .array (rows.map FileRow.json)), (ascii "free", .number free 0)]

lemma length_le_printRows (rows : List FileRow) (comma : Bool) :
    rows.length ≤ (printRows comma rows).length := by
  induction rows generalizing comma with
  | nil => simp
  | cons r rows ih =>
      have := ih true
      have hpos : 0 < (r.print comma).length := by
        have hlit : (ascii "\x7b\"index\": ").length = 10 := rfl
        simp only [FileRow.print, List.length_append, hlit]
        omega
      rw [printRows_cons, List.length_append, List.length_cons]
      omega

/-- **The text of an index, parsed**: it is JSON if and only if every row is. -/
theorem parse_fileIdxText {rows : List FileRow} (hfd : ∀ r ∈ rows, 0 ≤ r.fd) (free : ℕ) :
    parse (fileIdxText rows free)
      = if ∀ r ∈ rows, r.Parses then some (indexJson rows free) else none := by
  have htext : fileIdxText rows free = 123 :: 10 :: 34 :: (ascii "files" ++ 34 :: 58 :: 32 :: 91 ::
      10 :: (printRows false rows ++ 93 :: 44 :: 10 :: 34 :: (ascii "free" ++ 34 :: 58 :: 32 ::
        (decimal free ++ [125, 10])))) := by
    simp only [fileIdxText, List.append_assoc]
    rfl
  obtain ⟨n, hn⟩ : ∃ n, 2 * (fileIdxText rows free).length + 2 = n + rows.length + 8 + 2 := by
    refine ⟨2 * (fileIdxText rows free).length + 2 - (rows.length + 10), ?_⟩
    have := length_le_printRows rows false
    rw [htext]
    simp only [List.length_cons, List.length_append]
    omega
  rw [parse, hn, htext]
  have hopen : ∀ t, expect 125 (10 :: 34 :: t) = none := by
    intro t
    rw [expect_ws _ _ (by decide)]
    exact expect_other t (by decide) (by decide)
  have hfiles : ∀ t, (expect 34 (10 :: 34 :: (ascii "files" ++ 34 :: t))).bind (stringBody .plain)
      = some (ascii "files", t) := by
    intro t
    rw [expect_ws _ _ (by decide)]
    exact expect_key _ (by decide) t
  have hfree : ∀ m, members (m + 2) (10 :: 34 :: (ascii "free" ++ 34 :: 58 :: 32 ::
      (decimal free ++ [125, 10]))) = some ([(ascii "free", .number free 0)], [10]) := by
    intro m
    refine members_last (by rw [expect_ws _ _ (by decide)]; exact expect_key _ (by decide) _)
      ?_ (expect_other _ (by decide) (by decide)) (expect_self _ (by decide))
    rw [expect_self _ (by decide), Option.bind_some, value_ws _ _ (by decide)]
    exact value_decimal _ _ (endsNumber_cons (by decide))
  rw [value_object _ (hopen _)]
  have hval := value_files hfd n (44 :: 10 :: 34 :: (ascii "free" ++ 34 :: 58 :: 32 ::
    (decimal free ++ [125, 10])))
  by_cases hps : ∀ r ∈ rows, r.Parses
  · rw [if_pos hps] at hval
    rw [members_next (hfiles _) (by rw [expect_self _ (by decide)]; exact hval)
      (expect_self _ (by decide)), show n + rows.length + 8 = (n + rows.length + 6) + 2 from rfl,
      hfree, if_pos hps]
    rfl
  · rw [if_neg hps] at hval
    rw [members_bad (hfiles _) (by rw [expect_self _ (by decide)]; exact hval), if_neg hps]
    rfl

/-! ## What the browser reads -/

/-- What `main.js` reads of a row. -/
structure RowSays (e : Handle × AppfsFile) (row : Value) : Prop where
  index : row.field (ascii "index") = some (.number e.1 0)
  name : row.field (ascii "name") = some (.string e.2.name)
  size : row.field (ascii "size") = some (.number e.2.size 0)

/-- A value with a row for each of these files, in their order, and the free memory. -/
def IndexSays (v : Value) (es : List (Handle × AppfsFile)) (free : ℕ) : Prop :=
  (∃ rows, v.field (ascii "files") = some (.array rows) ∧ List.Forall₂ RowSays es rows) ∧
    v.field (ascii "free") = some (.number free 0)

section Index

variable {σ : Type} {A : Appfs σ} {files : σ → Files}

/-- **The index is JSON that says what is stored**: the whole of what a run sends is UTF-8, and
parses as an object with one row for each stored file, in the order of `appfsNextEntry`. -/
def IndexIsJson (A : Appfs σ) (files : σ → Files) (s : σ) : Prop :=
  ∃ es out, CgiRun (fileIdxCall A) 0 none s out s ∧ Entries A files s appfsInvalidFd es ∧
    (∀ h f, (h, f) ∈ es ↔ files s h = some f) ∧ es.Pairwise (fun e e' => e.1 < e'.1) ∧
    ValidUtf8 (bodySent out) ∧ ∃ v, parse (bodySent out) = some v ∧ IndexSays v es (A.freeMem s)

/-- A file is listed right if and only if its name is kept, and can be parsed. -/
lemma rowSays_json {e : Handle × AppfsFile} :
    RowSays e (entryRow e).json ↔ (entryRow e).keptName = e.2.name := by
  have hname : (entryRow e).json.field (ascii "name") = some (.string (entryRow e).keptName) := rfl
  constructor
  · rintro ⟨_, h, _⟩
    rw [hname] at h
    exact Value.string.inj (Option.some.inj h)
  · intro h
    exact ⟨rfl, by rw [hname, h], rfl⟩

/-- For a NUL-free name both together are `Listable`. -/
lemma listable_iff {e : Handle × AppfsFile} (hnul : ∀ c ∈ e.2.name, c ≠ 0) :
    (entryRow e).Parses ∧ (entryRow e).keptName = e.2.name ↔ Listable e.2.name := by
  have hkept : (entryRow e).keptName = jsonKept 128 0 e.2.name := by
    rw [FileRow.keptName, entryRow, cString_of_nul_free hnul]
  have hfits : (entryRow e).keptName = e.2.name ↔
      (e.2.name.dropLast.flatMap jsonEscByte).length < 125 := by
    rw [hkept, jsonKept_eq_self]
    constructor
    · rintro (h | h)
      · simp [h]
      · omega
    · exact fun h => Or.inr (by omega)
  rw [Listable, ← hfits]
  constructor
  · rintro ⟨hp, h⟩
    exact ⟨by rw [← h]; exact hp, h⟩
  · rintro ⟨hp, h⟩
    exact ⟨by rw [FileRow.Parses, h]; exact hp, h⟩

/-- Escaping keeps a text UTF-8. -/
lemma validUtf8_jsonEsc {name : Bytes} (h : ValidUtf8 name) :
    ValidUtf8 (name.flatMap jsonEscByte) := by
  refine h.flatMap (fun c hc b hb => ?_) fun c hc => ?_
  · rw [jsonEscByte, jsonEscChar] at hb
    split_ifs at hb <;> simp only [List.mem_cons, List.not_mem_nil, or_false] at hb
    case neg => exact hb ▸ hc
    all_goals rcases hb with rfl | rfl <;> decide
  · have hne : ∀ d : UInt8, d < 128 → c ≠ d := by
      rintro d hd rfl
      exact absurd hc (UInt8.not_le.mpr hd)
    simp [jsonEscByte, jsonEscChar, hne 92 (by decide), hne 34 (by decide), hne 9 (by decide),
      hne 13 (by decide), hne 10 (by decide), hne 12 (by decide), hne 8 (by decide)]

lemma validUtf8_decimal (n : ℕ) : ValidUtf8 (decimal n) := by
  refine validUtf8_ascii fun c hc => ?_
  have hdigit := isDigit_of_mem_decimal hc
  simp only [isDigit, Bool.and_eq_true, decide_eq_true_eq] at hdigit
  exact UInt8.lt_of_le_of_lt hdigit.2 (by decide)

/-- For a literal the check is a computation. -/
lemma validUtf8_of_all {b : Bytes} (h : b.all (fun c => decide (c < 128)) = true) : ValidUtf8 b :=
  validUtf8_ascii (by simpa using h)

/-- A text whose rows keep their names is UTF-8. -/
lemma validUtf8_fileIdxText {es : List (Handle × AppfsFile)}
    (hes : ∀ e ∈ es, (0 : ℤ) ≤ e.1 ∧ ValidUtf8 e.2.name ∧ (entryRow e).keptName = e.2.name)
    (free : ℕ) : ValidUtf8 (fileIdxText (es.map entryRow) free) := by
  have hrows : ∀ comma, ValidUtf8 (printRows comma (es.map entryRow)) := by
    induction es with
    | nil => exact fun _ => ⟨[], rfl⟩
    | cons e es ih =>
        intro comma
        obtain ⟨hfd, hutf8, hkept⟩ := hes e (by simp)
        obtain ⟨k, hk⟩ := Int.eq_ofNat_of_zero_le hfd
        have hname : ValidUtf8 (jsonEsc (entryRow e).name 128) := by
          rw [jsonEsc, jsonEscLoop_eq]
          rw [FileRow.keptName] at hkept
          rw [hkept]
          exact validUtf8_jsonEsc hutf8
        rw [List.map_cons, printRows_cons]
        refine ValidUtf8.append ?_ (ih (fun e he => hes e (by simp [he])) true)
        rw [FileRow.print, show (entryRow e).fd = (k : ℤ) from hk, sprintfD_natCast,
          sprintfD_natCast]
        refine ((((((ValidUtf8.append ?_ (validUtf8_of_all (by decide))).append
          (validUtf8_decimal k)).append (validUtf8_of_all (by decide))).append hname).append
          (validUtf8_of_all (by decide))).append (validUtf8_decimal _)).append
          (validUtf8_of_all (by decide))
        cases comma
        · exact ⟨[], rfl⟩
        · exact validUtf8_of_all (by decide)
  exact ((((validUtf8_of_all (by decide)).append (hrows false)).append
    (validUtf8_of_all (by decide))).append (validUtf8_decimal free)).append
    (validUtf8_of_all (by decide))

/-- The handles of the rows. -/
lemma entryRow_fd (hA : A.Laws files) {s : σ} {es : List (Handle × AppfsFile)}
    (hmem : ∀ h f, (h, f) ∈ es ↔ files s h = some f) : ∀ r ∈ es.map entryRow, 0 ≤ r.fd := by
  intro r hr
  obtain ⟨⟨h, f⟩, he, rfl⟩ := List.mem_map.mp hr
  exact (hA.bounded ((hmem h f).mp he)).1

section Listable

variable (hA : A.Laws files) {s : σ}
  (hnames : ∀ h f, files s h = some f → (∀ c ∈ f.name, c ≠ 0) ∧ ValidUtf8 f.name)
include hA hnames

/-- One name that cannot be listed spoils the whole index. -/
lemma listable_of_indexIsJson (h : IndexIsJson A files s) :
    ∀ h f, files s h = some f → Listable f.name := by
  obtain ⟨es, out, hrun, hes, hmem, _, _, v, hv, ⟨rows, hrows, hread⟩, _⟩ := h
  obtain ⟨out', hrun', hbody⟩ := fileIdxCall_run hA hes
  obtain ⟨rfl, _⟩ := hrun.unique hrun'
  rw [hbody, parse_fileIdxText (entryRow_fd hA hmem)] at hv
  split_ifs at hv with hall
  obtain rfl := Option.some.inj hv
  obtain rfl : (es.map entryRow).map FileRow.json = rows :=
    Value.array.inj (Option.some.inj hrows)
  rw [List.map_map, List.forall₂_map_right_iff, List.forall₂_same] at hread
  intro h f hf
  have he := (hmem h f).mpr hf
  exact (listable_iff (hnames h f hf).1).mp
    ⟨hall _ (List.mem_map_of_mem he), rowSays_json.mp (hread (h, f) he)⟩

lemma indexIsJson_of_listable (hlist : ∀ h f, files s h = some f → Listable f.name) :
    IndexIsJson A files s := by
  obtain ⟨es, hes⟩ := exists_entries hA s (le_refl appfsInvalidFd)
  obtain ⟨out, hrun, hbody⟩ := fileIdxCall_run hA hes
  have hmem : ∀ h f, (h, f) ∈ es ↔ files s h = some f := hes.mem_files hA
  have hgood : ∀ e ∈ es, (entryRow e).Parses ∧ (entryRow e).keptName = e.2.name := by
    rintro ⟨h, f⟩ he
    have hf := (hmem h f).mp he
    exact (listable_iff (hnames h f hf).1).mpr (hlist h f hf)
  have hall : ∀ r ∈ es.map entryRow, r.Parses := by
    intro r hr
    obtain ⟨e, he, rfl⟩ := List.mem_map.mp hr
    exact (hgood e he).1
  have hparse := parse_fileIdxText (entryRow_fd hA hmem) (A.freeMem s)
  rw [if_pos hall] at hparse
  refine ⟨es, out, hrun, hes, hmem, hes.sorted hA le_rfl, ?_, _, by rw [hbody]; exact hparse,
    ⟨_, rfl, ?_⟩, rfl⟩
  · rw [hbody]
    refine validUtf8_fileIdxText (fun e he => ?_) _
    obtain ⟨h, f⟩ := e
    have hf := (hmem h f).mp he
    exact ⟨(hA.bounded hf).1, (hnames h f hf).2, (hgood (h, f) he).2⟩
  · rw [List.map_map, List.forall₂_map_right_iff, List.forall₂_same]
    exact fun e he => rowSays_json.mpr (hgood e he).2

/-- **The index is JSON that says what is stored exactly when every name can be listed.** -/
theorem cgiFileIdx_json :
    IndexIsJson A files s ↔ ∀ h f, files s h = some f → Listable f.name :=
  ⟨listable_of_indexIsJson hA hnames, indexIsJson_of_listable hA hnames⟩

end Listable

end Index

/-! ## Names that are shown as they are -/

/-- A name that can be shown. -/
def PresentableName (n : Bytes) : Prop := (∀ c ∈ n, c ≠ 0) ∧ ValidUtf8 n ∧ Listable n

def Presentable (F : Files) : Prop := ∀ h f, F h = some f → PresentableName f.name

/-- A short name of printable ASCII can be shown. -/
lemma presentable_ascii {n : Bytes}
    (h : n.all (fun c => decide (32 ≤ c) && decide (c < 128)) = true)
    (hlen : (n.dropLast.flatMap jsonEscByte).length < 125) : PresentableName n := by
  have hbyte : ∀ c ∈ n, 32 ≤ c ∧ c < 128 := by simpa using h
  refine ⟨?_, validUtf8_ascii fun c hc => (hbyte c hc).2, fun c hc => Or.inl (hbyte c hc).1, hlen⟩
  rintro c hc rfl
  exact absurd (hbyte 0 hc).1 (by decide)

lemma indexIsJson_of_presentable {σ : Type} {A : Appfs σ} {files : σ → Files} (hA : A.Laws files)
    {s : σ} (hnames : Presentable (files s)) : IndexIsJson A files s :=
  indexIsJson_of_listable hA (fun h f hf => ⟨(hnames h f hf).1, (hnames h f hf).2.1⟩)
    fun h f hf => (hnames h f hf).2.2

/-! ## Two names -/

/-- A file system with nothing but a file of this name. -/
def onlyFile (name : Bytes) : RamAppfs := (RamAppfs.exec (.createFile name 1) .empty).2

lemma onlyFile_files (name : Bytes) :
    (onlyFile name).files = Function.update (fun _ => none) 0 (some ⟨name, 1, RamAppfs.oldData⟩) :=
  rfl

lemma name_of_onlyFile {name : Bytes} {h : Handle} {f : AppfsFile}
    (hf : (onlyFile name).files h = some f) : f.name = name := by
  rw [onlyFile_files] at hf
  by_cases hh : h = 0
  · rw [hh, Function.update_self] at hf
    rw [← Option.some.inj hf]
  · rw [Function.update_of_ne hh] at hf
    simp at hf

/-- For a literal the check is a computation. -/
lemma printable_of_all {b : Bytes} (h : b.all (fun c => decide (Printable c)) = true) :
    ∀ c ∈ b, Printable c := by
  simpa using h

/-- A name with a quote, a backslash and a tab. -/
theorem cgiFileIdx_json_escaped :
    IndexIsJson RamAppfs.device RamAppfs.files (onlyFile (ascii "\"\\\t")) := by
  refine (cgiFileIdx_json RamAppfs.device_laws fun h f hf => ?_).mpr fun h f hf => ?_
  · rw [name_of_onlyFile hf]
    exact ⟨ne_zero_of_all (by decide), validUtf8_of_all (by decide)⟩
  · rw [name_of_onlyFile hf]
    exact ⟨printable_of_all (by decide), by decide⟩

/-- The name is the one control character 1. -/
theorem cgiFileIdx_not_json :
    ¬ ∀ (σ : Type) (A : Appfs σ) (files : σ → Files) (s : σ), A.Laws files →
      (∀ h f, files s h = some f → f.name ≠ [] ∧ (∀ c ∈ f.name, c ≠ 0) ∧ ValidUtf8 f.name ∧
        f.name.length ≤ 111) →
      IndexIsJson A files s := by
  intro hall
  have hnames : ∀ h f, (onlyFile [1]).files h = some f →
      (∀ c ∈ f.name, c ≠ 0) ∧ ValidUtf8 f.name := by
    intro h f hf
    rw [name_of_onlyFile hf]
    exact ⟨ne_zero_of_all (by decide), validUtf8_of_all (by decide)⟩
  have hjson := hall RamAppfs RamAppfs.device RamAppfs.files (onlyFile [1]) RamAppfs.device_laws
    fun h f hf => ⟨by rw [name_of_onlyFile hf]; simp, (hnames h f hf).1, (hnames h f hf).2,
      by rw [name_of_onlyFile hf]; simp⟩
  have hlist := listable_of_indexIsJson RamAppfs.device_laws hnames hjson 0
    ⟨[1], 1, RamAppfs.oldData⟩ rfl
  exact absurd (hlist.1 1 (by simp)) (by decide)

end Chooser
