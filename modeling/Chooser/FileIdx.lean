import Chooser.Appfs

/-!
# The file index

`cgiFileIdx` prints the list of files as JSON, one file a call.  All it keeps between two calls is
one `int`, stored in the pointer `cgiData`: 0 at first, then the handle of the last file plus
`0x100`.  Names go through `json_esc`, which knows seven characters and a buffer of 128 bytes.

`entries` is the list of files in the order in which `appfsNextEntry` gives them, and
`fileIdxCall_run` says that one whole run on an unchanging device prints one row for each.
-/

namespace Chooser

open CStr

/-! ## Names in JSON -/

/-- The letter behind the backslash, for the bytes that `json_esc` escapes. -/
def jsonEscChar (c : UInt8) : Option UInt8 :=
  if c = 92 then some 92
  else if c = 34 then some 34
  else if c = 9 then some 116
  else if c = 13 then some 114
  else if c = 10 then some 110
  else if c = 12 then some 102
  else if c = 8 then some 98
  else none

/-- What one byte of a name becomes. -/
def jsonEscByte (c : UInt8) : Bytes :=
  match jsonEscChar c with
  | none => [c]
  | some e => [92, e]

/-- The loop of `json_esc`, with `j` bytes in the buffer. -/
def jsonEscLoop (bufsz : ℕ) : ℕ → Bytes → Bytes
  | _, [] => []
  | j, c :: cs =>
      if bufsz - 3 ≤ j then []
      else jsonEscByte c ++ jsonEscLoop bufsz (j + (jsonEscByte c).length) cs

/-- `json_esc(out, in, bufsz)`: the string in `out`. -/
def jsonEsc (name : Bytes) (bufsz : ℕ) : Bytes := jsonEscLoop bufsz 0 (cString name)

lemma jsonEscByte_ne_zero {c : UInt8} (h : c ≠ 0) : ∀ b ∈ jsonEscByte c, b ≠ 0 := by
  intro b hb
  unfold jsonEscByte jsonEscChar at hb
  split_ifs at hb <;> simp only [List.mem_cons, List.not_mem_nil, or_false] at hb
  case neg => exact hb ▸ h
  all_goals rcases hb with rfl | rfl <;> decide

lemma jsonEscLoop_ne_zero {bufsz : ℕ} {name : Bytes} (h : ∀ c ∈ name, c ≠ 0) (j : ℕ) :
    ∀ b ∈ jsonEscLoop bufsz j name, b ≠ 0 := by
  induction name generalizing j with
  | nil => simp [jsonEscLoop]
  | cons c cs ih =>
      intro b hb
      rw [jsonEscLoop] at hb
      split_ifs at hb
      · simp at hb
      · rcases List.mem_append.mp hb with hb | hb
        · exact jsonEscByte_ne_zero (h c (by simp)) b hb
        · exact ih (fun c hc => h c (by simp [hc])) _ b hb

/-! ## The handler -/

/-- One row of the index. -/
structure FileRow where
  fd : Handle
  name : Bytes
  size : ℕ
deriving DecidableEq, Repr

/-- The row as it is printed, with a comma in front of all but the first. -/
def FileRow.print (comma : Bool) (r : FileRow) : Bytes :=
  (if comma then ascii "," else []) ++ ascii "\x7b\"index\": " ++ sprintfD r.fd ++
    ascii ", \"name\": \"" ++ jsonEsc r.name 128 ++ ascii "\", \"size\": " ++ sprintfD r.size ++
    ascii ", \"addr\": \"0x0\" \x7d\n"

lemma print_true (r : FileRow) : r.print true = 44 :: r.print false := rfl

section Handler

variable {σ : Type} (A : Appfs σ)

/-- The headers and the opening of the text. -/
def fileIdxOpening : List HttpCall :=
  [.startResponse 200, .header (ascii "Content-Type") (ascii "text/json"), .endHeaders,
    .send (ascii "\x7b\n\"files\": [\n") (-1)]

def fileIdxClosing (free : ℕ) : List HttpCall :=
  [.send (ascii "],\n\"free\": ") (-1), .send (sprintfD free) (-1), .send (ascii "\x7d\n") (-1)]

/-- The row of the file behind the cursor, if there is one. -/
def fileIdxRow (idx : ℤ) (s : σ) : Option FileRow :=
  let fd := A.nextEntry (if idx = 0 then appfsInvalidFd else idx - 0x100) s
  if fd ≠ appfsInvalidFd then some ⟨fd, (A.entryInfo fd s).1, (A.entryInfo fd s).2⟩ else none

/-- The pointer `cgiData` is used as an `int`; a NULL pointer is 0. -/
def cgiFileIdx (connData : HttpdConnData ℤ) (s : σ) : CgiOutcome ℤ :=
  let idx := connData.cgiData.getD 0
  let opening := if idx = 0 then fileIdxOpening else []
  match fileIdxRow A idx s with
  | some row =>
      ⟨.more, some (row.fd + 0x100), false, opening ++ [.send (row.print (idx ≠ 0)) (-1)]⟩
  | none => ⟨.done, connData.cgiData, false, opening ++ fileIdxClosing (A.freeMem s)⟩

/-- A call of the index on a device that does not change meanwhile. -/
def fileIdxCall (_ : ℕ) (data : Option ℤ) (s : σ) : CgiOutcome ℤ × σ :=
  (cgiFileIdx A ⟨true, true, data, fun _ => none, ⟨[], 0, 0⟩⟩ s, s)

end Handler

/-! ## The order of the files -/

section Entries

variable {σ : Type} (A : Appfs σ) (files : σ → Files)

/-- The stored files above a handle, as `appfsNextEntry` enumerates them. -/
inductive Entries (s : σ) : Handle → List (Handle × AppfsFile) → Prop
  | last {h : Handle} (hend : A.nextEntry h s = appfsInvalidFd) : Entries s h []
  | next {h : Handle} {f : AppfsFile} {rest : List (Handle × AppfsFile)}
      (hne : A.nextEntry h s ≠ appfsInvalidFd) (hf : files s (A.nextEntry h s) = some f)
      (hrest : Entries s (A.nextEntry h s) rest) : Entries s h ((A.nextEntry h s, f) :: rest)

variable {A files}

/-- **The enumeration ends.** Every step goes up, and handles are bounded. -/
theorem exists_entries (hA : A.Laws files) (s : σ) {h : Handle} (hlo : appfsInvalidFd ≤ h) :
    ∃ es, Entries A files s h es := by
  induction hn : (handleBound - h).toNat using Nat.strong_induction_on generalizing h with
  | _ n ih =>
      rcases hA.next (s := s) hlo with ⟨hend, _⟩ | ⟨hlt, hsome, _⟩
      · exact ⟨[], .last hend⟩
      · obtain ⟨f, hf⟩ := Option.isSome_iff_exists.mp hsome
        obtain ⟨h0, hbound⟩ := hA.bounded hf
        have hne : A.nextEntry h s ≠ appfsInvalidFd := by
          intro heq
          rw [heq] at h0
          exact absurd h0 (by decide)
        have hsmall : (handleBound - A.nextEntry h s).toNat < n := by
          subst hn
          exact (Int.toNat_lt_toNat (Int.sub_pos_of_lt (hlt.trans hbound))).mpr
            (Int.sub_lt_sub_left hlt handleBound)
        obtain ⟨es, hes⟩ := ih _ hsmall (hlo.trans hlt.le) rfl
        exact ⟨_, .next hne hf hes⟩

lemma Entries.unique {s : σ} {h : Handle} {es es' : List (Handle × AppfsFile)}
    (hes : Entries A files s h es) (hes' : Entries A files s h es') : es = es' := by
  induction hes generalizing es' with
  | last hend =>
      cases hes' with
      | last _ => rfl
      | next hne _ _ => exact absurd hend hne
  | next hne hf _ ih =>
      cases hes' with
      | last hend => exact absurd hend hne
      | next _ hf' hrest' => rw [Option.some.inj (hf.symm.trans hf'), ih hrest']

/-- **Every file above the start is in it, and nothing else.** -/
theorem Entries.mem_iff (hA : A.Laws files) {s : σ} {h : Handle} {es : List (Handle × AppfsFile)}
    (hes : Entries A files s h es) (hlo : appfsInvalidFd ≤ h) (k : Handle) (f : AppfsFile) :
    (k, f) ∈ es ↔ h < k ∧ files s k = some f := by
  induction hes with
  | last hend =>
      rename_i h
      rcases hA.next (s := s) hlo with ⟨_, hnone⟩ | ⟨hlt, hsome, _⟩
      · simp only [List.not_mem_nil, false_iff, not_and]
        intro hk hf
        rw [hnone k hk] at hf
        simp at hf
      · rw [hend] at hlt
        exact absurd (hlo.trans_lt hlt) (lt_irrefl _)
  | next hne hf hrest ih =>
      rename_i h g rest
      rcases hA.next (s := s) hlo with ⟨heq, _⟩ | ⟨hlt, _, hbetween⟩
      · exact absurd heq hne
      · rw [List.mem_cons, ih (hlo.trans hlt.le), Prod.mk.injEq]
        constructor
        · rintro (⟨rfl, rfl⟩ | ⟨hk, hkf⟩)
          · exact ⟨hlt, hf⟩
          · exact ⟨hlt.trans hk, hkf⟩
        · rintro ⟨hk, hkf⟩
          rcases lt_trichotomy k (A.nextEntry h s) with hlt' | rfl | hgt
          · rw [hbetween k hk hlt'] at hkf
            simp at hkf
          · rw [hf] at hkf
            exact Or.inl ⟨rfl, (Option.some.inj hkf).symm⟩
          · exact Or.inr ⟨hgt, hkf⟩

/-- From the start these are all stored files. -/
lemma Entries.mem_files (hA : A.Laws files) {s : σ} {es : List (Handle × AppfsFile)}
    (hes : Entries A files s appfsInvalidFd es) (k : Handle) (f : AppfsFile) :
    (k, f) ∈ es ↔ files s k = some f := by
  rw [hes.mem_iff hA le_rfl]
  exact ⟨And.right, fun hf => ⟨lt_of_lt_of_le (by decide) (hA.bounded hf).1, hf⟩⟩

/-- The handles go up. -/
theorem Entries.sorted (hA : A.Laws files) {s : σ} {h : Handle} {es : List (Handle × AppfsFile)}
    (hes : Entries A files s h es) (hlo : appfsInvalidFd ≤ h) :
    es.Pairwise fun e e' => e.1 < e'.1 := by
  induction hes with
  | last _ => exact List.Pairwise.nil
  | next hne hf hrest ih =>
      rename_i h g rest
      rcases hA.next (s := s) hlo with ⟨heq, _⟩ | ⟨hlt, _, _⟩
      · exact absurd heq hne
      · refine List.pairwise_cons.mpr ⟨fun e he => ?_, ih (hlo.trans hlt.le)⟩
        exact ((hrest.mem_iff hA (hlo.trans hlt.le) e.1 e.2).mp he).1

/-! ## A whole run -/

/-- The row of a stored file. -/
def entryRow (e : Handle × AppfsFile) : FileRow := ⟨e.1, e.2.name, e.2.size⟩

/-- The rows as they are printed, the first with or without a comma. -/
def printRows : Bool → List FileRow → Bytes
  | _, [] => []
  | comma, r :: rs => cString (r.print comma) ++ printRows true rs

lemma decimal_ne_zero {n : ℕ} : ∀ c ∈ decimal n, c ≠ 0 := by
  rintro c hc rfl
  exact absurd (isDigit_of_mem_decimal hc) (by decide)

lemma sprintfD_ne_zero {i : ℤ} : ∀ c ∈ sprintfD i, c ≠ 0 := by
  intro c hc
  unfold sprintfD at hc
  split_ifs at hc
  · rcases List.mem_cons.mp hc with rfl | hc
    · decide
    · exact decimal_ne_zero c hc
  · exact decimal_ne_zero c hc

/-- A printed row is a C string. -/
lemma cString_print (comma : Bool) (r : FileRow) : cString (r.print comma) = r.print comma := by
  refine cString_of_nul_free fun c hc => ?_
  simp only [FileRow.print, List.mem_append] at hc
  obtain (((((((hc | hc) | hc) | hc) | hc) | hc) | hc) | hc) := hc
  · cases comma
    · simp at hc
    · exact ne_zero_of_all (by decide) c hc
  · exact ne_zero_of_all (by decide) c hc
  · exact sprintfD_ne_zero c hc
  · exact ne_zero_of_all (by decide) c hc
  · exact jsonEscLoop_ne_zero (cString_nul_free r.name) 0 c hc
  · exact ne_zero_of_all (by decide) c hc
  · exact sprintfD_ne_zero c hc
  · exact ne_zero_of_all (by decide) c hc

lemma printRows_cons (comma : Bool) (r : FileRow) (rs : List FileRow) :
    printRows comma (r :: rs) = r.print comma ++ printRows true rs := by
  rw [printRows, cString_print]

/-- The text of an index with these rows. -/
def fileIdxText (rows : List FileRow) (free : ℕ) : Bytes :=
  ascii "\x7b\n\"files\": [\n" ++ printRows false rows ++ ascii "],\n\"free\": " ++ decimal free ++
    ascii "\x7d\n"

lemma cString_decimal (n : ℕ) : cString (decimal n) = decimal n := by
  exact cString_of_nul_free decimal_ne_zero

lemma bodySent_fileIdxClosing (free : ℕ) :
    bodySent (fileIdxClosing free)
      = ascii "],\n\"free\": " ++ decimal free ++ ascii "\x7d\n" := by
  have h1 : cString (ascii "],\n\"free\": ") = ascii "],\n\"free\": " := by decide
  have h2 : cString (ascii "\x7d\n") = ascii "\x7d\n" := by decide
  simp [fileIdxClosing, h1, h2, sprintfD_natCast, cString_decimal]

lemma bodySent_fileIdxOpening : bodySent fileIdxOpening = ascii "\x7b\n\"files\": [\n" := by
  have h : cString (ascii "\x7b\n\"files\": [\n") = ascii "\x7b\n\"files\": [\n" := by decide
  simp [fileIdxOpening, h]

/-- The cursor behind a stored file is not the NULL pointer. -/
lemma cursor_ne_zero {h : ℤ} (hlo : 0 ≤ h) : ¬ h + 0x100 = 0 := by omega

/-- The rest of a run, once at least one row has been sent. -/
lemma fileIdxCall_rest (hA : A.Laws files) {s : σ} {h : Handle} {es : List (Handle × AppfsFile)}
    (hes : Entries A files s h es) (hlo : 0 ≤ h) (k : ℕ) :
    ∃ out, CgiRun (fileIdxCall A) k (some (h + 0x100)) s out s ∧
      bodySent out
        = printRows true (es.map entryRow) ++ bodySent (fileIdxClosing (A.freeMem s)) := by
  induction hes generalizing k with
  | last hend =>
      rename_i h
      have hidx := cursor_ne_zero hlo
      have hcall : fileIdxCall A k (some (h + 0x100)) s
          = (⟨.done, some (h + 0x100), false, fileIdxClosing (A.freeMem s)⟩, s) := by
        simp [fileIdxCall, cgiFileIdx, fileIdxRow, hidx, hend]
      exact ⟨_, .of_done hcall, by simp [printRows]⟩
  | next hne hf hrest ih =>
      rename_i h g rest
      have hidx := cursor_ne_zero hlo
      obtain ⟨out, hrun, hbody⟩ := ih (hA.bounded hf).1 (k + 1)
      have hcall : fileIdxCall A k (some (h + 0x100)) s
          = (⟨.more, some (A.nextEntry h s + 0x100), false,
            [.send ((entryRow (A.nextEntry h s, g)).print true) (-1)]⟩, s) := by
        simp [fileIdxCall, cgiFileIdx, fileIdxRow, hidx, hne, hA.entryInfo hf, entryRow]
      refine ⟨_, .of_more hcall hrun, ?_⟩
      rw [List.singleton_append, bodySent_cons, hbody, List.map_cons, printRows,
        payload_send_string, List.append_assoc]

/-- **One run of the index on an unchanging device** prints one row for each file, in the order of
the enumeration, and ends. -/
theorem fileIdxCall_run (hA : A.Laws files) {s : σ} {es : List (Handle × AppfsFile)}
    (hes : Entries A files s appfsInvalidFd es) :
    ∃ out, CgiRun (fileIdxCall A) 0 none s out s ∧
      bodySent out = fileIdxText (es.map entryRow) (A.freeMem s) := by
  cases hes with
  | last hend =>
      have hcall : fileIdxCall A 0 none s
          = (⟨.done, none, false, fileIdxOpening ++ fileIdxClosing (A.freeMem s)⟩, s) := by
        simp [fileIdxCall, cgiFileIdx, fileIdxRow, hend]
      refine ⟨_, .of_done hcall, ?_⟩
      rw [bodySent_append, bodySent_fileIdxOpening, bodySent_fileIdxClosing]
      simp [fileIdxText, printRows]
  | next hne hf hrest =>
      rename_i g rest
      obtain ⟨out, hrun, hbody⟩ := fileIdxCall_rest hA hrest (hA.bounded hf).1 1
      have hcall : fileIdxCall A 0 none s
          = (⟨.more, some (A.nextEntry appfsInvalidFd s + 0x100), false, fileIdxOpening ++
            [.send ((entryRow (A.nextEntry appfsInvalidFd s, g)).print false) (-1)]⟩, s) := by
        simp [fileIdxCall, cgiFileIdx, fileIdxRow, hne, hA.entryInfo hf, entryRow]
      refine ⟨_, .of_more hcall hrun, ?_⟩
      rw [bodySent_append, bodySent_append, bodySent_fileIdxOpening, bodySent_cons, bodySent_nil,
        payload_send_string, hbody, bodySent_fileIdxClosing]
      simp [fileIdxText, printRows]

end Entries

end Chooser
