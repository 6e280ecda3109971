import Chooser.Lib.Cursor
import Chooser.DownloadSession
import Chooser.RowDelete

/-!
# An index while others change the files

One run of `cgiFileIdx` is many calls, and between two of them the server serves other connections:
files are created, renamed and deleted, the one shown last included.  All the handler keeps is the
handle of that file, so what it does is a walk of a cursor over a set that changes
(`Cursor.Walk`): the handles that have a file at the time of each call.

`index_under_changes`: the run ends, its handles go up, each row is that of a file stored at the
time, and a handle that has a file at every call is shown once.
-/

namespace Chooser

open CStr Cursor

section Defs

variable {σ ν : Type} (A : Appfs σ) (nvs : NvsExec ν) (files : σ → Files) (c : ConnId)
  (stack : DownloadStack) (gap : ℕ → List ServerEvent) (s : Server σ ν)

/-- The server when the connection `c` gets its `k`-th call, where `gap k` is what happens between
the call before it and this one. -/
def atCall : ℕ → Server σ ν
  | 0 => Machine.run (serverStep A nvs) s (gap 0)
  | k + 1 =>
      Machine.run (serverStep A nvs) (serverStep A nvs (atCall k) (.call c stack)) (gap (k + 1))

/-- The handles that have a file when the `k`-th call is made. -/
def storedAt (k : ℕ) : Set Handle := {h | (files (atCall A nvs c stack gap s k).fs h).isSome}

/-- The rows of the files at these handles, one a call, from the `k`-th call on. -/
def rowsFrom : ℕ → List Handle → List FileRow
  | _, [] => []
  | k, h :: hs =>
      let info := A.entryInfo h (atCall A nvs c stack gap s k).fs
      ⟨h, info.1, info.2⟩ :: rowsFrom (k + 1) hs

end Defs

/-! ## The text -/

/-- **A comma between two rows**, and nowhere else. -/
lemma printRows_intercalate (rows : List FileRow) :
    printRows false rows = (ascii ",").intercalate (rows.map (FileRow.print false)) := by
  have hcomma : ascii "," = [44] := by decide
  have htrue : ∀ rs : List FileRow,
      printRows true rs = rs.flatMap fun r => 44 :: r.print false := by
    intro rs
    induction rs with
    | nil => rfl
    | cons r rs ih => rw [printRows_cons, print_true, ih, List.flatMap_cons]
  cases rows with
  | nil => rfl
  | cons r rows =>
      rw [printRows_cons, htrue, hcomma, List.map_cons]
      induction rows generalizing r with
      | nil => simp [List.intercalate]
      | cons r' rows ih =>
          rw [List.flatMap_cons, List.map_cons, List.cons_append]
          rw [ih r']
          simp [List.intercalate]

section Run

variable {σ ν : Type} {A : Appfs σ} {nvs : NvsExec ν} {files : σ → Files} {c : ConnId}
  {stack : DownloadStack} {gap : ℕ → List ServerEvent} {s : Server σ ν}

lemma map_rowsFrom (hs : List Handle) : ∀ k,
    (rowsFrom A nvs c stack gap s k hs).map FileRow.fd = hs := by
  induction hs with
  | nil => exact fun _ => rfl
  | cons h hs ih => exact fun k => congrArg (h :: ·) (ih (k + 1))

lemma length_rowsFrom (hs : List Handle) (k : ℕ) :
    (rowsFrom A nvs c stack gap s k hs).length = hs.length := by
  rw [← List.length_map FileRow.fd, map_rowsFrom]

/-- The `i`-th row is made at the `i`-th of these calls. -/
lemma rowsFrom_getElem {hs : List Handle} : ∀ {k i : ℕ} {row : FileRow},
    (rowsFrom A nvs c stack gap s k hs)[i]? = some row → hs[i]? = some row.fd ∧
      (row.name, row.size) = A.entryInfo row.fd (atCall A nvs c stack gap s (k + i)).fs := by
  induction hs with
  | nil => exact fun h => by simp [rowsFrom] at h
  | cons h hs ih =>
      intro k i row hi
      cases i with
      | zero =>
          obtain rfl := Option.some.inj hi
          exact ⟨rfl, rfl⟩
      | succ i =>
          obtain ⟨hfd, hinfo⟩ := ih hi
          refine ⟨hfd, ?_⟩
          rwa [Nat.add_assoc, Nat.add_comm 1 i] at hinfo

/-! ## The calls of the connection -/

/-- What the others do does not reach the connection. -/
lemma run_conns {es : List ServerEvent} (hes : ∀ e ∈ es, e.conn ≠ some c) : ∀ s : Server σ ν,
    (Machine.run (serverStep A nvs) s es).conns c = s.conns c := by
  induction es with
  | nil => exact fun _ => rfl
  | cons e es ih =>
      intro s
      rw [Machine.run_cons, ih (fun e he => hes e (by simp [he])),
        serverStep_conns _ (hes e (by simp))]

variable (A nvs stack) in
/-- A call of an open index. -/
lemma serverStep_call_index {s : Server σ ν} {i : IndexConn}
    (hconn : s.conns c = some (.index i)) (hopen : i.closed = false) :
    (serverStep A nvs s (.call c stack)).conns c =
      let o := cgiFileIdx A ⟨true, true, i.cgiData, fun _ => none, ⟨[], 0, 0⟩⟩ s.fs
      some (.index ⟨o.cgiData, i.sent ++ o.out, o.ret = .done⟩) := by
  simp [serverStep, hconn, indexStep, hopen, Server.withConn]

variable (hA : A.Laws files)
include hA

/-- `appfsNextEntry` leads to the least handle above, where there is one. -/
lemma nextEntry_least {fs : σ} {x y : Handle} (hx : appfsInvalidFd ≤ x)
    (hmem : (files fs y).isSome) (hlt : x < y)
    (hleast : ∀ z, (files fs z).isSome → x < z → y ≤ z) : A.nextEntry x fs = y := by
  rcases hA.next (s := fs) hx with ⟨_, hnone⟩ | ⟨hgt, hsome, hbetween⟩
  · rw [hnone y hlt] at hmem
    simp at hmem
  · refine le_antisymm ?_ (hleast _ hsome hgt)
    by_contra hlt'
    rw [hbetween y hlt (lt_of_not_ge hlt')] at hmem
    simp at hmem

lemma nextEntry_end {fs : σ} {x : Handle} (hx : appfsInvalidFd ≤ x)
    (hstop : ∀ z, (files fs z).isSome → ¬ x < z) : A.nextEntry x fs = appfsInvalidFd := by
  rcases hA.next (s := fs) hx with ⟨hend, _⟩ | ⟨hgt, hsome, _⟩
  · exact hend
  · exact absurd hgt (hstop _ hsome)

/-- **The rest of a run**, once at least one row has been sent. -/
lemma index_rest (hgap : ∀ k, ∀ e ∈ gap k, e.conn ≠ some c) {k : ℕ} {x : Handle}
    {hs : List Handle} (h : Walk (storedAt A nvs files c stack gap s) k x hs) :
    0 ≤ x → ∀ {sent : List HttpCall},
      (atCall A nvs c stack gap s k).conns c = some (.index ⟨some (x + 0x100), sent, false⟩) →
      ∃ data sent', (serverStep A nvs (atCall A nvs c stack gap s (k + hs.length))
          (.call c stack)).conns c = some (.index ⟨data, sent', true⟩) ∧
        bodySent sent' = bodySent sent ++ printRows true (rowsFrom A nvs c stack gap s k hs) ++
          bodySent (fileIdxClosing
            (A.freeMem (atCall A nvs c stack gap s (k + hs.length)).fs)) := by
  induction h with
  | stop hstop =>
      rename_i k x
      intro hx sent hconn
      have hidx := cursor_ne_zero hx
      have hnext := nextEntry_end hA (le_trans (by decide) hx) hstop
      rw [List.length_nil, Nat.add_zero, serverStep_call_index A nvs stack hconn rfl]
      refine ⟨some (x + 0x100),
        sent ++ fileIdxClosing (A.freeMem (atCall A nvs c stack gap s k).fs), ?_, ?_⟩
      · simp [cgiFileIdx, fileIdxRow, hidx, hnext]
      · simp [rowsFrom, printRows]
  | next hmem hlt hleast rest ih =>
      rename_i k x y hs
      intro hx sent hconn
      have hidx := cursor_ne_zero hx
      have hnext := nextEntry_least hA (le_trans (by decide) hx) hmem hlt hleast
      have hne : y ≠ appfsInvalidFd := (lt_of_le_of_lt (le_trans (by decide) hx) hlt).ne'
      have hcall := serverStep_call_index A nvs stack hconn rfl
      have hrow : fileIdxRow A (x + 0x100) (atCall A nvs c stack gap s k).fs
          = some ⟨y, (A.entryInfo y (atCall A nvs c stack gap s k).fs).1,
            (A.entryInfo y (atCall A nvs c stack gap s k).fs).2⟩ := by
        simp [fileIdxRow, hidx, hnext, hne]
      simp only [cgiFileIdx, Option.getD_some, hrow, if_neg hidx] at hcall
      obtain ⟨data, sent', hend, hbody⟩ := ih (hx.trans hlt.le) (by
        rw [atCall, run_conns (hgap (k + 1)), hcall]
        rfl)
      rw [List.length_cons, Nat.add_comm hs.length 1, ← Nat.add_assoc]
      refine ⟨data, sent', hend, ?_⟩
      rw [hbody, rowsFrom, printRows]
      simp [hidx]

lemma storedAt_bounds {k : ℕ} {y : Handle} (hy : y ∈ storedAt A nvs files c stack gap s k) :
    0 ≤ y ∧ y < handleBound := by
  obtain ⟨f, hf⟩ := Option.isSome_iff_exists.mp hy
  exact hA.bounded hf

/-- From any place there is a least stored handle above, or none. -/
lemma storedAt_next (k : ℕ) {x : Handle} (hx : appfsInvalidFd ≤ x) :
    (∀ z ∈ storedAt A nvs files c stack gap s k, ¬ x < z) ∨
    ∃ y ∈ storedAt A nvs files c stack gap s k, x < y ∧
      ∀ z ∈ storedAt A nvs files c stack gap s k, x < z → y ≤ z := by
  rcases hA.next (s := (atCall A nvs c stack gap s k).fs) hx with
    ⟨_, hnone⟩ | ⟨hlt, hsome, hbetween⟩
  · left
    intro z hz hlt
    have hsome : (files (atCall A nvs c stack gap s k).fs z).isSome := hz
    rw [hnone z hlt] at hsome
    simp at hsome
  · refine Or.inr ⟨_, hsome, hlt, ?_⟩
    intro z hz hxz
    by_contra hzlt
    have hsome' : (files (atCall A nvs c stack gap s k).fs z).isSome := hz
    rw [hbetween z hxz (lt_of_not_ge hzlt)] at hsome'
    simp at hsome'

/-- **A whole run**: the handles it shows are a walk, and what it sends is the list of their
rows. -/
lemma index_run (hgap : ∀ k, ∀ e ∈ gap k, e.conn ≠ some c)
    (hopen : s.conns c = some (.index ⟨none, [], false⟩)) :
    ∃ hs, Walk (storedAt A nvs files c stack gap s) 0 appfsInvalidFd hs ∧
      ∃ data sent, (serverStep A nvs (atCall A nvs c stack gap s hs.length)
          (.call c stack)).conns c = some (.index ⟨data, sent, true⟩) ∧
        bodySent sent = fileIdxText (rowsFrom A nvs c stack gap s 0 hs)
          (A.freeMem (atCall A nvs c stack gap s hs.length).fs) := by
  obtain ⟨hs, hwalk⟩ := exists_walk
    (S := storedAt A nvs files c stack gap s) (fun k y hy => (storedAt_bounds hA hy).2)
    (fun k x hx => storedAt_next hA k hx) 0 le_rfl
  refine ⟨hs, hwalk, ?_⟩
  have hconn : (atCall A nvs c stack gap s 0).conns c = some (.index ⟨none, [], false⟩) := by
    rw [atCall, run_conns (hgap 0), hopen]
  have hcall := serverStep_call_index A nvs stack hconn rfl
  cases hwalk with
  | stop hstop =>
      have hnext := nextEntry_end hA le_rfl hstop
      have hrow : fileIdxRow A 0 (atCall A nvs c stack gap s 0).fs = none := by
        simp [fileIdxRow, hnext]
      simp only [cgiFileIdx, Option.getD_none, hrow] at hcall
      refine ⟨_, _, hcall, ?_⟩
      rw [List.nil_append, bodySent_append]
      simp [bodySent_fileIdxOpening, bodySent_fileIdxClosing, fileIdxText, rowsFrom, printRows]
  | next hmem hlt hleast rest =>
      rename_i y hs
      have hnext := nextEntry_least hA le_rfl hmem hlt hleast
      have hne : y ≠ appfsInvalidFd := hlt.ne'
      have hrow : fileIdxRow A 0 (atCall A nvs c stack gap s 0).fs
          = some ⟨y, (A.entryInfo y (atCall A nvs c stack gap s 0).fs).1,
            (A.entryInfo y (atCall A nvs c stack gap s 0).fs).2⟩ := by
        simp [fileIdxRow, hnext, hne]
      simp only [cgiFileIdx, Option.getD_none, hrow] at hcall
      obtain ⟨data, sent, hend, hbody⟩ := index_rest hA hgap rest (storedAt_bounds hA hmem).1 (by
        rw [atCall, run_conns (hgap 1), hcall]
        rfl)
      rw [List.length_cons, Nat.add_comm hs.length 1]
      refine ⟨data, sent, hend, ?_⟩
      rw [hbody]
      simp [bodySent_fileIdxOpening, bodySent_fileIdxClosing, fileIdxText, rowsFrom, printRows]

variable (nvs c stack gap s) in
/-- **The index is complete and free of duplicates while the files change.**  Whatever the server
does for others between the calls of an index, the run ends, after one call for each row and one
more; its text has the handle, the name and the size of each row, with a comma between two of them;
the handles go up; each row is that of a file that was stored at its call; and a handle that has a
file at every call has exactly one row. -/
theorem index_under_changes (hgap : ∀ k, ∀ e ∈ gap k, e.conn ≠ some c)
    (hopen : s.conns c = some (.index ⟨none, [], false⟩)) :
    ∃ rows : List FileRow,
      (∃ data sent, (serverStep A nvs (atCall A nvs c stack gap s rows.length)
          (.call c stack)).conns c = some (.index ⟨data, sent, true⟩) ∧
        bodySent sent = ascii "\x7b\n\"files\": [\n" ++
          (ascii ",").intercalate (rows.map fun row =>
            ascii "\x7b\"index\": " ++ sprintfD row.fd ++ ascii ", \"name\": \"" ++
              jsonEsc row.name 128 ++ ascii "\", \"size\": " ++ sprintfD row.size ++
              ascii ", \"addr\": \"0x0\" \x7d\n") ++
          ascii "],\n\"free\": " ++
          decimal (A.freeMem (atCall A nvs c stack gap s rows.length).fs) ++ ascii "\x7d\n") ∧
      (rows.map FileRow.fd).Pairwise (· < ·) ∧
      (∀ i row, rows[i]? = some row → ∃ f,
        files (atCall A nvs c stack gap s i).fs row.fd = some f ∧ row.name = f.name ∧
          row.size = f.size) ∧
      ∀ h, (∀ i, i ≤ rows.length → (files (atCall A nvs c stack gap s i).fs h).isSome) →
        (rows.map FileRow.fd).count h = 1 := by
  obtain ⟨hs, hwalk, hend⟩ := index_run hA hgap hopen
  refine ⟨rowsFrom A nvs c stack gap s 0 hs, ?_, ?_, ?_, ?_⟩
  · obtain ⟨data, sent, hclosed, hbody⟩ := hend
    rw [fileIdxText, printRows_intercalate] at hbody
    rw [length_rowsFrom]
    exact ⟨data, sent, hclosed, hbody⟩
  · rw [map_rowsFrom]
    exact (List.pairwise_cons.mp hwalk.sorted).2
  · intro i row hi
    obtain ⟨hfd, hinfo⟩ := rowsFrom_getElem hi
    have hmem := hwalk.mem i row.fd hfd
    rw [Nat.zero_add] at hmem hinfo
    obtain ⟨f, hf⟩ := Option.isSome_iff_exists.mp hmem
    rw [hA.entryInfo hf] at hinfo
    obtain ⟨hname, hsize⟩ := Prod.mk.inj hinfo
    exact ⟨f, hf, hname, hsize⟩
  · intro h hstays
    rw [length_rowsFrom] at hstays
    rw [map_rowsFrom]
    refine List.count_eq_one_of_mem hwalk.nodup (hwalk.survivor ?_ ?_)
    · obtain ⟨f, hf⟩ := Option.isSome_iff_exists.mp (hstays 0 (Nat.zero_le _))
      exact lt_of_lt_of_le (by decide) (hA.bounded hf).1
    · intro i hi
      rw [Nat.zero_add]
      exact hstays i hi

end Run

/-! ## A file that goes away -/

/-- The file 0 is deleted before the second call. -/
def deletedBefore (k : ℕ) : List ServerEvent := if k = 1 then [.delete argsZero []] else []

/-- The server with one file, and an index that has been opened. -/
def indexOpened : Server RamAppfs Unit :=
  serverStep RamAppfs.device noNvs (.initial oneFile ()) (.openIndex 0)

lemma atCall_deleted :
    (∀ h, h ≠ 0 → (atCall RamAppfs.device noNvs 0 ⟨[], []⟩ deletedBefore indexOpened 0).fs.files h
      = none) ∧
    ((atCall RamAppfs.device noNvs 0 ⟨[], []⟩ deletedBefore indexOpened 0).fs.files 0).map
      (fun f => (f.name, f.size)) = some (ascii "b", 1) ∧
    ∀ h, (atCall RamAppfs.device noNvs 0 ⟨[], []⟩ deletedBefore indexOpened 1).fs.files h
      = none := by
  have hfirst : (atCall RamAppfs.device noNvs 0 ⟨[], []⟩ deletedBefore indexOpened 0).fs
      = oneFile := rfl
  have hsecond : (atCall RamAppfs.device noNvs 0 ⟨[], []⟩ deletedBefore indexOpened 1).fs
      = (RamAppfs.exec (.deleteFile (ascii "b")) oneFile).2 := rfl
  rw [hfirst, hsecond]
  exact ⟨RamAppfs.none_of_sectors (by decide), by decide,
    fun h => RamAppfs.none_of_sectors (p := fun _ => True) (by decide) h trivial⟩

/-- The file that the first call shows is deleted before the second, and has its row. -/
theorem index_under_changes_deleted :
    ∃ data sent, (serverStep RamAppfs.device noNvs (atCall RamAppfs.device noNvs 0 ⟨[], []⟩
        deletedBefore indexOpened 1) (.call 0 ⟨[], []⟩)).conns 0
        = some (.index ⟨data, sent, true⟩) ∧
      bodySent sent = ascii "\x7b\n\"files\": [\n" ++
        ascii "\x7b\"index\": 0, \"name\": \"b\", \"size\": 1, \"addr\": \"0x0\" \x7d\n" ++
        ascii "],\n\"free\": " ++ decimal (RamAppfs.device.freeMem (atCall RamAppfs.device noNvs 0
          ⟨[], []⟩ deletedBefore indexOpened 1).fs) ++ ascii "\x7d\n" := by
  have hgap : ∀ k, ∀ e ∈ deletedBefore k, e.conn ≠ some 0 := by
    intro k e he
    rw [deletedBefore] at he
    split_ifs at he
    · obtain rfl := List.mem_singleton.mp he
      simp [ServerEvent.conn]
    · simp at he
  obtain ⟨rows, hend, _, hstored, hcount⟩ := index_under_changes noNvs 0 ⟨[], []⟩ deletedBefore
    indexOpened RamAppfs.device_laws hgap rfl
  obtain ⟨hother, hzero, hgone⟩ := atCall_deleted
  obtain ⟨f, hf, hfile⟩ := Option.map_eq_some_iff.mp hzero
  obtain ⟨hname, hsize⟩ := Prod.mk.inj hfile
  -- the first call has found the file, the second has not
  have hrows : rows = [⟨0, ascii "b", 1⟩] := by
    rcases rows with _ | ⟨row, _ | ⟨row', rest⟩⟩
    · have hnone := hcount 0 fun i hi => by
        rw [Nat.le_zero.mp hi]
        exact Option.isSome_iff_exists.mpr ⟨f, hf⟩
      simp at hnone
    · obtain ⟨g, hg, hgname, hgsize⟩ := hstored 0 row rfl
      have hfd : row.fd = 0 := by
        by_contra hne
        exact absurd (hg.symm.trans (hother row.fd hne)) (by simp)
      rw [hfd] at hg
      obtain rfl := Option.some.inj (hf.symm.trans hg)
      obtain ⟨fd, name, size⟩ := row
      simp only at hfd hgname hgsize
      rw [hfd, hgname, hgsize, hname, hsize]
    · obtain ⟨g, hg, _⟩ := hstored 1 row' rfl
      exact absurd (hg.symm.trans (hgone row'.fd)) (by simp)
  subst hrows
  exact hend

end Chooser
