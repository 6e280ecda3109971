import Chooser.Isolation

/-!
# Deleting through a row of an index

A delete request carries the index that a row of the file list showed, and nothing else.  Between
the listing and the request the file may have gone, and another may have got its handle; unlike
`cgiDownloadFile`, `cgiDelete` does not even ask `appfsFdValid`.  It deletes what stands behind the
handle by then, or, where nothing does, whatever name the uninitialised pointer leads to.

The row's own file, or nothing, is deleted as long as the file of the row is still there, or the
name that `appfsEntryInfo` leaves is nobody's (`deletes_listed`).
-/

namespace Chooser

open CStr

section Defs

variable {σ ν : Type} (A : Appfs σ) (nvs : NvsExec ν) (files : σ → Files)

/-- The file of a row is still there: the same file, under the same name. -/
def RowFile (s : Server σ ν) (row : ShownRow) (h : Handle) (f : AppfsFile) : Prop :=
  files s.fs h = some f ∧ h = row.1.fd ∧ f.name = row.1.name ∧ s.creator h = row.2

/-- **What a delete through a row removes**: the file of the row, or nothing; and where that file
is gone, no file and no namespace. -/
def DeletesListed (s : Server σ ν) (e : ServerEvent) : Prop :=
  ∀ row fdText, e = .deleteRow row fdText → row ∈ s.rows →
    (∀ h f, files s.fs h = some f → files (serverStep A nvs s e).fs h ≠ some f →
      RowFile files s row h f) ∧
    ((∀ h f, ¬ RowFile files s row h f) →
      files (serverStep A nvs s e).fs = files s.fs ∧
        ∀ n, .eraseAll n ∉ (serverStep A nvs s e).nvsLog)

/-- **The condition of a step.**  A delete through a row finds the file of the row, or there is no
file and no namespace of the name that `appfsEntryInfo` leaves for its index. -/
def RowKept (s : Server σ ν) (e : ServerEvent) : Prop :=
  ∀ row fdText, e = .deleteRow row fdText → row ∈ s.rows →
    (∃ h f, RowFile files s row h f) ∨
      ¬ (files s.fs).Has (A.entryInfo row.1.fd s.fs).1 ∧
        (nvs (.openRw (A.entryInfo row.1.fd s.fs).1) s.nvs).1 ≠ espOk

/-- The rows shown have handles that their links can carry, and the cursors of the open indexes are
at the start or behind a handle. -/
structure RowsInv (s : Server σ ν) : Prop where
  rows : ∀ row ∈ s.rows, ∃ n : ℕ, row.1.fd = n ∧ n < 2 ^ 31
  cursors : ∀ c i, s.conns c = some (.index i) →
    i.cgiData.getD 0 = 0 ∨ 0x100 ≤ i.cgiData.getD 0

end Defs

section Delete

variable {σ ν : Type} {A : Appfs σ} {nvs : NvsExec ν} {files : σ → Files}

/-- A storage without the namespace is asked once, and erases nothing. -/
lemma eraseNamespace_absent {name : Bytes} {v : ν} (h : (nvs (.openRw name) v).1 ≠ espOk) :
    (eraseNamespace (nvsRecord nvs) name (v, [])).2 = [.openRw name] := by
  have hopen : ¬ (nvsRecord nvs (.openRw name) (v, [])).1 = espOk := h
  rw [eraseNamespace, if_neg hopen]
  rfl

/-- What a delete through the index `k` does. -/
lemma deleteStep_eq {s : Server σ ν} {args : Args} {fdText : Bytes} {k : Handle}
    (hidx : deleteIdx args fdText = some k) :
    (deleteStep A nvs s args fdText).fs
      = (A.exec (.deleteFile (A.entryInfo k s.fs).1) s.fs).2 ∧
    (deleteStep A nvs s args fdText).nvsLog
      = (eraseNamespace (nvsRecord nvs) (A.entryInfo k s.fs).1 (s.nvs, [])).2 := by
  rw [deleteStep, cgiDelete, hidx]
  exact ⟨rfl, rfl⟩

variable (hA : A.Laws files)
include hA

/-- Only files of the name can go. -/
lemma delete_removes {name : Bytes} {fs : σ} {h : Handle} {f : AppfsFile}
    (hf : files fs h = some f) (hgone : files (A.exec (.deleteFile name) fs).2 h ≠ some f) :
    f.name = name := by
  by_contra hne
  exact hgone ((sameUnder_delete hA hne fs h f rfl).mp hf)

/-- Deleting a name that no file has changes nothing. -/
lemma delete_absent {name : Bytes} {fs : σ} (hno : ¬ (files fs).Has name) :
    files (A.exec (.deleteFile name) fs).2 = files fs := by
  by_cases hok : (A.exec (.deleteFile name) fs).1.err = espOk
  · rw [hA.delete_ok hok]
    funext h
    cases hf : files fs h with
    | none => rw [Files.without, hf, Option.filter_none]
    | some f => exact Files.without_of_ne hf fun hname => hno ⟨h, f, hf, hname⟩
  · exact hA.delete_fail hok

/-- **A delete through a row** that meets the condition. -/
lemma deleteStep_listed {s : Server σ ν} (hs : RowsInv s) {row : ShownRow} (hrow : row ∈ s.rows)
    {fdText : Bytes} (hc : RowKept A nvs files s (.deleteRow row fdText)) :
    DeletesListed A nvs files s (.deleteRow row fdText) := by
  intro row' fdText' he _
  obtain ⟨rfl, rfl⟩ := ServerEvent.deleteRow.inj he
  obtain ⟨n, hn, hlt⟩ := hs.rows row hrow
  have hidx : deleteIdx (rowArgs row.1) fdText = some row.1.fd := by
    rw [hn]
    exact deleteIdx_link hlt fdText (by simp [rowArgs, hn, sprintfD_natCast])
  have hstep : serverStep A nvs s (.deleteRow row fdText)
      = deleteStep A nvs s (rowArgs row.1) fdText := if_pos hrow
  obtain ⟨hfs, hlog⟩ := deleteStep_eq (A := A) (s := s) hidx
  rw [hstep, hfs, hlog]
  rcases hc row fdText rfl hrow with ⟨k, g, hg⟩ | ⟨hno, hclosed⟩
  · -- the file of the row is there, and no other file has its name
    refine ⟨fun h f hf hgone => ?_, fun hnone => absurd hg (hnone k g)⟩
    obtain ⟨hgf, rfl, hgname, hgcreator⟩ := hg
    have hname := delete_removes hA hf hgone
    rw [hA.entryInfo hgf] at hname
    obtain rfl := hA.unique hf hgf hname
    obtain rfl := Option.some.inj (hf.symm.trans hgf)
    exact ⟨hf, rfl, hgname, hgcreator⟩
  · have hsame := delete_absent hA hno
    refine ⟨fun h f hf hgone => absurd (by rw [hsame, hf]) hgone, fun _ => ⟨hsame, fun m => ?_⟩⟩
    rw [eraseNamespace_absent hclosed]
    simp

/-- The row that a call of an index shows is that of a stored file. -/
lemma fileIdxRow_file {idx : ℤ} (hidx : idx = 0 ∨ 0x100 ≤ idx) {fs : σ} {row : FileRow}
    (hrow : fileIdxRow A idx fs = some row) :
    ∃ f, files fs row.fd = some f ∧ row.name = f.name ∧ row.size = f.size := by
  have hlo : appfsInvalidFd ≤ (if idx = 0 then appfsInvalidFd else idx - 0x100) := by
    split_ifs with h0
    · exact le_rfl
    · rcases hidx with h | h
      · exact absurd h h0
      · show (-1 : ℤ) ≤ idx - 0x100
        omega
  simp only [fileIdxRow] at hrow
  generalize (if idx = 0 then appfsInvalidFd else idx - 0x100) = start at hlo hrow
  split_ifs at hrow with hne
  obtain rfl := Option.some.inj hrow
  rcases hA.next (s := fs) hlo with ⟨hend, _⟩ | ⟨_, hsome, _⟩
  · exact absurd hend hne
  · obtain ⟨f, hf⟩ := Option.isSome_iff_exists.mp hsome
    exact ⟨f, hf, by rw [hA.entryInfo hf], by rw [hA.entryInfo hf]⟩

end Delete

/-! ## The invariant -/

section Invariant

variable {σ ν : Type} {A : Appfs σ} {nvs : NvsExec ν} {files : σ → Files}

/-- A step that shows no row, and changes no index but by closing it. -/
lemma RowsInv.of_conn {s s' : Server σ ν} (h : RowsInv s) {c : ConnId} {sess : Session σ}
    (hrows : s'.rows = s.rows) (hconns : s'.conns = Function.update s.conns c (some sess))
    (hsess : ∀ i, sess = .index i → i.cgiData.getD 0 = 0 ∨ 0x100 ≤ i.cgiData.getD 0) :
    RowsInv s' where
  rows := by
    rw [hrows]
    exact h.rows
  cursors := by
    intro c' i hi
    rw [hconns] at hi
    by_cases hc : c' = c
    · rw [hc, Function.update_self] at hi
      exact hsess i (Option.some.inj hi)
    · rw [Function.update_of_ne hc] at hi
      exact h.cursors c' i hi

lemma RowsInv.quiet {s : Server σ ν} (h : RowsInv s) : RowsInv s.quiet := ⟨h.rows, h.cursors⟩

lemma RowsInv.initial (fs : σ) (v : ν) : RowsInv (Server.initial fs v) :=
  ⟨fun row hrow => by simp [Server.initial] at hrow, fun c i hi => by simp [Server.initial] at hi⟩

lemma RowsInv.deleteStep {s : Server σ ν} (h : RowsInv s) (args : Args) (fdText : Bytes) :
    RowsInv (deleteStep A nvs s args fdText) := ⟨h.rows, h.cursors⟩

/-- **A call of an index** shows the row of a stored file, and leaves its cursor behind it. -/
lemma indexStep_rows (hA : A.Laws files) {s : Server σ ν} (hs : RowsInv s) {c : ConnId}
    {i : IndexConn} (hconn : s.conns c = some (.index i)) : RowsInv (indexStep A s c i) := by
  have hcursor := hs.cursors c i hconn
  rw [indexStep]
  split_ifs
  · exact hs.quiet
  · cases hrow : fileIdxRow A (i.cgiData.getD 0) s.fs with
    | none =>
        refine hs.of_conn (List.append_nil _) rfl fun i' hi' => ?_
        obtain rfl := Session.index.inj hi'
        simpa [cgiFileIdx, hrow] using hcursor
    | some row =>
        obtain ⟨f, hf, _⟩ := fileIdxRow_file hA hcursor hrow
        obtain ⟨n, hn, hlt⟩ := hA.handle_nat hf
        refine ⟨fun r hr => ?_, ?_⟩
        · rcases List.mem_append.mp hr with hr | hr
          · exact hs.rows r hr
          · obtain rfl := List.mem_singleton.mp hr
            exact ⟨n, hn, hlt⟩
        · refine RowsInv.cursors (s := s.quiet.withConn c _) (hs.of_conn rfl rfl fun i' hi' => ?_)
          obtain rfl := Session.index.inj hi'
          refine Or.inr ?_
          simp only [cgiFileIdx, hrow, hn, Option.getD_some]
          omega

/-- **Every step** from a state in the invariant that meets the condition deletes what was listed,
and keeps the invariant. -/
theorem serverStep_listed (hA : A.Laws files) (s : Server σ ν) (e : ServerEvent) (hs : RowsInv s)
    (hc : RowKept A nvs files s e) :
    DeletesListed A nvs files s e ∧ RowsInv (serverStep A nvs s e) := by
  have hto := serverStep_to A nvs s e
  generalize hstep : serverStep A nvs s e = s' at hto ⊢
  cases hto with
  | quiet hdelete hrow =>
      exact ⟨fun row fdText he hmem => absurd hmem (hrow row fdText he), hs.quiet⟩
  | deleteRow hrow => exact ⟨deleteStep_listed hA hs hrow hc, hs.deleteStep _ _⟩
  | delete => exact ⟨nofun, hs.deleteStep _ _⟩
  | openIndex =>
      refine ⟨nofun, hs.of_conn rfl rfl fun i hi => ?_⟩
      obtain rfl := Session.index.inj hi
      exact Or.inl rfl
  | index hconn hopen hindex =>
      rw [← hindex]
      exact ⟨nofun, indexStep_rows hA hs hconn⟩
  | @abortIndex c stack i hconn =>
      refine ⟨nofun, hs.of_conn rfl rfl fun i' hi' => ?_⟩
      obtain rfl := Session.index.inj hi'
      exact hs.cursors c i hconn
  | openUpload | openDownload => exact ⟨nofun, hs.of_conn rfl rfl nofun⟩
  | post | download | abortUpload | abortDownload => exact ⟨nofun, hs.of_conn rfl rfl nofun⟩

/-- **Deletes through rows are safe as long as the rows are current.**  In every run in which each
delete through a row finds the file of that row still there, or finds nothing at all, no such delete
removes another file, and where the file has gone it removes nothing and erases no namespace. -/
theorem deletes_listed (hA : A.Laws files) (nvs : NvsExec ν) (fs : σ) (v : ν)
    (es : List ServerEvent)
    (hes : Machine.AllSteps (serverStep A nvs) (RowKept A nvs files) (Server.initial fs v) es) :
    Machine.AllSteps (serverStep A nvs) (DeletesListed A nvs files) (Server.initial fs v) es :=
  Machine.AllSteps.of_invariant (serverStep_listed hA) (RowsInv.initial fs v) hes

end Invariant

/-! ## A row that is used twice -/

/-- A post buffer shows no rows. -/
lemma serverStep_post_rows {σ ν : Type} {A : Appfs σ} {nvs : NvsExec ν} (s : Server σ ν)
    (c : ConnId) (chunk : Bytes) : (serverStep A nvs s (.post c chunk)).rows = s.rows := by
  simp only [serverStep, postStep]
  split
  · split_ifs <;> rfl
  · rfl

/-- One file, under the handle 0. -/
def oneFile : RamAppfs := (RamAppfs.exec (.createFile (ascii "b") 1) .empty).2

/-- Its row, which is that of a file nobody has created since the start. -/
def oneRow : ShownRow := (⟨0, ascii "b", 1⟩, none)

/-- A client loads the index, and deletes what it shows. -/
def listAndDelete : List ServerEvent := [.openIndex 0, .call 0 ⟨[], []⟩, .deleteRow oneRow []]

/-- The same row is used once more. -/
theorem deletes_listed_twice :
    Machine.AllSteps (serverStep RamAppfs.device noNvs)
      (DeletesListed RamAppfs.device noNvs RamAppfs.files) (Server.initial oneFile ())
      (listAndDelete ++ [.deleteRow oneRow []]) := by
  refine deletes_listed RamAppfs.device_laws noNvs oneFile () _
    ⟨fun _ _ he => by simp at he, fun _ _ he => by simp at he, ?_, ?_, trivial⟩
  · intro row fdText he _
    obtain ⟨rfl, _⟩ := ServerEvent.deleteRow.inj he
    exact Or.inl ⟨0, ⟨ascii "b", 1, RamAppfs.oldData⟩, rfl, rfl, rfl, rfl⟩
  · intro row fdText he _
    obtain ⟨rfl, _⟩ := ServerEvent.deleteRow.inj he
    refine Or.inr ⟨?_, by decide⟩
    rintro ⟨h, f, hf, _⟩
    have hnone := RamAppfs.none_of_sectors
      (s := (RamAppfs.exec (.deleteFile (ascii "b")) oneFile).2) (p := fun _ => True)
      (by decide) h trivial
    exact absurd (hnone.symm.trans hf) (by simp)

/-- Between the two uses a file is uploaded, and gets the handle of the row. -/
theorem deletes_not_listed :
    ¬ ∀ (σ ν : Type) (A : Appfs σ) (nvs : NvsExec ν) (files : σ → Files) (fs : σ) (v : ν)
      (es : List ServerEvent), A.Laws files →
      Machine.AllSteps (serverStep A nvs) (DeletesListed A nvs files) (Server.initial fs v) es := by
  intro h
  have hsteps := h RamAppfs Unit RamAppfs.device noNvs RamAppfs.files oneFile ()
    (listAndDelete ++ [.openUpload 1 argsA 1, .post 1 [7], .deleteRow oneRow []])
    RamAppfs.device_laws
  obtain ⟨_, _, hlast, _⟩ := (Machine.allSteps_append.mp hsteps).2
  obtain ⟨s, hs⟩ : ∃ s, s = serverStep RamAppfs.device noNvs (Machine.run
    (serverStep RamAppfs.device noNvs) (Server.initial oneFile ()) listAndDelete)
    (.openUpload 1 argsA 1) := ⟨_, rfl⟩
  rw [← hs] at hlast
  have hconn : s.conns 1 = some (.upload (.opened argsA 1)) := by rw [hs]; rfl
  have hrow : oneRow ∈ s.rows := by rw [hs]; exact List.mem_singleton_self _
  -- the upload of `a` takes the sector that has become free
  obtain ⟨_, hrun⟩ := uploadRun_page argsA RamAppfs.device [7] (by decide) (by decide) s.fs
    (ascii "a") (by decide) (RamAppfs.exec_eq (a := ⟨espOk, 0⟩) (by rw [hs]; decide))
    (RamAppfs.exec_eq (a := ⟨espOk, -1⟩) (by rw [hs]; decide))
    (RamAppfs.exec_eq (a := ⟨espOk, -1⟩) (by rw [hs]; decide))
    (RamAppfs.exec_eq (a := ⟨espOk, -1⟩) (by rw [hs]; decide))
  obtain ⟨hfs, _⟩ := serverStep_post (A := RamAppfs.device) noNvs [7] hconn rfl (by decide) rfl
  replace hfs := hfs.trans (congrArg Prod.fst hrun)
  obtain ⟨f, hf, hname⟩ : ∃ f,
      (serverStep RamAppfs.device noNvs s (.post 1 [7])).fs.files 0 = some f ∧
      f.name = ascii "a" := by
    refine Option.map_eq_some_iff.mp ?_
    rw [hfs, hs]
    decide
  replace hrow : oneRow ∈ (serverStep RamAppfs.device noNvs s (.post 1 [7])).rows := by
    rwa [serverStep_post_rows]
  generalize serverStep RamAppfs.device noNvs s (.post 1 [7]) = s' at *
  -- the second use of the row deletes it
  obtain ⟨_, _, hrowname, _⟩ := (hlast oneRow [] rfl hrow).1 0 f hf (by
    have hidx : deleteIdx (rowArgs oneRow.1) [] = some 0 := by decide
    obtain ⟨hdel, _⟩ := deleteStep_eq (A := RamAppfs.device) (s := s') hidx
    have hstep : serverStep RamAppfs.device noNvs s' (.deleteRow oneRow [])
      = deleteStep RamAppfs.device noNvs s' (rowArgs oneRow.1) [] := if_pos hrow
    rw [hstep, hdel, RamAppfs.device_laws.entryInfo hf,
      RamAppfs.device_laws.delete_ok (RamAppfs.delete_of_file hf)]
    exact fun hkept => (Files.without_eq_some.mp hkept).2 rfl)
  exact absurd (hname.symm.trans hrowname) (by decide)

end Chooser
