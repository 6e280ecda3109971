import Chooser.UploadFile
import Chooser.Download
import Chooser.FileIdxJson

/-!
# Upload, list, download

What was uploaded is in the index once, with its size, and downloading it by the index gives it
back.  The index is its text, parsed as JSON, and the names have to be such that it shows them.  The
other files are still there, with one exception: creating the temporary file removes a file of that
name, so a left-over temporary file does not survive the next upload.
-/

namespace Chooser

open CStr Json

/-- A download of this index announces this size and sends these bytes, on a device that does not
change meanwhile and whatever lies on the stack. -/
def Downloads {σ : Type} (A : Appfs σ) (s : σ) (k : Handle) (content : Bytes) : Prop :=
  ∀ (args : Args) (stack : ℕ → DownloadStack), args "idx" = some (sprintfD k) →
    ∃ out, CgiRun (downloadCall A args stack) 0 none s out s ∧
      .header (ascii "Content-Length") (sprintfD content.length) ∈ out ∧ bodySent out = content

/-- A member of `files`, read as a row. -/
structure ReadsRow (v : Value) (r : FileRow) : Prop where
  index : v.field (ascii "index") = some (.number r.fd 0)
  name : v.field (ascii "name") = some (.string r.name)
  size : v.field (ascii "size") = some (.number r.size 0)

/-- **One run of the index reports these rows**: its text, parsed as JSON, has them in `files`. -/
def Lists {σ : Type} (A : Appfs σ) (s : σ) (rows : List FileRow) : Prop :=
  ∃ out v vs, CgiRun (fileIdxCall A) 0 none s out s ∧ parse (bodySent out) = some v ∧
    v.field (ascii "files") = some (.array vs) ∧ List.Forall₂ ReadsRow vs rows

section Lists

variable {σ : Type} {A : Appfs σ} {files : σ → Files}

lemma downloads_of_file (hA : A.Laws files) {s : σ} (hreads : ReadsSucceed A files s) {k : Handle}
    {f : AppfsFile} (hf : files s k = some f) : Downloads A s k f.content := by
  intro args stack hidx
  rw [f.length_content]
  exact downloadCall_run hA hreads hf hidx

lemma ReadsRow.unique {v : Value} {r r' : FileRow} (h : ReadsRow v r) (h' : ReadsRow v r') :
    r = r' := by
  have hfd := (Value.number.inj (Option.some.inj (h.index.symm.trans h'.index))).1
  have hname := Value.string.inj (Option.some.inj (h.name.symm.trans h'.name))
  have hsize := (Value.number.inj (Option.some.inj (h.size.symm.trans h'.size))).1
  obtain ⟨fd, name, size⟩ := r
  obtain ⟨fd', name', size'⟩ := r'
  obtain rfl : fd = fd' := hfd
  obtain rfl : name = name' := hname
  obtain rfl : size = size' := Int.ofNat.inj hsize
  rfl

/-- The text says which rows there are. -/
lemma Lists.unique {s : σ} {rows rows' : List FileRow} (h : Lists A s rows)
    (h' : Lists A s rows') : rows = rows' := by
  obtain ⟨out, v, vs, hrun, hv, hvs, hrows⟩ := h
  obtain ⟨out', v', vs', hrun', hv', hvs', hrows'⟩ := h'
  obtain ⟨rfl, _⟩ := hrun.unique hrun'
  obtain rfl := Option.some.inj (hv.symm.trans hv')
  obtain rfl := Value.array.inj (Option.some.inj (hvs.symm.trans hvs'))
  have hunique : Relator.RightUnique ReadsRow := fun _ _ _ => ReadsRow.unique
  exact hunique.forall₂ hrows hrows'

/-- **The index lists each file once**: the rows are those of the stored files, and a name has the
row of its file alone. -/
theorem exists_lists (hA : A.Laws files) {s : σ} (hnames : Presentable (files s)) :
    ∃ rows, Lists A s rows ∧ (∀ k n size, ⟨k, n, size⟩ ∈ rows ↔
        ∃ f, files s k = some f ∧ f.name = n ∧ f.size = size) ∧
      ∀ k f, files s k = some f → rows.filter (·.name = f.name) = [⟨k, f.name, f.size⟩] := by
  obtain ⟨es, out, hrun, _, hmem, hsorted, _, v, hv, ⟨vs, hvs, hsays⟩, _⟩ :=
    indexIsJson_of_presentable hA hnames
  have hreads : List.Forall₂ ReadsRow vs (es.map entryRow) := by
    rw [List.forall₂_map_right_iff]
    exact hsays.flip.imp fun v e h => ⟨h.index, h.name, h.size⟩
  refine ⟨es.map entryRow, ⟨out, v, vs, hrun, hv, hvs, hreads⟩, fun k n size => ?_,
    fun k f hf => ?_⟩
  · simp only [List.mem_map, Prod.exists, entryRow, FileRow.mk.injEq]
    constructor
    · rintro ⟨k', f, hin, rfl, rfl, rfl⟩
      exact ⟨f, (hmem k' f).mp hin, rfl, rfl⟩
    · rintro ⟨f, hf, rfl, rfl⟩
      exact ⟨k, f, (hmem k f).mpr hf, rfl, rfl, rfl⟩
  · -- the entries of this name are this one, and handles do not repeat
    have hsingle : es.filter (fun e => e.2.name = f.name) = [(k, f)] := by
      have hnodup : (es.filter fun e => e.2.name = f.name).Nodup := by
        refine List.Nodup.filter _ (hsorted.imp fun {a b} hlt heq => ?_)
        rw [heq] at hlt
        exact lt_irrefl _ hlt
      refine List.perm_singleton.mp ((List.perm_ext_iff_of_nodup hnodup
        (List.nodup_singleton _)).mpr fun e => ?_)
      obtain ⟨k', g⟩ := e
      rw [List.mem_filter, List.mem_singleton, hmem]
      constructor
      · rintro ⟨hg, hname⟩
        have hk := hA.unique hg hf (by simpa using hname)
        subst hk
        rw [hf] at hg
        rw [Option.some.inj hg]
      · rintro ⟨⟩
        exact ⟨hf, by simp⟩
    have hmap : (es.map entryRow).filter (·.name = f.name)
        = (es.filter fun e => e.2.name = f.name).map entryRow := by
      rw [List.filter_map]
      rfl
    rw [hmap, hsingle]
    rfl

/-- What is stored after an upload can be shown if it could before, and the new name can. -/
lemma presentable_after {args : Args} {F F' : Files} (hF : Presentable F)
    (hname : PresentableName (uploadName args))
    (hframe : ∀ n, n ≠ uploadTempName → n ≠ uploadName args → F.SameUnder F' n) :
    Presentable F' := by
  intro h f hf
  by_cases htemp : f.name = uploadTempName
  · rw [htemp]
    exact presentable_ascii (by decide) (by decide)
  by_cases hnew : f.name = uploadName args
  · rw [hnew]
    exact hname
  · exact hF h f ((hframe f.name htemp hnew h f rfl).mpr hf)

/-- **Upload, list, download.**  When every call of an upload has succeeded, the answer is 200, a
download by the index of the new file sends the body, and every file that was there before under
another name, a left-over temporary file apart, is still there and downloads as before.  If the
stored names and the new one can be shown, the index has exactly one row with the new name, with the
size of the body and this index, and the others have their rows. -/
theorem upload_list_download (hA : A.Laws files) {args : Args} {body : Bytes} (hbody : body ≠ [])
    {chunks : List Bytes} (hchunks : chunks.flatten = body) {s : σ}
    (hok : ∀ ev ∈ (uploadRun (record A.exec) args body.length chunks (s, [])).2.2,
      ev.answer.err = espOk)
    (hreads : ReadsSucceed A files
      (uploadRun (record A.exec) args body.length chunks (s, [])).2.1) :
    let r := uploadRun (record A.exec) args body.length chunks (s, [])
    r.1.sent = uploadOkResponse ∧
    (∀ h f, files s h = some f → f.name ≠ uploadName args → f.name ≠ uploadTempName →
      files r.2.1 h = some f ∧ Downloads A r.2.1 h f.content) ∧
    ∃ k f, files r.2.1 k = some f ∧ f.name = uploadName args ∧ Downloads A r.2.1 k body ∧
      (Presentable (files s) → PresentableName (uploadName args) →
        ∃ rows, Lists A r.2.1 rows ∧
          rows.filter (·.name = uploadName args) = [⟨k, uploadName args, body.length⟩] ∧
          ∀ h f, files s h = some f → f.name ≠ uploadName args → f.name ≠ uploadTempName →
            ⟨h, f.name, f.size⟩ ∈ rows) := by
  subst hchunks
  have hlen : 0 < chunks.flatten.length := List.length_pos_of_ne_nil hbody
  rw [uploadRun_done _ _ hlen rfl] at hok hreads ⊢
  obtain ⟨hstate, ⟨k, f, hf, hfname, hsize, hcontent⟩, hframe⟩ :=
    uploadBody_succeeds hA hbody hok
  intro r
  -- the other files are the ones from before
  have hkept : ∀ h g, files s h = some g → g.name ≠ uploadName args → g.name ≠ uploadTempName →
      files r.2.1 h = some g :=
    fun h g hg hname htemp => (hframe g.name htemp hname h g rfl).mp hg
  refine ⟨uploadResponse_done hstate, fun h g hg hname htemp =>
    ⟨hkept h g hg hname htemp, downloads_of_file hA hreads (hkept h g hg hname htemp)⟩,
    k, f, hf, hfname, ?_, fun hnames hname => ?_⟩
  · rw [← hcontent]
    exact downloads_of_file hA hreads hf
  · obtain ⟨rows, hlists, hrows, hfilter⟩ :=
      exists_lists hA (s := r.2.1) (presentable_after hnames hname hframe)
    have hrow := hfilter k f hf
    rw [hfname, hsize] at hrow
    exact ⟨rows, hlists, hrow, fun h g hg hgn hgt =>
      (hrows h g.name g.size).mpr ⟨g, hkept h g hg hgn hgt, rfl, rfl⟩⟩

end Lists

/-! ## A left-over temporary file -/

lemma RamAppfs.readsSucceed (s : RamAppfs) : ReadsSucceed device RamAppfs.files s :=
  fun _ _ _ _ _ hf hle => read_succeeds hf hle

/-- A file system with nothing but a left-over temporary file. -/
def leftOver : RamAppfs := (RamAppfs.exec (.createFile uploadTempName 1) .empty).2

/-- The file system after one byte has been uploaded as `a` to it. -/
def leftOverUploaded : RamAppfs :=
  (uploadRun (record RamAppfs.device.exec) argsA 1 [[7]] (leftOver, [])).2.1

lemma uploadRun_leftOver :
    (∀ ev ∈ (uploadRun (record RamAppfs.device.exec) argsA 1 [[7]] (leftOver, [])).2.2,
      ev.answer.err = espOk) ∧
    (leftOverUploaded.files 0).map (fun f => (f.name, f.size)) = some (ascii "a", 1) ∧
    ∀ h, h ≠ 0 → leftOverUploaded.files h = none := by
  obtain ⟨_, hrun⟩ := uploadRun_page argsA RamAppfs.device [7] (by decide) (by decide) leftOver
    (ascii "a") (by decide) (Prod.ext (by decide) rfl) (Prod.ext (by decide) rfl)
    (Prod.ext (by decide) rfl) (Prod.ext (by decide) rfl)
  rw [show ([7] : Bytes).length = 1 from rfl] at hrun
  rw [leftOverUploaded, hrun]
  exact ⟨by simp, by decide, RamAppfs.none_of_sectors (by decide)⟩

/-- The names on this file system. -/
lemma presentable_leftOver : Presentable leftOver.files := by
  intro h f hf
  have hname : f.name = uploadTempName := name_of_onlyFile hf
  rw [hname]
  exact presentable_ascii (by decide) (by decide)

lemma presentable_argsA : PresentableName (uploadName argsA) := by
  have hname : uploadName argsA = ascii "a" := by decide
  rw [hname]
  exact presentable_ascii (by decide) (by decide)

/-- The upload of `a` on this file system, with the index and the download. -/
theorem upload_list_download_leftOver :
    (uploadRun (record RamAppfs.device.exec) argsA 1 [[7]] (leftOver, [])).1.sent
        = uploadOkResponse ∧
      ∃ k, Downloads RamAppfs.device leftOverUploaded k [7] ∧
        ∃ rows, Lists RamAppfs.device leftOverUploaded rows ∧
          rows.filter (·.name = ascii "a") = [⟨k, ascii "a", 1⟩] := by
  obtain ⟨hsent, _, k, _, _, _, hdownloads, hindex⟩ :=
    upload_list_download RamAppfs.device_laws (show ([7] : Bytes) ≠ [] by decide) rfl
      uploadRun_leftOver.1 (RamAppfs.readsSucceed _)
  obtain ⟨rows, hlists, hrow, _⟩ := hindex presentable_leftOver presentable_argsA
  exact ⟨hsent, k, hdownloads, rows, hlists, hrow⟩

/-- The left-over temporary file is gone after the upload, and not in the index, although all names
can be shown. -/
theorem upload_list_download_loses :
    ¬ ∀ (σ : Type) (A : Appfs σ) (files : σ → Files) (args : Args) (body : Bytes)
      (chunks : List Bytes) (s : σ), A.Laws files → uploadName args ≠ [] → body ≠ [] →
      chunks.flatten = body →
      (∀ ev ∈ (uploadRun (record A.exec) args body.length chunks (s, [])).2.2,
        ev.answer.err = espOk) →
      ReadsSucceed A files (uploadRun (record A.exec) args body.length chunks (s, [])).2.1 →
      Presentable (files s) → PresentableName (uploadName args) →
      ∃ rows, Lists A (uploadRun (record A.exec) args body.length chunks (s, [])).2.1 rows ∧
        ∀ h f, files s h = some f → f.name ≠ uploadName args →
          ∃ k, ⟨k, f.name, f.size⟩ ∈ rows := by
  intro h
  obtain ⟨hok, hfile, hnone⟩ := uploadRun_leftOver
  obtain ⟨rows, hlists, hrows⟩ := h RamAppfs RamAppfs.device RamAppfs.files argsA
    [7] [[7]] leftOver RamAppfs.device_laws (by decide) (by decide) rfl hok
    (RamAppfs.readsSucceed _) presentable_leftOver presentable_argsA
  obtain ⟨g, hg, hgname⟩ := Option.map_eq_some_iff.mp hfile
  obtain ⟨hgname, hgsize⟩ := Prod.mk.inj hgname
  -- there is one file, the new one
  have hone : ∀ k f, leftOverUploaded.files k = some f → f.name = ascii "a" := by
    intro k f hf
    by_cases hk : k = 0
    · subst hk
      rw [hg] at hf
      rw [← Option.some.inj hf, hgname]
    · rw [hnone k hk] at hf
      simp at hf
  obtain ⟨rows₀, hlists₀, hmem₀, _⟩ := exists_lists RamAppfs.device_laws
    (s := leftOverUploaded) fun k f hf => by
      rw [show f.name = ascii "a" from hone k f hf]
      exact presentable_ascii (by decide) (by decide)
  obtain rfl : rows = rows₀ := Lists.unique hlists hlists₀
  obtain ⟨f, hf, hfname⟩ : ∃ f, leftOver.files 0 = some f ∧ f.name = uploadTempName := by
    have : (leftOver.files 0).map (·.name) = some uploadTempName := by decide
    exact Option.map_eq_some_iff.mp this
  obtain ⟨k, hk⟩ := hrows 0 f hf (by rw [hfname]; decide)
  obtain ⟨f', hf', hf'name, _⟩ := (hmem₀ k _ _).mp hk
  have hsame := (hone k f' hf').symm.trans (hf'name.trans hfname)
  exact absurd hsame (by decide)

end Chooser
