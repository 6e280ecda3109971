import Chooser.Durability
import Chooser.FileIdxJson
import Chooser.DeleteIndex
import Chooser.RoundTrip
import Chooser.UploadOutcome

/-!
# The page in the browser

The page shows a table of the files.  `triggerReload` fills it from `fileidx.cgi`, each row with a
link that downloads the file and one that deletes it; `doUpgrade` uploads a file and, if the answer
has no text, has the table filled again.  The answer to a delete leads back to the page.

One browser at a time: then what the page shows is what is stored, after any number of uploads,
complete or broken off, deletes and reloads, apart from temporary files (`page_right`); and a file
that is uploaded on the page is behind the link of its row (`upload_shown`).  An upload whose answer
is lost leaves the table as it was, and it is right again when it has been filled the next time.
What the server makes of a link, `query`, is not part of the repository.
-/

namespace Chooser

open CStr Json

/-! ## main.js -/

structure WebRow where
  download : Bytes
  name : Bytes
  size : Bytes
  delete : Bytes
deriving DecidableEq

structure WebPage where
  rows : List WebRow
  free : Bytes
deriving DecidableEq

def formatBytes (size : ℕ) : Bytes :=
  if size ≥ 1024 * 1024 then decimal (size / (1024 * 1024)) ++ ascii " MiB"
  else decimal (size / 1024) ++ ascii " KiB"

/-- A member that is a whole number. -/
def jsWhole : Option Value → Option ℕ
  | some (.number (.ofNat n) 0) => some n
  | _ => none

/-- A member that is a string. -/
def jsString : Option Value → Option Bytes
  | some (.string s) => some s
  | _ => none

def downloadLink (index : ℕ) : Bytes := ascii "download.cgi?idx=" ++ decimal index

def deleteLink (index : ℕ) : Bytes := ascii "delete.cgi?idx=" ++ decimal index

/-- The row that is inserted for `obj.files[x]`. -/
def webRow (file : Value) : Option WebRow := do
  let index ← jsWhole (file.field (ascii "index"))
  let name ← jsString (file.field (ascii "name"))
  let size ← jsWhole (file.field (ascii "size"))
  pure ⟨downloadLink index, name, formatBytes size, deleteLink index⟩

/-- The table, filled from `obj`. -/
def webPage (obj : Value) : Option WebPage :=
  match obj.field (ascii "files") with
  | some (.array files) => do
      let rows ← files.mapM webRow
      let free ← jsWhole (obj.field (ascii "free"))
      pure ⟨rows, formatBytes free⟩
  | _ => none

/-- `triggerReload`, when the answer is there.  If it cannot be parsed the table stays. -/
def triggerReload (status : ℕ) (responseText : Bytes) (p : WebPage) : WebPage :=
  if 200 ≤ status ∧ status < 300 then ((parse responseText).bind webPage).getD p else p

/-- The page as it is sent, with `Loading…` for a row. -/
def indexHtml : WebPage := ⟨[⟨[], "Loading…".toUTF8.toList, ascii "0K", []⟩], ascii "0 MiB"⟩

/-- A line ends before LF, CR, U+2028 and U+2029, the last two as they are in UTF-8. -/
def startsNewLine (s : Bytes) : Bool :=
  [[10], [13], [0xE2, 0x80, 0xA8], [0xE2, 0x80, 0xA9]].any fun sep => sep.isPrefixOf s

/-- What `.*` matches at the start of a string. -/
def firstLine : Bytes → Bytes
  | [] => []
  | c :: s => if startsNewLine (c :: s) then [] else c :: firstLine s

/-- `name.replace(/^.*[\\\/]/, '')` -/
def baseName (value : Bytes) : Bytes :=
  let line := firstLine value
  value.drop (line.length - (line.reverse.takeWhile fun c => c ≠ 92 ∧ c ≠ 47).length)

/-- A slash behind the end of a line does not count. -/
example : baseName (ascii "a/b" ++ [0xE2, 0x80, 0xA8] ++ ascii "c/d")
    = ascii "b" ++ [0xE2, 0x80, 0xA8] ++ ascii "c/d" := by decide

/-- What `encodeURIComponent` leaves as it is. -/
def uriUnescaped (c : UInt8) : Bool :=
  (48 ≤ c && c ≤ 57) || (65 ≤ c && c ≤ 90) || (97 ≤ c && c ≤ 122) || c ∈ ascii "-_.!~*'()"

def hexDigit (n : UInt8) : UInt8 := if n < 10 then 48 + n else 55 + n

def encodeURIComponent (s : Bytes) : Bytes :=
  s.flatMap fun c => if uriUnescaped c then [c] else [37, hexDigit (c / 16), hexDigit (c % 16)]

/-- The request of `doUpgrade`, for the value of the file input. -/
def uploadLink (value : Bytes) : Bytes :=
  ascii "upload.cgi?name=" ++ encodeURIComponent (baseName value)

/-- `doUpgrade`, when the answer is there; `index` is what `fileidx.cgi` will answer. -/
def doUpgradeDone (status : ℕ) (responseText : Bytes) (index : ℕ × Bytes) (p : WebPage) : WebPage :=
  if (200 ≤ status ∧ status < 300) ∨ status = 400 then
    if responseText ≠ [] then p else triggerReload index.1 index.2 p
  else p

/-- The answers to an upload after which the table is filled again. -/
def Reloads (answer : ℕ × Bytes) : Prop :=
  ((200 ≤ answer.1 ∧ answer.1 < 300) ∨ answer.1 = 400) ∧ answer.2 = []

lemma doUpgradeDone_of_reloads {answer : ℕ × Bytes} (h : Reloads answer) (index : ℕ × Bytes)
    (p : WebPage) : doUpgradeDone answer.1 answer.2 index p = triggerReload index.1 index.2 p := by
  rw [doUpgradeDone, if_pos h.1, if_neg (not_not.mpr h.2)]

lemma doUpgradeDone_of_not_reloads {answer : ℕ × Bytes} (h : ¬ Reloads answer) (index : ℕ × Bytes)
    (p : WebPage) : doUpgradeDone answer.1 answer.2 index p = p := by
  rw [doUpgradeDone]
  split_ifs with hstatus htext
  · rfl
  · exact absurd ⟨hstatus, not_not.mp htext⟩ h
  · rfl

/-! ## A session -/

/-- What comes over the network: the status, which is 0 if nothing comes, and the text. -/
def received (out : List HttpCall) : ℕ × Bytes := ((responseStatus out).getD 0, bodySent out)

/-- What the server has to make of the links. -/
structure ReadsLinks (query : Bytes → Args) : Prop where
  download : ∀ n, query (downloadLink n) "idx" = some (decimal n)
  delete : ∀ n, query (deleteLink n) "idx" = some (decimal n)
  upload : ∀ value, query (uploadLink value) "name" = some (baseName value)

section Defs

variable {σ ν : Type} (A : Appfs σ) (nvs : NvsExec ν) (files : σ → Files) (query : Bytes → Args)

/-- The page is asked for, and then the index. -/
def Loads (s : σ) (p : WebPage) : Prop :=
  Presentable (files s) ∧ ∃ out, CgiRun (fileIdxCall A) 0 none s out s ∧
    p = triggerReload (received out).1 (received out).2 indexHtml

/-- What is stored after an upload of the file `value`, of which these buffers have arrived. -/
def uploaded (value : Bytes) (len : ℕ) (chunks : List Bytes) (w : σ × ν) : σ × ν :=
  deviceStep A nvs w (.upload (query (uploadLink value)) len chunks)

/-- The answer to it. -/
def uploadAnswer (value : Bytes) (len : ℕ) (chunks : List Bytes) (w : σ × ν) : ℕ × Bytes :=
  received ((DeviceOp.upload (query (uploadLink value)) len chunks).run A nvs w).2.2

/-- An upload without a failing call, of no more than was announced. -/
def Uploads (value : Bytes) (len : ℕ) (chunks : List Bytes) (w : σ × ν) (p p' : WebPage) : Prop :=
  OpSucceeds A nvs files w (.upload (query (uploadLink value)) len chunks) ∧
    Presentable (files (uploaded A nvs query value len chunks w).1) ∧
    ∃ out, CgiRun (fileIdxCall A) 0 none (uploaded A nvs query value len chunks w).1 out
        (uploaded A nvs query value len chunks w).1 ∧
      p' = doUpgradeDone (uploadAnswer A nvs query value len chunks w).1
        (uploadAnswer A nvs query value len chunks w).2 (received out) p

/-- **What one browser can show**, with what is stored at that time, if no upload has a failing
call.  The proposition at the end is whether the table has been filled since the last upload of
which the answer was lost. -/
inductive Browsing : σ × ν → WebPage → Prop → Prop
  | load {w : σ × ν} {p : WebPage} (hload : Loads A files w.1 p) : Browsing w p True
  /-- The link of a row leads to `cgiDelete`, and from there back to the page. -/
  | delete {w : σ × ν} {p p' : WebPage} {fresh : Prop} {row : WebRow} {fdText : Bytes}
      (h : Browsing w p fresh) (hrow : row ∈ p.rows)
      (hload : Loads A files (deleteRequest A nvs (query row.delete) fdText w).1 p') :
      Browsing (deleteRequest A nvs (query row.delete) fdText w) p' True
  | upload {w : σ × ν} {p p' : WebPage} {fresh : Prop} {value : Bytes} {len : ℕ}
      {chunks : List Bytes} (h : Browsing w p fresh)
      (hupload : Uploads A nvs files query value len chunks w p p') :
      Browsing (uploaded A nvs query value len chunks w) p'
        (fresh ∨ Reloads (uploadAnswer A nvs query value len chunks w))
  /-- The answer, or the index that is asked for then, does not arrive. -/
  | lost {w : σ × ν} {p : WebPage} {fresh : Prop} {value : Bytes} {len : ℕ} {chunks : List Bytes}
      (h : Browsing w p fresh)
      (hop : OpSucceeds A nvs files w (.upload (query (uploadLink value)) len chunks)) :
      Browsing (uploaded A nvs query value len chunks w) p False

/-- A row whose links do what they say: the one sends the file of its name, the other deletes this
file and no other. -/
structure RowWorks (w : σ × ν) (row : WebRow) : Prop where
  download : ∀ stack, ∃ out, CgiRun (downloadCall A (query row.download) stack) 0 none w.1 out w.1 ∧
    (files w.1).Stores row.name (bodySent out)
  delete : ∀ fdText, files (deleteRequest A nvs (query row.delete) fdText w).1
    = (files w.1).without row.name

end Defs

/-! ## What the page shows -/

/-- The row of a stored file. -/
def shownRow (e : Handle × AppfsFile) : WebRow :=
  ⟨downloadLink e.1.toNat, e.2.name, formatBytes e.2.size, deleteLink e.1.toNat⟩

/-- **The page shows these files**, apart from those that are temporary. -/
structure WebPage.Shows (p : WebPage) (F : Files) : Prop where
  nodup : (p.rows.map WebRow.name).Nodup
  complete : ∀ k f, F k = some f → f.name ≠ uploadTempName → shownRow (k, f) ∈ p.rows
  sound : ∀ row ∈ p.rows, ∃ k f, row = shownRow (k, f) ∧
    (f.name ≠ uploadTempName → F k = some f)

/-- The temporary files may change. -/
lemma WebPage.Shows.of_same {p : WebPage} {F F' : Files} (h : p.Shows F)
    (hsame : ∀ m, m ≠ uploadTempName → F.SameUnder F' m) : p.Shows F' := by
  refine ⟨h.nodup, fun k f hf hname => ?_, fun row hrow => ?_⟩
  · exact h.complete k f ((hsame f.name hname k f rfl).mpr hf) hname
  · obtain ⟨k, f, hshown, hfile⟩ := h.sound row hrow
    exact ⟨k, f, hshown, fun hname => (hsame f.name hname k f rfl).mp (hfile hname)⟩

section Reload

variable {σ : Type} {A : Appfs σ} {files : σ → Files}

/-- The index is answered with 200. -/
lemma received_index {s s' : σ} {out : List HttpCall}
    (h : CgiRun (fileIdxCall A) 0 none s out s') : (received out).1 = 200 := by
  have hopening : ∀ rest, responseStatus (fileIdxOpening ++ rest) = some 200 := fun _ => rfl
  have hfirst : ∃ rest, (fileIdxCall A 0 none s).1.out = fileIdxOpening ++ rest := by
    simp only [fileIdxCall, cgiFileIdx]
    split <;> exact ⟨_, rfl⟩
  obtain ⟨rest, hrest⟩ := hfirst
  cases h with
  | done _ => rw [received, hrest, hopening]; rfl
  | more _ _ => rw [received, hrest, List.append_assoc, hopening]; rfl

/-- One row of the index, as the page reads it. -/
lemma webRow_json {e : Handle × AppfsFile} (hfd : 0 ≤ e.1)
    (hkept : (entryRow e).keptName = e.2.name) : webRow (entryRow e).json = some (shownRow e) := by
  obtain ⟨n, hn⟩ := Int.eq_ofNat_of_zero_le hfd
  have hindex : (entryRow e).json.field (ascii "index") = some (.number (n : ℤ) 0) := by
    rw [← hn]
    rfl
  have hname : (entryRow e).json.field (ascii "name") = some (.string e.2.name) := by
    rw [← hkept]
    rfl
  have hsize : (entryRow e).json.field (ascii "size") = some (.number (e.2.size : ℤ) 0) := rfl
  rw [webRow, hindex, hname, hsize, shownRow, hn]
  rfl

lemma mapM_webRow {es : List (Handle × AppfsFile)}
    (h : ∀ e ∈ es, webRow (entryRow e).json = some (shownRow e)) :
    ((es.map entryRow).map FileRow.json).mapM webRow = some (es.map shownRow) := by
  induction es with
  | nil => rfl
  | cons e es ih =>
      rw [List.map_cons, List.map_cons, List.mapM_cons, h e List.mem_cons_self,
        ih fun e' he' => h e' (List.mem_cons_of_mem e he')]
      rfl

/-- **A reload shows what is stored.** -/
lemma shows_reload (hA : A.Laws files) {s : σ} (hnames : Presentable (files s))
    {out : List HttpCall} (hrun : CgiRun (fileIdxCall A) 0 none s out s) (p : WebPage) :
    (triggerReload (received out).1 (received out).2 p).Shows (files s) := by
  obtain ⟨es, hes⟩ := exists_entries hA s (le_refl appfsInvalidFd)
  obtain ⟨out', hrun', hbody⟩ := fileIdxCall_run hA hes
  obtain ⟨rfl, _⟩ := hrun.unique hrun'
  have hmem : ∀ h f, (h, f) ∈ es ↔ files s h = some f := hes.mem_files hA
  have hgood : ∀ e ∈ es, (entryRow e).Parses ∧ (entryRow e).keptName = e.2.name := by
    rintro ⟨h, f⟩ he
    obtain ⟨hnul, _, hlist⟩ := hnames h f ((hmem h f).mp he)
    exact (listable_iff hnul).mpr hlist
  have hparse : parse (bodySent out) = some (indexJson (es.map entryRow) (A.freeMem s)) := by
    rw [hbody, parse_fileIdxText (entryRow_fd hA hmem), if_pos]
    intro r hr
    obtain ⟨e, he, rfl⟩ := List.mem_map.mp hr
    exact (hgood e he).1
  have hrows : ∀ e ∈ es, webRow (entryRow e).json = some (shownRow e) := fun e he =>
    webRow_json (hA.bounded ((hmem e.1 e.2).mp he)).1 (hgood e he).2
  have hpage : webPage (indexJson (es.map entryRow) (A.freeMem s))
      = some ⟨es.map shownRow, formatBytes (A.freeMem s)⟩ := by
    have hfiles : (indexJson (es.map entryRow) (A.freeMem s)).field (ascii "files")
        = some (.array ((es.map entryRow).map FileRow.json)) := rfl
    have hfree : jsWhole ((indexJson (es.map entryRow) (A.freeMem s)).field (ascii "free"))
        = some (A.freeMem s) := rfl
    rw [webPage, hfiles]
    simp only [mapM_webRow hrows, hfree]
    rfl
  have hreload : triggerReload (received out).1 (received out).2 p
      = ⟨es.map shownRow, formatBytes (A.freeMem s)⟩ := by
    rw [triggerReload, received_index hrun, if_pos (by decide)]
    show ((parse (bodySent out)).bind webPage).getD p = _
    rw [hparse, Option.bind_some, hpage, Option.getD_some]
  rw [hreload]
  refine ⟨?_, fun k f hf _ => List.mem_map_of_mem ((hmem k f).mpr hf), fun row hrow => ?_⟩
  · -- names belong to one file, and a file has one row
    rw [List.map_map]
    refine List.Nodup.map_on (fun e he e' he' hname => ?_)
      ((hes.sorted hA le_rfl).imp fun hlt heq => ne_of_lt hlt (congrArg Prod.fst heq))
    have hf := (hmem e.1 e.2).mp he
    have hf' := (hmem e'.1 e'.2).mp he'
    have hk : e.1 = e'.1 := hA.unique hf hf' hname
    rw [hk, hf'] at hf
    exact Prod.ext hk (Option.some.inj hf).symm
  · obtain ⟨⟨k, f⟩, he, rfl⟩ := List.mem_map.mp hrow
    exact ⟨k, f, rfl, fun _ => (hmem k f).mp he⟩

end Reload

/-! ## The session -/

section Session

variable {σ ν : Type} {A : Appfs σ} {nvs : NvsExec ν} {files : σ → Files} {query : Bytes → Args}
  (hA : A.Laws files)
include hA

/-- **An upload on the page.**  The temporary files apart nothing has changed, or the page is loaded
again. -/
lemma Uploads.shows {value : Bytes} {len : ℕ} {chunks : List Bytes} {w : σ × ν} {p p' : WebPage}
    (h : Uploads A nvs files query value len chunks w p p')
    (hp : p.Shows (files w.1) ∨ Reloads (uploadAnswer A nvs query value len chunks w)) :
    p'.Shows (files (uploaded A nvs query value len chunks w).1) := by
  obtain ⟨hop, hnames, out, hindex, rfl⟩ := h
  by_cases hreloads : Reloads (uploadAnswer A nvs query value len chunks w)
  · rw [doUpgradeDone_of_reloads hreloads]
    exact shows_reload hA hnames hindex p
  · have hshows := hp.resolve_right hreloads
    rw [doUpgradeDone_of_not_reloads hreloads]
    rcases uploadRun_interrupted hA hop.2 hop.1 (Or.inr (Or.inl rfl)) with
      hsame | ⟨_, _, hsent, _, _⟩
    · exact hshows.of_same hsame
    · have hanswer : uploadAnswer A nvs query value len chunks w = received uploadOkResponse :=
        congrArg received hsent
      exact absurd (hanswer ▸ ⟨Or.inl (by decide), rfl⟩) hreloads

/-- The page shows what is stored, after every step, if the table is as it should be. -/
lemma Browsing.shows {w : σ × ν} {p : WebPage} {fresh : Prop}
    (h : Browsing A nvs files query w p fresh) (hfresh : fresh) : p.Shows (files w.1) := by
  have hloads : ∀ {s : σ} {p : WebPage}, Loads A files s p → p.Shows (files s) := by
    rintro s p ⟨hnames, out, hrun, rfl⟩
    exact shows_reload hA hnames hrun indexHtml
  induction h with
  | load hload => exact hloads hload
  | delete _ _ hload => exact hloads hload
  | upload _ hupload ih => exact hupload.shows hA (hfresh.imp_left ih)
  | lost _ _ => exact hfresh.elim

/-- The download link of a stored file. -/
lemma shownRow_downloads (hlinks : ReadsLinks query) {s : σ} (hreads : ReadsSucceed A files s)
    {k : Handle} {f : AppfsFile} (hf : files s k = some f) (stack : ℕ → DownloadStack) :
    ∃ out, CgiRun (downloadCall A (query (shownRow (k, f)).download) stack) 0 none s out s ∧
      bodySent out = f.content := by
  obtain ⟨n, rfl, _⟩ := hA.handle_nat hf
  have hidx : query (shownRow ((n : ℤ), f)).download "idx" = some (sprintfD n) := by
    rw [sprintfD_natCast]
    exact hlinks.download n
  exact (downloadCall_run hA hreads hf hidx).imp fun out h => ⟨h.1, h.2.2⟩

/-- The links of a stored file. -/
lemma shownRow_works (hlinks : ReadsLinks query) (hdel : DeletesSucceed A files) {w : σ × ν}
    (hreads : ReadsSucceed A files w.1) {k : Handle} {f : AppfsFile} (hf : files w.1 k = some f) :
    RowWorks A nvs files query w (shownRow (k, f)) := by
  refine ⟨fun stack => ?_, fun fdText => ?_⟩
  · obtain ⟨out, hrun, hbody⟩ := shownRow_downloads hA hlinks hreads hf stack
    exact ⟨out, hrun, k, f, hf, rfl, hbody.symm⟩
  · obtain ⟨n, rfl, hn⟩ := hA.handle_nat hf
    have hidx : query (shownRow ((n : ℤ), f)).delete "idx" = some (decimal n) := hlinks.delete n
    rw [deleteRequest_some (deleteIdx_link hn fdText hidx), hA.entryInfo hf]
    exact hA.delete_ok (hdel w.1 n f hf)

/-- **The page is right.**  One browser has loaded the page, deleted files by its links and uploaded
files, completely or not, without a failing call, and the table has been filled since the last
upload of which the answer was lost.  Temporary files apart, the names in the table are those of the
stored files, each once, and each row works: its one link sends the file of this name, its other
link deletes this file and no other. -/
theorem page_right (hlinks : ReadsLinks query) (hdel : DeletesSucceed A files) {w : σ × ν}
    {p : WebPage} {fresh : Prop} (h : Browsing A nvs files query w p fresh) (hfresh : fresh)
    (hreads : ReadsSucceed A files w.1) :
    (p.rows.map WebRow.name).Nodup ∧
      (∀ n, n ≠ uploadTempName → (n ∈ p.rows.map WebRow.name ↔ (files w.1).Has n)) ∧
      ∀ row ∈ p.rows, row.name ≠ uploadTempName → RowWorks A nvs files query w row := by
  have hshows := h.shows hA hfresh
  refine ⟨hshows.nodup, fun n hn => ⟨fun hrow => ?_, ?_⟩, fun row hrow hname => ?_⟩
  · obtain ⟨row, hmem, rfl⟩ := List.mem_map.mp hrow
    obtain ⟨k, f, rfl, hfile⟩ := hshows.sound row hmem
    exact ⟨k, f, hfile hn, rfl⟩
  · rintro ⟨k, f, hf, rfl⟩
    exact List.mem_map_of_mem (hshows.complete k f hf hn)
  · obtain ⟨k, f, rfl, hfile⟩ := hshows.sound row hrow
    exact shownRow_works hA hlinks hdel hreads (hfile hname)

/-- An upload on the page that has arrived whole is acknowledged and stored. -/
lemma uploaded_stores {value : Bytes} {len : ℕ} {chunks : List Bytes} {w : σ × ν}
    (hop : OpSucceeds A nvs files w (.upload (query (uploadLink value)) len chunks))
    (hbody : chunks.flatten ≠ []) (hwhole : chunks.flatten.length = len) :
    uploadAnswer A nvs query value len chunks w = received uploadOkResponse ∧
      (files (uploaded A nvs query value len chunks w).1).Stores
        (uploadName (query (uploadLink value))) chunks.flatten := by
  obtain ⟨hsent, hstores⟩ := uploadRun_stored hA hbody hwhole hop.1
  exact ⟨congrArg received hsent, hstores⟩

/-- **What is uploaded on the page is there**, whatever the table showed before.  After a file that
is not empty has been uploaded whole its name, without the path, is in the table, and the link of
this row sends what was uploaded. -/
theorem upload_shown (hlinks : ReadsLinks query) {w : σ × ν} {p p' : WebPage} {value : Bytes}
    {len : ℕ} {chunks : List Bytes}
    (hupload : Uploads A nvs files query value len chunks w p p')
    (hreads : ReadsSucceed A files (uploaded A nvs query value len chunks w).1)
    (hbody : chunks.flatten ≠ []) (hwhole : chunks.flatten.length = len)
    (hname : (∀ c ∈ baseName value, c ≠ 0) ∧ (baseName value).length ≤ 512)
    (htemp : baseName value ≠ uploadTempName) :
    ∃ row ∈ p'.rows, row.name = baseName value ∧ ∀ stack, ∃ out,
      CgiRun (downloadCall A (query row.download) stack) 0 none
        (uploaded A nvs query value len chunks w).1 out
        (uploaded A nvs query value len chunks w).1 ∧ bodySent out = chunks.flatten := by
  obtain ⟨hanswer, k, f, hf, hfname, hcontent⟩ := uploaded_stores hA hupload.1 hbody hwhole
  have hshows := hupload.shows hA (Or.inr (hanswer ▸ ⟨Or.inl (by decide), rfl⟩))
  have huploadName : uploadName (query (uploadLink value)) = baseName value := by
    rw [uploadName, httpdFindArg, hlinks.upload]
    show cString ((baseName value).take 512) = _
    rw [List.take_of_length_le hname.2, cString_of_nul_free hname.1]
  rw [huploadName] at hfname
  rw [← hfname] at htemp ⊢
  refine ⟨shownRow (k, f), hshows.complete k f hf htemp, rfl, fun stack => ?_⟩
  obtain ⟨out, hrun, hbytes⟩ := shownRow_downloads hA hlinks hreads hf stack
  exact ⟨out, hrun, hbytes.trans hcontent⟩

end Session

/-! ## A server that reads the links -/

def hexValue (c : UInt8) : UInt8 := if c < 65 then c - 48 else c - 55

/-- The decoding of a URL, for the links of the page. -/
def urlDecode : Bytes → Bytes
  | [] => []
  | c :: s =>
      if c = 37 then
        match s with
        | a :: b :: rest => (hexValue a * 16 + hexValue b) :: urlDecode rest
        | _ => []
      else c :: urlDecode s

/-- The one argument of a link. -/
def linkQuery (url : Bytes) : Args := fun key =>
  let query := (url.dropWhile fun c => c ≠ 63).drop 1
  if (ascii key ++ [61]).isPrefixOf query then some (urlDecode (query.drop (key.length + 1)))
  else none

lemma urlDecode_cons {c : UInt8} (h : c ≠ 37) (s : Bytes) :
    urlDecode (c :: s) = c :: urlDecode s := by
  rcases s with _ | ⟨a, _ | ⟨b, rest⟩⟩
  · exact if_neg h
  · exact if_neg h
  · exact if_neg h

lemma urlDecode_decimal (n : ℕ) : urlDecode (decimal n) = decimal n := by
  have hdigits : ∀ c ∈ decimal n, c ≠ 37 := by
    rintro c hc rfl
    exact absurd (isDigit_of_mem_decimal hc) (by decide)
  generalize decimal n = s at hdigits
  induction s with
  | nil => rfl
  | cons c s ih =>
      rw [urlDecode_cons (hdigits c List.mem_cons_self),
        ih fun d hd => hdigits d (List.mem_cons_of_mem c hd)]

lemma hexValue_hexDigit (c : UInt8) :
    hexValue (hexDigit (c / 16)) * 16 + hexValue (hexDigit (c % 16)) = c := by
  have hall : ∀ n : Fin 256, hexValue (hexDigit (UInt8.ofFin n / 16)) * 16 +
      hexValue (hexDigit (UInt8.ofFin n % 16)) = UInt8.ofFin n := by decide +kernel
  exact hall c.toFin

/-- The name that was encoded is decoded again. -/
lemma urlDecode_encodeURIComponent (s : Bytes) : urlDecode (encodeURIComponent s) = s := by
  induction s with
  | nil => rfl
  | cons c s ih =>
      rw [encodeURIComponent, List.flatMap_cons, ← encodeURIComponent]
      by_cases hc : uriUnescaped c = true
      · rw [if_pos hc, List.singleton_append, urlDecode_cons, ih]
        rintro rfl
        exact absurd hc (by decide)
      · rw [if_neg hc]
        show (hexValue (hexDigit (c / 16)) * 16 + hexValue (hexDigit (c % 16)))
          :: urlDecode (encodeURIComponent s) = _
        rw [hexValue_hexDigit, ih]

lemma linkQuery_reads : ReadsLinks linkQuery where
  download n := congrArg some (urlDecode_decimal n)
  delete n := congrArg some (urlDecode_decimal n)
  upload value := congrArg some (urlDecode_encodeURIComponent (baseName value))

/-! ## Sessions on fixed inputs -/

/-- The page of an index that is loaded. -/
lemma exists_loads {σ : Type} {A : Appfs σ} {files : σ → Files} (hA : A.Laws files) {s : σ}
    (hnames : Presentable (files s)) : ∃ p, Loads A files s p := by
  obtain ⟨es, hes⟩ := exists_entries hA s (le_refl appfsInvalidFd)
  obtain ⟨out, hrun, _⟩ := fileIdxCall_run hA hes
  exact ⟨_, hnames, out, hrun, rfl⟩

lemma deletesSucceed_ram : DeletesSucceed RamAppfs.device RamAppfs.files :=
  fun _ _ _ hf => RamAppfs.delete_of_file hf

/-- The page after an upload. -/
lemma exists_uploads {σ ν : Type} {A : Appfs σ} {nvs : NvsExec ν} {files : σ → Files}
    {query : Bytes → Args} (hA : A.Laws files) {value : Bytes} {len : ℕ} {chunks : List Bytes}
    {w : σ × ν} (hop : OpSucceeds A nvs files w (.upload (query (uploadLink value)) len chunks))
    (hnames : Presentable (files w.1))
    (hname : PresentableName (uploadName (query (uploadLink value)))) (p : WebPage) :
    ∃ p', Uploads A nvs files query value len chunks w p p' := by
  have hafter : Presentable (files (uploaded A nvs query value len chunks w).1) := by
    refine presentable_after hnames hname fun n htemp hnew => ?_
    rcases uploadRun_interrupted hA hop.2 hop.1 (Or.inr (Or.inl rfl)) with
      hsame | ⟨_, _, _, _, hframe⟩
    · exact hsame n htemp
    · exact hframe n htemp hnew
  obtain ⟨es, hes⟩ := exists_entries hA (uploaded A nvs query value len chunks w).1
    (le_refl appfsInvalidFd)
  obtain ⟨out, hrun, _⟩ := fileIdxCall_run hA hes
  exact ⟨_, hop, hafter, out, hrun, rfl⟩

/-- What a browser has for the name of the file `a`. -/
def fakePath : Bytes := ascii "C:\\fakepath\\a"

lemma baseName_fakePath : baseName fakePath = ascii "a" := by decide

lemma findArg_fakePath :
    (httpdFindArg (linkQuery (uploadLink fakePath)) "name" [] 512).2 = ascii "a" := by
  rw [httpdFindArg, linkQuery_reads.upload, baseName_fakePath]
  rfl

lemma uploadName_fakePath : uploadName (linkQuery (uploadLink fakePath)) = ascii "a" := by
  rw [uploadName, findArg_fakePath]
  decide

/-- What is stored when one byte has been uploaded under this name. -/
def fakePathUploaded : RamAppfs × Unit :=
  uploaded RamAppfs.device noNvs linkQuery fakePath 1 [[7]] (.empty, ())

lemma opSucceeds_fakePath : OpSucceeds RamAppfs.device noNvs RamAppfs.files (.empty, ())
    (.upload (linkQuery (uploadLink fakePath)) 1 [[7]]) :=
  (upload_empty _ _ findArg_fakePath (by decide)).1

lemma presentable_empty : Presentable RamAppfs.empty.files :=
  fun _ f hf => absurd hf (Option.some_ne_none f).symm

lemma exists_uploads_fakePath (p : WebPage) : ∃ p', Uploads RamAppfs.device noNvs RamAppfs.files
    linkQuery fakePath 1 [[7]] (.empty, ()) p p' :=
  exists_uploads RamAppfs.device_laws opSucceeds_fakePath presentable_empty
    (by rw [uploadName_fakePath]; exact presentable_ascii (by decide) (by decide)) p

/-- The page is loaded, and one byte is uploaded.  Then there is a row for it, and the rows work. -/
theorem page_right_one :
    ∃ p : WebPage, ascii "a" ∈ p.rows.map WebRow.name ∧ ∀ row ∈ p.rows,
      row.name ≠ uploadTempName →
        RowWorks RamAppfs.device noNvs RamAppfs.files linkQuery fakePathUploaded row := by
  obtain ⟨p, hp⟩ := exists_loads RamAppfs.device_laws presentable_empty
  obtain ⟨p', hp'⟩ := exists_uploads_fakePath p
  have hbody : ([[7]] : List Bytes).flatten ≠ [] := List.cons_ne_nil 7 []
  obtain ⟨_, h, f, hf, hname, _⟩ :=
    uploaded_stores RamAppfs.device_laws opSucceeds_fakePath hbody rfl
  rw [uploadName_fakePath] at hname
  have hright := page_right RamAppfs.device_laws linkQuery_reads deletesSucceed_ram
    (.upload (.load hp) hp') (Or.inl trivial) (RamAppfs.readsSucceed _)
  exact ⟨p', (hright.2.1 _ (by decide)).mpr ⟨h, f, hf, hname⟩, hright.2.2⟩

/-- The link of this row sends the byte. -/
theorem upload_shown_a :
    ∃ p : WebPage, ∃ row ∈ p.rows, row.name = ascii "a" ∧ ∀ stack, ∃ out,
      CgiRun (downloadCall RamAppfs.device (linkQuery row.download) stack) 0 none
        fakePathUploaded.1 out fakePathUploaded.1 ∧ bodySent out = [7] := by
  obtain ⟨p, hp⟩ := exists_uploads_fakePath indexHtml
  obtain ⟨row, hrow, hname, hdownload⟩ := upload_shown RamAppfs.device_laws linkQuery_reads hp
    (RamAppfs.readsSucceed _) (List.cons_ne_nil 7 []) rfl
    (by rw [baseName_fakePath]; exact ⟨ne_zero_of_all (by decide), by decide⟩)
    (by rw [baseName_fakePath]; decide)
  exact ⟨p, row, hrow, hname.trans baseName_fakePath, hdownload⟩

end Chooser
