import Chooser.UploadRun

/-!
# What an upload does to the file system

The session record and the stored file, in step.  While the handler writes, everything up to
`address` is in the file, what came after it is in the page buffer, and the second half of an
erase block is still erased (`Writing`).  Feeding more bytes leads from such a state to one of
three (`Progress`): still writing, or finished with the file under its final name, or in
`FLST_ERROR` after a call that failed.  Whatever happens, no file but the session's own temporary
file and the one that the rename replaces is touched.

Two things are deliberately weaker than one would like, because the code is:

* in `FLST_DONE` the content is right only if no erase or write of the *last* page failed
  (`LastPageFault`), as the handler forgets such a failure when it goes on to the rename;
* all of it is about a session whose temporary file is left alone by others.
-/

namespace Chooser

open CStr

/-! ## The record and the bytes received -/

/-- The counters account for every byte: `got` are the bytes received so far, out of `len`. -/
structure Counters (len : ℕ) (got : Bytes) (st : UploadState) : Prop where
  page : st.pageData.length = pageLen
  adr : pageLen ∣ st.address
  sum : st.address + st.pagePos + st.len = len
  count : got.length = st.address + st.pagePos
  data : st.pageData.take st.pagePos = got.drop st.address

lemma Counters.copy {len : ℕ} {got : Bytes} {st : UploadState} (h : Counters len got st)
    {xs : Bytes} (hroom : st.pagePos + xs.length ≤ pageLen) (hlen : xs.length ≤ st.len) :
    Counters len (got ++ xs) (st.copy xs) where
  page := by
    rw [UploadState.copy, length_memcpy (by rw [h.page]; exact hroom), h.page]
  adr := h.adr
  sum := by
    have := h.sum
    simp only [copy_address, copy_pagePos, copy_len]
    omega
  count := by
    have := h.count
    simp only [copy_address, copy_pagePos, List.length_append]
    omega
  data := by
    have hgot := h.count
    rw [copy_pagePos, copy_address, UploadState.copy, take_memcpy (by rw [h.page]; omega), h.data,
      List.drop_append_of_le_length (by omega)]

/-- The next page starts where this one ended. -/
lemma Counters.next {len : ℕ} {got : Bytes} {st : UploadState} (h : Counters len got st)
    (hfull : st.pagePos = pageLen) (err : Bytes) (state : Flst) :
    Counters len got
      { st with err := err, state := state, address := st.address + pageLen, pagePos := 0 } where
  page := h.page
  adr := Dvd.dvd.add h.adr (dvd_refl pageLen)
  sum := by
    have := h.sum
    simp only
    omega
  count := by
    have := h.count
    simp only
    omega
  data := by
    have := h.count
    simp only [List.take_zero]
    rw [List.drop_eq_nil_of_le (by omega)]

/-! ## The bytes in flash -/

/-- Everything before `adr` is written, and a page that is not erased first is erased already. -/
structure Stored (got : Bytes) (adr : ℕ) (m : NorFlash.Cells) : Prop where
  written : NorFlash.read m 0 adr = got.take adr
  erased : adr % spiFlashEraseSize ≠ 0 → NorFlash.Erased m adr pageLen

/-- The page at `adr` can be written: it is erased, and so is the other half of its block. -/
structure PageErased (got : Bytes) (adr : ℕ) (m : NorFlash.Cells) : Prop where
  written : NorFlash.read m 0 adr = got.take adr
  erased : NorFlash.Erased m adr pageLen
  half : adr % spiFlashEraseSize = 0 → NorFlash.Erased m (adr + pageLen) pageLen

lemma stored_zero (got : Bytes) (m : NorFlash.Cells) : Stored got 0 m where
  written := by simp
  erased h := absurd (Nat.zero_mod _) h

lemma Stored.append {got : Bytes} {adr : ℕ} {m : NorFlash.Cells} (h : Stored got adr m)
    (hle : adr ≤ got.length) (xs : Bytes) : Stored (got ++ xs) adr m where
  written := by rw [List.take_append_of_le_length hle]; exact h.written
  erased := h.erased

lemma Stored.pageErased {got : Bytes} {adr : ℕ} {m : NorFlash.Cells} (h : Stored got adr m)
    (hne : adr % spiFlashEraseSize ≠ 0) : PageErased got adr m :=
  ⟨h.written, h.erased hne, fun heq => absurd heq hne⟩

/-- Erasing the block makes both of its pages writable. -/
lemma Stored.erase {got : Bytes} {adr : ℕ} {m : NorFlash.Cells} (h : Stored got adr m) :
    PageErased got adr (NorFlash.erase m adr spiFlashEraseSize) where
  written := by rw [NorFlash.read_erase_before m le_rfl]; exact h.written
  erased := (NorFlash.erased_erase m adr spiFlashEraseSize).mono le_rfl
    (by simp [spiFlashEraseSize, pageLen])
  half _ := (NorFlash.erased_erase m adr spiFlashEraseSize).mono (by omega)
    (by simp [spiFlashEraseSize, pageLen, Nat.add_assoc])

/-- **Writing the page.** -/
lemma PageErased.read_program {got : Bytes} {adr : ℕ} {m : NorFlash.Cells}
    (h : PageErased got adr m) {data : Bytes} (hdata : data = got.drop adr)
    (hlen : data.length ≤ pageLen) :
    NorFlash.read (NorFlash.program m adr data) 0 (adr + data.length) = got := by
  rw [NorFlash.read_add, NorFlash.read_program_before m data le_rfl, h.written, Nat.zero_add,
    NorFlash.read_program (h.erased.mono le_rfl (by omega)), hdata, List.take_append_drop]

lemma PageErased.program {got : Bytes} {adr : ℕ} {m : NorFlash.Cells}
    (h : PageErased got adr m) {data : Bytes} (hdata : data = got.drop adr)
    (hlen : data.length = pageLen) (hadr : pageLen ∣ adr) :
    Stored got (adr + pageLen) (NorFlash.program m adr data) where
  written := by
    have hread := h.read_program hdata hlen.le
    have hgot : got.length = adr + pageLen := by
      have := congrArg List.length hread
      rw [NorFlash.length_read, hlen] at this
      exact this.symm
    rw [hlen] at hread
    rw [hread, ← hgot, List.take_length]
  erased hne := by
    have hblock : adr % spiFlashEraseSize = 0 := by
      simp only [spiFlashEraseSize, pageLen] at hne hadr ⊢
      omega
    exact (h.half hblock).program data (by omega)

/-! ## Events

The calls a session makes are read off the record that `record` keeps.
-/

section Session

variable {σ : Type} {A : Appfs σ} {files : σ → Files}

/-- An erase or write of the last page that failed. -/
def LastPageFault (len : ℕ) (ev : AppfsEvent σ) : Prop :=
  ev.answer.err ≠ espOk ∧ ∃ fd adr, len ≤ adr + pageLen ∧
    ((∃ n, ev.call = .erase fd adr n) ∨ ∃ data, ev.call = .write fd adr data)

/-- A call that erases or writes is aimed at the handle `fd`, whose owner is then the temporary
file. -/
def OwnFile (files : σ → Files) (fd : Handle) (ev : AppfsEvent σ) : Prop :=
  ∀ fd' adr, ((∃ n, ev.call = .erase fd' adr n) ∨ ∃ data, ev.call = .write fd' adr data) →
    fd' = fd ∧ ∃ f, files ev.before fd = some f ∧ f.name = uploadTempName

lemma ownFile_of_rename {fd : Handle} {ev : AppfsEvent σ} {old new : Bytes}
    (h : ev.call = .rename old new) : OwnFile files fd ev := by
  rintro fd' adr (⟨n, hn⟩ | ⟨data, hd⟩)
  · rw [h] at hn
    simp at hn
  · rw [h] at hd
    simp at hd

/-- The calls with which one page goes out: they change the flash of one file. -/
structure PageEvent (files : σ → Files) (F : Files) (fd : Handle) (f : AppfsFile) (adr : ℕ)
    (ev : AppfsEvent σ) : Prop where
  call : (∃ n, ev.call = .erase fd adr n) ∨ ∃ data, ev.call = .write fd adr data
  before : ∃ m, files ev.before = Function.update F fd (some { f with flash := m })
  after : ∃ m, files ev.after = Function.update F fd (some { f with flash := m })

lemma PageEvent.lastPageFault {F : Files} {fd : Handle} {f : AppfsFile} {adr len : ℕ}
    {ev : AppfsEvent σ} (h : PageEvent files F fd f adr ev) (herr : ev.answer.err ≠ espOk)
    (hlast : len ≤ adr + pageLen) : LastPageFault len ev :=
  ⟨herr, fd, adr, hlast, h.call⟩

lemma PageEvent.ownFile {F : Files} {fd : Handle} {f : AppfsFile} {adr : ℕ}
    {ev : AppfsEvent σ} (h : PageEvent files F fd f adr ev) (hf : f.name = uploadTempName) :
    OwnFile files fd ev := by
  obtain ⟨m, hm⟩ := h.before
  intro fd' adr' hcall
  have hfd : fd' = fd := by
    rcases h.call with ⟨n, hn⟩ | ⟨data, hd⟩
    · rcases hcall with ⟨n', hn'⟩ | ⟨data', hd'⟩
      · rw [hn] at hn'
        exact (AppfsCall.erase.inj hn').1.symm
      · rw [hn] at hd'
        simp at hd'
    · rcases hcall with ⟨n', hn'⟩ | ⟨data', hd'⟩
      · rw [hd] at hn'
        simp at hn'
      · rw [hd] at hd'
        exact (AppfsCall.write.inj hd').1.symm
  exact ⟨hfd, { f with flash := m }, by rw [hm, Function.update_self], hf⟩

/-- The whole state of a page that is going out: where it stands, and what was recorded. -/
structure PageStep (files : σ → Files) (F : Files) (f : AppfsFile) (st st' : UploadState)
    (log : List (AppfsEvent σ)) (w : σ × List (AppfsEvent σ)) (Done : NorFlash.Cells → Prop) :
    Prop where
  out : ∃ m evs, files w.1 = Function.update F st.fd (some { f with flash := m }) ∧
    w.2 = log ++ evs ∧ (∀ ev ∈ evs, PageEvent files F st.fd f st.address ev) ∧
    (st' = st ∧ Done m ∨
      (∃ err, st' = { st with err := err, state := .error }) ∧
        ∃ ev ∈ evs, ev.answer.err ≠ espOk)

variable (hA : A.Laws files)
include hA

lemma uploadErase_spec {st : UploadState} {got : Bytes} {s : σ} {log : List (AppfsEvent σ)}
    {f : AppfsFile} (hf : files s st.fd = some f)
    (hlt : st.address < f.size) (hst : Stored got st.address f.flash) :
    PageStep files (files s) f st (uploadErase (record A.exec) st (s, log)).1 log
      (uploadErase (record A.exec) st (s, log)).2 (PageErased got st.address) := by
  have hmod : st.address &&& (spiFlashEraseSize - 1) = st.address % spiFlashEraseSize := by
    simpa [spiFlashEraseSize] using Nat.and_two_pow_sub_one_eq_mod st.address 15
  have hself : Function.update (files s) st.fd (some { f with flash := f.flash }) = files s := by
    rw [← hf, Function.update_eq_self]
  unfold uploadErase
  rw [hmod]
  by_cases hblock : st.address % spiFlashEraseSize = 0
  · rw [if_pos hblock]
    -- the block lies inside the sectors reserved for the file
    have hres : st.address + spiFlashEraseSize ≤ reserved f.size := by
      simp only [spiFlashEraseSize, reserved] at hblock ⊢
      omega
    by_cases hok : (A.exec (.erase st.fd st.address spiFlashEraseSize) s).1.err = espOk
    · have hfiles := hA.erase_ok hok hf hres
      refine ⟨_, [_], hfiles, rfl, ?_, Or.inl ⟨by simp [hok], hst.erase⟩⟩
      simp only [List.mem_singleton, forall_eq]
      exact ⟨Or.inl ⟨_, rfl⟩, ⟨f.flash, hself.symm⟩, ⟨_, hfiles⟩⟩
    · obtain ⟨m, hm⟩ := hA.erase_frame st.fd st.address spiFlashEraseSize s
      rw [hf, Option.map_some] at hm
      refine ⟨m, [_], hm, rfl, ?_, Or.inr ⟨⟨ascii "AppfsErase failed", by
        simp [hok, UploadState.fail]⟩, _, List.mem_singleton_self _, hok⟩⟩
      simp only [List.mem_singleton, forall_eq]
      exact ⟨Or.inl ⟨_, rfl⟩, ⟨f.flash, hself.symm⟩, ⟨m, hm⟩⟩
  · rw [if_neg hblock]
    exact ⟨f.flash, [], hself.symm, by simp, by simp, Or.inl ⟨rfl, hst.pageErased hblock⟩⟩

lemma uploadWrite_spec (st : UploadState) {s : σ} {log : List (AppfsEvent σ)} {F : Files}
    {f : AppfsFile} {m : NorFlash.Cells}
    (hF : files s = Function.update F st.fd (some { f with flash := m }))
    (hfit : st.address + (st.pageData.take st.pagePos).length ≤ reserved f.size) :
    PageStep files F f st (uploadWrite (record A.exec) st (s, log)).1 log
      (uploadWrite (record A.exec) st (s, log)).2
      (fun m' => m' = NorFlash.program m st.address (st.pageData.take st.pagePos)) := by
  have hf : files s st.fd = some { f with flash := m } := by rw [hF, Function.update_self]
  unfold uploadWrite
  by_cases hok : (A.exec (.write st.fd st.address (st.pageData.take st.pagePos)) s).1.err = espOk
  · have hfiles := hA.write_ok hok hf hfit
    rw [hF, Function.update_idem] at hfiles
    refine ⟨_, [_], hfiles, rfl, ?_, Or.inl ⟨by simp [hok], rfl⟩⟩
    simp only [List.mem_singleton, forall_eq]
    exact ⟨Or.inr ⟨_, rfl⟩, ⟨m, hF⟩, ⟨_, hfiles⟩⟩
  · obtain ⟨m', hm'⟩ := hA.write_frame st.fd st.address (st.pageData.take st.pagePos) s
    rw [hf, Option.map_some, hF, Function.update_idem] at hm'
    refine ⟨m', [_], hm', rfl, ?_, Or.inr ⟨⟨ascii "AppfsWrite failed", by
      simp [hok, UploadState.fail]⟩, _, List.mem_singleton_self _, hok⟩⟩
    simp only [List.mem_singleton, forall_eq]
    exact ⟨Or.inr ⟨_, rfl⟩, ⟨m, hF⟩, ⟨m', hm'⟩⟩

/-- **A page goes out.**  After erase and write the file differs from before in its flash alone.
If both succeeded the bytes received are all in it; if one failed the record says so. -/
lemma uploadPage_spec {st : UploadState} {got : Bytes} {s : σ} {log : List (AppfsEvent σ)}
    {f : AppfsFile} (hf : files s st.fd = some f) (hc : Counters f.size got st)
    (hpos : 0 < st.pagePos) (hpage : st.pagePos ≤ pageLen)
    (hst : Stored got st.address f.flash) :
    PageStep files (files s) f st
      (uploadWrite (record A.exec) (uploadErase (record A.exec) st (s, log)).1
        (uploadErase (record A.exec) st (s, log)).2).1 log
      (uploadWrite (record A.exec) (uploadErase (record A.exec) st (s, log)).1
        (uploadErase (record A.exec) st (s, log)).2).2
      (fun m => NorFlash.read m 0 (st.address + st.pagePos) = got ∧
        (st.pagePos = pageLen → Stored got (st.address + pageLen) m)) := by
  have hsum := hc.sum
  have hlen : (st.pageData.take st.pagePos).length = st.pagePos := by simp [hc.page, hpage]
  have hfit : st.address + (st.pageData.take st.pagePos).length ≤ reserved f.size := by
    rw [hlen, reserved]
    omega
  obtain ⟨m, evs, hF, hlog, hevs, hout⟩ :=
    uploadErase_spec hA hf (by omega) hst
  generalize uploadErase (record A.exec) st (s, log) = e at hF hlog hout
  obtain ⟨st₁, s₁, log₁⟩ := e
  rcases hout with ⟨rfl, hpe⟩ | ⟨⟨err, rfl⟩, hfault⟩
  · obtain ⟨m', evs', hF', hlog', hevs', hout'⟩ :=
      uploadWrite_spec hA _ hF hfit
    refine ⟨m', evs ++ evs', hF', by rw [hlog', ← List.append_assoc, ← hlog], ?_, ?_⟩
    · intro ev hev
      rcases List.mem_append.mp hev with h | h
      · exact hevs ev h
      · exact hevs' ev h
    · rcases hout' with ⟨hst', rfl⟩ | ⟨herr, ev, hev, hbad⟩
      · have hread := hpe.read_program hc.data (by omega)
        rw [hlen] at hread
        exact Or.inl ⟨hst', hread, fun hfull => hpe.program hc.data (by omega) hc.adr⟩
      · exact Or.inr ⟨herr, ev, List.mem_append_right evs hev, hbad⟩
  · -- the write is made even though the erase failed
    obtain ⟨m', evs', hF', hlog', hevs', hout'⟩ :=
      uploadWrite_spec hA { st with err := err, state := .error } hF hfit
    refine ⟨m', evs ++ evs', hF', by rw [hlog', ← List.append_assoc, ← hlog], ?_, Or.inr ⟨?_, ?_⟩⟩
    · intro ev hev
      rcases List.mem_append.mp hev with h | h
      · exact hevs ev h
      · exact hevs' ev h
    · rcases hout' with ⟨hst', _⟩ | ⟨⟨err', hst'⟩, _⟩
      · exact ⟨err, hst'⟩
      · exact ⟨err', hst'⟩
    · obtain ⟨ev, hev, hbad⟩ := hfault
      exact ⟨ev, List.mem_append_left evs' hev, hbad⟩

/-- The rename that ends an upload, on a device whose temporary file has the handle `fd`. -/
lemma uploadRename_files {nm : Bytes} {s : σ} {fd : Handle} {f : AppfsFile}
    (hf : files s fd = some f) (hname : f.name = uploadTempName)
    (hok : (A.exec (.rename uploadTempName nm) s).1.err = espOk) :
    files (A.exec (.rename uploadTempName nm) s).2
      = Function.update ((files s).without nm) fd (some { f with name := nm }) := by
  obtain ⟨h, g, hg, hgname, hfiles⟩ := hA.rename_ok hok
  obtain rfl : fd = h := hA.unique hf hg (by rw [hname, hgname])
  rw [hf] at hg
  obtain rfl := Option.some.inj hg
  exact hfiles

end Session

/-! ## Progress of a session -/

section Progress

variable {σ : Type} {A : Appfs σ} {files : σ → Files}

/-- The handler is writing, and its temporary file holds what it wrote. -/
structure Writing (files : σ → Files) (len : ℕ) (got : Bytes) (st : UploadState) (s : σ) :
    Prop where
  state : st.state = .write
  ok : st.Ok
  counters : Counters len got st
  file : ∃ f, files s st.fd = some f ∧ f.name = uploadTempName ∧ f.size = len ∧
    Stored got st.address f.flash

/-- The file stands under its final name.  Its content is the body, if the last page could be
erased and written. -/
structure Finished (files : σ → Files) (len : ℕ) (got : Bytes) (st : UploadState) (s : σ)
    (log : List (AppfsEvent σ)) : Prop where
  ok : st.Ok
  state : st.state = .done
  count : len ≤ got.length
  renamed : ∃ ev ∈ log, ev.call = .rename uploadTempName (cString st.name) ∧
    ev.answer.err = espOk
  file : ∃ f, files s st.fd = some f ∧ f.name = cString st.name ∧ f.size = len ∧
    ((∀ ev ∈ log, ¬ LastPageFault len ev) → f.content = got.take len)

/-- A call of a session whose handle is `fd`, seen from the files `F₀` it started with: it creates
nothing, erases and writes its own file only, and what stands under other names stays. -/
structure QuietEvent (files : σ → Files) (F₀ : Files) (fd : Handle) (ev : AppfsEvent σ) :
    Prop where
  own : OwnFile files fd ev
  no_create : ∀ n size, ev.call ≠ .createFile n size
  after : ∀ n, n ≠ uploadTempName → F₀.SameUnder (files ev.after) n

/-- The rename with which a session ends. -/
structure FinalRename (st : UploadState) (s : σ) (ev : AppfsEvent σ) : Prop where
  call : ev.call = .rename uploadTempName (cString st.name)
  ok : ev.answer.err = espOk
  after : ev.after = s
  state : st.state = .done

/-- Where a session is that started writing with the record `st₀` on the files `F₀`. -/
structure Progress (files : σ → Files) (F₀ : Files) (log₀ : List (AppfsEvent σ)) (len : ℕ)
    (st₀ : UploadState) (got : Bytes) (p : UploadState × σ × List (AppfsEvent σ)) : Prop where
  fd : p.1.fd = st₀.fd
  name : p.1.name = st₀.name
  temp : ∀ {h f}, files p.2.1 h = some f → f.name = uploadTempName → h = st₀.fd
  frame : ∀ n, n ≠ uploadTempName → (p.1.state = .done → n ≠ cString st₀.name) →
    F₀.SameUnder (files p.2.1) n
  events : ∃ evs, p.2.2 = log₀ ++ evs ∧
    ∀ ev ∈ evs, QuietEvent files F₀ st₀.fd ev ∨ FinalRename p.1 p.2.1 ev
  phase : Writing files len got p.1 p.2.1 ∨ Finished files len got p.1 p.2.1 p.2.2 ∨
    p.1.Ok ∧ p.1.state = .error ∧ ∃ ev ∈ p.2.2, ev.answer.err ≠ espOk

/-- A page of a session has been erased and written, with or without success. -/
structure PageOut (files : σ → Files) (F₀ : Files) (log₀ : List (AppfsEvent σ)) (len : ℕ)
    (st₀ : UploadState) (got : Bytes) (st₁ : UploadState) (m : NorFlash.Cells)
    (p : UploadState × σ × List (AppfsEvent σ)) : Prop where
  fd : st₁.fd = st₀.fd
  name : st₁.name = st₀.name
  temp : ∀ {h f}, files p.2.1 h = some f → f.name = uploadTempName → h = st₀.fd
  frame : ∀ n, n ≠ uploadTempName → F₀.SameUnder (files p.2.1) n
  events : ∃ evs, p.2.2 = log₀ ++ evs ∧ ∀ ev ∈ evs, QuietEvent files F₀ st₀.fd ev
  file : files p.2.1 st₀.fd = some ⟨uploadTempName, len, m⟩
  counters : Counters len got st₁
  out : p.1 = st₁ ∧ NorFlash.read m 0 (st₁.address + st₁.pagePos) = got ∧
      (st₁.pagePos = pageLen → Stored got (st₁.address + pageLen) m) ∨
    (∃ err, p.1 = { st₁ with err := err, state := .error }) ∧
      ∃ ev ∈ p.2.2, ev.answer.err ≠ espOk ∧ (len ≤ st₁.address + pageLen → LastPageFault len ev)

variable (hA : A.Laws files)
include hA

lemma Writing.progress {len : ℕ} {got : Bytes} {st : UploadState} {s : σ}
    (h : Writing files len got st s) (log : List (AppfsEvent σ)) :
    Progress files (files s) log len st got (st, s, log) where
  fd := rfl
  name := rfl
  temp hf hname := by
    obtain ⟨g, hg, hgname, _⟩ := h.file
    exact hA.unique hf hg (by rw [hname, hgname])
  frame n _ _ := Files.SameUnder.refl _ n
  events := ⟨[], by simp, by simp⟩
  phase := Or.inl h

omit hA in
/-- Rewriting the flash of the temporary file is not seen under other names. -/
lemma sameUnder_temp {F₀ F : Files} {fd : Handle} {f : AppfsFile} {n : Bytes}
    (hf : F fd = some f) (hname : f.name = uploadTempName) (hn : n ≠ uploadTempName)
    (h : F₀.SameUnder F n) (m : NorFlash.Cells) :
    F₀.SameUnder (Function.update F fd (some { f with flash := m })) n := by
  refine h.trans (Files.sameUnder_update ?_ ?_)
  · intro g hg
    rw [hf] at hg
    rw [← Option.some.inj hg, hname]
    exact hn.symm
  · intro g hg
    rw [← Option.some.inj hg]
    exact fun heq => hn (heq ▸ hname)

omit hA in
lemma PageEvent.quiet {F₀ F : Files} {fd : Handle} {f : AppfsFile} {adr : ℕ} {ev : AppfsEvent σ}
    (h : PageEvent files F fd f adr ev) (hf : F fd = some f) (hname : f.name = uploadTempName)
    (hframe : ∀ n, n ≠ uploadTempName → F₀.SameUnder F n) : QuietEvent files F₀ fd ev where
  own := h.ownFile hname
  no_create n size hcall := by
    rcases h.call with ⟨k, hk⟩ | ⟨data, hd⟩
    · rw [hk] at hcall
      simp at hcall
    · rw [hd] at hcall
      simp at hcall
  after n hn := by
    obtain ⟨m, hm⟩ := h.after
    rw [hm]
    exact sameUnder_temp hf hname hn (hframe n hn) m

/-- **A page goes out while the session makes progress.** -/
lemma Progress.pageOut {F₀ : Files} {log₀ log : List (AppfsEvent σ)} {len : ℕ}
    {st₀ st : UploadState} {got : Bytes} {s : σ}
    (h : Progress files F₀ log₀ len st₀ got (st, s, log)) (hw : Writing files len got st s)
    {got' : Bytes} {st₁ : UploadState} (hfd₁ : st₁.fd = st.fd) (hname₁ : st₁.name = st.name)
    (hc : Counters len got' st₁) (hpos : 0 < st₁.pagePos) (hpage : st₁.pagePos ≤ pageLen)
    (hst : ∀ m, Stored got st.address m → Stored got' st₁.address m) :
    ∃ m, PageOut files F₀ log₀ len st₀ got' st₁ m
      (uploadWrite (record A.exec) (uploadErase (record A.exec) st₁ (s, log)).1
        (uploadErase (record A.exec) st₁ (s, log)).2) := by
  obtain ⟨f, hf, hname, rfl, hstored⟩ := hw.file
  obtain ⟨evs₀, hlog₀, hevs₀⟩ := h.events
  have hframe : ∀ n, n ≠ uploadTempName → F₀.SameUnder (files s) n :=
    fun n hn => h.frame n hn (by simp [hw.state])
  have hf₁ : files s st₁.fd = some f := by rw [hfd₁, hf]
  have hfd : st₁.fd = st₀.fd := hfd₁.trans h.fd
  obtain ⟨m, evs, hF, hlog, hevs, hout⟩ :=
    uploadPage_spec hA hf₁ hc hpos hpage (hst _ hstored)
  refine ⟨m, hfd, hname₁.trans h.name, ?_, ?_, ⟨evs₀ ++ evs, ?_, ?_⟩, ?_, hc, ?_⟩
  · intro k g hg hgname
    by_cases hk : k = st₁.fd
    · rw [hk, hfd]
    · rw [hF, Function.update_of_ne hk] at hg
      exact h.temp hg hgname
  · intro n hn
    rw [hF]
    exact sameUnder_temp hf₁ hname hn (hframe n hn) m
  · have hlog₀' : log = log₀ ++ evs₀ := hlog₀
    rw [hlog, hlog₀', List.append_assoc]
  · intro ev hev
    rcases List.mem_append.mp hev with hev | hev
    · rcases hevs₀ ev hev with hquiet | hfinal
      · exact hquiet
      · exact absurd (hw.state.symm.trans hfinal.state) (by simp)
    · exact hfd ▸ (hevs ev hev).quiet hf₁ hname hframe
  · rw [hF, hfd, Function.update_self, ← hname]
  · rcases hout with hgood | ⟨herr, ev, hev, hbad⟩
    · exact Or.inl hgood
    · exact Or.inr ⟨herr, ev, by rw [hlog]; exact List.mem_append_right log hev, hbad,
        (hevs ev hev).lastPageFault hbad⟩

omit hA in
/-- What a page leaves in the record: its handle, its name and the length of its buffer. -/
lemma PageOut.kept {F₀ : Files} {log₀ : List (AppfsEvent σ)} {len : ℕ} {st₀ st₁ : UploadState}
    {got : Bytes} {m : NorFlash.Cells} {p : UploadState × σ × List (AppfsEvent σ)}
    (h : PageOut files F₀ log₀ len st₀ got st₁ m p) :
    p.1.fd = st₀.fd ∧ p.1.name = st₀.name ∧ p.1.pageData.length = pageLen := by
  rcases h.out with ⟨heq, _⟩ | ⟨⟨err, heq⟩, _⟩
  · rw [heq]
    exact ⟨h.fd, h.name, h.counters.page⟩
  · rw [heq]
    exact ⟨h.fd, h.name, h.counters.page⟩

/-- The file gets its name. -/
lemma PageOut.rename_ok {F₀ : Files} {log₀ log : List (AppfsEvent σ)} {len : ℕ}
    {st₀ st₁ st : UploadState} {got : Bytes} {m : NorFlash.Cells} {s : σ}
    (h : PageOut files F₀ log₀ len st₀ got st₁ m (st, s, log)) (hlen : st₁.len = 0)
    (hpage : st₁.pagePos ≤ pageLen)
    (hok : (A.exec (.rename uploadTempName (cString st.name)) s).1.err = espOk) :
    Progress files F₀ log₀ len st₀ got
      (uploadRename (record A.exec) { st with address := st.address + pageLen, pagePos := 0 }
        (s, log)) := by
  obtain ⟨evs, hlog, hevs⟩ := h.events
  obtain ⟨hfd, hname, hpageOk⟩ := h.kept
  have hcount := h.counters.count
  have hsum := h.counters.sum
  have hfiles := uploadRename_files hA h.file rfl hok
  have heq : uploadRename (record A.exec)
      { st with address := st.address + pageLen, pagePos := 0 } (s, log)
        = ({ st with address := st.address + pageLen, pagePos := 0, state := .done },
          record A.exec (.rename uploadTempName (cString st.name)) (s, log) |>.2) := by
    simp [uploadRename, hok]
  rw [heq]
  refine ⟨hfd, hname, ?_, ?_,
    ⟨evs ++ [callEvent A.exec (.rename uploadTempName (cString st.name)) s], ?_, ?_⟩,
    Or.inr (Or.inl ?_)⟩
  · intro k g hg hgname
    rw [record_state, hfiles] at hg
    by_cases hk : k = st₀.fd
    · exact hk
    · rw [Function.update_of_ne hk, Files.without_eq_some] at hg
      exact h.temp hg.1 hgname
  · intro n hn hnm
    have hnm' : n ≠ cString st.name := by
      rw [hname]
      exact hnm rfl
    rw [record_state, hfiles]
    refine ((h.frame n hn).trans (Files.sameUnder_without hnm')).trans
      (Files.sameUnder_update ?_ ?_)
    · intro g hg
      rw [Files.without_eq_some, h.file] at hg
      rw [← Option.some.inj hg.1]
      exact hn.symm
    · intro g hg
      rw [← Option.some.inj hg]
      exact hnm'.symm
  · have hlog' : log = log₀ ++ evs := hlog
    rw [record_log, hlog', List.append_assoc]
  · intro ev hev
    rcases List.mem_append.mp hev with hev | hev
    · exact Or.inl (hevs ev hev)
    · obtain rfl := List.mem_singleton.mp hev
      exact Or.inr ⟨rfl, hok, rfl, rfl⟩
  · refine ⟨⟨hpageOk, fun hs => by simp at hs, fun hs => by simp at hs⟩, rfl, by omega,
      ⟨_, List.mem_append_right log (List.mem_singleton_self _), rfl, hok⟩,
      ⟨cString st.name, len, m⟩, ?_, rfl, rfl, fun hgood => ?_⟩
    · show files _ st.fd = _
      rw [record_state, hfiles, hfd, Function.update_self]
    · rcases h.out with ⟨_, hread, _⟩ | ⟨_, hfault⟩
      · rw [List.take_of_length_le (by omega), ← hread, AppfsFile.content]
        show NorFlash.read m 0 len = _
        congr 1
        omega
      · obtain ⟨ev, hev, _, hlast⟩ := hfault
        exact absurd (hlast (by omega)) (hgood ev (List.mem_append_left _ hev))

/-- The file cannot get its name. -/
lemma PageOut.rename_fail {F₀ : Files} {log₀ log : List (AppfsEvent σ)} {len : ℕ}
    {st₀ st₁ st : UploadState} {got : Bytes} {m : NorFlash.Cells} {s : σ}
    (h : PageOut files F₀ log₀ len st₀ got st₁ m (st, s, log))
    (hbad : (A.exec (.rename uploadTempName (cString st.name)) s).1.err ≠ espOk) :
    Progress files F₀ log₀ len st₀ got
      (uploadRename (record A.exec) { st with address := st.address + pageLen, pagePos := 0 }
        (s, log)) := by
  obtain ⟨evs, hlog, hevs⟩ := h.events
  obtain ⟨hfd, hname, hpageOk⟩ := h.kept
  have hfiles : files (A.exec (.rename uploadTempName (cString st.name)) s).2 = files s :=
    hA.rename_fail hbad
  have heq : uploadRename (record A.exec)
      { st with address := st.address + pageLen, pagePos := 0 } (s, log)
        = ({ st with
            address := st.address + pageLen
            pagePos := 0
            err := ascii "Rename failed"
            state := .error },
          record A.exec (.rename uploadTempName (cString st.name)) (s, log) |>.2) := by
    simp [uploadRename, UploadState.fail, hbad]
  rw [heq]
  refine ⟨hfd, hname, ?_, ?_,
    ⟨evs ++ [callEvent A.exec (.rename uploadTempName (cString st.name)) s], ?_, ?_⟩,
    Or.inr (Or.inr ⟨⟨hpageOk, fun hs => by simp at hs, fun hs => by simp at hs⟩, rfl,
      _, List.mem_append_right log (List.mem_singleton_self _), hbad⟩)⟩
  · intro k g hg hgname
    rw [record_state, hfiles] at hg
    exact h.temp hg hgname
  · intro n hn _
    rw [record_state, hfiles]
    exact h.frame n hn
  · have hlog' : log = log₀ ++ evs := hlog
    rw [record_log, hlog', List.append_assoc]
  · intro ev hev
    rcases List.mem_append.mp hev with hev | hev
    · exact Or.inl (hevs ev hev)
    · obtain rfl := List.mem_singleton.mp hev
      refine Or.inl ⟨ownFile_of_rename rfl, fun _ _ hcall => AppfsCall.noConfusion hcall, ?_⟩
      intro n hn
      show F₀.SameUnder (files (A.exec _ s).2) n
      rw [hfiles]
      exact h.frame n hn

/-- The last page is out, and the rename follows. -/
lemma PageOut.rename {F₀ : Files} {log₀ log : List (AppfsEvent σ)} {len : ℕ}
    {st₀ st₁ st : UploadState} {got : Bytes} {m : NorFlash.Cells} {s : σ}
    (h : PageOut files F₀ log₀ len st₀ got st₁ m (st, s, log)) (hlen : st₁.len = 0)
    (hpage : st₁.pagePos ≤ pageLen) :
    Progress files F₀ log₀ len st₀ got
      (uploadRename (record A.exec) { st with address := st.address + pageLen, pagePos := 0 }
        (s, log)) := by
  by_cases hok : (A.exec (.rename uploadTempName (cString st.name)) s).1.err = espOk
  · exact h.rename_ok hA hlen hpage hok
  · exact h.rename_fail hA hok

omit hA in
/-- A full page is out, and there is more to come. -/
lemma PageOut.next {F₀ : Files} {log₀ log : List (AppfsEvent σ)} {len : ℕ}
    {st₀ st₁ st : UploadState} {got : Bytes} {m : NorFlash.Cells} {s : σ}
    (h : PageOut files F₀ log₀ len st₀ got st₁ m (st, s, log)) (hlen : st₁.len ≠ 0)
    (hstate : st₁.state = .write) (hfull : st₁.pagePos = pageLen) :
    Progress files F₀ log₀ len st₀ got
      ({ st with address := st.address + pageLen, pagePos := 0 }, s, log) := by
  obtain ⟨evs, hlog, hevs⟩ := h.events
  have hroom : (0 : ℕ) < pageLen ∧ 0 < st₁.len := ⟨by simp [pageLen], Nat.pos_of_ne_zero hlen⟩
  rcases h.out with ⟨heq, _, hstored⟩ | ⟨⟨err, heq⟩, ev, hev, hbad, _⟩
  · obtain rfl : st = st₁ := heq
    refine ⟨h.fd, h.name, h.temp, fun n hn _ => h.frame n hn,
      ⟨evs, hlog, fun ev hev => Or.inl (hevs ev hev)⟩, Or.inl ⟨hstate, ?_, ?_, ?_⟩⟩
    · exact ⟨h.counters.page, fun hs => by simp [hstate] at hs, fun _ => hroom⟩
    · exact h.counters.next hfull st.err st.state
    · exact ⟨_, by rw [h.fd]; exact h.file, rfl, rfl, hstored hfull⟩
  · obtain rfl : st = { st₁ with err := err, state := .error } := heq
    refine ⟨h.fd, h.name, h.temp, fun n hn _ => h.frame n hn,
      ⟨evs, hlog, fun ev hev => Or.inl (hevs ev hev)⟩,
      Or.inr (Or.inr ⟨?_, rfl, ev, hev, hbad⟩)⟩
    exact ⟨h.counters.page, fun hs => by simp at hs, fun hs => by simp at hs⟩

variable {args : Args}

omit hA in
/-- A byte that does not fill the page stays in the buffer. -/
lemma Progress.copy {F₀ : Files} {log₀ log : List (AppfsEvent σ)} {len : ℕ}
    {st₀ st : UploadState} {got : Bytes} {s : σ}
    (h : Progress files F₀ log₀ len st₀ got (st, s, log)) (hw : Writing files len got st s)
    {xs : Bytes} (hlt : xs.length < st.lenLeft) :
    Progress files F₀ log₀ len st₀ (got ++ xs) (st.copy xs, s, log) := by
  obtain ⟨f, hf, hname, hsize, hstored⟩ := hw.file
  have hroom := hw.ok.room hw.state
  have hlen := hlt
  rw [st.lenLeft_eq] at hlen
  refine ⟨h.fd, h.name, h.temp, fun n hn hd => h.frame n hn hd, ?_, Or.inl ?_⟩
  · obtain ⟨evs, hlog, hevs⟩ := h.events
    refine ⟨evs, hlog, fun ev hev => (hevs ev hev).imp id fun hfinal => ?_⟩
    exact absurd (hw.state.symm.trans hfinal.state) (by simp)
  · refine ⟨hw.state, hw.ok.copy hw.state hlt, hw.counters.copy (by omega) (by omega), f, hf,
      hname, hsize, hstored.append ?_ xs⟩
    have := hw.counters.count
    omega

variable (args) in
/-- **One byte.** -/
lemma Progress.byte {F₀ : Files} {log₀ : List (AppfsEvent σ)} {len : ℕ} (hlen : 0 < len)
    {st₀ : UploadState} {got : Bytes} {p : UploadState × σ × List (AppfsEvent σ)}
    (h : Progress files F₀ log₀ len st₀ got p) (x : UInt8) :
    Progress files F₀ log₀ len st₀ (got ++ [x]) (uploadFeed (record A.exec) args len p [x]) := by
  obtain ⟨st, s, log⟩ := p
  rcases h.phase with hw | hfin | ⟨hok, herr, hbad⟩
  · replace hw : Writing files len got st s := hw
    have hroom := hw.ok.room hw.state
    have hleft := st.lenLeft_eq
    by_cases hone : st.lenLeft = 1
    · rw [uploadFeed_flush hlen hw.ok hw.state (by simp [hone]), hone]
      show Progress files F₀ log₀ len st₀ _ (uploadFeed _ args len
        (uploadFlush _ (st.copy [x]) (s, log)) [])
      rw [uploadFeed_nil]
      have hc : Counters len (got ++ [x]) (st.copy [x]) :=
        hw.counters.copy (by simp; omega) (by simp; omega)
      obtain ⟨m, hout⟩ := h.pageOut hA hw (copy_fd st [x]) (copy_name st [x]) hc (by simp)
        (by simp; omega) fun m hm => hm.append (by have := hw.counters.count; omega) [x]
      rw [uploadFlush]
      generalize uploadErase (record A.exec) (st.copy [x]) (s, log) = e at hout
      generalize uploadWrite (record A.exec) e.1 e.2 = r at hout
      obtain ⟨st₂, s₂, log₂⟩ := r
      have hlen₂ : st₂.len = (st.copy [x]).len := by
        rcases hout.out with ⟨heq, _⟩ | ⟨⟨err, heq⟩, _⟩
        · rw [← heq]
        · rw [show st₂ = _ from heq]
      by_cases hzero : (st.copy [x]).len = 0
      · rw [if_pos (by rw [← hzero]; exact hlen₂)]
        exact hout.rename hA hzero (by simp; omega)
      · rw [if_neg (by rw [← hlen₂] at hzero; exact hzero)]
        refine hout.next hzero hw.state ?_
        -- the page is full, as the byte was not the last one
        simp only [copy_len, copy_pagePos, List.length_singleton] at hzero ⊢
        omega
    · have hlt : ([x] : Bytes).length < st.lenLeft := by
        simp only [List.length_singleton]
        omega
      rw [uploadFeed_copy hlen hw.ok hw.state hlt]
      exact h.copy hw hlt
  · -- a byte too many changes nothing
    have hok : st.Ok := hfin.ok
    rw [uploadFeed_stopped hlen hok (Or.inl hfin.state)]
    refine ⟨h.fd, h.name, h.temp, h.frame, h.events, Or.inr (Or.inl ?_)⟩
    have hcount := hfin.count
    refine ⟨hok, hfin.state, by simp; omega, hfin.renamed, ?_⟩
    obtain ⟨f, hf, hname, hsize, hcontent⟩ := hfin.file
    refine ⟨f, hf, hname, hsize, fun hgood => ?_⟩
    rw [List.take_append_of_le_length hcount]
    exact hcontent hgood
  · rw [uploadFeed_stopped hlen hok (Or.inr herr)]
    exact ⟨h.fd, h.name, h.temp, h.frame, h.events, Or.inr (Or.inr ⟨hok, herr, hbad⟩)⟩

omit hA in
lemma Progress.ok {F₀ : Files} {log₀ : List (AppfsEvent σ)} {len : ℕ} {st₀ : UploadState}
    {got : Bytes} {p : UploadState × σ × List (AppfsEvent σ)}
    (h : Progress files F₀ log₀ len st₀ got p) : p.1.Ok := by
  rcases h.phase with hw | hfin | ⟨hok, _⟩
  · exact hw.ok
  · exact hfin.ok
  · exact hok

variable (args) in
/-- **Any number of bytes**, in as many buffers as one likes. -/
theorem Progress.feed {F₀ : Files} {log₀ : List (AppfsEvent σ)} {len : ℕ} (hlen : 0 < len)
    {st₀ : UploadState} (xs : Bytes) : ∀ {got : Bytes} {p : UploadState × σ × List (AppfsEvent σ)},
    Progress files F₀ log₀ len st₀ got p →
    Progress files F₀ log₀ len st₀ (got ++ xs) (uploadFeed (record A.exec) args len p xs) := by
  induction xs with
  | nil =>
      intro got p h
      rw [uploadFeed_nil, List.append_nil]
      exact h
  | cons x xs ih =>
      intro got p h
      rw [(uploadFeed_splittable hlen).cons x xs h.ok]
      have hstep := ih (h.byte hA args hlen x)
      rwa [List.append_assoc] at hstep

variable (args) in
/-- **The first byte creates the file.**  Either the session writes from now on, or it is in
`FLST_ERROR` and at most a left-over temporary file is gone. -/
lemma uploadStart_spec {len : ℕ} (hlen : 0 < len) (s : σ) (log : List (AppfsEvent σ)) :
    let r := uploadStart (record A.exec) args len .initial (s, log)
    r.1.name = (httpdFindArg args "name" UploadState.initial.name 512).2 ∧
    r.2.2 = log ++ [callEvent A.exec (.createFile uploadTempName len) s] ∧
    r.2.1 = (A.exec (.createFile uploadTempName len) s).2 ∧
    ((A.exec (.createFile uploadTempName len) s).1.err = espOk ∧
      r.1.fd = (A.exec (.createFile uploadTempName len) s).1.fd ∧
      Writing files len [] r.1 r.2.1 ∨
    (A.exec (.createFile uploadTempName len) s).1.err ≠ espOk ∧ r.1.Ok ∧ r.1.state = .error) := by
  intro r
  have hinit := UploadState.initial_ok
  rcases uploadStart_cases (record A.exec) args len .initial (s, log) with
    ⟨herr, heq⟩ | ⟨hok, err, heq⟩
  · have hr : r = _ := heq
    rw [hr]
    exact ⟨rfl, rfl, rfl, Or.inr ⟨herr, ⟨hinit.page, fun hs => by simp at hs,
      fun hs => by simp at hs⟩, rfl⟩⟩
  · have hr : r = _ := heq
    rw [record_answer] at hok
    obtain ⟨_, m, hfiles⟩ := hA.create_ok hok
    rw [hr]
    refine ⟨rfl, rfl, rfl, Or.inl ⟨hok, rfl, rfl, ?_, ?_, ⟨uploadTempName, len, m⟩, ?_, rfl, rfl,
      stored_zero [] m⟩⟩
    · exact ⟨hinit.page, fun hs => by simp at hs, fun _ =>
        ⟨(by simp [pageLen] : 0 < pageLen), hlen⟩⟩
    · exact ⟨hinit.page, dvd_zero pageLen, (by omega : 0 + 0 + len = len), rfl, rfl⟩
    · show files (A.exec _ s).2 _ = _
      rw [hfiles]
      exact Function.update_self _ _ _

/-- **A session from its first byte on.**  The create is its first call.  If it fails, nothing
else is called; if it succeeds, the session makes progress from there. -/
theorem uploadBody_spec {len : ℕ} (hlen : 0 < len) {body : Bytes} (hbody : body ≠ []) (s : σ) :
    let r := uploadBody (record A.exec) args len (s, []) body
    let ev := callEvent A.exec (.createFile uploadTempName len) s
    cString r.1.name = uploadName args ∧
    ((ev.answer.err = espOk ∧ ∃ st₀ : UploadState, st₀.fd = ev.answer.fd ∧ st₀.name = r.1.name ∧
        Progress files (files ev.after) [ev] len st₀ body r) ∨
      (ev.answer.err ≠ espOk ∧ r.1.state = .error ∧ r.2 = (ev.after, [ev]))) := by
  intro r ev
  have hstart := uploadStart_spec hA args hlen s []
  have hr : r = uploadFeed (record A.exec) args len
      (uploadStart (record A.exec) args len .initial (s, [])) body :=
    uploadFeed_start hlen UploadState.initial_ok rfl hbody _
  generalize uploadStart (record A.exec) args len .initial (s, []) = r₀ at hstart hr
  obtain ⟨st₀, s₀, log₀⟩ := r₀
  obtain ⟨hname, hlog, hs, hout⟩ := hstart
  obtain rfl : log₀ = [ev] := hlog
  obtain rfl : s₀ = ev.after := hs
  rcases hout with ⟨hok, hfd, hw⟩ | ⟨herr, hst, hstate⟩
  · have hprog := (hw.progress hA [ev]).feed hA args hlen body
    rw [← hr] at hprog
    exact ⟨congrArg cString (hprog.name.trans hname),
      Or.inl ⟨hok, st₀, hfd, hprog.name.symm, hprog⟩⟩
  · rw [uploadFeed_stopped hlen hst (Or.inr hstate) body (ev.after, [ev])] at hr
    rw [hr]
    exact ⟨congrArg cString hname, Or.inr ⟨herr, hstate, rfl⟩⟩

/-- Creating the temporary file is not seen under other names, whether or not it succeeds. -/
lemma sameUnder_create {n : Bytes} (hn : n ≠ uploadTempName) (size : ℕ) (s : σ) :
    (files s).SameUnder (files (A.exec (.createFile uploadTempName size) s).2) n := by
  by_cases hok : (A.exec (.createFile uploadTempName size) s).1.err = espOk
  · obtain ⟨hold, m, hfiles⟩ := hA.create_ok hok
    rw [hfiles]
    refine (Files.sameUnder_without hn).trans (Files.sameUnder_update ?_ ?_)
    · intro f hf
      rw [Files.without_eq_some] at hf
      exact absurd (hold f hf.1) hf.2
    · intro f hf
      rw [← Option.some.inj hf]
      exact hn.symm
  · rcases hA.create_fail hok with heq | heq
    · rw [heq]
      exact Files.SameUnder.refl _ n
    · rw [heq]
      exact Files.sameUnder_without hn

/-- **Without a successful rename nothing has changed**, but for temporary files. -/
theorem uploadBody_no_rename {len : ℕ} (hlen : 0 < len) {body : Bytes} (hbody : body ≠ []) {s : σ}
    (hren : ∀ ev ∈ (uploadBody (record A.exec) args len (s, []) body).2.2,
      ∀ old new, ev.call = .rename old new → ev.answer.err ≠ espOk) {n : Bytes}
    (hn : n ≠ uploadTempName) :
    (files s).SameUnder (files (uploadBody (record A.exec) args len (s, []) body).2.1) n := by
  refine (sameUnder_create hA hn len s).trans ?_
  obtain ⟨_, ⟨_, st₀, _, _, h⟩ | ⟨_, _, heq⟩⟩ := uploadBody_spec hA hlen hbody s
  · refine h.frame n hn fun hdone => ?_
    rcases h.phase with hw | hfin | ⟨_, herr, _⟩
    · exact absurd (hdone.symm.trans hw.state) (by simp)
    · obtain ⟨ev, hev, hcall, hok⟩ := hfin.renamed
      exact absurd hok (hren ev hev _ _ hcall)
    · exact absurd (hdone.symm.trans herr) (by simp)
  · rw [heq]
    exact Files.SameUnder.refl _ n

/-- **A session that gets its whole body, while all calls succeed.**  The file is there under its
name, with the body as its content, and under all other names nothing has changed but for the
temporary file. -/
theorem uploadBody_succeeds {body : Bytes} (hbody : body ≠ []) {s : σ}
    (hok : ∀ ev ∈ (uploadBody (record A.exec) args body.length (s, []) body).2.2,
      ev.answer.err = espOk) :
    let r := uploadBody (record A.exec) args body.length (s, []) body
    r.1.state = .done ∧
    (∃ k f, files r.2.1 k = some f ∧ f.name = uploadName args ∧ f.size = body.length ∧
      f.content = body) ∧
    ∀ m, m ≠ uploadTempName → m ≠ uploadName args → (files s).SameUnder (files r.2.1) m := by
  intro r
  have hlen : 0 < body.length := List.length_pos_of_ne_nil hbody
  obtain ⟨hname, ⟨_, st₀, _, hname₀, h⟩ | ⟨herr, _, heq⟩⟩ :=
    uploadBody_spec hA hlen hbody s
  · rcases h.phase with hw | hfin | ⟨_, _, ev, hev, hbad⟩
    · -- a session that still writes has not got the whole body
      have hroom := hw.ok.room hw.state
      have hcount := hw.counters.count
      have hsum := hw.counters.sum
      omega
    · obtain ⟨f, hf, hfname, hsize, hcontent⟩ := hfin.file
      refine ⟨hfin.state, ⟨_, f, hf, hfname.trans hname, hsize, ?_⟩, fun m hm hmn => ?_⟩
      · rw [hcontent fun ev hev hlast => hlast.1 (hok ev hev), List.take_length]
      · refine (sameUnder_create hA hm body.length s).trans (h.frame m hm fun _ => ?_)
        rw [hname₀, hname]
        exact hmn
    · exact absurd (hok ev hev) hbad
  · exact absurd (hok _ (by rw [heq]; exact List.mem_singleton_self _)) herr

end Progress

end Chooser
