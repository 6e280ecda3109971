import Chooser.Appfs

/-!
# Downloading a file

`cgiDownloadFile` serves `download.cgi?idx=..`.  The first call looks the index up and sends the
headers; every call then reads the next chunk of the file behind the handle and sends it.  The
record is the handle, the size the file had at the start, and the position.  What `appfsRead`
answers is not looked at: the data buffer goes out whatever is in it, and before a read it holds
what was on the stack.
-/

namespace Chooser

open CStr

structure DownloadState where
  fd : Handle
  size : ℕ
  pos : ℕ
deriving DecidableEq, Repr

/-- `DOWNLOAD_CHUNK_SIZE`, the size of the data buffer. -/
def downloadBufSize : ℕ := 1024

/-- A byte of the file name as it stands in the header: quotes and non-ASCII bytes are replaced. -/
def headerNameByte (c : UInt8) : UInt8 :=
  if c = 39 ∨ c = 34 ∨ c &&& 0x80 ≠ 0 then 95 else c

def downloadHeaders (name : Bytes) (size : ℕ) : List HttpCall :=
  [.startResponse 200, .header (ascii "Content-Type") (ascii "application/octet-stream"),
    .header (ascii "Content-Disposition")
      (ascii "attachment; filename=\"" ++ (cString name).map headerNameByte ++ ascii "\""),
    .header (ascii "Content-Length") (sprintfD size), .endHeaders]

/-- The answer to an index that is absent or names no file. -/
def downloadInvalidIdx : List HttpCall :=
  [.startResponse 404, .header (ascii "Content-Type") (ascii "text/plain"), .endHeaders,
    .send (ascii "Invalid idx var\n") (-1)]

/-- `int len=state->size-state->pos; if (len>DOWNLOAD_CHUNK_SIZE) len=DOWNLOAD_CHUNK_SIZE;` -/
def DownloadState.chunkLen (st : DownloadState) : ℕ := min (st.size - st.pos) downloadBufSize

section Handler

variable {σ : Type} (A : Appfs σ)

/-- The index of the request, if it names a file, with the name and size of the file. -/
def downloadLookup (args : Args) (sidx : Bytes) (s : σ) : Option (Handle × Bytes × ℕ) :=
  let a := httpdFindArg args "idx" sidx 16
  if a.1 > 0 ∧ A.fdValid (atoi a.2) s then some (atoi a.2, A.entryInfo (atoi a.2) s) else none

/-- Reads the next chunk into the data buffer and sends it. -/
def downloadChunk (st : DownloadState) (data : Bytes) (out : List HttpCall) (s : σ) :
    CgiOutcome DownloadState :=
  let len := st.chunkLen
  let data := (A.read st.fd st.pos len data s).2
  let st' := { st with pos := st.pos + len }
  if st'.pos = st'.size then ⟨.done, some st', true, out ++ [.send data len]⟩
  else ⟨.more, some st', false, out ++ [.send data len]⟩

/-- What lies on the stack when a call starts: the buffers `sidx` and `data`. -/
structure DownloadStack where
  sidx : Bytes
  data : Bytes

def cgiDownloadFile (stack : DownloadStack) (connData : HttpdConnData DownloadState) (s : σ) :
    CgiOutcome DownloadState :=
  if ¬ connData.conn then ⟨.done, connData.cgiData, connData.cgiData.isSome, []⟩
  else
    match connData.cgiData with
    | some st => downloadChunk A st stack.data [] s
    | none =>
        if ¬ connData.heap then ⟨.done, none, false, []⟩
        else
          match downloadLookup A connData.getArgs stack.sidx s with
          | none => ⟨.done, some ⟨0, 0, 0⟩, false, downloadInvalidIdx⟩
          | some (idx, name, size) =>
              downloadChunk A ⟨idx, size, 0⟩ stack.data (downloadHeaders name size) s

/-- The `k`-th call of a download on a device that does not change meanwhile. -/
def downloadCall (args : Args) (stack : ℕ → DownloadStack) (k : ℕ) (data : Option DownloadState)
    (s : σ) : CgiOutcome DownloadState × σ :=
  (cgiDownloadFile A (stack k) ⟨true, true, data, args, ⟨[], 0, 0⟩⟩ s, s)

end Handler

lemma bodySent_downloadHeaders (name : Bytes) (size : ℕ) :
    bodySent (downloadHeaders name size) = [] := by
  simp [downloadHeaders]

lemma chunkLen_fits (st : DownloadState) (h : st.pos ≤ st.size) :
    st.pos + st.chunkLen ≤ st.size := by
  simp only [DownloadState.chunkLen]
  omega

/-- A chunk that does not end the download is a full one. -/
lemma chunkLen_full (st : DownloadState) (hle : st.pos ≤ st.size)
    (h : st.pos + st.chunkLen ≠ st.size) : st.chunkLen = downloadBufSize := by
  simp only [DownloadState.chunkLen] at h ⊢
  omega

section Run

variable {σ : Type} {A : Appfs σ} {files : σ → Files}

/-- Reading inside a file succeeds. -/
def ReadsSucceed (A : Appfs σ) (files : σ → Files) (s : σ) : Prop :=
  ∀ fd pos len buf f, files s fd = some f → pos + len ≤ f.size →
    (A.read fd pos len buf s).1 = espOk

/-- A successful read is the piece of the content. -/
lemma read_content (hA : A.Laws files) {s : σ} {fd : Handle} {f : AppfsFile} {pos len : ℕ}
    {buf : Bytes} (hf : files s fd = some f) (hle : pos + len ≤ f.size)
    (hok : (A.read fd pos len buf s).1 = espOk) :
    (A.read fd pos len buf s).2.take len = (f.content.drop pos).take len := by
  rw [hA.read_ok hf hle hok, List.take_left' (NorFlash.length_read f.flash pos len),
    AppfsFile.content, NorFlash.take_drop_read f.flash hle, Nat.zero_add]

lemma payload_send_nat (data : Bytes) (len : ℕ) :
    (HttpCall.send data len).payload = data.take len := by
  have hnn : ¬ ((len : ℤ) < 0) := by omega
  rw [HttpCall.payload, if_neg hnn, Int.toNat_natCast]

lemma downloadCall_some {args : Args} {stack : ℕ → DownloadStack} (k : ℕ) (st : DownloadState)
    (s : σ) : downloadCall A args stack k (some st) s = (downloadChunk A st (stack k).data [] s, s)
    := by
  simp [downloadCall, cgiDownloadFile]

/-- The next chunk of a stored file. -/
lemma payload_download (hA : A.Laws files) {s : σ} (hreads : ReadsSucceed A files s) {fd : Handle}
    {f : AppfsFile} (hf : files s fd = some f) {pos len : ℕ} (hfit : pos + len ≤ f.size)
    (data : Bytes) :
    (HttpCall.send (A.read fd pos len data s).2 len).payload = (f.content.drop pos).take len := by
  rw [payload_send_nat]
  exact read_content hA hf hfit (hreads fd pos len data f hf hfit)

/-- **The rest of a download on an unchanging device**: the rest of the content, and then the
end. -/
lemma downloadChunk_run (hA : A.Laws files) {s : σ} (hreads : ReadsSucceed A files s)
    (args : Args) (stack : ℕ → DownloadStack) {fd : Handle} {f : AppfsFile}
    (hf : files s fd = some f) {pos : ℕ} (hle : pos ≤ f.size) {k : ℕ}
    {data : Option DownloadState} {head : List HttpCall}
    (hcall : downloadCall A args stack k data s
      = (downloadChunk A ⟨fd, f.size, pos⟩ (stack k).data head s, s)) :
    ∃ out, CgiRun (downloadCall A args stack) k data s (head ++ out) s ∧
      bodySent out = f.content.drop pos := by
  have hrest : ∃ out s', CgiRun (downloadCall A args stack) k data s (head ++ out) s' ∧
      s' = s ∧ bodySent out = f.content.drop pos := by
    refine CgiRun.of_pieces
      (fun pos k head s => (downloadChunk A ⟨fd, f.size, pos⟩ (stack k).data head s, s))
      (fun pos s' => s' = s ∧ pos ≤ f.size) (fun pos => f.size - pos)
      (fun pos out s₁ s₂ => s₂ = s₁ ∧ bodySent out = f.content.drop pos) ?_ ⟨rfl, hle⟩ hcall
    rintro pos k head s ⟨rfl, hle⟩
    have hfit := chunkLen_fits ⟨fd, f.size, pos⟩ hle
    have hfull := chunkLen_full ⟨fd, f.size, pos⟩ hle
    simp only [downloadChunk]
    generalize DownloadState.chunkLen ⟨fd, f.size, pos⟩ = len at *
    simp only at hle hfit hfull
    have hpay := payload_download hA hreads hf hfit (stack k).data
    by_cases hend : pos + len = f.size
    · rw [if_pos hend]
      refine Or.inl ⟨_, _, _, _, rfl, rfl, ?_⟩
      rw [bodySent_cons, bodySent_nil, List.append_nil, hpay, List.take_of_length_le]
      rw [List.length_drop, f.length_content]
      omega
    · rw [if_neg hend]
      have hpos : 0 < len := by
        rw [hfull hend]
        decide
      refine Or.inr ⟨pos + len, _, _, _, ⟨rfl, hfit⟩, by omega, rfl, downloadCall_some _ _ _, ?_⟩
      rintro out s' ⟨rfl, hbody⟩
      refine ⟨rfl, ?_⟩
      rw [List.singleton_append, bodySent_cons, hpay, hbody, ← List.drop_drop,
        List.take_append_drop]
  obtain ⟨out, s', hrun, rfl, hbody⟩ := hrest
  exact ⟨out, hrun, hbody⟩

/-- **A download on an unchanging device.**  The index of a stored file gets the file: its size
announced, its content sent, after finitely many calls. -/
theorem downloadCall_run (hA : A.Laws files) {s : σ} (hreads : ReadsSucceed A files s)
    {args : Args} {stack : ℕ → DownloadStack} {k : Handle} {f : AppfsFile}
    (hf : files s k = some f) (hidx : args "idx" = some (sprintfD k)) :
    ∃ out, CgiRun (downloadCall A args stack) 0 none s out s ∧
      .header (ascii "Content-Length") (sprintfD f.size) ∈ out ∧ bodySent out = f.content := by
  obtain ⟨n, rfl, hn⟩ := hA.handle_nat hf
  rw [sprintfD_natCast] at hidx
  have hlen : (decimal n).length ≤ 10 := length_decimal_le (by omega) (by omega)
  have hlookup : downloadLookup A args (stack 0).sidx s = some ((n : ℤ), f.name, f.size) := by
    simp [downloadLookup, httpdFindArg, hidx, List.take_of_length_le (by omega :
      (decimal n).length ≤ 16), decimal_ne_nil n, atoi_decimal hn, hA.fdValid, hf, hA.entryInfo hf]
  have hcall : downloadCall A args stack 0 none s
      = (downloadChunk A ⟨n, f.size, 0⟩ (stack 0).data (downloadHeaders f.name f.size) s, s) := by
    simp [downloadCall, cgiDownloadFile, hlookup]
  obtain ⟨out, hrun, hbody⟩ := downloadChunk_run hA hreads args stack hf (Nat.zero_le _) hcall
  refine ⟨_, hrun, by simp [downloadHeaders], ?_⟩
  rw [bodySent_append, bodySent_downloadHeaders, List.nil_append, hbody, List.drop_zero]

end Run

end Chooser
