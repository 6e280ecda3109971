import Chooser.Download
import Chooser.Lib.Ring

/-!
# Downloading the log

What the firmware prints goes to a ring buffer in RTC memory, and `cgiDownloadLog` sends it as one
text, oldest byte first.  The first call takes the size and the starting place from the ring; every
call then copies up to 1024 bytes, with a pointer that goes around the ring on its own.

The writer of the ring is not part of the repository; it is the one of `Ring`.  The ring does not
change during a download (`KCHAL_INIT_NO_STDOUT_HDL`).  Then a download is `Ring.Holds.linear` read
in chunks (`cgiDownloadLog_linear`).
-/

namespace Chooser

open CStr

/-- `kchal_stdout_rtc_buf_t`: the ring, with its capacity and a magic number. -/
structure StdoutRtcBuf where
  magic : ℕ
  bufsz : ℕ
  ring : Ring.State UInt8

structure DownloadLogState where
  size : ℕ
  pos : ℕ
  ptr : ℕ
deriving DecidableEq, Repr

/-- What the copy loop leaves: the bytes copied, the pointer, and the indices it has read. -/
structure LogCopy where
  data : Bytes
  ptr : ℕ
  reads : List ℕ

/-- `for (int i=0; i<len; i++)` -/
def logCopy (rb : StdoutRtcBuf) : ℕ → ℕ → LogCopy
  | 0, ptr => ⟨[], ptr, []⟩
  | n + 1, ptr =>
      let r := logCopy rb n (if ptr + 1 = rb.bufsz then 0 else ptr + 1)
      ⟨rb.ring.buffer ptr :: r.data, r.ptr, ptr :: r.reads⟩

/-- `int len=state->size-state->pos; if (len>DOWNLOAD_CHUNK_SIZE) len=DOWNLOAD_CHUNK_SIZE;` -/
def DownloadLogState.chunkLen (st : DownloadLogState) : ℕ := min (st.size - st.pos) downloadBufSize

def logHeaders (size : ℕ) : List HttpCall :=
  [.startResponse 200, .header (ascii "Content-Type") (ascii "application/octet-stream"),
    .header (ascii "Content-Disposition") (ascii "attachment; filename=\"log.txt\""),
    .header (ascii "Content-Length") (sprintfD size), .endHeaders]

def logBadMagic : List HttpCall :=
  [.startResponse 404, .header (ascii "Content-Type") (ascii "text/plain"), .endHeaders,
    .send (ascii "Bad RTC mem magic.\n") (-1)]

section Handler

variable (stdoutMagic : ℕ) (rb : StdoutRtcBuf)

/-- Copies the next chunk and sends it. The world is the list of indices read so far. -/
def logChunk (st : DownloadLogState) (out : List HttpCall) (reads : List ℕ) :
    CgiOutcome DownloadLogState × List ℕ :=
  let len := st.chunkLen
  let c := logCopy rb len st.ptr
  let st' : DownloadLogState := { st with pos := st.pos + len, ptr := c.ptr }
  if st'.pos = st'.size then
    (⟨.done, some st', true, out ++ [.send c.data len]⟩, reads ++ c.reads)
  else (⟨.more, some st', false, out ++ [.send c.data len]⟩, reads ++ c.reads)

/-- The record as the first call sets it up. -/
def logStart : DownloadLogState :=
  if rb.ring.hasWrapped then ⟨rb.bufsz, 0, rb.ring.writeptr⟩ else ⟨rb.ring.writeptr, 0, 0⟩

def cgiDownloadLog (connData : HttpdConnData DownloadLogState) (reads : List ℕ) :
    CgiOutcome DownloadLogState × List ℕ :=
  if ¬ connData.conn then (⟨.done, connData.cgiData, connData.cgiData.isSome, []⟩, reads)
  else
    match connData.cgiData with
    | some st => logChunk rb st [] reads
    | none =>
        if ¬ connData.heap then (⟨.done, none, false, []⟩, reads)
        else if rb.magic ≠ stdoutMagic then (⟨.done, some ⟨0, 0, 0⟩, false, logBadMagic⟩, reads)
        else logChunk rb (logStart rb) (logHeaders (logStart rb).size) reads

/-- A call of a download. -/
def logCall (_ : ℕ) (data : Option DownloadLogState) (reads : List ℕ) :
    CgiOutcome DownloadLogState × List ℕ :=
  cgiDownloadLog stdoutMagic rb ⟨true, true, data, fun _ => none, ⟨[], 0, 0⟩⟩ reads

end Handler

/-! ## The copy loop -/

section Copy

variable {rb : StdoutRtcBuf}

/-- **The loop goes around the ring**, from a place in it. -/
lemma logCopy_eq (n : ℕ) : ∀ {ptr : ℕ}, ptr < rb.bufsz →
    (logCopy rb n ptr).data = rb.ring.around rb.bufsz ptr n ∧
    (logCopy rb n ptr).ptr = (ptr + n) % rb.bufsz ∧
    ∀ i ∈ (logCopy rb n ptr).reads, i < rb.bufsz := by
  induction n with
  | zero =>
      intro ptr hptr
      exact ⟨rfl, (Nat.mod_eq_of_lt hptr).symm, fun i hi => by simp [logCopy] at hi⟩
  | succ n ih =>
      intro ptr hptr
      have hnext : (if ptr + 1 = rb.bufsz then 0 else ptr + 1) = (ptr + 1) % rb.bufsz := by
        split_ifs with hend
        · rw [hend, Nat.mod_self]
        · exact (Nat.mod_eq_of_lt (by omega)).symm
      obtain ⟨hdata, hptr', hreads⟩ := ih (Nat.mod_lt (ptr + 1) (Nat.zero_lt_of_lt hptr))
      rw [logCopy, hnext]
      refine ⟨?_, ?_, ?_⟩
      · rw [Nat.add_comm n 1, Ring.around_add, hdata, Ring.around_mod]
        simp [Ring.State.around, Nat.mod_eq_of_lt hptr]
      · rw [hptr', Nat.mod_add_mod, Nat.add_assoc, Nat.add_comm 1 n]
      · intro i hi
        rcases List.mem_cons.mp hi with rfl | hi
        · exact hptr
        · exact hreads i hi

/-! ## The rest of a download -/

lemma logChunk_last {st : DownloadLogState} (h : st.pos + st.chunkLen = st.size)
    (out : List HttpCall) (reads : List ℕ) :
    logChunk rb st out reads =
      (⟨.done, some ⟨st.size, st.pos + st.chunkLen, (logCopy rb st.chunkLen st.ptr).ptr⟩, true,
        out ++ [.send (logCopy rb st.chunkLen st.ptr).data st.chunkLen]⟩,
        reads ++ (logCopy rb st.chunkLen st.ptr).reads) := if_pos h

lemma logChunk_more {st : DownloadLogState} (h : st.pos + st.chunkLen ≠ st.size)
    (out : List HttpCall) (reads : List ℕ) :
    logChunk rb st out reads =
      (⟨.more, some ⟨st.size, st.pos + st.chunkLen, (logCopy rb st.chunkLen st.ptr).ptr⟩, false,
        out ++ [.send (logCopy rb st.chunkLen st.ptr).data st.chunkLen]⟩,
        reads ++ (logCopy rb st.chunkLen st.ptr).reads) := if_neg h

/-- A chunk is what comes next around the ring. -/
lemma payload_chunk {ptr : ℕ} (hptr : ptr < rb.bufsz) (len : ℕ) :
    (HttpCall.send (logCopy rb len ptr).data len).payload = rb.ring.around rb.bufsz ptr len := by
  have hdata := (logCopy_eq len hptr).1
  have hlen : (logCopy rb len ptr).data.length = len := by
    simp [hdata, Ring.State.around]
  have hpay := payload_send_full (logCopy rb len ptr).data
  rw [hlen] at hpay
  rw [hpay, hdata]

/-- Sending the `n` cells from `ptr` on, around the ring, and reading no cell outside of it. -/
structure SendsCells (rb : StdoutRtcBuf) (ptr n : ℕ) (out : List HttpCall) (reads : List ℕ) :
    Prop where
  body : bodySent out = rb.ring.around rb.bufsz ptr n
  sends : ∀ c ∈ out, ∃ d l, c = .send d l
  reads : ∀ i ∈ reads, i < rb.bufsz

lemma SendsCells.nil (ptr : ℕ) : SendsCells rb ptr 0 [] [] where
  body := rfl
  sends _ hc := absurd hc List.not_mem_nil
  reads _ hi := absurd hi List.not_mem_nil

/-- A chunk comes before the rest. -/
lemma SendsCells.cons {i n : ℕ} {out : List HttpCall} {reads : List ℕ}
    (hi : i % rb.bufsz < rb.bufsz) (len : ℕ) (h : SendsCells rb (i + len) n out reads) :
    SendsCells rb i (len + n) (.send (logCopy rb len (i % rb.bufsz)).data len :: out)
      ((logCopy rb len (i % rb.bufsz)).reads ++ reads) where
  body := by
    rw [bodySent_cons, payload_chunk hi, Ring.around_mod, h.body, Ring.around_add]
  sends := by
    intro c hc
    rcases List.mem_cons.mp hc with rfl | hc
    · exact ⟨_, _, rfl⟩
    · exact h.sends c hc
  reads := by
    intro j hj
    rcases List.mem_append.mp hj with hj | hj
    · exact (logCopy_eq len hi).2.2 j hj
    · exact h.reads j hj

variable {stdoutMagic : ℕ}

/-- **The rest of a download** sends the cells that are left, around the ring. -/
lemma logChunk_run (hN : 0 < rb.bufsz) (size first : ℕ) {pos : ℕ} (hle : pos ≤ size) {k : ℕ}
    {data : Option DownloadLogState} {head : List HttpCall} {before : List ℕ}
    (hcall : logCall stdoutMagic rb k data before
      = logChunk rb ⟨size, pos, (first + pos) % rb.bufsz⟩ head before) :
    ∃ out after, CgiRun (logCall stdoutMagic rb) k data before (head ++ out) after ∧
      ∃ reads, after = before ++ reads ∧ SendsCells rb (first + pos) (size - pos) out reads := by
  refine CgiRun.of_pieces
    (fun pos _ head before => logChunk rb ⟨size, pos, (first + pos) % rb.bufsz⟩ head before)
    (fun pos _ => pos ≤ size) (fun pos => size - pos)
    (fun pos out before after => ∃ reads, after = before ++ reads ∧
      SendsCells rb (first + pos) (size - pos) out reads) ?_ hle hcall
  intro pos k head before hle
  have hptr : (first + pos) % rb.bufsz < rb.bufsz := Nat.mod_lt _ hN
  have hlen : DownloadLogState.chunkLen ⟨size, pos, (first + pos) % rb.bufsz⟩
      = min (size - pos) downloadBufSize := rfl
  have hbuf : 0 < downloadBufSize := by decide
  by_cases hend :
      pos + DownloadLogState.chunkLen ⟨size, pos, (first + pos) % rb.bufsz⟩ = size
  · refine Or.inl ⟨_, _, _, _, logChunk_last hend head before, _, rfl, ?_⟩
    have hrest := SendsCells.cons hptr (size - pos) (SendsCells.nil (first + pos + (size - pos)))
    have hall : DownloadLogState.chunkLen ⟨size, pos, (first + pos) % rb.bufsz⟩ = size - pos := by
      omega
    simpa [hall] using hrest
  · refine Or.inr ⟨pos + DownloadLogState.chunkLen ⟨size, pos, (first + pos) % rb.bufsz⟩, _, _, _,
      by omega, by omega, logChunk_more hend head before, ?_, ?_⟩
    · generalize DownloadLogState.chunkLen ⟨size, pos, (first + pos) % rb.bufsz⟩ = len
      have hnext : (logCopy rb len ((first + pos) % rb.bufsz)).ptr
          = (first + (pos + len)) % rb.bufsz := by
        rw [(logCopy_eq len hptr).2.1, Nat.mod_add_mod, Nat.add_assoc]
      rw [← hnext]
      rfl
    · rintro out _ ⟨reads, rfl, hrest⟩
      generalize DownloadLogState.chunkLen ⟨size, pos, (first + pos) % rb.bufsz⟩ = len at *
      have hsplit : size - pos = len + (size - (pos + len)) := by omega
      rw [← Nat.add_assoc] at hrest
      exact ⟨_, List.append_assoc _ _ _, hsplit ▸ hrest.cons hptr len⟩

end Copy

/-- **A download of the log is the last bytes that were written, in their order.**  For a ring of
any capacity, whatever was in its cells before, and any history of bytes: the whole run ends, its
headers announce in `Content-Length` the number of bytes that the ring still holds, what is sent
after them is these bytes, and only the buffer is read. -/
theorem cgiDownloadLog_linear {N : ℕ} (hN : 0 < N) (stdoutMagic : ℕ) (buffer : ℕ → UInt8)
    (hist : Bytes) :
    ∃ sends reads, CgiRun (logCall stdoutMagic ⟨stdoutMagic, N, Ring.State.fill N buffer hist⟩) 0
        none [] ([.startResponse 200,
          .header (ascii "Content-Type") (ascii "application/octet-stream"),
          .header (ascii "Content-Disposition") (ascii "attachment; filename=\"log.txt\""),
          .header (ascii "Content-Length") (decimal (min hist.length N)), .endHeaders] ++ sends)
        reads ∧
      (∀ c ∈ sends, ∃ d l, c = .send d l) ∧
      bodySent sends = hist.drop (hist.length - N) ∧
      ∀ i ∈ reads, i < N := by
  have hholds := Ring.holds_fill hN buffer hist
  generalize Ring.State.fill N buffer hist = r at hholds
  have hstart : logStart ⟨stdoutMagic, N, r⟩ = ⟨r.size N, 0, r.first⟩ := by
    rw [logStart, Ring.State.size, Ring.State.first]
    split_ifs <;> rfl
  have hfirst := hholds.first_lt hN
  have hcall : logCall stdoutMagic ⟨stdoutMagic, N, r⟩ 0 none []
      = logChunk ⟨stdoutMagic, N, r⟩ ⟨r.size N, 0, (r.first + 0) % N⟩ (logHeaders (r.size N))
        [] := by
    rw [Nat.add_zero, Nat.mod_eq_of_lt hfirst]
    simp [logCall, cgiDownloadLog, hstart]
  obtain ⟨sends, reads, hrun, _, rfl, hrest⟩ := logChunk_run hN (r.size N) r.first
    (Nat.zero_le _) hcall
  rw [← hholds.size_eq, ← sprintfD_natCast]
  refine ⟨sends, reads, hrun, hrest.sends, ?_, hrest.reads⟩
  rw [hrest.body, Nat.add_zero, Nat.sub_zero]
  exact hholds.linear

/-- Five bytes in a ring of three. -/
theorem cgiDownloadLog_linear_three :
    ∃ sends reads,
      CgiRun (logCall 7 ⟨7, 3, Ring.State.fill 3 (fun _ => 0) [1, 2, 3, 4, 5]⟩) 0 none []
        ([.startResponse 200, .header (ascii "Content-Type") (ascii "application/octet-stream"),
          .header (ascii "Content-Disposition") (ascii "attachment; filename=\"log.txt\""),
          .header (ascii "Content-Length") (ascii "3"), .endHeaders] ++ sends) reads ∧
      bodySent sends = [3, 4, 5] := by
  obtain ⟨sends, reads, hrun, _, hbody, _⟩ :=
    cgiDownloadLog_linear (by decide : 0 < 3) 7 (fun _ => 0) [1, 2, 3, 4, 5]
  exact ⟨sends, reads, hrun, hbody⟩

end Chooser
