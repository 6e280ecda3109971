import Chooser.FlashDownload
import Chooser.LogDownload
import Chooser.RamAppfs
import Chooser.Upload
import Chooser.Lib.HeapRecord

/-!
# The session records

Four handlers keep a record on the heap between two calls: `cgiUploadFile`, `cgiDownloadFile`,
`cgiDownloadFlash` and `cgiDownloadLog`.  They are written after one pattern (`SessionCode.call`):
an aborted connection frees the record, the first call allocates it, and the call that finishes
frees it before it answers `HTTPD_CGI_DONE`.

The three downloads can also finish in the first call, with an error response, and this ending
frees nothing.  So their runs release the record if and only if they do not end there
(`session_releasedOnce`).
-/

namespace Chooser

open CStr

/-! ## The pattern -/

section Pattern

variable {δ ι : Type}

/-- What the code of a handler does to its record, with an answer to whether that ends the session.
`ι` is everything else that a call finds: the arguments, the data, the stack, the answers of the
file system. -/
structure SessionCode (δ ι : Type) where
  /-- The record as it is allocated. -/
  zero : δ
  /-- What the first call adds to it, and whether it answers with an error instead. -/
  first : ι → δ → δ × Bool
  /-- What every call does to it, and whether it is the last one. -/
  step : ι → δ → δ × Bool

/-- A call of a handler: is there a connection, does `calloc` find memory, and the rest. -/
structure SessionInput (ι : Type) where
  conn : Bool
  heap : Bool
  rest : ι

/-- What stays between two calls: the pointer `cgiData`, which may be NULL, the record, and whether
the handler has answered `HTTPD_CGI_DONE`. -/
structure CgiSession (δ : Type) where
  cgiData : Bool
  record : HeapRecord δ
  ended : Bool

def CgiSession.start : CgiSession δ := ⟨false, .unallocated, false⟩

namespace SessionCode

variable (C : SessionCode δ ι)

/-- The common end of all calls that find or make a record. -/
def next (i : ι) (record : HeapRecord δ) : Option (CgiSession δ) := do
  let r := C.step i (← record.read)
  let record ← record.write r.1
  if r.2 then
    let record ← record.free
    return ⟨true, record, true⟩
  else
    return ⟨true, record, false⟩

/-- A call of a handler. It is `none` if it faults. -/
def call (i : SessionInput ι) (s : CgiSession δ) : Option (CgiSession δ) := do
  if ¬ i.conn then
    if s.cgiData then
      let record ← s.record.free
      return ⟨s.cgiData, record, true⟩
    else
      return ⟨s.cgiData, s.record, true⟩
  else if ¬ s.cgiData then
    if ¬ i.heap then
      return ⟨false, s.record, true⟩
    else
      let record ← s.record.calloc C.zero
      let r := C.first i.rest (← record.read)
      let record ← record.write r.1
      if r.2 then
        return ⟨true, record, true⟩
      else
        C.next i.rest record
  else
    C.next i.rest s.record

/-- The calls of a session. The server makes none after `HTTPD_CGI_DONE`. -/
def run : CgiSession δ → List (SessionInput ι) → Option (CgiSession δ)
  | s, [] => some s
  | s, i :: is => if s.ended then some s else (C.call i s).bind fun s => run s is

/-- **The record is released exactly once**: no call touches it after that or releases it again, and
a session that has ended has not lost it. -/
def ReleasedOnce (is : List (SessionInput ι)) : Prop :=
  ∃ s, C.run .start is = some s ∧ (s.ended → s.record.Settled)

/-- The first call gets as far as an error response. -/
def RefusedFirst : List (SessionInput ι) → Prop
  | [] => False
  | i :: _ => i.conn = true ∧ i.heap = true ∧ (C.first i.rest C.zero).2 = true

variable {C}

/-! ### What a call does -/

lemma next_live (i : ι) (v : δ) :
    C.next i (.live v) = some (if (C.step i v).2 then ⟨true, .released, true⟩
      else ⟨true, .live (C.step i v).1, false⟩) := by
  cases h : (C.step i v).2 <;> simp [next, h]

/-- A call with an open record frees it if the connection was aborted. -/
lemma call_open (i : SessionInput ι) (v : δ) :
    C.call i ⟨true, .live v, false⟩ = if i.conn = false then some ⟨true, .released, true⟩
      else C.next i.rest (.live v) := by
  cases hconn : i.conn <;> simp [call, hconn]

/-- The first call makes a record, or ends without one, or ends with one that it has made. -/
lemma call_start (i : SessionInput ι) :
    C.call i .start = if i.conn = false ∨ i.heap = false then some ⟨false, .unallocated, true⟩
      else if (C.first i.rest C.zero).2 then
        some ⟨true, .live (C.first i.rest C.zero).1, true⟩
      else C.next i.rest (.live (C.first i.rest C.zero).1) := by
  cases hconn : i.conn <;> cases hheap : i.heap <;> simp [call, CgiSession.start, hconn, hheap]

/-! ### Runs -/

lemma run_ended {s : CgiSession δ} (h : s.ended = true) (is : List (SessionInput ι)) :
    run C s is = some s := by
  cases is <;> simp [run, h]

lemma run_going {s : CgiSession δ} (h : s.ended = false) (i : SessionInput ι)
    (is : List (SessionInput ι)) :
    run C s (i :: is) = (C.call i s).bind fun s => run C s is := by
  simp [run, h]

/-- **An open record is released at the end**, whatever the calls are. -/
lemma run_open (is : List (SessionInput ι)) (v : δ) :
    ∃ s, run C ⟨true, .live v, false⟩ is = some s ∧ (s.ended → s.record.Settled) := by
  induction is generalizing v with
  | nil => exact ⟨_, rfl, by simp⟩
  | cons i is ih =>
      rw [run_going rfl, call_open, next_live]
      split_ifs
      · exact ⟨_, run_ended rfl is, by simp⟩
      · exact ⟨_, run_ended rfl is, by simp⟩
      · exact ih _

/-- **A session releases its record unless its first call ends with an error response.** -/
theorem releasedOnce_iff (is : List (SessionInput ι)) :
    C.ReleasedOnce is ↔ ¬ C.RefusedFirst is := by
  cases is with
  | nil => simp [ReleasedOnce, RefusedFirst, run, CgiSession.start]
  | cons i is =>
      rw [ReleasedOnce, run_going rfl, call_start, RefusedFirst]
      split_ifs with hnone hrefused
      · -- the call has made no record
        refine iff_of_true ⟨_, run_ended rfl is, by simp⟩ ?_
        rintro ⟨hconn, hheap, _⟩
        simp [hconn, hheap] at hnone
      · -- it has made one, and nobody will free it
        rw [not_or, Bool.not_eq_false, Bool.not_eq_false] at hnone
        refine iff_of_false ?_ (not_not.mpr ⟨hnone.1, hnone.2, hrefused⟩)
        rintro ⟨s, hs, hsettled⟩
        rw [Option.bind_some, run_ended rfl] at hs
        obtain rfl := Option.some.inj hs
        exact hsettled rfl
      · refine iff_of_true ?_ fun h => hrefused h.2.2
        rw [next_live, Option.bind_some]
        split_ifs
        · exact ⟨_, run_ended rfl is, by simp⟩
        · exact run_open is _

end SessionCode

/-- The session at a call with this pointer. -/
def CgiSession.ofData (data : Option δ) : CgiSession δ :=
  ⟨data.isSome, data.elim .unallocated .live, false⟩

lemma ofData_none : (CgiSession.ofData none : CgiSession δ) = .start := rfl

lemma ofData_some (v : δ) : CgiSession.ofData (some v) = ⟨true, .live v, false⟩ := rfl

/-- The session behind a call with this outcome. -/
def CgiOutcome.session (o : CgiOutcome δ) : CgiSession δ :=
  ⟨o.cgiData.isSome, if o.freed then .released else o.cgiData.elim .unallocated .live,
    o.ret = .done⟩

section Outcomes

variable (v : δ) (out : List HttpCall)

@[simp] lemma session_none :
    (⟨.done, none, false, out⟩ : CgiOutcome δ).session = ⟨false, .unallocated, true⟩ := rfl

@[simp] lemma session_freed :
    (⟨.done, some v, true, out⟩ : CgiOutcome δ).session = ⟨true, .released, true⟩ := rfl

@[simp] lemma session_lost :
    (⟨.done, some v, false, out⟩ : CgiOutcome δ).session = ⟨true, .live v, true⟩ := rfl

@[simp] lemma session_more :
    (⟨.more, some v, false, out⟩ : CgiOutcome δ).session = ⟨true, .live v, false⟩ := rfl

end Outcomes

end Pattern

/-! ## The handlers -/

open SessionCode

/-- What a call of `cgiUploadFile` finds. -/
structure UploadInput (ω : Type) where
  getArgs : Args
  post : HttpdPostData
  world : ω

/-- The record of `cgiUploadFile`. There is no error response in the first call. -/
def uploadCode {ω : Type} (exec : Exec ω) : SessionCode UploadState (UploadInput ω) where
  zero := { UploadState.initial with err := [] }
  first _ st := ({ st with state := .start, err := ascii "Premature end" }, false)
  step i st := ((uploadFeed exec i.getArgs i.post.len (st, i.world) i.post.buff).1,
    i.post.len = i.post.received)

/-- What a call of `cgiDownloadFile` finds. -/
structure DownloadInput (σ : Type) where
  stack : DownloadStack
  getArgs : Args
  world : σ

/-- The record of `cgiDownloadFile`. -/
def downloadCode {σ : Type} (A : Appfs σ) : SessionCode DownloadState (DownloadInput σ) where
  zero := ⟨0, 0, 0⟩
  first i st :=
    match downloadLookup A i.getArgs i.stack.sidx i.world with
    | none => (st, true)
    | some (idx, _, size) => ({ st with fd := idx, size := size }, false)
  step _ st := ({ st with pos := st.pos + st.chunkLen }, st.pos + st.chunkLen = st.size)

/-- What a call of `cgiDownloadFlash` finds. -/
structure FlashInput where
  stack : FlashStack
  getArgs : Args

/-- The record of `cgiDownloadFlash`. -/
def flashCode : SessionCode DownloadFlashState FlashInput where
  zero := ⟨0, 0⟩
  first i _ :=
    let st := flashArgs i.getArgs i.stack.abuf
    (st, st.size = 0)
  step _ st := ({ st with pos := st.nextPos }, st.nextPos = st.size)

/-- The record of `cgiDownloadLog`, which finds the ring. -/
def logCode (stdoutMagic : ℕ) : SessionCode DownloadLogState StdoutRtcBuf where
  zero := ⟨0, 0, 0⟩
  first rb st := if rb.magic ≠ stdoutMagic then (st, true) else (logStart rb, false)
  step rb st :=
    ({ st with pos := st.pos + st.chunkLen, ptr := (logCopy rb st.chunkLen st.ptr).ptr },
      st.pos + st.chunkLen = st.size)

/-! ### The handlers do that to their records -/

theorem cgiUploadFile_session {ω : Type} (exec : Exec ω) (i : SessionInput (UploadInput ω))
    (data : Option UploadState) :
    (uploadCode exec).call i (.ofData data) = some (cgiUploadFile exec
      ⟨i.conn, i.heap, data, i.rest.getArgs, i.rest.post⟩ i.rest.world).1.session := by
  have hnext : ∀ st, (uploadCode exec).next i.rest (.live st) = some (if i.rest.post.len
      = i.rest.post.received then ⟨true, .released, true⟩ else ⟨true, .live (uploadFeed exec
        i.rest.getArgs i.rest.post.len (st, i.rest.world) i.rest.post.buff).1, false⟩) := by
    intro st
    simp [next_live, uploadCode]
  cases data with
  | none =>
      have hfirst : ((uploadCode exec).first i.rest (uploadCode exec).zero) = (.initial, false) :=
        rfl
      rw [ofData_none, call_start, hfirst, hnext, cgiUploadFile]
      cases i.conn
      · simp
      cases i.heap
      · simp
      by_cases hall : i.rest.post.len = i.rest.post.received <;> simp [hall]
  | some st =>
      rw [ofData_some, call_open, hnext, cgiUploadFile]
      cases i.conn
      · simp
      by_cases hall : i.rest.post.len = i.rest.post.received <;> simp [hall]

lemma downloadChunk_session {σ : Type} (A : Appfs σ) (i : DownloadInput σ) (st : DownloadState)
    (data : Bytes) (out : List HttpCall) (s : σ) :
    (downloadCode A).next i (.live st) = some (downloadChunk A st data out s).session := by
  rw [next_live, downloadChunk]
  by_cases hend : st.pos + st.chunkLen = st.size <;> simp [downloadCode, hend]

theorem cgiDownloadFile_session {σ : Type} (A : Appfs σ) (i : SessionInput (DownloadInput σ))
    (data : Option DownloadState) (post : HttpdPostData) :
    (downloadCode A).call i (.ofData data) = some (cgiDownloadFile A i.rest.stack
      ⟨i.conn, i.heap, data, i.rest.getArgs, post⟩ i.rest.world).session := by
  cases data with
  | none =>
      rw [ofData_none, call_start, cgiDownloadFile]
      cases i.conn
      · simp
      cases i.heap
      · simp
      cases hlookup : downloadLookup A i.rest.getArgs i.rest.stack.sidx i.rest.world with
      | none => simp [downloadCode, hlookup]
      | some found =>
          have hfirst : (downloadCode A).first i.rest (downloadCode A).zero
              = (⟨found.1, found.2.2, 0⟩, false) := by simp [downloadCode, hlookup]
          rw [hfirst, downloadChunk_session A i.rest _ i.rest.stack.data
            (downloadHeaders found.2.1 found.2.2) i.rest.world]
          simp
  | some st =>
      rw [ofData_some, call_open, cgiDownloadFile,
        downloadChunk_session A i.rest st i.rest.stack.data [] i.rest.world]
      cases i.conn <;> simp

lemma flashChunk_session (spiFlashRead : SpiFlashRead) (i : FlashInput) (st : DownloadFlashState)
    (data : Bytes) (out : List HttpCall) (reads : List (ℤ × ℤ)) :
    flashCode.next i (.live st) = some (flashChunk spiFlashRead st data out reads).1.session := by
  rw [next_live, flashChunk]
  by_cases hend : st.nextPos = st.size <;> simp [flashCode, hend]

theorem cgiDownloadFlash_session (spiFlashRead : SpiFlashRead) (i : SessionInput FlashInput)
    (data : Option DownloadFlashState) (post : HttpdPostData) (reads : List (ℤ × ℤ)) :
    flashCode.call i (.ofData data) = some (cgiDownloadFlash spiFlashRead i.rest.stack
      ⟨i.conn, i.heap, data, i.rest.getArgs, post⟩ reads).1.session := by
  cases data with
  | none =>
      have hfirst : flashCode.first i.rest flashCode.zero
          = (flashArgs i.rest.getArgs i.rest.stack.abuf,
            decide ((flashArgs i.rest.getArgs i.rest.stack.abuf).size = 0)) := rfl
      rw [ofData_none, call_start, cgiDownloadFlash, hfirst,
        flashChunk_session spiFlashRead i.rest _ i.rest.stack.data
          (flashHeaders i.rest.getArgs (flashArgs i.rest.getArgs i.rest.stack.abuf)) reads]
      cases i.conn
      · simp
      cases i.heap
      · simp
      by_cases hsize : (flashArgs i.rest.getArgs i.rest.stack.abuf).size = 0 <;> simp [hsize]
  | some st =>
      rw [ofData_some, call_open, cgiDownloadFlash,
        flashChunk_session spiFlashRead i.rest st i.rest.stack.data [] reads]
      cases i.conn <;> simp

lemma logChunk_session (stdoutMagic : ℕ) (rb : StdoutRtcBuf) (st : DownloadLogState)
    (out : List HttpCall) (reads : List ℕ) :
    (logCode stdoutMagic).next rb (.live st) = some (logChunk rb st out reads).1.session := by
  rw [next_live, logChunk]
  by_cases hend : st.pos + st.chunkLen = st.size <;> simp [logCode, hend]

theorem cgiDownloadLog_session (stdoutMagic : ℕ) (i : SessionInput StdoutRtcBuf)
    (data : Option DownloadLogState) (args : Args) (post : HttpdPostData) (reads : List ℕ) :
    (logCode stdoutMagic).call i (.ofData data) = some (cgiDownloadLog stdoutMagic i.rest
      ⟨i.conn, i.heap, data, args, post⟩ reads).1.session := by
  cases data with
  | none =>
      rw [ofData_none, call_start, cgiDownloadLog]
      cases i.conn
      · simp
      cases i.heap
      · simp
      by_cases hmagic : i.rest.magic = stdoutMagic
      · have hfirst : (logCode stdoutMagic).first i.rest (logCode stdoutMagic).zero
            = (logStart i.rest, false) := by simp [logCode, hmagic]
        rw [hfirst, logChunk_session stdoutMagic i.rest _ (logHeaders (logStart i.rest).size) reads]
        simp [hmagic]
      · simp [logCode, hmagic]
  | some st =>
      rw [ofData_some, call_open, cgiDownloadLog,
        logChunk_session stdoutMagic i.rest st [] reads]
      cases i.conn <;> simp

/-! ## Which sessions lose their record -/

/-- The first call has a connection and memory, and comes with such an input. -/
def FirstCall {ι : Type} (bad : ι → Prop) : List (SessionInput ι) → Prop
  | [] => False
  | i :: _ => i.conn = true ∧ i.heap = true ∧ bad i.rest

/-- The request has no `idx`, or one that names no file. -/
def InvalidIdx {σ : Type} (A : Appfs σ) (i : DownloadInput σ) : Prop :=
  ∀ v, i.getArgs "idx" = some v → v = [] ∨ A.fdValid (atoi (v.take 16)) i.world = false

/-- The request has no `size`, or one that is 0. -/
def InvalidSize (i : FlashInput) : Prop :=
  ∀ v, i.getArgs "size" = some v → v = [] ∨ strtol 0 (cString (v.take 15)) = 0

lemma download_refused_iff {σ : Type} (A : Appfs σ) (i : DownloadInput σ) (st : DownloadState) :
    ((downloadCode A).first i st).2 = true ↔ InvalidIdx A i := by
  have hlookup : ((downloadCode A).first i st).2 = true ↔
      downloadLookup A i.getArgs i.stack.sidx i.world = none := by
    cases h : downloadLookup A i.getArgs i.stack.sidx i.world <;> simp [downloadCode, h]
  rw [hlookup, InvalidIdx, downloadLookup, httpdFindArg]
  cases i.getArgs "idx" with
  | none => simp
  | some v =>
      simp only [Option.some.injEq, forall_eq']
      simp [List.length_pos_iff, imp_iff_not_or]

lemma flash_refused_iff (i : FlashInput) (st : DownloadFlashState) :
    (flashCode.first i st).2 = true ↔ InvalidSize i := by
  have hsize : (flashCode.first i st).2 = true ↔ (flashArgs i.getArgs i.stack.abuf).size = 0 := by
    simp [flashCode]
  have hoff : (flashArgs i.getArgs i.stack.abuf).size
      = if (httpdFindArg i.getArgs "size" i.stack.abuf 15).1 > 0 then
        strtol 0 (cString (httpdFindArg i.getArgs "size" i.stack.abuf 15).2) else 0 := by
    simp only [flashArgs]
    split_ifs <;> rfl
  rw [hsize, hoff, InvalidSize, httpdFindArg]
  cases i.getArgs "size" with
  | none => simp
  | some v =>
      simp only [Option.some.injEq, forall_eq']
      simp [List.length_pos_iff, imp_iff_not_or]

lemma refusedFirst_iff {δ ι : Type} {C : SessionCode δ ι} {bad : ι → Prop}
    (h : ∀ i st, (C.first i st).2 = true ↔ bad i) (is : List (SessionInput ι)) :
    C.RefusedFirst is ↔ FirstCall bad is := by
  cases is with
  | nil => exact Iff.rfl
  | cons i is => simp [RefusedFirst, FirstCall, h]

/-- **Which sessions release their record exactly once**, over all sequences of calls: those of an
upload, and those of a download whose first call is not answered with an error. -/
theorem session_releasedOnce {ω σ : Type} (exec : Exec ω) (A : Appfs σ) (stdoutMagic : ℕ) :
    (∀ is, (uploadCode exec).ReleasedOnce is) ∧
      (∀ is, (downloadCode A).ReleasedOnce is ↔ ¬ FirstCall (InvalidIdx A) is) ∧
      (∀ is, flashCode.ReleasedOnce is ↔ ¬ FirstCall InvalidSize is) ∧
      ∀ is, (logCode stdoutMagic).ReleasedOnce is ↔
        ¬ FirstCall (fun rb => rb.magic ≠ stdoutMagic) is := by
  refine ⟨fun is => ?_, fun is => ?_, fun is => ?_, fun is => ?_⟩
  · rw [releasedOnce_iff]
    cases is with
    | nil => exact id
    | cons i is => simp [RefusedFirst, uploadCode]
  · rw [releasedOnce_iff, refusedFirst_iff fun i st => download_refused_iff A i st]
  · rw [releasedOnce_iff, refusedFirst_iff flash_refused_iff]
  · rw [releasedOnce_iff, refusedFirst_iff]
    intro rb st
    by_cases hmagic : rb.magic = stdoutMagic <;> simp [logCode, hmagic]

/-- A download without an index, on an empty device, loses its record. -/
theorem download_loses_record :
    ¬ (downloadCode RamAppfs.device).ReleasedOnce
      [⟨true, true, ⟨[], []⟩, fun _ => none, RamAppfs.empty⟩] := by
  have hrun : (downloadCode RamAppfs.device).run .start
      [⟨true, true, ⟨[], []⟩, fun _ => none, RamAppfs.empty⟩]
      = some ⟨true, .live ⟨0, 0, 0⟩, true⟩ := rfl
  rintro ⟨s, hs, hsettled⟩
  obtain rfl := Option.some.inj (hrun.symm.trans hs)
  exact hsettled rfl

end Chooser
