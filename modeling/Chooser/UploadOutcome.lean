import Chooser.UploadFaults
import Chooser.UploadDiscipline

/-!
# What an upload answers

An upload that has received its whole body answers once.  The status is made from one test of the
state (`FLST_ERROR`), the body from another (`FLST_DONE`), and the page in the browser goes by the
body.  With a body to receive these agree, as the loop ends in one of the two states, and
`FLST_DONE` means that the rename went well.  Without one the loop never runs, and the answer is a
200 with an error text (`uploadOutcome_agrees`).

The answer and the calls depend on the body, and not on how it was cut into post buffers
(`cgiUploadFile_fragmentation`).

The name is looked at once, at the start: without one the state becomes `FLST_ERROR`, but the create
below sets it again (`nameless_not_refused`).
-/

namespace Chooser

open CStr

variable {orc : ℕ → AppfsAnswer} {args : Args}

/-! ## The names of the calls -/

/-- What holds of the calls at every head of the loop: the first creates the temporary file, and a
rename gives it the name of the request. -/
structure NamedCalls (args : Args) (len : ℕ) (st : UploadState) (calls : List AppfsCall) : Prop where
  fresh : st.state = .start → st.name = [] ∧ calls = []
  name : st.state ≠ .start → cString st.name = uploadName args
  first : st.state ≠ .start → calls.head? = some (.createFile uploadTempName len)
  renames : ∀ c ∈ calls, c.IsRename → c = .rename uploadTempName (uploadName args)

lemma NamedCalls.start {len : ℕ} {st : UploadState} {calls : List AppfsCall}
    (h : NamedCalls args len st calls) (hs : st.state = .start) :
    NamedCalls args len (uploadStart (oracleExec orc) args len st calls).1
      (uploadStart (oracleExec orc) args len st calls).2 := by
  obtain ⟨hname, rfl⟩ := h.fresh hs
  have hrenames : ∀ c ∈ ([.createFile uploadTempName len] : List AppfsCall), c.IsRename →
      c = .rename uploadTempName (uploadName args) := by
    rintro c hc ⟨old, new, rfl⟩
    simp at hc
  rcases uploadStart_cases (oracleExec orc) args len st [] with ⟨_, heq⟩ | ⟨_, err, heq⟩
  · rw [heq]
    exact ⟨fun hs => by simp at hs, fun _ => by rw [hname]; rfl, fun _ => rfl, hrenames⟩
  · rw [heq]
    exact ⟨fun hs => by simp at hs, fun _ => by rw [hname]; rfl, fun _ => rfl, hrenames⟩

lemma NamedCalls.flush {len : ℕ} {st : UploadState} {calls : List AppfsCall}
    (h : NamedCalls args len st calls) (hs : st.state = .write) (data : Bytes) :
    NamedCalls args len (uploadFlush (oracleExec orc) (st.copy data) calls).1
      (uploadFlush (oracleExec orc) (st.copy data) calls).2 := by
  have hne : st.state ≠ .start := by simp [hs]
  obtain ⟨err, state, hrec, hdone, hmore⟩ :=
    uploadFlush_record (oracleExec orc) (st.copy data) calls
  have hstate : state ≠ .start := by
    by_cases hzero : (st.copy data).len = 0
    · rcases hdone hzero with rfl | rfl <;> simp
    · rcases hmore hzero with rfl | rfl
      · exact hne
      · simp
  rw [hrec, uploadFlush_calls]
  refine ⟨fun hs' => absurd hs' hstate, fun _ => h.name hne, ?_, ?_⟩
  · intro _
    simp only [List.append_assoc, List.head?_append, h.first hne, Option.some_or]
  · intro c hc hren
    simp only [List.mem_append, List.mem_ite_nil_right, List.mem_singleton] at hc
    obtain ((hc | ⟨_, rfl⟩) | rfl) | ⟨_, rfl⟩ := hc
    · exact h.renames c hc hren
    · obtain ⟨old, new, heq⟩ := hren
      simp at heq
    · obtain ⟨old, new, heq⟩ := hren
      simp at heq
    · rw [copy_name, h.name hne]

/-- **The whole session.** -/
theorem LoopHead.named {len : ℕ} {st : UploadState} {data : Bytes} {calls : List AppfsCall}
    (h : LoopHead orc args len st data calls) : NamedCalls args len st calls := by
  induction h with
  | first chunk =>
      exact ⟨fun _ => ⟨rfl, rfl⟩, fun hs => absurd rfl hs, fun hs => absurd rfl hs,
        fun c hc => by simp at hc⟩
  | nextCall h chunk ih => exact ih
  | iteration h hdata ih =>
      rename_i st data calls
      cases hs : st.state with
      | start =>
          rw [uploadIter_start hs]
          exact ih.start hs
      | write =>
          by_cases hlt : data.length < st.lenLeft
          · rw [uploadIter_copy hs hlt]
            exact ⟨fun hs' => by simp [hs] at hs', ih.name, ih.first, ih.renames⟩
          · rw [uploadIter_flush hs (by omega)]
            exact ih.flush hs _
      | done =>
          rw [uploadIter_stopped (Or.inl hs)]
          exact ih
      | error =>
          rw [uploadIter_stopped (Or.inr hs)]
          exact ih

/-! ## A session that has ended -/

variable (orc args) in
/-- **The end of a session with a body**: the record it leaves and the calls it has made. -/
lemma uploadRun_ended {chunks : List Bytes} (hbody : chunks.flatten ≠ []) :
    ∃ st calls, uploadRun (oracleExec orc) args chunks.flatten.length chunks [] =
        (⟨args, chunks.flatten.length, chunks.flatten, some st, uploadResponse st, true⟩, calls) ∧
      CallTrace orc chunks.flatten.length chunks.flatten st calls ∧
      NamedCalls args chunks.flatten.length st calls ∧ (st.state = .done ∨ st.state = .error) := by
  have hlen : 0 < chunks.flatten.length := List.length_pos_of_ne_nil hbody
  have hrun := uploadRun_done (oracleExec orc) args hlen rfl []
  have htrace := uploadBody_trace orc args hlen hbody
  have hhead := uploadRun_loopHead orc args hlen chunks
  rw [hrun] at hhead
  refine ⟨_, _, hrun, htrace, hhead.named, ?_⟩
  exact htrace.stopped rfl

variable (args) in
/-- The calls of such a session begin with the create, and go no further if it fails. -/
lemma only_create {len : ℕ} (h : (orc 0).err ≠ espOk) {body : Bytes} (hlen : 0 < len)
    (hbody : body ≠ []) :
    (uploadBody (oracleExec orc) args len [] body).2 = [.createFile uploadTempName len] := by
  rw [uploadBody, uploadFeed_start hlen UploadState.initial_ok rfl hbody]
  have hok : (uploadStart (oracleExec orc) args len .initial []).1.Ok :=
    (uploadStart_ok (oracleExec orc) hlen UploadState.initial_ok rfl []).1
  rcases uploadStart_cases (oracleExec orc) args len .initial [] with ⟨_, heq⟩ | ⟨hcreated, _⟩
  · rw [heq] at hok ⊢
    rw [uploadFeed_stopped hlen hok (Or.inr rfl)]
    rfl
  · exact absurd hcreated h

/-! ## The signals about the outcome -/

/-- The status code of a response. -/
def responseStatus (out : List HttpCall) : Option ℕ :=
  out.findSome? fun
    | .startResponse code => some code
    | _ => none

/-- The temporary file was renamed to the requested name. -/
def Renamed (orc : ℕ → AppfsAnswer) (args : Args) (calls : List AppfsCall) : Prop :=
  ∃ k : ℕ, calls[k]? = some (.rename uploadTempName (uploadName args)) ∧ (orc k).err = espOk

/-- **All signals about the outcome agree**: a session that has ended is not left in `FLST_WRITE`;
status 200, an empty body and a successful rename are the same thing; otherwise the answer is a 400
with the text of the error. -/
structure OutcomeAgrees (orc : ℕ → AppfsAnswer) (args : Args)
    (p : UploadConn × List AppfsCall) : Prop where
  ended : ∃ st, p.1.cgiData = some st ∧ st.state ≠ .write
  status_iff : responseStatus p.1.sent = some 200 ↔ bodySent p.1.sent = []
  renamed_iff : bodySent p.1.sent = [] ↔ Renamed orc args p.2
  error : bodySent p.1.sent ≠ [] → responseStatus p.1.sent = some 400 ∧
    ∃ st, p.1.cgiData = some st ∧
      bodySent p.1.sent = ascii "Upload error:" ++ cString st.err ++ ascii "\n"

@[simp] lemma responseStatus_ok : responseStatus uploadOkResponse = some 200 := rfl

@[simp] lemma responseStatus_error (text : Bytes) :
    responseStatus (uploadErrorResponse text) = some 400 := rfl

@[simp] lemma bodySent_ok : bodySent uploadOkResponse = [] := rfl

lemma bodySent_error (text : Bytes) : bodySent (uploadErrorResponse text)
    = ascii "Upload error:" ++ cString text ++ ascii "\n" := by
  have h1 : cString (ascii "Upload error:") = ascii "Upload error:" := by decide
  have h2 : cString (ascii "\n") = ascii "\n" := by decide
  simp [uploadErrorResponse, h1, h2]

lemma bodySent_error_ne (text : Bytes) : bodySent (uploadErrorResponse text) ≠ [] := by
  rw [bodySent_error]
  intro h
  have hlen := congrArg List.length h
  simp [ascii] at hlen

lemma uploadResponse_error {st : UploadState} (h : st.state = .error) :
    uploadResponse st = uploadErrorResponse st.err := by
  simp [uploadResponse, uploadErrorResponse, h]

/-- With a body, they agree. -/
lemma outcomeAgrees_of_body {chunks : List Bytes} (hbody : chunks.flatten ≠ []) :
    OutcomeAgrees orc args
      (uploadRun (oracleExec orc) args chunks.flatten.length chunks []) := by
  obtain ⟨st, calls, hrun, htrace, hnamed, hstopped⟩ := uploadRun_ended orc args hbody
  rw [hrun]
  rcases hstopped with hdone | herror
  · obtain ⟨_, _, _, hrename, old, new, hcall⟩ := htrace.done hdone
    have hnames := hnamed.renames _ (List.mem_of_getElem? hcall) ⟨old, new, rfl⟩
    have hrenamed : Renamed orc args calls := ⟨_, by rw [hcall, hnames], hrename⟩
    have hsent : uploadResponse st = uploadOkResponse := uploadResponse_done hdone
    refine ⟨⟨st, rfl, by simp [hdone]⟩, ?_, ?_, ?_⟩
    · simp [hsent]
    · simp [hsent, hrenamed]
    · intro hne
      exact absurd (by simp [hsent]) hne
  · have hnot : ¬ Renamed orc args calls := by
      rintro ⟨k, hk, hok⟩
      exact (htrace.error herror).1.no_rename k _ hk ⟨_, _, rfl⟩ hok
    have hsent : uploadResponse st = uploadErrorResponse st.err := uploadResponse_error herror
    have hne := bodySent_error_ne st.err
    refine ⟨⟨st, rfl, by simp [herror]⟩, ?_, ?_, ?_⟩
    · simp [hsent, hne]
    · simp [hsent, hne, hnot]
    · intro _
      exact ⟨by simp [hsent], st, rfl, by simp only [hsent, bodySent_error]⟩

/-- Without a body the loop never runs, and the record is answered for as it was initialised. -/
lemma uploadRun_no_body {chunks : List Bytes} (hne : chunks ≠ []) (hbody : chunks.flatten = []) :
    uploadRun (oracleExec orc) args 0 chunks []
      = (⟨args, 0, [], some .initial, uploadResponse .initial, true⟩, []) := by
  cases chunks with
  | nil => exact absurd rfl hne
  | cons c chunks =>
      obtain rfl : c = [] := by simpa using (List.append_eq_nil_iff.mp hbody).1
      rw [uploadRun, List.foldl_cons, post_last rfl [] rfl, uploadFeed_nil]
      exact foldl_post_closed rfl _ _

/-- A 200 that carries an error text. -/
lemma not_outcomeAgrees_of_no_body {chunks : List Bytes} (hne : chunks ≠ [])
    (hbody : chunks.flatten = []) :
    ¬ OutcomeAgrees orc args (uploadRun (oracleExec orc) args 0 chunks []) := by
  intro h
  have hiff := h.status_iff
  rw [uploadRun_no_body hne hbody] at hiff
  have hstatus : responseStatus (uploadResponse .initial) = some 200 := rfl
  have hbody : bodySent (uploadResponse .initial) ≠ [] := by decide
  exact hbody (hiff.mp hstatus)

/-- **The signals agree if and only if there is a body.**  For every request, every way its body is
cut, and whatever the calls answer: a session that has received its `Content-Length` is answered for
consistently exactly if that length is not zero. -/
theorem uploadOutcome_agrees (orc : ℕ → AppfsAnswer) (args : Args) {len : ℕ} {chunks : List Bytes}
    (hne : chunks ≠ []) (hlen : chunks.flatten.length = len) :
    OutcomeAgrees orc args (uploadRun (oracleExec orc) args len chunks []) ↔ 0 < len := by
  subst hlen
  by_cases hbody : chunks.flatten = []
  · rw [hbody]
    exact iff_of_false (not_outcomeAgrees_of_no_body hne hbody) (by simp)
  · exact iff_of_true (outcomeAgrees_of_body hbody) (List.length_pos_of_ne_nil hbody)

/-- Three bytes in two buffers, and the create fails. -/
theorem uploadOutcome_agrees_three :
    OutcomeAgrees (fun _ => ⟨-1, 0⟩) (fun _ => some (ascii "a.app"))
      (uploadRun (oracleExec fun _ => ⟨-1, 0⟩) (fun _ => some (ascii "a.app")) 3 [[1], [2, 3]] []) :=
  (uploadOutcome_agrees (fun _ => ⟨-1, 0⟩) (fun _ => some (ascii "a.app"))
    (by decide : ([[1], [2, 3]] : List Bytes) ≠ []) rfl).mpr (by decide)

/-- A request without a body. -/
theorem uploadOutcome_not_agrees :
    ¬ ∀ (orc : ℕ → AppfsAnswer) (args : Args) (len : ℕ) (chunks : List Bytes), chunks ≠ [] →
      chunks.flatten.length = len →
      OutcomeAgrees orc args (uploadRun (oracleExec orc) args len chunks []) := by
  intro h
  exact not_outcomeAgrees_of_no_body (by decide) rfl
    (h (fun _ => ⟨espOk, 3⟩) (fun _ => some (ascii "a.app")) 0 [[]] (by decide) rfl)

/-! ## Independence of the fragmentation -/

/-- **What an upload does depends on the body, not on how it was cut.**  For every oracle, two
sessions over the same body make the same calls with the same arguments and data and send the
same response, the one of the session that gets the body in one buffer: a 200 without a text, or a
400 with the text of the error.  No call before the one that brings the last byte answers anything,
and that one answers once and for all. -/
theorem cgiUploadFile_fragmentation (orc : ℕ → AppfsAnswer) (args : Args) {body : Bytes}
    (hbody : body ≠ []) {chunks chunks' : List Bytes} (h : chunks.flatten = body)
    (h' : chunks'.flatten = body) :
    let run := fun bufs => uploadRun (oracleExec orc) args body.length bufs []
    (run chunks).2 = (run chunks').2 ∧ (run chunks).1.sent = (run chunks').1.sent ∧
    (run chunks).2 = (run [body]).2 ∧ (run chunks).1.sent = (run [body]).1.sent ∧
    ((run chunks).1.sent =
        [.startResponse 200, .header (ascii "Content-Type") (ascii "text/plain"), .endHeaders] ∨
      ∃ text, (run chunks).1.sent =
        [.startResponse 400, .header (ascii "Content-Type") (ascii "text/plain"), .endHeaders,
          .send (ascii "Upload error:") (-1), .send text (-1), .send (ascii "\n") (-1)]) ∧
    ∀ pre, pre <+: chunks →
      (pre.flatten.length < body.length →
        (run pre).1.sent = [] ∧ (run pre).1.closed = false) ∧
      (pre.flatten.length = body.length →
        (run pre).1.sent = (run chunks).1.sent ∧ (run pre).1.closed = true) := by
  intro run
  have hpos : 0 < body.length := List.length_pos_of_ne_nil hbody
  -- whatever the buffers, a complete session is the loop on the whole body
  have hrun : ∀ {bufs : List Bytes}, bufs.flatten = body →
      run bufs = (⟨args, body.length, body,
        some (uploadBody (oracleExec orc) args body.length [] body).1,
        uploadResponse (uploadBody (oracleExec orc) args body.length [] body).1, true⟩,
        (uploadBody (oracleExec orc) args body.length [] body).2) := by
    intro bufs hbufs
    have hdone := uploadRun_done (oracleExec orc) args hpos (by rw [hbufs]) []
    rw [hbufs] at hdone
    exact hdone
  have hone : [body].flatten = body := by simp
  refine ⟨by rw [hrun h, hrun h'], by rw [hrun h, hrun h'], by rw [hrun h, hrun hone],
    by rw [hrun h, hrun hone], ?_, fun pre hpre => ⟨fun hlt => ?_, fun heq => ?_⟩⟩
  · rw [hrun h]
    rcases (uploadBody_trace orc args hpos hbody).stopped rfl with hdone | herror
    · exact Or.inl (uploadResponse_done hdone)
    · exact Or.inr ⟨_, uploadResponse_error herror⟩
  · have hopen := uploadRun_open (oracleExec orc) args hlt []
    exact ⟨hopen.sent, hopen.closed⟩
  · have hflat : pre.flatten = body := by
      obtain ⟨rest, rfl⟩ := hpre
      have hrest : rest.flatten = [] := by
        apply List.eq_nil_of_length_eq_zero
        have hlen := congrArg List.length h
        simp only [List.flatten_append, List.length_append] at hlen
        omega
      rw [← h, List.flatten_append, hrest, List.append_nil]
    rw [hrun hflat, hrun h]
    exact ⟨rfl, rfl⟩

/-- Three bytes, cut in two ways. -/
theorem cgiUploadFile_fragmentation_three :
    (uploadRun (oracleExec fun _ => ⟨espOk, 7⟩) (fun _ => some (ascii "a.app")) 3
        [[1], [], [2, 3]] []).2
      = (uploadRun (oracleExec fun _ => ⟨espOk, 7⟩) (fun _ => some (ascii "a.app")) 3
        [[1, 2], [3]] []).2 :=
  (cgiUploadFile_fragmentation (fun _ => ⟨espOk, 7⟩) (fun _ => some (ascii "a.app"))
    (show ([1, 2, 3] : Bytes) ≠ [] by decide) rfl rfl).1

/-! ## Uploads without a name -/

/-- The request has no name, or an empty one. -/
def Nameless (args : Args) : Prop := (httpdFindArg args "name" [] 512).1 ≤ 0

/-- A call that creates, writes or renames a file. -/
def AppfsCall.MakesFile : AppfsCall → Prop
  | .createFile _ _ => True
  | .write _ _ _ => True
  | .rename _ _ => True
  | _ => False

/-- No file has been created, written or renamed. -/
def NothingMade (orc : ℕ → AppfsAnswer) (calls : List AppfsCall) : Prop :=
  ∀ k c, calls[k]? = some c → (orc k).err = espOk → ¬ c.MakesFile

/-- **The upload is refused for want of a name**: no file is made, the body is consumed, and the
answer is a 400 that says so. -/
structure RefusedNameless (orc : ℕ → AppfsAnswer) (p : UploadConn × List AppfsCall) : Prop where
  nothing : NothingMade orc p.2
  consumed : p.1.received.length = p.1.len
  response : p.1.sent = uploadErrorResponse (ascii "No name")

lemma errorText_ne_noName (c : AppfsCall) : c.errorText ≠ ascii "No name" := by
  cases c <;>
    · rw [AppfsCall.errorText]
      decide

variable (orc args) in
/-- That a name is missing is never said: the text is lost when the create is answered. -/
lemma noName_not_sent (chunks : List Bytes) (hbody : chunks.flatten ≠ []) :
    (uploadRun (oracleExec orc) args chunks.flatten.length chunks []).1.sent
      ≠ uploadErrorResponse (ascii "No name") := by
  obtain ⟨st, calls, hrun, htrace, _, hstopped⟩ := uploadRun_ended orc args hbody
  rw [hrun]
  rcases hstopped with hdone | herror
  · have hsent : uploadResponse st = uploadOkResponse := uploadResponse_done hdone
    simp [hsent, uploadOkResponse, uploadErrorResponse]
  · obtain ⟨_, c, _, _, htext⟩ := (htrace.error herror).1.failed
    have hsent : uploadResponse st = uploadErrorResponse st.err := uploadResponse_error herror
    have hne := errorText_ne_noName c
    rw [← htext] at hne
    simpa [hsent, uploadErrorResponse] using hne

/-- Without a name the file is renamed to the empty one. -/
lemma uploadName_of_nameless (h : Nameless args) : uploadName args = [] := by
  rw [Nameless, httpdFindArg] at h
  rw [uploadName, httpdFindArg]
  cases hv : args "name" with
  | none => rfl
  | some v =>
      rw [hv] at h
      have hempty : v.take 512 = [] := List.eq_nil_of_length_eq_zero (by simpa using h)
      simp only [hempty]
      rfl

/-- **An upload without a name is never refused for it.**  Whatever the body, the buffers and the
answers of the file system: the answer never says that the name is missing, the temporary file is
made whenever there is room for it, and where it is renamed it gets the empty name. -/
theorem nameless_not_refused (orc : ℕ → AppfsAnswer) (args : Args) {body : Bytes}
    (hname : Nameless args) (hbody : body ≠ []) {chunks : List Bytes} (h : chunks.flatten = body) :
    ¬ RefusedNameless orc (uploadRun (oracleExec orc) args body.length chunks []) ∧
    (NothingMade orc (uploadRun (oracleExec orc) args body.length chunks []).2 ↔
      (orc 0).err ≠ espOk) ∧
    ∀ c ∈ (uploadRun (oracleExec orc) args body.length chunks []).2, c.IsRename →
      c = .rename uploadTempName [] := by
  subst h
  have hlen : 0 < chunks.flatten.length := List.length_pos_of_ne_nil hbody
  obtain ⟨st, calls, hrun, _, hnamed, hstopped⟩ := uploadRun_ended orc args hbody
  refine ⟨fun hrefused => noName_not_sent orc args chunks hbody hrefused.response, ⟨?_, ?_⟩, ?_⟩
  · intro hnothing hok
    rw [hrun] at hnothing
    have hfirst := hnamed.first (by rcases hstopped with hs | hs <;> simp [hs])
    rw [List.head?_eq_getElem?] at hfirst
    exact hnothing 0 _ hfirst hok trivial
  · rintro hbad k c hk hok
    have honly := only_create args hbad hlen hbody
    rw [uploadRun_done _ _ hlen rfl] at hk
    simp only [honly] at hk
    obtain rfl : k = 0 := by simpa using (List.getElem?_eq_some_iff.mp hk).1
    exact absurd hok hbad
  · intro c hc hren
    rw [hrun] at hc
    rw [hnamed.renames c hc hren, uploadName_of_nameless hname]

/-- One byte, and no argument. -/
theorem nameless_not_refused_one :
    ¬ RefusedNameless (fun _ => ⟨-1, 0⟩)
      (uploadRun (oracleExec fun _ => ⟨-1, 0⟩) (fun _ => none) 1 [[7]] []) :=
  (nameless_not_refused (fun _ => ⟨-1, 0⟩) (fun _ => none) (by decide : (-1 : ℤ) ≤ 0)
    (by decide : ([7] : Bytes) ≠ []) rfl).1

/-- The same byte, on a file system where every call succeeds. -/
theorem nameless_upload_made :
    ¬ ∀ (orc : ℕ → AppfsAnswer) (args : Args) (body : Bytes) (chunks : List Bytes), Nameless args →
      body ≠ [] → chunks.flatten = body →
      RefusedNameless orc (uploadRun (oracleExec orc) args body.length chunks []) := by
  intro h
  have hrefused := h (fun _ => ⟨espOk, 3⟩) (fun _ => none) [7] [[7]] (by decide : (-1 : ℤ) ≤ 0)
    (by decide) rfl
  exact noName_not_sent (fun _ => ⟨espOk, 3⟩) (fun _ => none) [[7]] (by decide) hrefused.response

end Chooser
