import Chooser.Appfs
import Chooser.Lib.Machine

/-!
# The upload handler

`cgiUploadFile` receives the body of a POST in buffers of any size and stores it, page by page,
in a temporary file that it renames to the requested name when the last byte has been written.
Its state machine (`Flst`) starts with creating the file, then alternates between filling the
page buffer and flushing it, and ends in one of two states that swallow whatever else arrives.

The loop of the handler is modelled with fuel.  `uploadFeed_step` says that the fuel is enough,
and `uploadFeed_splittable` that a buffer can be cut anywhere: all later facts about the loop are
proved one byte at a time, over the three equations `uploadFeed_byte_*`.
-/

namespace Chooser

open CStr

/-! ## The constants and the session record -/

/-- `PAGELEN`. -/
def pageLen : ℕ := 4096 * 4

/-- `SPI_FLASH_ERASE_SIZE`. -/
def spiFlashEraseSize : ℕ := 32768

/-- `UPLOAD_TEMP_NAME`. -/
def uploadTempName : Bytes := ascii "__upload_temp_file__.tmp"

/-- The states `FLST_START`, `FLST_WRITE`, `FLST_DONE` and `FLST_ERROR`. -/
inductive Flst where
  | start
  | write
  | done
  | error
deriving DecidableEq, Repr

/-- The record that an upload keeps between two calls. -/
structure UploadState where
  fd : Handle
  state : Flst
  pageData : Bytes
  pagePos : ℕ
  address : ℕ
  len : ℕ
  err : Bytes
  name : Bytes
deriving DecidableEq, Repr

/-- The record as the first call initialises it. -/
def UploadState.initial : UploadState where
  fd := 0
  state := .start
  pageData := List.replicate pageLen 0
  pagePos := 0
  address := 0
  len := 0
  err := ascii "Premature end"
  name := []

/-- `state->err=msg; state->state=FLST_ERROR;` -/
def UploadState.fail (st : UploadState) (msg : String) : UploadState :=
  { st with err := ascii msg, state := .error }

/-- The name under which an upload stores its file. Without the argument it is empty. -/
def uploadName (args : Args) : Bytes := cString (httpdFindArg args "name" [] 512).2

section Handler

variable {ω : Type} (exec : Exec ω)

/-! ## One iteration of the loop -/

/-- `FLST_START`: reads the name, creates the temporary file. -/
def uploadStart (args : Args) (postLen : ℕ) (st : UploadState) (w : ω) : UploadState × ω :=
  let arg := httpdFindArg args "name" st.name 512
  let st := { st with name := arg.2 }
  let st := if arg.1 ≤ 0 then st.fail "No name" else st
  let r := exec (.createFile uploadTempName postLen) w
  let st := { st with fd := r.1.fd }
  if r.1.err ≠ espOk then (st.fail "App too large for free space", r.2)
  else ({ st with len := postLen, address := 0, state := .write }, r.2)

/-- How many bytes the page buffer still takes. The last page can be a cut-off one. -/
def UploadState.lenLeft (st : UploadState) : ℕ :=
  if st.len < pageLen - st.pagePos then st.len else pageLen - st.pagePos

/-- Appends post data to the page buffer. -/
def UploadState.copy (st : UploadState) (data : Bytes) : UploadState :=
  { st with
    pageData := memcpy st.pageData st.pagePos data
    pagePos := st.pagePos + data.length
    len := st.len - data.length }

/-- Erases the block that starts at the page, if one does. -/
def uploadErase (st : UploadState) (w : ω) : UploadState × ω :=
  if st.address &&& (spiFlashEraseSize - 1) = 0 then
    let r := exec (.erase st.fd st.address spiFlashEraseSize) w
    (if r.1.err ≠ espOk then st.fail "AppfsErase failed" else st, r.2)
  else (st, w)

/-- Writes the page. -/
def uploadWrite (st : UploadState) (w : ω) : UploadState × ω :=
  let r := exec (.write st.fd st.address (st.pageData.take st.pagePos)) w
  (if r.1.err ≠ espOk then st.fail "AppfsWrite failed" else st, r.2)

/-- Gives the file its name. -/
def uploadRename (st : UploadState) (w : ω) : UploadState × ω :=
  let st := { st with state := .done }
  let r := exec (.rename uploadTempName (cString st.name)) w
  (if r.1.err ≠ espOk then st.fail "Rename failed" else st, r.2)

/-- Flushes the page buffer, and renames the file when nothing is left to receive. -/
def uploadFlush (st : UploadState) (w : ω) : UploadState × ω :=
  let e := uploadErase exec st w
  let r := uploadWrite exec e.1 e.2
  let st : UploadState := { r.1 with address := r.1.address + pageLen, pagePos := 0 }
  if st.len = 0 then uploadRename exec st r.2 else (st, r.2)

/-- One pass through the body of the `while` loop, with the post data that is left. -/
def uploadIter (args : Args) (postLen : ℕ) (st : UploadState) (data : Bytes) (w : ω) :
    UploadState × Bytes × ω :=
  match st.state with
  | .start =>
      let r := uploadStart exec args postLen st w
      (r.1, data, r.2)
  | .write =>
      if data.length < st.lenLeft then (st.copy data, [], w)
      else
        let r := uploadFlush exec (st.copy (data.take st.lenLeft)) w
        (r.1, data.drop st.lenLeft, r.2)
  | .done => (st, [], w)
  | .error => (st, [], w)

/-- `while (dataLen!=0)`. -/
def uploadLoop (args : Args) (postLen : ℕ) :
    ℕ → UploadState → Bytes → ω → UploadState × Bytes × ω
  | 0, st, data, w => (st, data, w)
  | n + 1, st, data, w =>
      if data = [] then (st, data, w)
      else
        let r := uploadIter exec args postLen st data w
        uploadLoop args postLen n r.1 r.2.1 r.2.2

/-- The loop of one call, run on the whole post buffer. -/
def uploadFeed (args : Args) (postLen : ℕ) (s : UploadState × ω) (data : Bytes) :
    UploadState × ω :=
  let r := uploadLoop exec args postLen (data.length + 3) s.1 data s.2
  (r.1, r.2.2)

/-! ## The handler -/

/-- The response, formatted when the last byte has been received. -/
def uploadResponse (st : UploadState) : List HttpCall :=
  [.startResponse (if st.state = .error then 400 else 200),
    .header (ascii "Content-Type") (ascii "text/plain"), .endHeaders] ++
  if st.state ≠ .done then
    [.send (ascii "Upload error:") (-1), .send st.err (-1), .send (ascii "\n") (-1)]
  else []

def cgiUploadFile (connData : HttpdConnData UploadState) (w : ω) :
    CgiOutcome UploadState × ω :=
  if ¬ connData.conn then
    (⟨.done, connData.cgiData, connData.cgiData.isSome, []⟩, w)
  else if connData.cgiData.isNone ∧ ¬ connData.heap then
    (⟨.done, none, false, []⟩, w)
  else
    let st := connData.cgiData.getD .initial
    let r := uploadFeed exec connData.getArgs connData.post.len (st, w) connData.post.buff
    if connData.post.len = connData.post.received then
      (⟨.done, some r.1, true, uploadResponse r.1⟩, r.2)
    else (⟨.more, some r.1, false, []⟩, r.2)

end Handler

/-! ## The record between two bytes

`Ok` is what the loop needs to make progress: while it writes, there is room in the page buffer
and something left to receive.
-/

structure UploadState.Ok (st : UploadState) : Prop where
  page : st.pageData.length = pageLen
  fresh : st.state = .start → st.pagePos = 0
  room : st.state = .write → st.pagePos < pageLen ∧ 0 < st.len

lemma UploadState.initial_ok : UploadState.initial.Ok where
  page := by simp [UploadState.initial]
  fresh _ := rfl
  room h := by simp [UploadState.initial] at h

@[simp] lemma fail_state (st : UploadState) (msg : String) : (st.fail msg).state = .error := rfl

lemma UploadState.Ok.fail {st : UploadState} (h : st.Ok) (msg : String) : (st.fail msg).Ok where
  page := h.page
  fresh hs := by simp at hs
  room hw := by simp at hw

lemma UploadState.lenLeft_eq (st : UploadState) :
    st.lenLeft = min st.len (pageLen - st.pagePos) := by
  unfold UploadState.lenLeft
  split_ifs <;> omega

lemma UploadState.Ok.lenLeft_pos {st : UploadState} (h : st.Ok) (hw : st.state = .write) :
    0 < st.lenLeft := by
  have hroom := h.room hw
  rw [st.lenLeft_eq]
  omega

lemma UploadState.copy_nil (st : UploadState) : st.copy [] = st := by
  simp [UploadState.copy, memcpy_nil]

/-- Appending twice is appending both. -/
lemma UploadState.Ok.copy_copy {st : UploadState} (h : st.Ok) (hw : st.state = .write)
    (a b : Bytes) : (st.copy a).copy b = st.copy (a ++ b) := by
  have hpos : st.pagePos ≤ st.pageData.length := by
    rw [h.page]
    exact (h.room hw).1.le
  simp only [UploadState.copy, memcpy_memcpy hpos, List.length_append, Nat.add_assoc,
    Nat.sub_sub]

@[simp] lemma copy_state (st : UploadState) (data : Bytes) :
    (st.copy data).state = st.state := rfl

@[simp] lemma copy_len (st : UploadState) (data : Bytes) :
    (st.copy data).len = st.len - data.length := rfl

@[simp] lemma copy_pagePos (st : UploadState) (data : Bytes) :
    (st.copy data).pagePos = st.pagePos + data.length := rfl

@[simp] lemma copy_address (st : UploadState) (data : Bytes) :
    (st.copy data).address = st.address := rfl

@[simp] lemma copy_fd (st : UploadState) (data : Bytes) : (st.copy data).fd = st.fd := rfl

@[simp] lemma copy_name (st : UploadState) (data : Bytes) : (st.copy data).name = st.name := rfl

lemma UploadState.lenLeft_copy (st : UploadState) (data : Bytes) :
    (st.copy data).lenLeft = st.lenLeft - data.length := by
  rw [UploadState.lenLeft_eq, UploadState.lenLeft_eq, copy_len, copy_pagePos]
  omega

/-- A copy that leaves room keeps the record in order. -/
lemma UploadState.Ok.copy {st : UploadState} (h : st.Ok) {data : Bytes}
    (hw : st.state = .write) (hlt : data.length < st.lenLeft) : (st.copy data).Ok where
  page := by
    have hroom := h.room hw
    have hfit : st.pagePos + data.length ≤ st.pageData.length := by
      rw [st.lenLeft_eq] at hlt
      rw [h.page]
      omega
    simp only [UploadState.copy, length_memcpy hfit, h.page]
  fresh hs := by simp [hw] at hs
  room _ := by
    rw [st.lenLeft_eq] at hlt
    rw [copy_len, copy_pagePos]
    omega

section Loop

variable {ω : Type} (exec : Exec ω)

/-! ## What flushing a page does to the record -/

lemma uploadErase_eq (st : UploadState) (w : ω) :
    (uploadErase exec st w).1 = st ∨
    (uploadErase exec st w).1 = st.fail "AppfsErase failed" := by
  unfold uploadErase
  split_ifs with h
  · dsimp only
    split_ifs
    · exact Or.inr rfl
    · exact Or.inl rfl
  · exact Or.inl rfl

lemma uploadWrite_eq (st : UploadState) (w : ω) :
    (uploadWrite exec st w).1 = st ∨
    (uploadWrite exec st w).1 = st.fail "AppfsWrite failed" := by
  unfold uploadWrite
  dsimp only
  split_ifs
  · exact Or.inr rfl
  · exact Or.inl rfl

/-- Whatever erase and write answer, they change nothing but the error text and the state. -/
lemma uploadErase_write_eq (st : UploadState) (w : ω) :
    ∃ err state, (uploadWrite exec (uploadErase exec st w).1 (uploadErase exec st w).2).1
      = { st with err := err, state := state } ∧ (state = st.state ∨ state = .error) := by
  rcases uploadErase_eq exec st w with he | he <;>
    rcases uploadWrite_eq exec (uploadErase exec st w).1 (uploadErase exec st w).2 with hw | hw <;>
    rw [hw, he]
  · exact ⟨st.err, st.state, rfl, Or.inl rfl⟩
  · exact ⟨ascii "AppfsWrite failed", .error, rfl, Or.inr rfl⟩
  · exact ⟨ascii "AppfsErase failed", .error, rfl, Or.inr rfl⟩
  · exact ⟨ascii "AppfsWrite failed", .error, rfl, Or.inr rfl⟩

lemma uploadFlush_ok {st : UploadState} (hpage : st.pageData.length = pageLen)
    (hw : st.state = .write) (w : ω) :
    (uploadFlush exec st w).1.Ok ∧ (uploadFlush exec st w).1.state ≠ .start := by
  obtain ⟨err, state, heq, hstate⟩ := uploadErase_write_eq exec st w
  have hne : state ≠ .start := by
    rcases hstate with rfl | rfl
    · simp [hw]
    · simp
  unfold uploadFlush
  simp only [heq]
  split_ifs with hlen
  · unfold uploadRename
    dsimp only
    split_ifs
    · exact ⟨⟨hpage, fun h => by simp at h, fun h => by simp at h⟩, by simp⟩
    · exact ⟨⟨hpage, fun h => by simp at h, fun h => by simp at h⟩, by simp⟩
  · exact ⟨⟨hpage, fun h => absurd h hne,
      fun _ => ⟨by simp [pageLen], Nat.pos_of_ne_zero hlen⟩⟩, hne⟩

/-- The two ways out of `FLST_START`.  Note the second: when the create succeeds the state is
`FLST_WRITE`, even if no name was given. -/
lemma uploadStart_cases (args : Args) (postLen : ℕ) (st : UploadState) (w : ω) :
    ((exec (.createFile uploadTempName postLen) w).1.err ≠ espOk ∧
      uploadStart exec args postLen st w =
        ({ st with
            name := (httpdFindArg args "name" st.name 512).2
            fd := (exec (.createFile uploadTempName postLen) w).1.fd
            err := ascii "App too large for free space"
            state := .error }, (exec (.createFile uploadTempName postLen) w).2)) ∨
    ((exec (.createFile uploadTempName postLen) w).1.err = espOk ∧
      ∃ err, uploadStart exec args postLen st w =
        ({ st with
            name := (httpdFindArg args "name" st.name 512).2
            fd := (exec (.createFile uploadTempName postLen) w).1.fd
            err := err
            len := postLen
            address := 0
            state := .write }, (exec (.createFile uploadTempName postLen) w).2)) := by
  by_cases hok : (exec (.createFile uploadTempName postLen) w).1.err = espOk
  · refine Or.inr ⟨hok, ?_⟩
    by_cases harg : (httpdFindArg args "name" st.name 512).1 ≤ 0
    · exact ⟨ascii "No name", by simp [uploadStart, UploadState.fail, hok, harg]⟩
    · exact ⟨st.err, by simp [uploadStart, hok, harg]⟩
  · refine Or.inl ⟨hok, ?_⟩
    by_cases harg : (httpdFindArg args "name" st.name 512).1 ≤ 0
    · simp [uploadStart, UploadState.fail, hok, harg]
    · simp [uploadStart, UploadState.fail, hok, harg]

lemma uploadStart_ok {args : Args} {postLen : ℕ} (hlen : 0 < postLen) {st : UploadState}
    (h : st.Ok) (hst : st.state = .start) (w : ω) :
    (uploadStart exec args postLen st w).1.Ok ∧
    (uploadStart exec args postLen st w).1.state ≠ .start := by
  have hpos : st.pagePos < pageLen := by
    rw [h.fresh hst]
    simp [pageLen]
  rcases uploadStart_cases exec args postLen st w with ⟨_, heq⟩ | ⟨_, err, heq⟩
  · rw [heq]
    exact ⟨⟨h.page, fun hs => by simp at hs, fun hw => by simp at hw⟩, by simp⟩
  · rw [heq]
    exact ⟨⟨h.page, fun hs => by simp at hs, fun _ => ⟨hpos, hlen⟩⟩, by simp⟩

/-! ## The loop, one byte at a time -/

variable {exec} {args : Args} {postLen : ℕ}

lemma uploadFlush_ok' {st : UploadState} (h : st.Ok) (hw : st.state = .write) {data : Bytes}
    (hle : st.lenLeft ≤ data.length) (w : ω) :
    (uploadFlush exec (st.copy (data.take st.lenLeft)) w).1.Ok ∧
    (uploadFlush exec (st.copy (data.take st.lenLeft)) w).1.state ≠ .start := by
  have hroom := h.room hw
  have hlen : (data.take st.lenLeft).length = st.lenLeft := by simp [hle]
  refine uploadFlush_ok exec ?_ (by simpa using hw) w
  have hfit : st.pagePos + (data.take st.lenLeft).length ≤ st.pageData.length := by
    rw [hlen, st.lenLeft_eq, h.page]
    omega
  simp only [UploadState.copy, length_memcpy hfit, h.page]

lemma uploadIter_start {st : UploadState} (hs : st.state = .start) (data : Bytes) (w : ω) :
    uploadIter exec args postLen st data w =
      ((uploadStart exec args postLen st w).1, data, (uploadStart exec args postLen st w).2) := by
  simp [uploadIter, hs]

lemma uploadIter_copy {st : UploadState} (hs : st.state = .write) {data : Bytes}
    (hlt : data.length < st.lenLeft) (w : ω) :
    uploadIter exec args postLen st data w = (st.copy data, [], w) := by
  simp [uploadIter, hs, hlt]

lemma uploadIter_flush {st : UploadState} (hs : st.state = .write) {data : Bytes}
    (hle : st.lenLeft ≤ data.length) (w : ω) :
    uploadIter exec args postLen st data w =
      ((uploadFlush exec (st.copy (data.take st.lenLeft)) w).1, data.drop st.lenLeft,
        (uploadFlush exec (st.copy (data.take st.lenLeft)) w).2) := by
  have hnlt : ¬ data.length < st.lenLeft := by omega
  simp [uploadIter, hs, hnlt]

lemma uploadIter_stopped {st : UploadState} (hs : st.state = .done ∨ st.state = .error)
    (data : Bytes) (w : ω) : uploadIter exec args postLen st data w = (st, [], w) := by
  rcases hs with hs | hs <;> simp [uploadIter, hs]

variable (exec args) in
/-- What an iteration leaves to do: fewer bytes, or the same after `FLST_START`. -/
lemma uploadIter_progress (hpost : 0 < postLen) {st : UploadState} (h : st.Ok) {data : Bytes}
    (hdata : data ≠ []) (w : ω) :
    (uploadIter exec args postLen st data w).1.Ok ∧
    (uploadIter exec args postLen st data w).1.state ≠ .start ∧
    (uploadIter exec args postLen st data w).2.1.length + 1
      ≤ data.length + (if st.state = .start then 1 else 0) := by
  have hpos : 0 < data.length := List.length_pos_of_ne_nil hdata
  cases hs : st.state with
  | start =>
      obtain ⟨hok, hne⟩ := uploadStart_ok exec hpost h hs w
      rw [uploadIter_start hs]
      exact ⟨hok, hne, by simp⟩
  | write =>
      have hleft := h.lenLeft_pos hs
      by_cases hlt : data.length < st.lenLeft
      · rw [uploadIter_copy hs hlt]
        exact ⟨h.copy hs hlt, by simp [hs], by simpa using Nat.succ_le_of_lt hpos⟩
      · obtain ⟨hok, hne⟩ := uploadFlush_ok' h hs (not_lt.mp hlt) w
        rw [uploadIter_flush hs (by omega)]
        refine ⟨hok, hne, ?_⟩
        simp only [List.length_drop]
        omega
  | done =>
      rw [uploadIter_stopped (Or.inl hs)]
      exact ⟨h, by simp [hs], by simpa using Nat.succ_le_of_lt hpos⟩
  | error =>
      rw [uploadIter_stopped (Or.inr hs)]
      exact ⟨h, by simp [hs], by simpa using Nat.succ_le_of_lt hpos⟩

/-- More fuel than needed changes nothing. -/
lemma uploadLoop_mono {n : ℕ} : ∀ {st : UploadState} {data : Bytes} {w : ω},
    (uploadLoop exec args postLen n st data w).2.1 = [] → ∀ {m}, n ≤ m →
    uploadLoop exec args postLen m st data w = uploadLoop exec args postLen n st data w := by
  induction n with
  | zero =>
      intro st data w hdone m _
      have hnil : data = [] := hdone
      cases m with
      | zero => rfl
      | succ m => simp [uploadLoop, hnil]
  | succ n ih =>
      intro st data w hdone m hm
      obtain ⟨m, rfl⟩ : ∃ k, m = k + 1 := ⟨m - 1, by omega⟩
      rw [uploadLoop] at hdone
      rw [uploadLoop, uploadLoop]
      by_cases hnil : data = []
      · rw [if_pos hnil, if_pos hnil]
      · rw [if_neg hnil] at hdone
        rw [if_neg hnil, if_neg hnil]
        exact ih hdone (by omega)

/-- **The loop ends with the buffer used up**: one iteration for each byte and one for
`FLST_START` is fuel enough. -/
lemma uploadLoop_done (hpost : 0 < postLen) : ∀ {n : ℕ} {st : UploadState} {data : Bytes} {w : ω},
    st.Ok → data.length + (if st.state = .start then 1 else 0) ≤ n →
    (uploadLoop exec args postLen n st data w).2.1 = [] ∧
    (uploadLoop exec args postLen n st data w).1.Ok := by
  intro n
  induction n with
  | zero =>
      intro st data w h hn
      have hnil : data = [] := List.eq_nil_of_length_eq_zero (by omega)
      exact ⟨hnil, h⟩
  | succ n ih =>
      intro st data w h hn
      rw [uploadLoop]
      by_cases hnil : data = []
      · rw [if_pos hnil]
        exact ⟨hnil, h⟩
      · rw [if_neg hnil]
        obtain ⟨hok, hne, hprog⟩ :=
          uploadIter_progress exec args hpost h hnil w
        refine ih hok ?_
        rw [if_neg hne]
        omega

lemma uploadFeed_nil (s : UploadState × ω) : uploadFeed exec args postLen s [] = s := by
  simp [uploadFeed, uploadLoop]

/-- One iteration, and then the loop on what is left. -/
lemma uploadFeed_step (hpost : 0 < postLen) {st : UploadState} (h : st.Ok) {data : Bytes}
    (hdata : data ≠ []) (w : ω) :
    uploadFeed exec args postLen (st, w) data =
      uploadFeed exec args postLen
        ((uploadIter exec args postLen st data w).1, (uploadIter exec args postLen st data w).2.2)
        (uploadIter exec args postLen st data w).2.1 := by
  obtain ⟨hok, hne, hprog⟩ := uploadIter_progress exec args hpost h hdata w
  have hshort : (uploadIter exec args postLen st data w).2.1.length ≤ data.length := by
    split_ifs at hprog <;> omega
  simp only [uploadFeed]
  rw [uploadLoop, if_neg hdata]
  generalize uploadIter exec args postLen st data w = r at *
  have hdone : (uploadLoop exec args postLen r.2.1.length r.1 r.2.1 r.2.2).2.1 = [] ∧ _ :=
    uploadLoop_done hpost hok (by rw [if_neg hne]; omega)
  rw [uploadLoop_mono hdone.1 (m := data.length + 2) (by omega),
    uploadLoop_mono hdone.1
      (m := r.2.1.length + 3) (by omega)]

lemma uploadFeed_ok (hpost : 0 < postLen) {s : UploadState × ω} (h : s.1.Ok) (data : Bytes) :
    (uploadFeed exec args postLen s data).1.Ok :=
  (uploadLoop_done hpost h (by split_ifs <;> omega)).2

/-- In the two final states the bytes are swallowed. -/
lemma uploadFeed_stopped (hpost : 0 < postLen) {st : UploadState} (h : st.Ok)
    (hs : st.state = .done ∨ st.state = .error) (data : Bytes) (w : ω) :
    uploadFeed exec args postLen (st, w) data = (st, w) := by
  by_cases hnil : data = []
  · rw [hnil, uploadFeed_nil]
  · rw [uploadFeed_step hpost h hnil, uploadIter_stopped hs, uploadFeed_nil]

/-- The first byte creates the file before anything else. -/
lemma uploadFeed_start (hpost : 0 < postLen) {st : UploadState} (h : st.Ok)
    (hs : st.state = .start) {data : Bytes} (hdata : data ≠ []) (w : ω) :
    uploadFeed exec args postLen (st, w) data =
      uploadFeed exec args postLen (uploadStart exec args postLen st w) data := by
  rw [uploadFeed_step hpost h hdata, uploadIter_start hs]

/-- Bytes that do not fill the page buffer go into it. -/
lemma uploadFeed_copy (hpost : 0 < postLen) {st : UploadState} (h : st.Ok)
    (hs : st.state = .write) {data : Bytes} (hlt : data.length < st.lenLeft) (w : ω) :
    uploadFeed exec args postLen (st, w) data = (st.copy data, w) := by
  by_cases hnil : data = []
  · rw [hnil, uploadFeed_nil, st.copy_nil]
  · rw [uploadFeed_step hpost h hnil, uploadIter_copy hs hlt, uploadFeed_nil]

/-- Bytes that fill it make the page go out, and the rest of the buffer follows. -/
lemma uploadFeed_flush (hpost : 0 < postLen) {st : UploadState} (h : st.Ok)
    (hs : st.state = .write) {data : Bytes} (hle : st.lenLeft ≤ data.length) (w : ω) :
    uploadFeed exec args postLen (st, w) data =
      uploadFeed exec args postLen (uploadFlush exec (st.copy (data.take st.lenLeft)) w)
        (data.drop st.lenLeft) := by
  have hnil : data ≠ [] := by
    rintro rfl
    have := h.lenLeft_pos hs
    simp at hle
    omega
  rw [uploadFeed_step hpost h hnil, uploadIter_flush hs hle]

/-- One byte and then the rest, while writing. -/
lemma uploadFeed_cons_write (hpost : 0 < postLen) {st : UploadState} (h : st.Ok)
    (hs : st.state = .write) (x : UInt8) (xs : Bytes) (w : ω) :
    uploadFeed exec args postLen (st, w) (x :: xs) =
      uploadFeed exec args postLen (uploadFeed exec args postLen (st, w) [x]) xs := by
  have hleft := h.lenLeft_pos hs
  by_cases hone : st.lenLeft = 1
  · -- the byte completes the page, on its own as well as in front of others
    rw [uploadFeed_flush hpost h hs (by simp [hone]),
      uploadFeed_flush hpost h hs (by simp [hone]), hone]
    simp [uploadFeed_nil]
  · have hcopy : (st.copy [x]).Ok := h.copy hs (by simp; omega)
    have hxs : (st.copy [x]).lenLeft = st.lenLeft - 1 := st.lenLeft_copy [x]
    have hshort : ([x] : Bytes).length < st.lenLeft := by
      rw [List.length_singleton]
      omega
    rw [uploadFeed_copy hpost h hs hshort]
    by_cases hlt : (x :: xs).length < st.lenLeft
    · rw [uploadFeed_copy hpost h hs hlt,
        uploadFeed_copy hpost hcopy hs (by rw [hxs]; simp at hlt; omega), h.copy_copy hs]
      rfl
    · rw [uploadFeed_flush hpost h hs (by omega),
        uploadFeed_flush hpost hcopy hs (by rw [hxs]; simp at hlt; omega), h.copy_copy hs, hxs]
      obtain ⟨k, hk⟩ : ∃ k, st.lenLeft = k + 1 := ⟨st.lenLeft - 1, by omega⟩
      simp [hk]

/-- **A buffer can be cut anywhere.** -/
theorem uploadFeed_splittable (hpost : 0 < postLen) :
    Machine.Splittable (fun s : UploadState × ω => s.1.Ok) (uploadFeed exec args postLen) where
  nil := uploadFeed_nil
  inv xs h := uploadFeed_ok hpost h xs
  cons := by
    rintro ⟨st, w⟩ x xs h
    cases hs : st.state with
    | start =>
        obtain ⟨hok, hne⟩ := uploadStart_ok exec hpost h hs w
        rw [uploadFeed_start hpost h hs (by simp), uploadFeed_start hpost h hs (by simp)]
        generalize uploadStart exec args postLen st w = s' at hok hne
        obtain ⟨st', w'⟩ := s'
        cases hs' : st'.state with
        | start => exact absurd hs' hne
        | write => exact uploadFeed_cons_write hpost hok hs' x xs w'
        | done =>
            have hstop : st'.state = .done ∨ st'.state = .error := Or.inl hs'
            simp only [uploadFeed_stopped hpost hok hstop]
        | error =>
            have hstop : st'.state = .done ∨ st'.state = .error := Or.inr hs'
            simp only [uploadFeed_stopped hpost hok hstop]
    | write => exact uploadFeed_cons_write hpost h hs x xs w
    | done =>
        have hstop : st.state = .done ∨ st.state = .error := Or.inl hs
        simp only [uploadFeed_stopped hpost h hstop]
    | error =>
        have hstop : st.state = .done ∨ st.state = .error := Or.inr hs
        simp only [uploadFeed_stopped hpost h hstop]

end Loop

end Chooser
