import Chooser.Upload

/-!
# A whole upload, and its independence of the post buffers

The server hands the body to the handler in buffers, keeps count of the bytes received, and makes
no further call once the handler has answered `HTTPD_CGI_DONE`.  `UploadConn` is one such
connection and `uploadRun` the whole session.

As `uploadFeed` is splittable, a session over any sequence of buffers is the loop run once over
the concatenation (`uploadRun_open`, `uploadRun_done`), so nothing about it can depend on how the
body was cut.
-/

namespace Chooser

open CStr

/-- An upload as the server sees it: the request, the body bytes handed over so far, what the
handler keeps, what it answered, and whether it has finished. -/
structure UploadConn where
  getArgs : Args
  len : ℕ
  received : Bytes
  cgiData : Option UploadState
  sent : List HttpCall
  closed : Bool

def UploadConn.opened (args : Args) (len : ℕ) : UploadConn := ⟨args, len, [], none, [], false⟩

section Run

variable {ω : Type} (exec : Exec ω)

/-- The next post buffer arrives. A finished connection gets no further call. -/
def UploadConn.post (p : UploadConn × ω) (chunk : Bytes) : UploadConn × ω :=
  if p.1.closed then p
  else
    let received := p.1.received ++ chunk
    let r := cgiUploadFile exec
      ⟨true, true, p.1.cgiData, p.1.getArgs, ⟨chunk, p.1.len, received.length⟩⟩ p.2
    ({ p.1 with
        received := received
        cgiData := r.1.cgiData
        sent := p.1.sent ++ r.1.out
        closed := r.1.ret = .done }, r.2)

/-- A whole session: a request with its `Content-Length`, and the post buffers. -/
def uploadRun (args : Args) (len : ℕ) (chunks : List Bytes) (w : ω) : UploadConn × ω :=
  chunks.foldl (UploadConn.post exec) (.opened args len, w)

variable {exec} {args : Args}

/-! ## A session is one run of the loop -/

lemma post_closed {u : UploadConn} (h : u.closed = true) (w : ω) (chunk : Bytes) :
    UploadConn.post exec (u, w) chunk = (u, w) := by
  simp [UploadConn.post, h]

lemma foldl_post_closed {u : UploadConn} (h : u.closed = true) (w : ω) (chunks : List Bytes) :
    chunks.foldl (UploadConn.post exec) (u, w) = (u, w) := by
  induction chunks with
  | nil => rfl
  | cons c chunks ih => rw [List.foldl_cons, post_closed h, ih]

/-- A buffer that does not complete the body. -/
lemma post_open {u : UploadConn} (h : u.closed = false) (chunk : Bytes)
    (hlt : u.received.length + chunk.length < u.len) (w : ω) :
    UploadConn.post exec (u, w) chunk =
      ({ u with
          received := u.received ++ chunk
          cgiData := some (uploadFeed exec u.getArgs u.len (u.cgiData.getD .initial, w) chunk).1 },
        (uploadFeed exec u.getArgs u.len (u.cgiData.getD .initial, w) chunk).2) := by
  have hne : ¬ u.len = u.received.length + chunk.length := by omega
  simp [UploadConn.post, cgiUploadFile, h, hne]

/-- The buffer that completes it. -/
lemma post_last {u : UploadConn} (h : u.closed = false) (chunk : Bytes)
    (heq : u.received.length + chunk.length = u.len) (w : ω) :
    UploadConn.post exec (u, w) chunk =
      ({ u with
          received := u.received ++ chunk
          cgiData := some (uploadFeed exec u.getArgs u.len (u.cgiData.getD .initial, w) chunk).1
          sent := u.sent ++
            uploadResponse (uploadFeed exec u.getArgs u.len (u.cgiData.getD .initial, w) chunk).1
          closed := true },
        (uploadFeed exec u.getArgs u.len (u.cgiData.getD .initial, w) chunk).2) := by
  simp [UploadConn.post, cgiUploadFile, h, heq]

/-- What `n` bytes into the body the loop has made of the record and of the world. -/
def uploadBody (exec : Exec ω) (args : Args) (len : ℕ) (w : ω) (body : Bytes) :
    UploadState × ω :=
  uploadFeed exec args len (.initial, w) body

lemma uploadBody_append {len : ℕ} (hlen : 0 < len) (w : ω) (xs ys : Bytes) :
    uploadBody exec args len w (xs ++ ys)
      = uploadFeed exec args len (uploadBody exec args len w xs) ys :=
  (uploadFeed_splittable hlen).append UploadState.initial_ok xs ys

/-- The connection while `got` has arrived, and the world next to it. -/
structure AtBody (exec : Exec ω) (args : Args) (len : ℕ) (w : ω) (got : Bytes)
    (p : UploadConn × ω) : Prop where
  args_eq : p.1.getArgs = args
  len_eq : p.1.len = len
  received : p.1.received = got
  state : p.1.cgiData.getD .initial = (uploadBody exec args len w got).1
  world : p.2 = (uploadBody exec args len w got).2
  sent : p.1.sent = []
  closed : p.1.closed = false

lemma atBody_opened (len : ℕ) (w : ω) : AtBody exec args len w [] (.opened args len, w) where
  args_eq := rfl
  len_eq := rfl
  received := rfl
  state := by simp [uploadBody, uploadFeed_nil, UploadConn.opened]
  world := by simp [uploadBody, uploadFeed_nil]
  sent := rfl
  closed := rfl

lemma AtBody.post {len : ℕ} {w : ω} {got : Bytes} {p : UploadConn × ω}
    (h : AtBody exec args len w got p) (chunk : Bytes) (hlt : got.length + chunk.length < len) :
    AtBody exec args len w (got ++ chunk) (UploadConn.post exec p chunk) := by
  obtain ⟨⟨args', len', got', data, sent, closed⟩, w'⟩ := p
  obtain ⟨rfl, rfl, rfl, hstate, hworld, hsent, hclosed⟩ := h
  have hpos : 0 < len' := Nat.zero_lt_of_lt hlt
  have hfeed : uploadFeed exec args' len' (data.getD .initial, w') chunk
      = uploadBody exec args' len' w (got' ++ chunk) := by
    rw [uploadBody_append hpos]
    exact congrArg (fun p => uploadFeed exec args' len' p chunk) (Prod.ext hstate hworld)
  rw [post_open hclosed chunk hlt, hfeed]
  exact ⟨rfl, rfl, rfl, rfl, rfl, hsent, hclosed⟩

lemma AtBody.post_last {len : ℕ} {w : ω} {got : Bytes} {p : UploadConn × ω}
    (h : AtBody exec args len w got p) (hpos : 0 < len) (chunk : Bytes)
    (heq : got.length + chunk.length = len) :
    UploadConn.post exec p chunk =
      (⟨args, len, got ++ chunk, some (uploadBody exec args len w (got ++ chunk)).1,
        uploadResponse (uploadBody exec args len w (got ++ chunk)).1, true⟩,
        (uploadBody exec args len w (got ++ chunk)).2) := by
  obtain ⟨⟨args', len', got', data, sent, closed⟩, w'⟩ := p
  obtain ⟨rfl, rfl, rfl, hstate, hworld, rfl, hclosed⟩ := h
  have hfeed : uploadFeed exec args' len' (data.getD .initial, w') chunk
      = uploadBody exec args' len' w (got' ++ chunk) := by
    rw [uploadBody_append hpos]
    exact congrArg (fun p => uploadFeed exec args' len' p chunk) (Prod.ext hstate hworld)
  rw [Chooser.post_last hclosed chunk heq, hfeed]
  rfl

lemma foldl_post {len : ℕ} {w : ω} (chunks : List Bytes) : ∀ {got : Bytes} {p : UploadConn × ω},
    AtBody exec args len w got p → got.length < len →
    (got.length + chunks.flatten.length < len →
      AtBody exec args len w (got ++ chunks.flatten) (chunks.foldl (UploadConn.post exec) p)) ∧
    (got.length + chunks.flatten.length = len →
      chunks.foldl (UploadConn.post exec) p =
        (⟨args, len, got ++ chunks.flatten,
          some (uploadBody exec args len w (got ++ chunks.flatten)).1,
          uploadResponse (uploadBody exec args len w (got ++ chunks.flatten)).1, true⟩,
          (uploadBody exec args len w (got ++ chunks.flatten)).2)) := by
  induction chunks with
  | nil =>
      intro got p h hlt
      refine ⟨fun _ => by simpa using h, fun heq => ?_⟩
      simp at heq
      omega
  | cons c chunks ih =>
      intro got p h hlt
      simp only [List.flatten_cons, List.length_append, List.foldl_cons, ← List.append_assoc]
      by_cases hc : got.length + c.length < len
      · obtain ⟨hopen, hdone⟩ := ih (h.post c hc) (by simpa using hc)
        simp only [List.length_append] at hopen hdone
        exact ⟨fun hlt => hopen (by omega), fun heq => hdone (by omega)⟩
      · refine ⟨fun hlt => absurd hlt (by omega), fun heq => ?_⟩
        -- this buffer brings the last byte, so what follows it is empty
        have hnil : chunks.flatten = [] := List.eq_nil_of_length_eq_zero (by omega)
        rw [h.post_last (by omega) c (by omega), foldl_post_closed rfl, hnil]
        simp

variable (exec args) in
/-- Before the last byte there is no answer. -/
theorem uploadRun_open {len : ℕ} {chunks : List Bytes} (h : chunks.flatten.length < len)
    (w : ω) : AtBody exec args len w chunks.flatten (uploadRun exec args len chunks w) := by
  simpa [uploadRun] using
    (foldl_post chunks (atBody_opened len w) (by simp; omega)).1 (by simpa using h)

variable (exec args) in
/-- With the last byte the session ends, in the state the loop reaches on the whole body. -/
theorem uploadRun_done {len : ℕ} (hpos : 0 < len) {chunks : List Bytes}
    (h : chunks.flatten.length = len) (w : ω) :
    uploadRun exec args len chunks w =
      (⟨args, len, chunks.flatten, some (uploadBody exec args len w chunks.flatten).1,
        uploadResponse (uploadBody exec args len w chunks.flatten).1, true⟩,
        (uploadBody exec args len w chunks.flatten).2) := by
  simpa [uploadRun] using
    (foldl_post chunks (atBody_opened len w) (by simpa using hpos)).2 (by simpa using h)

/-- Buffers without a byte in them do nothing to the world. -/
lemma uploadRun_empty {len : ℕ} {chunks : List Bytes} (h : chunks.flatten = []) (w : ω) :
    (uploadRun exec args len chunks w).2 = w := by
  have hpost : ∀ p : UploadConn × ω, (UploadConn.post exec p []).2 = p.2 := by
    intro p
    by_cases hclosed : p.1.closed = true
    · rw [UploadConn.post, if_pos hclosed]
    · simp [UploadConn.post, hclosed, cgiUploadFile, uploadFeed_nil]
      split_ifs <;> rfl
  have hnil : ∀ c ∈ chunks, c = [] := by simpa using h
  rw [uploadRun]
  generalize UploadConn.opened args len = u
  induction chunks generalizing u w with
  | nil => rfl
  | cons c chunks ih =>
      obtain rfl : c = [] := hnil c (by simp)
      rw [List.foldl_cons]
      exact (ih (by simpa using h) _ (fun c hc => hnil c (by simp [hc])) _).trans (hpost (u, w))

/-- What a session does to the world, complete or not. -/
lemma uploadRun_world {len : ℕ} (hpos : 0 < len) {chunks : List Bytes}
    (h : chunks.flatten.length ≤ len) (w : ω) :
    (uploadRun exec args len chunks w).2 = (uploadBody exec args len w chunks.flatten).2 := by
  rcases h.lt_or_eq with hlt | heq
  · exact (uploadRun_open exec args hlt w).world
  · rw [uploadRun_done exec args hpos heq]

/-! ## Uploads of one page -/

/-- The flush of the only page. -/
lemma uploadFlush_page {st : UploadState} (hadr : st.address = 0) (hlen : st.len = 0)
    {body : Bytes} (hdata : st.pageData.take st.pagePos = body) {w₁ w₂ w₃ w₄ : ω}
    {e₂ e₃ e₄ : Handle}
    (herase : exec (.erase st.fd 0 spiFlashEraseSize) w₁ = (⟨espOk, e₂⟩, w₂))
    (hwrite : exec (.write st.fd 0 body) w₂ = (⟨espOk, e₃⟩, w₃))
    (hrename : exec (.rename uploadTempName (cString st.name)) w₃ = (⟨espOk, e₄⟩, w₄)) :
    (uploadFlush exec st w₁).1.state = .done ∧ (uploadFlush exec st w₁).2 = w₄ := by
  have he : uploadErase exec st w₁ = (st, w₂) := by simp [uploadErase, hadr, herase]
  have hw : uploadWrite exec st w₂ = (st, w₃) := by simp [uploadWrite, hadr, hdata, hwrite]
  simp [uploadFlush, he, hw, hlen, uploadRename, hrename]

/-- **A body that fits into one page**, when every call succeeds: create, erase, write, rename. -/
lemma uploadBody_page {body : Bytes} (hbody : body ≠ []) (hpage : body.length ≤ pageLen) (w : ω)
    {name : Bytes} (hname : (httpdFindArg args "name" [] 512).2 = name) {fd : Handle}
    {w₁ w₂ w₃ w₄ : ω} {e₂ e₃ e₄ : Handle}
    (hcreate : exec (.createFile uploadTempName body.length) w = (⟨espOk, fd⟩, w₁))
    (herase : exec (.erase fd 0 spiFlashEraseSize) w₁ = (⟨espOk, e₂⟩, w₂))
    (hwrite : exec (.write fd 0 body) w₂ = (⟨espOk, e₃⟩, w₃))
    (hrename : exec (.rename uploadTempName (cString name)) w₃ = (⟨espOk, e₄⟩, w₄)) :
    (uploadBody exec args body.length w body).1.state = .done ∧
    (uploadBody exec args body.length w body).2 = w₄ := by
  have hlen : 0 < body.length := List.length_pos_of_ne_nil hbody
  have hinit := UploadState.initial_ok
  rw [uploadBody, uploadFeed_start hlen hinit rfl hbody]
  rcases uploadStart_cases exec args body.length .initial w with ⟨herr, _⟩ | ⟨_, err, heq⟩
  · rw [hcreate] at herr
    exact absurd rfl herr
  · rw [heq, hcreate]
    have hok : (uploadStart exec args body.length .initial w).1.Ok :=
      (uploadStart_ok exec hlen hinit rfl w).1
    rw [heq, hcreate] at hok
    have hleft : (({ UploadState.initial with
        name := (httpdFindArg args "name" UploadState.initial.name 512).2, fd := fd, err := err,
        len := body.length, address := 0, state := .write } : UploadState).lenLeft)
        = body.length := by
      rw [UploadState.lenLeft_eq]
      show min body.length (pageLen - 0) = body.length
      omega
    rw [uploadFeed_flush hlen hok rfl hleft.le, hleft, List.take_length, List.drop_length]
    show (uploadFeed exec args body.length (uploadFlush exec _ w₁) []).1.state = .done ∧ _
    rw [uploadFeed_nil]
    subst hname
    refine uploadFlush_page rfl (Nat.sub_self _) ?_ herase hwrite hrename
    show (memcpy UploadState.initial.pageData 0 body).take (0 + body.length) = body
    rw [take_memcpy (Nat.zero_le _), List.take_zero, List.nil_append]

/-- The answer to an upload that went well: status 200 and an empty body. -/
def uploadOkResponse : List HttpCall :=
  [.startResponse 200, .header (ascii "Content-Type") (ascii "text/plain"), .endHeaders]

lemma uploadResponse_done {st : UploadState} (h : st.state = .done) :
    uploadResponse st = uploadOkResponse := by
  simp [uploadResponse, uploadOkResponse, h]

variable (args) in
/-- The same as a session on a device that is recorded. -/
lemma uploadRun_page {σ : Type} (A : Appfs σ) (body : Bytes) (hbody : body ≠ [])
    (hpage : body.length ≤ pageLen) (s : σ) (name : Bytes)
    (hname : (httpdFindArg args "name" [] 512).2 = name) {fd : Handle} {s₁ s₂ s₃ s₄ : σ}
    {e₂ e₃ e₄ : Handle}
    (hcreate : A.exec (.createFile uploadTempName body.length) s = (⟨espOk, fd⟩, s₁))
    (herase : A.exec (.erase fd 0 spiFlashEraseSize) s₁ = (⟨espOk, e₂⟩, s₂))
    (hwrite : A.exec (.write fd 0 body) s₂ = (⟨espOk, e₃⟩, s₃))
    (hrename : A.exec (.rename uploadTempName (cString name)) s₃ = (⟨espOk, e₄⟩, s₄)) :
    (uploadRun (record A.exec) args body.length [body] (s, [])).1.sent = uploadOkResponse ∧
    (uploadRun (record A.exec) args body.length [body] (s, [])).2 = (s₄,
      [⟨.createFile uploadTempName body.length, ⟨espOk, fd⟩, s, s₁⟩,
        ⟨.erase fd 0 spiFlashEraseSize, ⟨espOk, e₂⟩, s₁, s₂⟩, ⟨.write fd 0 body, ⟨espOk, e₃⟩, s₂, s₃⟩,
        ⟨.rename uploadTempName (cString name), ⟨espOk, e₄⟩, s₃, s₄⟩]) := by
  have hlen : 0 < body.length := List.length_pos_of_ne_nil hbody
  have hflat : [body].flatten = body := by simp
  have hrun := uploadRun_done (record A.exec) args hlen (by rw [hflat]) (s, [])
  rw [hflat] at hrun
  obtain ⟨hdone, hw⟩ := uploadBody_page hbody hpage (s, []) hname
    (record_eq hcreate []) (record_eq herase _) (record_eq hwrite _) (record_eq hrename _)
  rw [hrun]
  exact ⟨uploadResponse_done hdone, hw⟩

end Run

end Chooser
