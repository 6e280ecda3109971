import Chooser.UploadFile

/-!
# Uploads whose calls fail

An upload of `len` bytes makes its calls at fixed places: the create first, then for each page a
write, with an erase in front of every other one, then the rename.  So the pattern of successes
and failures alone says how a session ends (`CallTrace`), and the handler can be judged on it.

A failure should end the session in `FLST_ERROR`, with no rename after it.  It does, with one
exception: `uploadFlush` goes on to `FLST_DONE` after the last page without looking at what erase
and write have left in the state, so a failure there is forgotten when the rename succeeds
(`LastPageFaultMasked`).
-/

namespace Chooser

open CStr

/-! ## Where the calls stand -/

/-- The number of pages of a body. -/
def pages (len : ℕ) : ℕ := (len + pageLen - 1) / pageLen

/-- The number of calls before page `p` goes out. -/
def callsBefore (p : ℕ) : ℕ := 1 + p + (p + 1) / 2

/-- The first call of the last page. -/
def lastPageCall (len : ℕ) : ℕ := callsBefore (pages len - 1)

/-- The rename. -/
def renameCall (len : ℕ) : ℕ := callsBefore (pages len)

/-- Everything succeeds up to the last page, erasing or writing that fails, the rename succeeds. -/
def LastPageFaultMasked (orc : ℕ → AppfsAnswer) (len : ℕ) : Prop :=
  (∀ k, k < lastPageCall len → (orc k).err = espOk) ∧
  (∃ k, lastPageCall len ≤ k ∧ k < renameCall len ∧ (orc k).err ≠ espOk) ∧
  (orc (renameCall len)).err = espOk

/-- The text that goes with a failed call. -/
def AppfsCall.errorText : AppfsCall → Bytes
  | .createFile _ _ => ascii "App too large for free space"
  | .erase _ _ _ => ascii "AppfsErase failed"
  | .write _ _ _ => ascii "AppfsWrite failed"
  | .rename _ _ => ascii "Rename failed"
  | .deleteFile _ => []

def AppfsCall.IsRename (c : AppfsCall) : Prop := ∃ old new, c = .rename old new

/-- The calls made so far and what they answered: one failed with the text `err`, and no rename
succeeded. -/
structure FailedTrace (orc : ℕ → AppfsAnswer) (calls : List AppfsCall) (err : Bytes) : Prop where
  failed : ∃ k c, calls[k]? = some c ∧ (orc k).err ≠ espOk ∧ err = c.errorText
  no_rename : ∀ k c, calls[k]? = some c → c.IsRename → (orc k).err ≠ espOk

/-- What the pattern of results says about a session in each of its states. -/
structure CallTrace (orc : ℕ → AppfsAnswer) (len : ℕ) (got : Bytes) (st : UploadState)
    (calls : List AppfsCall) : Prop where
  ok : st.Ok
  started : st.state ≠ .start
  write : st.state = .write → Counters len got st ∧
    calls.length = callsBefore (st.address / pageLen) ∧
    (∀ k, k < calls.length → (orc k).err = espOk) ∧ ∀ c ∈ calls, ¬ c.IsRename
  done : st.state = .done → len ≤ got.length ∧ calls.length = renameCall len + 1 ∧
    (∀ k, k < lastPageCall len → (orc k).err = espOk) ∧ (orc (renameCall len)).err = espOk ∧
    ∃ old new, calls[renameCall len]? = some (.rename old new)
  error : st.state = .error → FailedTrace orc calls st.err ∧ ¬ LastPageFaultMasked orc len

/-- A page has been erased and written: the calls that were added, and the state. -/
structure PageTrace (orc : ℕ → AppfsAnswer) (st st' : UploadState) (calls calls' : List AppfsCall) :
    Prop where
  added : ∃ new, calls' = calls ++ new ∧ (∀ c ∈ new, ¬ c.IsRename) ∧
    new.length = if st.address / pageLen % 2 = 0 then 2 else 1
  out : st' = st ∧ (∀ k, calls.length ≤ k → k < calls'.length → (orc k).err = espOk) ∨
    ∃ k c, calls.length ≤ k ∧ calls'[k]? = some c ∧ (orc k).err ≠ espOk ∧
      st' = { st with err := c.errorText, state := .error }

variable {orc : ℕ → AppfsAnswer} {args : Args}

/-- The block test of the handler asks whether the page number is even. -/
lemma block_iff {adr : ℕ} (h : pageLen ∣ adr) :
    adr &&& (spiFlashEraseSize - 1) = 0 ↔ adr / pageLen % 2 = 0 := by
  have hmod : adr &&& (spiFlashEraseSize - 1) = adr % spiFlashEraseSize := by
    simpa [spiFlashEraseSize] using Nat.and_two_pow_sub_one_eq_mod adr 15
  rw [hmod]
  simp only [spiFlashEraseSize, pageLen] at h ⊢
  omega

lemma uploadWrite_trace (st : UploadState) (calls : List AppfsCall) :
    let c : AppfsCall := .write st.fd st.address (st.pageData.take st.pagePos)
    (uploadWrite (oracleExec orc) st calls).2 = calls ++ [c] ∧
    ((orc calls.length).err = espOk ∧ (uploadWrite (oracleExec orc) st calls).1 = st ∨
      (orc calls.length).err ≠ espOk ∧ (uploadWrite (oracleExec orc) st calls).1
        = { st with err := c.errorText, state := .error }) := by
  intro c
  refine ⟨rfl, ?_⟩
  by_cases hok : (orc calls.length).err = espOk
  · exact Or.inl ⟨hok, by simp [uploadWrite, oracleExec, hok]⟩
  · exact Or.inr ⟨hok, by simp [uploadWrite, oracleExec, hok, UploadState.fail, c,
      AppfsCall.errorText]⟩

/-- The erase at the start of a block. -/
lemma uploadErase_trace {st : UploadState} (hblock : st.address &&& (spiFlashEraseSize - 1) = 0)
    (calls : List AppfsCall) :
    let c : AppfsCall := .erase st.fd st.address spiFlashEraseSize
    (uploadErase (oracleExec orc) st calls).2 = calls ++ [c] ∧
    ((orc calls.length).err = espOk ∧ (uploadErase (oracleExec orc) st calls).1 = st ∨
      (orc calls.length).err ≠ espOk ∧ (uploadErase (oracleExec orc) st calls).1
        = { st with err := c.errorText, state := .error }) := by
  intro c
  refine ⟨by simp [uploadErase, hblock, oracleExec, c], ?_⟩
  by_cases hok : (orc calls.length).err = espOk
  · exact Or.inl ⟨hok, by simp [uploadErase, hblock, oracleExec, hok]⟩
  · exact Or.inr ⟨hok, by simp [uploadErase, hblock, oracleExec, hok, UploadState.fail, c,
      AppfsCall.errorText]⟩

variable (orc) in
lemma uploadPage_trace {st : UploadState} (hadr : pageLen ∣ st.address) (calls : List AppfsCall) :
    PageTrace orc st
      (uploadWrite (oracleExec orc) (uploadErase (oracleExec orc) st calls).1
        (uploadErase (oracleExec orc) st calls).2).1 calls
      (uploadWrite (oracleExec orc) (uploadErase (oracleExec orc) st calls).1
        (uploadErase (oracleExec orc) st calls).2).2 := by
  by_cases hblock : st.address &&& (spiFlashEraseSize - 1) = 0
  · have heven := (block_iff hadr).mp hblock
    obtain ⟨hcalls, herase⟩ := uploadErase_trace hblock calls
    obtain ⟨hw, hwrite⟩ := uploadWrite_trace (uploadErase (oracleExec orc) st calls).1
      (uploadErase (oracleExec orc) st calls).2
    rw [hw, hcalls]
    rw [hcalls] at hwrite
    rcases herase with ⟨hok, hst⟩ | ⟨hbad, hst⟩
    · rw [hst] at hwrite ⊢
      refine ⟨⟨[.erase st.fd st.address spiFlashEraseSize,
        .write st.fd st.address (st.pageData.take st.pagePos)], by simp,
        by simp [AppfsCall.IsRename], by simp [heven]⟩, ?_⟩
      rcases hwrite with ⟨hok', hst'⟩ | ⟨hbad, hst'⟩
      · refine Or.inl ⟨hst', fun k hlo hhi => ?_⟩
        simp only [List.length_append, List.length_singleton] at hok' hhi
        obtain rfl | rfl : k = calls.length ∨ k = calls.length + 1 := by omega
        · exact hok
        · exact hok'
      · exact Or.inr ⟨_, _, by simp, List.getElem?_concat_length, hbad, hst'⟩
    · -- the write is made even though the erase failed
      rw [hst] at hwrite ⊢
      refine ⟨⟨[.erase st.fd st.address spiFlashEraseSize,
        .write st.fd st.address (st.pageData.take st.pagePos)], by simp,
        by simp [AppfsCall.IsRename], by simp [heven]⟩, Or.inr ?_⟩
      rcases hwrite with ⟨_, hst'⟩ | ⟨hbad', hst'⟩
      · exact ⟨calls.length, .erase st.fd st.address spiFlashEraseSize, le_rfl, by simp, hbad, hst'⟩
      · exact ⟨_, _, by simp, List.getElem?_concat_length, hbad', hst'⟩
  · have hodd : ¬ st.address / pageLen % 2 = 0 := fun h => hblock ((block_iff hadr).mpr h)
    have hsame : uploadErase (oracleExec orc) st calls = (st, calls) := by
      simp [uploadErase, hblock]
    rw [hsame]
    obtain ⟨hw, hout⟩ := uploadWrite_trace st calls
    rw [hw]
    refine ⟨⟨[.write st.fd st.address (st.pageData.take st.pagePos)], rfl,
      by simp [AppfsCall.IsRename], by simp [hodd]⟩, ?_⟩
    rcases hout with ⟨hok, hst⟩ | ⟨hbad, hst⟩
    · refine Or.inl ⟨hst, fun k hlo hhi => ?_⟩
      simp only [List.length_append, List.length_singleton] at hhi
      obtain rfl : k = calls.length := by omega
      exact hok
    · exact Or.inr ⟨_, _, le_rfl, List.getElem?_concat_length, hbad, hst⟩

/-! ## The trace of a session -/

lemma PageTrace.no_rename {st st' : UploadState} {calls calls' : List AppfsCall}
    (h : PageTrace orc st st' calls calls') (hren : ∀ c ∈ calls, ¬ c.IsRename) :
    ∀ c ∈ calls', ¬ c.IsRename := by
  intro c hc
  obtain ⟨new, rfl, hnew, _⟩ := h.added
  rcases List.mem_append.mp hc with hmem | hmem
  · exact hren c hmem
  · exact hnew c hmem

lemma FailedTrace.of_page {calls calls' : List AppfsCall} {st st' : UploadState}
    (h : PageTrace orc st st' calls calls') (hcalls : ∀ c ∈ calls, ¬ c.IsRename) {k : ℕ}
    {c : AppfsCall} (hk : calls'[k]? = some c) (hbad : (orc k).err ≠ espOk) :
    FailedTrace orc calls' c.errorText where
  failed := ⟨k, c, hk, hbad, rfl⟩
  no_rename _ d hj hd := absurd hd (h.no_rename hcalls d (List.mem_of_getElem? hj))

/-- The page that is going out, by the counters. -/
lemma Counters.page_number {len : ℕ} {got : Bytes} {st : UploadState} (h : Counters len got st)
    (hpos : 0 < st.pagePos) (hpage : st.pagePos ≤ pageLen)
    (hfull : st.len = 0 ∨ st.pagePos = pageLen) :
    (st.len = 0 → st.address / pageLen + 1 = pages len) ∧
    (st.len ≠ 0 → st.address / pageLen + 1 < pages len) := by
  have hadr := h.adr
  have hsum := h.sum
  simp only [pages, pageLen] at *
  omega

lemma length_page {st st' : UploadState} {calls calls' : List AppfsCall}
    (h : PageTrace orc st st' calls calls')
    (hlen : calls.length = callsBefore (st.address / pageLen)) :
    calls'.length = callsBefore (st.address / pageLen + 1) := by
  obtain ⟨new, rfl, _, hnew⟩ := h.added
  rw [List.length_append, hlen, hnew, callsBefore, callsBefore]
  split_ifs <;> omega

lemma callsBefore_mono {p q : ℕ} (h : p ≤ q) : callsBefore p ≤ callsBefore q := by
  simp only [callsBefore]
  omega

/-- A first rename that fails. -/
lemma FailedTrace.of_rename {calls : List AppfsCall} (hren : ∀ c ∈ calls, ¬ c.IsRename)
    {old new : Bytes} (hbad : (orc calls.length).err ≠ espOk) :
    FailedTrace orc (calls ++ [.rename old new]) (AppfsCall.rename old new).errorText where
  failed := ⟨_, _, List.getElem?_concat_length, hbad, rfl⟩
  no_rename := by
    intro k c hk hcren
    obtain hlt | hge := Nat.lt_or_ge k calls.length
    · rw [List.getElem?_append_left hlt] at hk
      exact absurd hcren (hren c (List.mem_of_getElem? hk))
    · have hk' := (List.getElem?_eq_some_iff.mp hk).1
      rw [List.length_append, List.length_singleton] at hk'
      obtain rfl : k = calls.length := by omega
      exact hbad

/-- **A page in the middle.** A failure there ends the session. -/
lemma CallTrace.nextPage {len : ℕ} {got : Bytes} {st st' : UploadState}
    {calls calls' : List AppfsCall} (h : PageTrace orc st st' calls calls')
    (hstate : st.state = .write) (hc : Counters len got st) (hfull : st.pagePos = pageLen)
    (hlen : st.len ≠ 0) (hcalls : calls.length = callsBefore (st.address / pageLen))
    (hok : ∀ k, k < calls.length → (orc k).err = espOk) (hren : ∀ c ∈ calls, ¬ c.IsRename) :
    CallTrace orc len got { st' with address := st'.address + pageLen, pagePos := 0 } calls' := by
  have hpos : 0 < pageLen := by simp [pageLen]
  have hpage := (hc.page_number (by omega) hfull.le (Or.inr hfull)).2 hlen
  have hlength := length_page h hcalls
  rcases h.out with ⟨rfl, hgood⟩ | ⟨k, c, hlo, hk, hbad, rfl⟩
  · refine ⟨⟨hc.page, fun hs => by simp [hstate] at hs, fun _ => ⟨hpos, Nat.pos_of_ne_zero hlen⟩⟩,
      by simp [hstate], fun _ => ⟨hc.next hfull st'.err st'.state, ?_, ?_, h.no_rename hren⟩,
      fun hs => by simp [hstate] at hs, fun hs => by simp [hstate] at hs⟩
    · rw [hlength, Nat.add_div_right _ hpos]
    · intro k hk
      by_cases hk' : k < calls.length
      · exact hok k hk'
      · exact hgood k (by omega) hk
  · refine ⟨⟨hc.page, fun hs => by simp at hs, fun hs => by simp at hs⟩, by simp,
      fun hs => by simp at hs, fun hs => by simp at hs, fun _ => ⟨.of_page h hren hk hbad, ?_⟩⟩
    rintro ⟨hbefore, _⟩
    -- the call that failed belongs to a page before the last
    have hk' : k < calls'.length := (List.getElem?_eq_some_iff.mp hk).1
    refine hbad (hbefore k (lt_of_lt_of_le hk' ?_))
    rw [hlength]
    exact callsBefore_mono (by omega)

/-- **The last page, and the rename.** -/
lemma CallTrace.lastPage {len : ℕ} {got : Bytes} {st st' : UploadState}
    {calls calls' : List AppfsCall} (h : PageTrace orc st st' calls calls')
    (hc : Counters len got st) (hpos : 0 < st.pagePos) (hpage : st.pagePos ≤ pageLen)
    (hlen : st.len = 0) (hcalls : calls.length = callsBefore (st.address / pageLen))
    (hok : ∀ k, k < calls.length → (orc k).err = espOk) (hren : ∀ c ∈ calls, ¬ c.IsRename) :
    CallTrace orc len got
      (uploadRename (oracleExec orc) { st' with address := st'.address + pageLen, pagePos := 0 }
        calls').1
      (uploadRename (oracleExec orc) { st' with address := st'.address + pageLen, pagePos := 0 }
        calls').2 := by
  have hnumber := (hc.page_number hpos hpage (Or.inl hlen)).1 hlen
  have hlength : calls'.length = renameCall len := by
    rw [length_page h hcalls, hnumber, renameCall]
  have hlast : calls.length = lastPageCall len := by
    rw [hcalls, lastPageCall, ← hnumber, Nat.add_sub_cancel]
  have hdata : st'.pageData.length = pageLen := by
    rcases h.out with ⟨rfl, _⟩ | ⟨_, _, _, _, _, rfl⟩
    · exact hc.page
    · exact hc.page
  have hcount := hc.count
  have hsum := hc.sum
  have hcalled : (uploadRename (oracleExec orc)
      { st' with address := st'.address + pageLen, pagePos := 0 } calls').2
      = calls' ++ [.rename uploadTempName (cString st'.name)] := rfl
  rw [hcalled]
  by_cases hr : (orc calls'.length).err = espOk
  · have heq : (uploadRename (oracleExec orc)
        { st' with address := st'.address + pageLen, pagePos := 0 } calls').1
        = { st' with address := st'.address + pageLen, pagePos := 0, state := .done } := by
      simp [uploadRename, oracleExec, hr]
    rw [heq]
    refine ⟨⟨hdata, fun hs => by simp at hs, fun hs => by simp at hs⟩, by simp,
      fun hs => by simp at hs, fun _ => ⟨by omega, by simp [hlength], ?_, ?_, ?_⟩,
      fun hs => by simp at hs⟩
    · rw [← hlast]
      exact hok
    · rw [← hlength]
      exact hr
    · rw [← hlength]
      exact ⟨_, _, List.getElem?_concat_length⟩
  · have heq : (uploadRename (oracleExec orc)
        { st' with address := st'.address + pageLen, pagePos := 0 } calls').1
        = { st' with
            address := st'.address + pageLen
            pagePos := 0
            err := ascii "Rename failed"
            state := .error } := by
      simp [uploadRename, oracleExec, hr, UploadState.fail]
    rw [heq]
    refine ⟨⟨hdata, fun hs => by simp at hs, fun hs => by simp at hs⟩, by simp,
      fun hs => by simp at hs, fun hs => by simp at hs,
      fun _ => ⟨.of_rename (h.no_rename hren) hr, ?_⟩⟩
    rintro ⟨_, _, hgood⟩
    rw [← hlength] at hgood
    exact hr hgood

variable (args) in
/-- **One byte.** -/
lemma CallTrace.byte {len : ℕ} (hlen : 0 < len) {got : Bytes} {st : UploadState}
    {calls : List AppfsCall} (h : CallTrace orc len got st calls) (x : UInt8) :
    CallTrace orc len (got ++ [x]) (uploadFeed (oracleExec orc) args len (st, calls) [x]).1
      (uploadFeed (oracleExec orc) args len (st, calls) [x]).2 := by
  cases hs : st.state with
  | start => exact absurd hs h.started
  | write =>
      obtain ⟨hc, hlength, hok, hren⟩ := h.write hs
      have hroom := h.ok.room hs
      have hleft := st.lenLeft_eq
      by_cases hone : st.lenLeft = 1
      · rw [uploadFeed_flush hlen h.ok hs (by simp [hone]), hone]
        show CallTrace orc len _ (uploadFeed _ args len
          (uploadFlush _ (st.copy [x]) calls) []).1 (uploadFeed _ args len
          (uploadFlush _ (st.copy [x]) calls) []).2
        rw [uploadFeed_nil]
        have hc' : Counters len (got ++ [x]) (st.copy [x]) :=
          hc.copy (by simp; omega) (by simp; omega)
        have hpage := uploadPage_trace orc hc'.adr calls
        rw [uploadFlush]
        generalize uploadErase (oracleExec orc) (st.copy [x]) calls = e at hpage
        generalize uploadWrite (oracleExec orc) e.1 e.2 = r at hpage
        obtain ⟨st₂, calls₂⟩ := r
        have hlen₂ : st₂.len = (st.copy [x]).len := by
          rcases hpage.out with ⟨heq, _⟩ | ⟨_, _, _, _, _, heq⟩
          · rw [← heq]
          · rw [show st₂ = _ from heq]
        by_cases hzero : (st.copy [x]).len = 0
        · rw [if_pos (by rw [← hzero]; exact hlen₂)]
          exact .lastPage hpage hc' (by simp) (by simp; omega) hzero hlength hok hren
        · rw [if_neg (by rw [← hlen₂] at hzero; exact hzero)]
          refine .nextPage hpage hs hc' ?_ hzero hlength hok hren
          simp only [copy_len, copy_pagePos, List.length_singleton] at hzero ⊢
          omega
      · have hlt : ([x] : Bytes).length < st.lenLeft := by
          simp only [List.length_singleton]
          omega
        rw [uploadFeed_copy hlen h.ok hs hlt]
        refine ⟨h.ok.copy hs hlt, by simp [hs], fun _ => ⟨hc.copy ?_ ?_, hlength, hok, hren⟩,
          fun hd => by simp [hs] at hd, fun he => by simp [hs] at he⟩
        · simp only [List.length_singleton]
          omega
        · simp only [List.length_singleton]
          omega
  | done =>
      rw [uploadFeed_stopped hlen h.ok (Or.inl hs)]
      refine ⟨h.ok, h.started, fun hw => by simp [hs] at hw, fun _ => ?_, h.error⟩
      obtain ⟨hcount, hrest⟩ := h.done hs
      exact ⟨by simp; omega, hrest⟩
  | error =>
      rw [uploadFeed_stopped hlen h.ok (Or.inr hs)]
      exact ⟨h.ok, h.started, fun hw => by simp [hs] at hw, fun hd => by simp [hs] at hd, h.error⟩

lemma CallTrace.feed {len : ℕ} (hlen : 0 < len) (xs : Bytes) :
    ∀ {got : Bytes} {st : UploadState} {calls : List AppfsCall},
    CallTrace orc len got st calls →
    CallTrace orc len (got ++ xs) (uploadFeed (oracleExec orc) args len (st, calls) xs).1
      (uploadFeed (oracleExec orc) args len (st, calls) xs).2 := by
  induction xs with
  | nil =>
      intro got st calls h
      rw [uploadFeed_nil, List.append_nil]
      exact h
  | cons x xs ih =>
      intro got st calls h
      rw [(uploadFeed_splittable hlen).cons x xs h.ok]
      have hstep := ih (h.byte args hlen x)
      rwa [List.append_assoc] at hstep

/-- The create: the first call. -/
lemma CallTrace.start {len : ℕ} (hlen : 0 < len) :
    CallTrace orc len [] (uploadStart (oracleExec orc) args len .initial []).1
      (uploadStart (oracleExec orc) args len .initial []).2 := by
  have hinit := UploadState.initial_ok
  have hpages : 1 ≤ pages len := by
    rw [pages, Nat.le_div_iff_mul_le (by simp [pageLen])]
    omega
  rcases uploadStart_cases (oracleExec orc) args len .initial [] with ⟨herr, heq⟩ | ⟨hok, err, heq⟩
  · rw [heq]
    refine ⟨⟨hinit.page, fun hs => by simp at hs, fun hs => by simp at hs⟩, by simp,
      fun hs => by simp at hs, fun hs => by simp at hs, fun _ => ⟨⟨⟨0, _, rfl, herr, rfl⟩, ?_⟩, ?_⟩⟩
    · intro k c hk hren
      have hlt := (List.getElem?_eq_some_iff.mp hk).1
      obtain rfl : k = 0 := by simpa [oracleExec] using hlt
      exact herr
    · rintro ⟨hbefore, _⟩
      exact herr (hbefore 0 (by simp only [lastPageCall, callsBefore]; omega))
  · rw [heq]
    refine ⟨⟨hinit.page, fun hs => by simp at hs,
      fun _ => ⟨(by simp [pageLen] : 0 < pageLen), hlen⟩⟩, by simp, fun _ => ⟨⟨hinit.page,
      dvd_zero pageLen, (by omega : 0 + 0 + len = len), rfl, rfl⟩,
      by simp [oracleExec, callsBefore], ?_, by simp [oracleExec, AppfsCall.IsRename]⟩,
      fun hs => by simp at hs, fun hs => by simp at hs⟩
    intro k hk
    obtain rfl : k = 0 := by simpa [oracleExec] using hk
    exact hok

variable (orc args) in
/-- **The trace of a session that gets a body.** -/
theorem uploadBody_trace {len : ℕ} (hlen : 0 < len) {body : Bytes} (hbody : body ≠ []) :
    CallTrace orc len body (uploadBody (oracleExec orc) args len [] body).1
      (uploadBody (oracleExec orc) args len [] body).2 := by
  rw [uploadBody, uploadFeed_start hlen UploadState.initial_ok rfl hbody]
  simpa using (CallTrace.start hlen).feed hlen body

/-- A session that has received all of its body has stopped writing. -/
lemma CallTrace.stopped {len : ℕ} {body : Bytes} {st : UploadState} {calls : List AppfsCall}
    (h : CallTrace orc len body st calls) (hlen : body.length = len) :
    st.state = .done ∨ st.state = .error := by
  cases hs : st.state with
  | start => exact absurd hs h.started
  | write =>
      have hroom := h.ok.room hs
      obtain ⟨hc, _⟩ := h.write hs
      have hcount := hc.count
      have hsum := hc.sum
      omega
  | done => exact Or.inl rfl
  | error => exact Or.inr rfl

/-! ## What a failure should lead to -/

/-- The response of a session that ended with the error `text`. -/
def uploadErrorResponse (text : Bytes) : List HttpCall :=
  [.startResponse 400, .header (ascii "Content-Type") (ascii "text/plain"), .endHeaders,
    .send (ascii "Upload error:") (-1), .send text (-1), .send (ascii "\n") (-1)]

/-- Whenever a call has failed, no rename succeeds from then on, the session ends in `FLST_ERROR`,
and the response is a 400 with the text of a failed call. -/
def FailureAtomic (orc : ℕ → AppfsAnswer) (p : UploadConn × List AppfsCall) : Prop :=
  ∀ k, k < p.2.length → (orc k).err ≠ espOk →
    (∀ j c, k ≤ j → p.2[j]? = some c → c.IsRename → (orc j).err ≠ espOk) ∧
    (∃ st, p.1.cgiData = some st ∧ st.state = .error) ∧
    ∃ j c, p.2[j]? = some c ∧ (orc j).err ≠ espOk ∧ p.1.sent = uploadErrorResponse c.errorText

lemma failureAtomic_iff {body : Bytes} (hbody : body ≠ []) {chunks : List Bytes}
    (h : chunks.flatten = body) :
    FailureAtomic orc (uploadRun (oracleExec orc) args body.length chunks []) ↔
      ¬ LastPageFaultMasked orc body.length := by
  subst h
  have hlen : 0 < chunks.flatten.length := List.length_pos_of_ne_nil hbody
  have htrace := uploadBody_trace orc args hlen hbody
  rw [uploadRun_done _ _ hlen rfl]
  generalize uploadBody (oracleExec orc) args chunks.flatten.length [] chunks.flatten = r
    at htrace
  obtain ⟨st, calls⟩ := r
  obtain hs | hs : st.state = .done ∨ st.state = .error := htrace.stopped rfl
  · obtain ⟨_, hlength, hbefore, hrename, old, new, hcall⟩ := htrace.done hs
    simp only at hlength
    constructor
    · rintro hatomic ⟨_, ⟨k, _, hk, hbad⟩, _⟩
      obtain ⟨hren, _⟩ := hatomic k (by simp only; omega) hbad
      exact hren _ _ hk.le hcall ⟨old, new, rfl⟩ hrename
    · intro hmask k hk hbad
      simp only at hk
      -- a failure in a finished session can only be on the last page
      refine absurd ⟨hbefore, ⟨k, ?_, ?_, hbad⟩, hrename⟩ hmask
      · by_contra hlt
        exact hbad (hbefore k (by omega))
      · have hne : k ≠ renameCall chunks.flatten.length := by
          rintro rfl
          exact hbad hrename
        omega
  · obtain ⟨⟨⟨k, c, hk, hbad, htext⟩, hren⟩, hmask⟩ := htrace.error hs
    refine ⟨fun _ => hmask, fun _ _ _ _ => ⟨fun j d _ => hren j d, ⟨st, rfl, hs⟩, k, c, hk,
      hbad, ?_⟩⟩
    simp only at htext
    simp [uploadResponse, uploadErrorResponse, hs, ← htext]

/-- **An upload fails as a whole, unless the failure is on the last page.**  For every pattern of
results and every body, in whatever buffers it comes: a failed call is followed by `FLST_ERROR`,
status 400 and no rename, exactly when it is not an erase or write of the last page whose failure
the rename forgets.  And on every device, a session without a successful rename leaves everything
as it was under all names but the one of the temporary file. -/
theorem cgiUploadFile_failure_atomic (orc : ℕ → AppfsAnswer) (args : Args) {body : Bytes}
    (hbody : body ≠ []) {chunks : List Bytes} (h : chunks.flatten = body) :
    (FailureAtomic orc (uploadRun (oracleExec orc) args body.length chunks []) ↔
      ¬ LastPageFaultMasked orc body.length) ∧
    ∀ {σ : Type} {A : Appfs σ} {files : σ → Files}, A.Laws files → ∀ s : σ,
      (∀ ev ∈ (uploadRun (record A.exec) args body.length chunks (s, [])).2.2,
        ev.call.IsRename → ev.answer.err ≠ espOk) →
      ∀ n, n ≠ uploadTempName →
        (files s).SameUnder (files (uploadRun (record A.exec) args body.length chunks (s, [])).2.1) n
    := by
  refine ⟨failureAtomic_iff hbody h, fun {σ A files} hA s hren n hn => ?_⟩
  subst h
  have hlen : 0 < chunks.flatten.length := List.length_pos_of_ne_nil hbody
  rw [uploadRun_done _ _ hlen rfl] at hren ⊢
  exact uploadBody_no_rename hA hlen hbody (fun ev hev old new hcall =>
    hren ev hev ⟨old, new, hcall⟩) hn

/-- One byte, and the create fails. -/
theorem cgiUploadFile_failure_atomic_create :
    FailureAtomic (fun k => if k = 0 then ⟨-1, 0⟩ else ⟨espOk, 3⟩)
      (uploadRun (oracleExec fun k => if k = 0 then ⟨-1, 0⟩ else ⟨espOk, 3⟩)
        (fun _ => some (ascii "a.app")) 1 [[7]] []) :=
  (cgiUploadFile_failure_atomic (fun k => if k = 0 then ⟨-1, 0⟩ else ⟨espOk, 3⟩)
    (fun _ => some (ascii "a.app")) (show ([7] : Bytes) ≠ [] by decide) rfl).1.mpr
    fun ⟨hbefore, _⟩ => absurd (hbefore 0 (by decide)) (by decide)

/-- One byte whose write fails: the rename after it succeeds, and so does the upload. -/
theorem cgiUploadFile_not_failure_atomic :
    ¬ ∀ (orc : ℕ → AppfsAnswer) (args : Args) (body : Bytes) (chunks : List Bytes),
      (∃ v, args "name" = some v ∧ v ≠ []) → body ≠ [] → chunks.flatten = body →
      FailureAtomic orc (uploadRun (oracleExec orc) args body.length chunks []) := by
  intro h
  let orc : ℕ → AppfsAnswer := fun k => if k = 2 then ⟨-1, 3⟩ else ⟨espOk, 3⟩
  have hatomic := h orc (fun _ => some (ascii "a.app")) [7] [[7]] ⟨_, rfl, by decide⟩ (by decide)
    rfl
  have hmask : LastPageFaultMasked orc 1 := by
    refine ⟨fun k hk => ?_, ⟨2, by decide, by decide, by decide⟩, by decide⟩
    have hne : k ≠ 2 := by
      have : lastPageCall 1 = 1 := by decide
      omega
    simp [orc, hne]
  exact (failureAtomic_iff (show ([7] : Bytes) ≠ [] by decide) rfl).mp hatomic hmask

end Chooser
