import Chooser.Lib.FlashLog
import Chooser.UploadRun

/-!
# Where an upload erases and writes

The receive loop, iteration by iteration.  `LoopHead` are the points at which `dataLen!=0` is
tested, in a session whose post buffers can be anything: empty, or longer than what is still
expected.  `LoopInv` is what holds at every such point, whatever the calls answer: the counters
account for every byte of the body, and the erases and writes so far are those of a writer that
appends (`FlashLog.Frontier`).

From this, `cgiUploadFile_discipline`: no copy leaves its buffers, the file is written once, from
front to back and inside its own sectors, and the loop of each call ends with its buffer used up.
-/

namespace Chooser

open CStr FlashLog

/-! ## The calls on the flash -/

/-- The range that a call erases or writes. -/
def AppfsCall.flashOp : AppfsCall → Option Op
  | .erase _ adr len => some (.erase adr len)
  | .write _ adr data => some (.write adr data.length)
  | _ => none

/-- The handle whose flash a call erases or writes. -/
def AppfsCall.target : AppfsCall → Option Handle
  | .erase fd _ _ => some fd
  | .write fd _ _ => some fd
  | _ => none

/-- The erases and writes among the calls, in order. -/
def flashOps (calls : List AppfsCall) : List Op := calls.filterMap AppfsCall.flashOp

lemma flashOps_append (calls calls' : List AppfsCall) :
    flashOps (calls ++ calls') = flashOps calls ++ flashOps calls' := by
  simp [flashOps]

section Flush

variable {ω : Type} (exec : Exec ω)

/-- What a flush does to the record, whatever the calls answer. -/
lemma uploadFlush_record (st : UploadState) (w : ω) :
    ∃ err state, (uploadFlush exec st w).1
        = { st with err := err, state := state, address := st.address + pageLen, pagePos := 0 } ∧
      (st.len = 0 → state = .done ∨ state = .error) ∧
      (st.len ≠ 0 → state = st.state ∨ state = .error) := by
  obtain ⟨err, state, heq, hstate⟩ := uploadErase_write_eq exec st w
  unfold uploadFlush
  simp only [heq]
  split_ifs with hlen
  · unfold uploadRename
    dsimp only
    split_ifs
    · exact ⟨_, _, rfl, fun _ => Or.inr rfl, fun h => absurd hlen h⟩
    · exact ⟨_, _, rfl, fun _ => Or.inl rfl, fun h => absurd hlen h⟩
  · exact ⟨err, state, rfl, fun h => absurd h hlen, fun _ => hstate⟩

end Flush

variable {orc : ℕ → AppfsAnswer} {args : Args}

/-- The calls of a flush: an erase in front of a block, the write, the rename at the end. -/
lemma uploadFlush_calls (st : UploadState) (calls : List AppfsCall) :
    (uploadFlush (oracleExec orc) st calls).2 = calls
      ++ (if st.address % spiFlashEraseSize = 0
          then [.erase st.fd st.address spiFlashEraseSize] else [])
      ++ [.write st.fd st.address (st.pageData.take st.pagePos)]
      ++ if st.len = 0 then [.rename uploadTempName (cString st.name)] else [] := by
  have hblock : st.address &&& (spiFlashEraseSize - 1) = st.address % spiFlashEraseSize := by
    simpa [spiFlashEraseSize] using Nat.and_two_pow_sub_one_eq_mod st.address 15
  have herase : (uploadErase (oracleExec orc) st calls).2 = calls
      ++ if st.address % spiFlashEraseSize = 0
        then [.erase st.fd st.address spiFlashEraseSize] else [] := by
    rw [uploadErase, hblock]
    split_ifs
    · rfl
    · exact (List.append_nil calls).symm
  obtain ⟨err, state, heq, _⟩ := uploadErase_write_eq (oracleExec orc) st calls
  have hwrite : (uploadWrite (oracleExec orc) (uploadErase (oracleExec orc) st calls).1
      (uploadErase (oracleExec orc) st calls).2).2 = (uploadErase (oracleExec orc) st calls).2
        ++ [.write st.fd st.address (st.pageData.take st.pagePos)] := by
    rcases uploadErase_eq (oracleExec orc) st calls with he | he
    · rw [he]
      rfl
    · rw [he]
      rfl
  replace hwrite := hwrite.trans (congrArg (· ++ _) herase)
  rw [uploadFlush]
  generalize uploadWrite (oracleExec orc) (uploadErase (oracleExec orc) st calls).1
    (uploadErase (oracleExec orc) st calls).2 = r at *
  obtain ⟨st', calls'⟩ := r
  obtain rfl : st' = _ := heq
  obtain rfl : calls' = _ := hwrite
  by_cases hlen : st.len = 0
  · rw [if_pos hlen, if_pos hlen]
    rfl
  · rw [if_neg hlen, if_neg hlen, List.append_nil]

/-- The operations of a flush of `n` bytes. -/
def flushOps (adr n : ℕ) : List Op :=
  (if adr % spiFlashEraseSize = 0 then [.erase adr spiFlashEraseSize] else []) ++ [.write adr n]

lemma flashOps_uploadFlush (st : UploadState) (calls : List AppfsCall) :
    flashOps (uploadFlush (oracleExec orc) st calls).2
      = flashOps calls ++ flushOps st.address (st.pageData.take st.pagePos).length := by
  have hrename : ∀ p : Prop, [Decidable p] → flashOps (if p
      then [.rename uploadTempName (cString st.name)] else []) = [] := by
    intro p _
    split_ifs <;> rfl
  have herase : flashOps (if st.address % spiFlashEraseSize = 0
      then [.erase st.fd st.address spiFlashEraseSize] else [])
      = if st.address % spiFlashEraseSize = 0
        then [.erase st.address spiFlashEraseSize] else [] := by
    split_ifs <;> rfl
  rw [uploadFlush_calls, flashOps_append, flashOps_append, flashOps_append, hrename, herase,
    List.append_nil, List.append_assoc]
  rfl

/-! ## The loop heads of a session -/

/-- `LoopHead st data calls`: a session can come to the head of the receive loop with the record
`st`, the bytes `data` of the post buffer left, and these calls made. -/
inductive LoopHead (orc : ℕ → AppfsAnswer) (args : Args) (len : ℕ) :
    UploadState → Bytes → List AppfsCall → Prop
  | first (chunk : Bytes) : LoopHead orc args len .initial chunk []
  | iteration {st : UploadState} {data : Bytes} {calls : List AppfsCall}
      (h : LoopHead orc args len st data calls) (hdata : data ≠ []) :
      LoopHead orc args len (uploadIter (oracleExec orc) args len st data calls).1
        (uploadIter (oracleExec orc) args len st data calls).2.1
        (uploadIter (oracleExec orc) args len st data calls).2.2
  | nextCall {st : UploadState} {calls : List AppfsCall} (h : LoopHead orc args len st [] calls)
      (chunk : Bytes) : LoopHead orc args len st chunk calls

/-- From one head of the loop to the one at which it ends. -/
lemma LoopHead.loop {len : ℕ} {n : ℕ} : ∀ {st : UploadState} {data : Bytes}
    {calls : List AppfsCall}, LoopHead orc args len st data calls →
    LoopHead orc args len (uploadLoop (oracleExec orc) args len n st data calls).1
      (uploadLoop (oracleExec orc) args len n st data calls).2.1
      (uploadLoop (oracleExec orc) args len n st data calls).2.2 := by
  induction n with
  | zero => exact fun h => h
  | succ n ih =>
      intro st data calls h
      rw [uploadLoop]
      split_ifs with hdata
      · exact h
      · exact ih (h.iteration hdata)

/-! ## The invariant -/

/-- What holds at every head of the loop. `fd` is the handle that the create answers. -/
structure LoopInv (fd : Handle) (len : ℕ) (st : UploadState) (calls : List AppfsCall) : Prop where
  page : st.pageData.length = pageLen
  fresh : st.state = .start → st.pagePos = 0 ∧ calls = []
  handle : st.state ≠ .start → st.fd = fd
  own : ∀ c ∈ calls, ∀ h, c.target = some h → h = fd
  counters : st.state = .write → pageLen ∣ st.address ∧ st.pagePos < pageLen ∧ 0 < st.len ∧
    st.address + st.pagePos + st.len = len
  log : ∃ e b, Frontier spiFlashEraseSize e b (flashOps calls) ∧ e ≤ len ∧ b ≤ reserved len ∧
    (st.state = .write → e = st.address ∧
      b = if st.address % spiFlashEraseSize = 0 then st.address else st.address + pageLen)

lemma LoopInv.ok {fd : Handle} {len : ℕ} {st : UploadState} {calls : List AppfsCall}
    (h : LoopInv fd len st calls) : st.Ok where
  page := h.page
  fresh hs := (h.fresh hs).1
  room hs := ⟨(h.counters hs).2.1, (h.counters hs).2.2.1⟩

lemma LoopInv.initial (fd : Handle) (len : ℕ) : LoopInv fd len .initial [] where
  page := UploadState.initial_ok.page
  fresh _ := ⟨rfl, rfl⟩
  handle h := absurd rfl h
  own c hc := by simp at hc
  counters hs := by simp [UploadState.initial] at hs
  log := ⟨0, 0, .nil, Nat.zero_le _, Nat.zero_le _, fun hs => by simp [UploadState.initial] at hs⟩

/-- A block that begins inside a file lies in the sectors of the file. -/
lemma block_le_reserved {len adr : ℕ} (hadr : spiFlashEraseSize ∣ adr) (hlt : adr < len) :
    adr + spiFlashEraseSize ≤ reserved len := by
  simp only [spiFlashEraseSize, reserved] at *
  omega

/-- Every other page begins a block. -/
lemma next_block {adr : ℕ} (hadr : pageLen ∣ adr) :
    (adr + pageLen) % spiFlashEraseSize = 0 ↔ adr % spiFlashEraseSize ≠ 0 := by
  simp only [spiFlashEraseSize, pageLen] at *
  omega

/-- **The frontiers after a flush.**  A page is written where the file is erased, in a block that is
erased first if it begins there. -/
lemma frontier_flush {len adr n : ℕ} {ops : List Op} (hadr : pageLen ∣ adr) (hlt : adr < len)
    (hn : n ≤ pageLen) (h : Frontier spiFlashEraseSize adr
      (if adr % spiFlashEraseSize = 0 then adr else adr + pageLen) ops)
    (hres : (if adr % spiFlashEraseSize = 0 then adr else adr + pageLen) ≤ reserved len) :
    ∃ b, Frontier spiFlashEraseSize (adr + n) b (ops ++ flushOps adr n) ∧ b ≤ reserved len ∧
      b = if (adr + pageLen) % spiFlashEraseSize = 0 then adr + pageLen
        else adr + pageLen + pageLen := by
  rw [flushOps]
  rcases em (adr % spiFlashEraseSize = 0) with hblock | hblock
  · have hdvd := Nat.dvd_of_mod_eq_zero hblock
    have hnext : ¬ (adr + pageLen) % spiFlashEraseSize = 0 :=
      fun hnext => (next_block hadr).mp hnext hblock
    have hwhole : adr + spiFlashEraseSize = adr + pageLen + pageLen := by
      rw [Nat.add_assoc]
      rfl
    rw [if_pos hblock] at h
    rw [if_pos hblock, if_neg hnext, ← List.append_assoc]
    refine ⟨_, (h.erase hdvd).write ?_, block_le_reserved hdvd hlt, hwhole⟩
    omega
  · rw [if_neg hblock] at h hres
    rw [if_neg hblock, if_pos ((next_block hadr).mpr hblock), List.nil_append]
    exact ⟨_, h.write (Nat.add_le_add_left hn adr), hres, rfl⟩

/-- **The start.** -/
lemma LoopInv.start {len : ℕ} (hlen : 0 < len) {st : UploadState} {calls : List AppfsCall}
    (h : LoopInv (orc 0).fd len st calls) (hs : st.state = .start) :
    LoopInv (orc 0).fd len (uploadStart (oracleExec orc) args len st calls).1
      (uploadStart (oracleExec orc) args len st calls).2 := by
  obtain ⟨hpos, rfl⟩ := h.fresh hs
  have hown : ∀ c ∈ ([.createFile uploadTempName len] : List AppfsCall), ∀ fd,
      c.target = some fd → fd = (orc 0).fd := by
    intro c hc fd hfd
    obtain rfl := List.mem_singleton.mp hc
    simp [AppfsCall.target] at hfd
  rcases uploadStart_cases (oracleExec orc) args len st [] with ⟨_, heq⟩ | ⟨_, err, heq⟩
  · rw [heq]
    exact ⟨h.page, fun hs => by simp at hs, fun _ => rfl, hown, fun hs => by simp at hs,
      ⟨0, 0, .nil, Nat.zero_le _, Nat.zero_le _, fun hs => by simp at hs⟩⟩
  · rw [heq]
    refine ⟨h.page, fun hs => by simp at hs, fun _ => rfl, hown, ?_,
      ⟨0, 0, .nil, Nat.zero_le _, Nat.zero_le _, fun _ => ⟨rfl, rfl⟩⟩⟩
    intro _
    refine ⟨dvd_zero _, ?_, hlen, ?_⟩
    · simp only [hpos]
      simp [pageLen]
    · simp only [hpos]
      omega

/-- **A copy** that does not fill the page buffer. -/
lemma LoopInv.copy {fd : Handle} {len : ℕ} {st : UploadState} {calls : List AppfsCall}
    (h : LoopInv fd len st calls) (hs : st.state = .write) {data : Bytes}
    (hlt : data.length < st.lenLeft) : LoopInv fd len (st.copy data) calls := by
  obtain ⟨hadr, hpos, hleft, hsum⟩ := h.counters hs
  rw [st.lenLeft_eq] at hlt
  refine ⟨(h.ok.copy hs (by rw [st.lenLeft_eq]; exact hlt)).page, ?_, ?_, h.own, ?_, h.log⟩
  · intro hs'
    simp [hs] at hs'
  · intro _
    exact h.handle (by simp [hs])
  · intro _
    rw [copy_address, copy_pagePos, copy_len]
    omega

/-- The calls of a flush are on the handle of the record. -/
lemma target_of_mem_flush {st : UploadState} {calls : List AppfsCall} {c : AppfsCall} {fd : Handle}
    (hc : c ∈ (uploadFlush (oracleExec orc) st calls).2) (hfd : c.target = some fd) :
    c ∈ calls ∨ fd = st.fd := by
  rw [uploadFlush_calls] at hc
  simp only [List.mem_append, List.mem_ite_nil_right, List.mem_singleton] at hc
  rcases hc with ((hc | ⟨_, rfl⟩) | rfl) | ⟨_, rfl⟩
  · exact Or.inl hc
  · exact Or.inr (Option.some.inj hfd).symm
  · exact Or.inr (Option.some.inj hfd).symm
  · cases hfd

/-- **A page goes out.** The writer appends to the log, and erases only where a block begins. -/
lemma LoopInv.flush {fd : Handle} {len : ℕ} {st : UploadState} {calls : List AppfsCall}
    (h : LoopInv fd len st calls) (hs : st.state = .write) {data : Bytes}
    (hlen : data.length = st.lenLeft) :
    LoopInv fd len (uploadFlush (oracleExec orc) (st.copy data) calls).1
      (uploadFlush (oracleExec orc) (st.copy data) calls).2 := by
  obtain ⟨hadr, hpos, hleft, hsum⟩ := h.counters hs
  obtain ⟨e, b, hfront, _, hb, hwrite⟩ := h.log
  obtain ⟨rfl, rfl⟩ := hwrite hs
  rw [st.lenLeft_eq] at hlen
  have hfit : st.pagePos + data.length ≤ st.pageData.length := by
    rw [h.page]
    omega
  have hpage : (st.copy data).pageData.length = pageLen := by
    rw [UploadState.copy, length_memcpy hfit, h.page]
  have htaken : ((st.copy data).pageData.take (st.copy data).pagePos).length
      = st.pagePos + data.length := by
    rw [List.length_take, hpage, copy_pagePos]
    omega
  have hfd : (st.copy data).fd = fd := h.handle (by simp [hs])
  have hn : st.pagePos + data.length ≤ pageLen := by omega
  obtain ⟨b, hfront, hres, hb⟩ := frontier_flush hadr (by omega) hn hfront hb
  obtain ⟨err, state, hrec, hdone, hmore⟩ :=
    uploadFlush_record (oracleExec orc) (st.copy data) calls
  -- it goes on writing only if bytes are left
  have hmoreLeft : state = .write → (st.copy data).len ≠ 0 := by
    intro hs' hzero
    rcases hdone hzero with rfl | rfl <;> cases hs'
  have hnotStart : state ≠ .start := by
    intro hs'
    rcases em ((st.copy data).len = 0) with hzero | hzero
    · rcases hdone hzero with rfl | rfl <;> cases hs'
    · rcases hmore hzero with rfl | rfl
      · rw [copy_state, hs] at hs'
        cases hs'
      · cases hs'
  rw [hrec]
  refine ⟨hpage, fun hs' => absurd hs' hnotStart, fun _ => hfd, ?_, ?_,
    st.address + (st.pagePos + data.length), b, ?_, ?_, hres, ?_⟩
  · intro c hc k hk
    rcases target_of_mem_flush hc hk with hold | hnew
    · exact h.own c hold k hk
    · exact hnew.trans hfd
  · intro hs'
    have hzero := hmoreLeft hs'
    simp only [copy_len] at hzero
    simp only [copy_address, copy_len]
    exact ⟨Dvd.dvd.add hadr (dvd_refl pageLen), by simp [pageLen], by omega, by omega⟩
  · rw [flashOps_uploadFlush, htaken]
    exact hfront
  · omega
  · intro hs'
    have hzero := hmoreLeft hs'
    simp only [copy_len] at hzero
    have hfull : st.pagePos + data.length = pageLen := by omega
    exact ⟨congrArg (st.address + ·) hfull, hb⟩

/-- **One iteration.** -/
lemma LoopInv.iteration {len : ℕ} (hlen : 0 < len) {st : UploadState} {calls : List AppfsCall}
    (h : LoopInv (orc 0).fd len st calls) (data : Bytes) :
    LoopInv (orc 0).fd len (uploadIter (oracleExec orc) args len st data calls).1
      (uploadIter (oracleExec orc) args len st data calls).2.2 := by
  cases hs : st.state with
  | start =>
      rw [uploadIter_start hs]
      exact h.start hlen hs
  | write =>
      by_cases hlt : data.length < st.lenLeft
      · rw [uploadIter_copy hs hlt]
        exact h.copy hs hlt
      · rw [uploadIter_flush hs (by omega)]
        exact h.flush hs (by rw [List.length_take]; omega)
  | done =>
      rw [uploadIter_stopped (Or.inl hs)]
      exact h
  | error =>
      rw [uploadIter_stopped (Or.inr hs)]
      exact h

/-- **The whole session.** -/
theorem LoopHead.inv {len : ℕ} (hlen : 0 < len) {st : UploadState} {data : Bytes}
    {calls : List AppfsCall} (h : LoopHead orc args len st data calls) :
    LoopInv (orc 0).fd len st calls := by
  induction h with
  | first chunk => exact .initial _ _
  | iteration h hdata ih => exact ih.iteration hlen _
  | nextCall h chunk ih => exact ih

/-! ## The sessions of the server -/

/-- A session stands at a head of the loop between two calls. -/
lemma loopHead_post {len : ℕ} (hlen : 0 < len) {p : UploadConn × List AppfsCall}
    (hargs : p.1.getArgs = args ∧ p.1.len = len)
    (h : LoopHead orc args len (p.1.cgiData.getD .initial) [] p.2) (chunk : Bytes) :
    ((UploadConn.post (oracleExec orc) p chunk).1.getArgs = args ∧
      (UploadConn.post (oracleExec orc) p chunk).1.len = len) ∧
    LoopHead orc args len ((UploadConn.post (oracleExec orc) p chunk).1.cgiData.getD .initial) []
      (UploadConn.post (oracleExec orc) p chunk).2 := by
  obtain ⟨u, calls⟩ := p
  obtain ⟨rfl, rfl⟩ := hargs
  by_cases hclosed : u.closed = true
  · rw [post_closed hclosed]
    exact ⟨⟨rfl, rfl⟩, h⟩
  · have hloop := (h.nextCall chunk).loop (n := chunk.length + 3)
    have hend : (uploadLoop (oracleExec orc) u.getArgs u.len (chunk.length + 3)
        (u.cgiData.getD .initial) chunk calls).2.1 = [] :=
      (uploadLoop_done hlen (h.inv hlen).ok (by split_ifs <;> omega)).1
    rw [hend] at hloop
    rw [UploadConn.post, if_neg hclosed]
    dsimp only
    rw [cgiUploadFile, if_neg (by simp), if_neg (by simp)]
    dsimp only
    split_ifs
    · exact ⟨⟨rfl, rfl⟩, hloop⟩
    · exact ⟨⟨rfl, rfl⟩, hloop⟩

variable (orc args) in
lemma uploadRun_loopHead {len : ℕ} (hlen : 0 < len) (chunks : List Bytes) :
    LoopHead orc args len ((uploadRun (oracleExec orc) args len chunks []).1.cgiData.getD .initial) []
      (uploadRun (oracleExec orc) args len chunks []).2 := by
  have hrun : ∀ p : UploadConn × List AppfsCall, (p.1.getArgs = args ∧ p.1.len = len) →
      LoopHead orc args len (p.1.cgiData.getD .initial) [] p.2 →
      LoopHead orc args len
        ((chunks.foldl (UploadConn.post (oracleExec orc)) p).1.cgiData.getD .initial) []
        (chunks.foldl (UploadConn.post (oracleExec orc)) p).2 := by
    induction chunks with
    | nil => exact fun _ _ h => h
    | cons c chunks ih =>
        intro p hargs h
        obtain ⟨hargs', h'⟩ := loopHead_post hlen hargs h c
        exact ih _ hargs' h'
  exact hrun _ ⟨rfl, rfl⟩ (.first [])

/-- The number of bytes that an iteration copies to the page buffer. -/
def copied (st : UploadState) (data : Bytes) : ℕ :=
  if data.length < st.lenLeft then data.length else st.lenLeft

/-- **The write discipline of the receive loop.**  For every request with a body, whatever the calls
answer, and whatever the post buffers: at every head of the loop the counters account for the body,
the next copy stays inside both of its buffers, the erases and writes so far are in order, inside
the file and on its own handle, and the loop ends with the buffer used up.  The states between the
calls of every session are among these heads. -/
theorem cgiUploadFile_discipline (orc : ℕ → AppfsAnswer) (args : Args) {len : ℕ} (hlen : 0 < len) :
    (∀ st data calls, LoopHead orc args len st data calls →
      (st.state = .write → pageLen ∣ st.address ∧ st.pagePos < pageLen ∧ 1 ≤ st.len ∧
        st.address + st.pagePos + st.len = len) ∧
      (st.state = .write → st.pageData.length = pageLen ∧
        st.pagePos + copied st data ≤ st.pageData.length ∧ copied st data ≤ data.length) ∧
      WriteOnce spiFlashEraseSize (flashOps calls) ∧
      (∀ adr n, .write adr n ∈ flashOps calls → adr + n ≤ len) ∧
      (∀ adr n, .erase adr n ∈ flashOps calls → adr + n ≤ reserved len) ∧
      (∀ c ∈ calls, ∀ h, c.target = some h → h = (orc 0).fd) ∧
      ∃ n, (uploadLoop (oracleExec orc) args len n st data calls).2.1 = []) ∧
    ∀ chunks, LoopHead orc args len
      ((uploadRun (oracleExec orc) args len chunks []).1.cgiData.getD .initial) []
      (uploadRun (oracleExec orc) args len chunks []).2 := by
  refine ⟨?_, ?_⟩
  · intro st data calls h
    have hinv := h.inv hlen
    obtain ⟨e, b, hfront, he, hb, _⟩ := hinv.log
    refine ⟨hinv.counters, ?_, hfront.writeOnce, ?_, ?_, hinv.own, ?_⟩
    · intro hs
      have hroom := hinv.ok.room hs
      have hleft := st.lenLeft_eq
      rw [hinv.page, copied]
      refine ⟨rfl, ?_, ?_⟩
      · split_ifs <;> omega
      · split_ifs <;> omega
    · intro adr n hmem
      exact (hfront.of_write_mem hmem).trans he
    · intro adr n hmem
      exact (hfront.of_erase_mem hmem).2.2.trans hb
    · exact ⟨_, (uploadLoop_done hlen hinv.ok le_rfl).1⟩
  · exact uploadRun_loopHead orc args hlen

/-! ## A page and a part of one -/

/-- Of a longer body one page and three bytes have come. -/
def pageAndThree : List Bytes := [List.replicate pageLen 1, [], [2, 3, 4]]

lemma flatten_pageAndThree : pageAndThree.flatten = List.replicate pageLen 1 ++ [2, 3, 4] := by
  simp [pageAndThree]

/-- From the start of a file on, one page goes out. -/
lemma flashOps_feed_page {len : ℕ} (hpos : 0 < len) {st : UploadState} (hok : st.Ok)
    (hw : st.state = .write) (hadr : st.address = 0) (hpage : st.pagePos = 0)
    (hlen : 2 * pageLen ≤ st.len) (calls : List AppfsCall) :
    flashOps (uploadFeed (oracleExec orc) args len (st, calls) pageAndThree.flatten).2
      = flashOps calls ++ [.erase 0 spiFlashEraseSize, .write 0 pageLen] := by
  have hsize : pageLen = 16384 := rfl
  have hleft : st.lenLeft = pageLen := by
    rw [st.lenLeft_eq, hpage]
    omega
  rw [flatten_pageAndThree, uploadFeed_flush hpos hok hw (by simp [hleft]), hleft,
    List.take_left' List.length_replicate, List.drop_left' List.length_replicate]
  obtain ⟨page, hdata⟩ : ∃ page : Bytes, page = List.replicate pageLen 1 := ⟨_, rfl⟩
  have hdatalen : page.length = pageLen := by rw [hdata, List.length_replicate]
  rw [← hdata]
  have hfit : st.pagePos + page.length ≤ st.pageData.length := by
    rw [hok.page]
    omega
  have hcopied : (st.copy page).pageData.length = pageLen := by
    rw [UploadState.copy, length_memcpy hfit, hok.page]
  have htaken : ((st.copy page).pageData.take (st.copy page).pagePos).length = pageLen := by
    rw [List.length_take, hcopied, copy_pagePos]
    omega
  have hops : flashOps (uploadFlush (oracleExec orc) (st.copy page) calls).2
      = flashOps calls ++ [.erase 0 spiFlashEraseSize, .write 0 pageLen] := by
    rw [flashOps_uploadFlush, htaken, copy_address, hadr]
    rfl
  have hflushed : (uploadFlush (oracleExec orc) (st.copy page) calls).1.Ok :=
    (uploadFlush_ok (oracleExec orc) hcopied ((copy_state st page).trans hw) calls).1
  obtain ⟨err, state, hrec, _, hmore⟩ :=
    uploadFlush_record (oracleExec orc) (st.copy page) calls
  -- the three bytes behind the page cause no call
  rw [← hops]
  generalize uploadFlush (oracleExec orc) (st.copy page) calls = r at hflushed hrec ⊢
  obtain ⟨st', calls'⟩ := r
  obtain rfl : st' = _ := hrec
  rcases hmore (by rw [copy_len]; omega) with hstate | hstate
  · rw [uploadFeed_copy hpos hflushed (hstate.trans hw)]
    rw [UploadState.lenLeft_eq]
    simp only [copy_len, List.length_cons, List.length_nil]
    omega
  · rw [uploadFeed_stopped hpos hflushed (Or.inr hstate)]

/-- What has been erased and written then. -/
lemma flashOps_pageAndThree {len : ℕ} (hlen : 2 * pageLen ≤ len) (hcreate : (orc 0).err = espOk) :
    flashOps (uploadRun (oracleExec orc) args len pageAndThree []).2
      = [.erase 0 spiFlashEraseSize, .write 0 pageLen] := by
  have hpage : pageLen = 16384 := rfl
  have hpos : 0 < len := by omega
  have hbody : pageAndThree.flatten.length = pageLen + 3 := by
    rw [flatten_pageAndThree]
    simp
  rw [(uploadRun_open (oracleExec orc) args (by omega) []).world, uploadBody,
    uploadFeed_start hpos UploadState.initial_ok rfl (List.ne_nil_of_length_pos (by omega))]
  have hok : (uploadStart (oracleExec orc) args len .initial []).1.Ok :=
    (uploadStart_ok (oracleExec orc) hpos UploadState.initial_ok rfl []).1
  rcases uploadStart_cases (oracleExec orc) args len .initial [] with ⟨herr, _⟩ | ⟨_, err, heq⟩
  · exact absurd hcreate herr
  · rw [heq] at hok ⊢
    exact flashOps_feed_page hpos hok rfl rfl rfl hlen [.createFile uploadTempName len]

/-- One block has been erased, and one page written into it. -/
theorem cgiUploadFile_discipline_page :
    WriteOnce spiFlashEraseSize (flashOps (uploadRun (oracleExec fun _ => ⟨espOk, 3⟩) (fun _ => none)
      40000 pageAndThree []).2) ∧
    flashOps (uploadRun (oracleExec fun _ => ⟨espOk, 3⟩) (fun _ => none) 40000 pageAndThree []).2
      = [.erase 0 spiFlashEraseSize, .write 0 pageLen] :=
  have h := cgiUploadFile_discipline (fun _ => ⟨espOk, 3⟩) (fun _ => none) (by decide : 0 < 40000)
  ⟨(h.1 _ _ _ (h.2 pageAndThree)).2.2.1, flashOps_pageAndThree (by decide) rfl⟩

end Chooser
