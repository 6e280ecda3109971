import Chooser.Httpd
import Chooser.Lib.NorFlash

/-!
# Downloading raw flash

`cgiDownloadFlash` serves `getflash.cgi?size=..&off=..&name=..`: it announces `size` bytes and then
sends the flash from `off` on, one chunk a call.  Its record has a single cursor `pos`, which is
both the flash address to read from and the progress towards `size`.  The two agree when the
download starts at address 0 and not otherwise: the run then ends `off` bytes short, or with a
negative length (`cgiDownloadFlash_slice`).
-/

namespace Chooser

open CStr

/-- `DOWNLOAD_CHUNK_SIZE`. -/
def downloadChunkSize : ℤ := 1024

structure DownloadFlashState where
  size : ℤ
  pos : ℤ
deriving DecidableEq, Repr

/-- `spi_flash_read(pos, buf, len)`: the buffer afterwards. -/
abbrev SpiFlashRead := ℤ → Bytes → ℤ → Bytes

/-- A read inside the flash copies the bytes; of other reads nothing is known. -/
def SpiFlashRead.Reads (spiFlashRead : SpiFlashRead) (flash : NorFlash.Cells) (flashSize : ℤ) :
    Prop :=
  ∀ pos len buf, 0 ≤ pos → 0 ≤ len → pos + len ≤ flashSize →
    spiFlashRead pos buf len = NorFlash.read flash pos.toNat len.toNat ++ buf.drop len.toNat

/-- What lies on the stack when a call starts: the buffers `abuf` and `data`. -/
structure FlashStack where
  abuf : Bytes
  data : Bytes

/-- The arguments `size` and `off`, as the first call stores them in the record. -/
def flashArgs (args : Args) (abuf : Bytes) : DownloadFlashState :=
  let st : DownloadFlashState := ⟨0, 0⟩
  let a := httpdFindArg args "size" abuf 15
  let st := if a.1 > 0 then { st with size := strtol 0 (cString a.2) } else st
  let a := httpdFindArg args "off" a.2 15
  if a.1 > 0 then { st with pos := strtol 0 (cString a.2) } else st

/-- The headers of a download. -/
def flashHeaders (args : Args) (st : DownloadFlashState) : List HttpCall :=
  let name := (httpdFindArg args "name" (ascii "data.dat") 15).2
  [.startResponse 200, .header (ascii "Content-Type") (ascii "application/octet-stream"),
    .header (ascii "Content-Disposition")
      (ascii "attachment; filename=\"" ++ cString name ++ ascii "\""),
    .header (ascii "Content-Length") (sprintfD st.size), .endHeaders]

/-- The answer to a request without a size. -/
def flashInvalidArgs : List HttpCall :=
  [.startResponse 404, .header (ascii "Content-Type") (ascii "text/plain"), .endHeaders,
    .send (ascii "Invalid args (size, off, name)\n") (-1)]

/-- `int len=state->size-state->pos; if (len>DOWNLOAD_CHUNK_SIZE) len=DOWNLOAD_CHUNK_SIZE;` -/
def DownloadFlashState.chunkLen (st : DownloadFlashState) : ℤ :=
  let len := wrapInt (st.size - st.pos)
  if len > downloadChunkSize then downloadChunkSize else len

/-- `state->pos+=len;` -/
def DownloadFlashState.nextPos (st : DownloadFlashState) : ℤ := wrapInt (st.pos + st.chunkLen)

section Handler

variable (spiFlashRead : SpiFlashRead)

/-- Sends the next chunk.  The world is the list of reads made so far. -/
def flashChunk (st : DownloadFlashState) (data : Bytes) (out : List HttpCall)
    (reads : List (ℤ × ℤ)) : CgiOutcome DownloadFlashState × List (ℤ × ℤ) :=
  let len := st.chunkLen
  let data := spiFlashRead st.pos data len
  let st' := { st with pos := st.nextPos }
  if st'.pos = st'.size then
    (⟨.done, some st', true, out ++ [.send data len]⟩, reads ++ [(st.pos, len)])
  else (⟨.more, some st', false, out ++ [.send data len]⟩, reads ++ [(st.pos, len)])

def cgiDownloadFlash (stack : FlashStack) (connData : HttpdConnData DownloadFlashState)
    (reads : List (ℤ × ℤ)) : CgiOutcome DownloadFlashState × List (ℤ × ℤ) :=
  if ¬ connData.conn then
    (⟨.done, connData.cgiData, connData.cgiData.isSome, []⟩, reads)
  else
    match connData.cgiData with
    | some st => flashChunk spiFlashRead st stack.data [] reads
    | none =>
        if ¬ connData.heap then (⟨.done, none, false, []⟩, reads)
        else
          let st := flashArgs connData.getArgs stack.abuf
          if st.size = 0 then (⟨.done, some st, false, flashInvalidArgs⟩, reads)
          else flashChunk spiFlashRead st stack.data (flashHeaders connData.getArgs st) reads

/-- The `k`-th call of a download that is neither aborted nor out of memory. -/
def flashCall (args : Args) (stack : ℕ → FlashStack) (k : ℕ) (data : Option DownloadFlashState)
    (reads : List (ℤ × ℤ)) : CgiOutcome DownloadFlashState × List (ℤ × ℤ) :=
  cgiDownloadFlash spiFlashRead (stack k) ⟨true, true, data, args, ⟨[], 0, 0⟩⟩ reads

end Handler

/-! ## The rest of a download -/

section Run

variable {spiFlashRead : SpiFlashRead} {flash : NorFlash.Cells} {flashSize : ℤ}

/-- What sending `size - pos` bytes in chunks amounts to. -/
structure SendsRest (flash : NorFlash.Cells) (size pos : ℤ) (out : List HttpCall)
    (reads : List (ℤ × ℤ)) : Prop where
  body : bodySent out = NorFlash.read flash pos.toNat (size - pos).toNat
  sends : ∀ data len, HttpCall.send data len ∈ out → 0 ≤ len ∧ len ≤ downloadChunkSize
  reads : ∀ r ∈ reads, 0 ≤ r.2 ∧ r.2 ≤ downloadChunkSize ∧ pos ≤ r.1 ∧ r.1 + r.2 ≤ size

/-- The size and the place of a request fit into their `int`s. -/
lemma flashArgs_range (args : Args) (abuf : Bytes) :
    (flashArgs args abuf).size < 2 ^ 31 ∧ (flashArgs args abuf).pos < 2 ^ 31 := by
  have hrange : ∀ s, strtol 0 s < 2 ^ 31 := fun s => (strtol_range 0 s).2
  have hzero : (0 : ℤ) < 2 ^ 31 := by decide
  unfold flashArgs
  dsimp only
  split_ifs
  · exact ⟨hrange _, hrange _⟩
  · exact ⟨hzero, hrange _⟩
  · exact ⟨hrange _, hzero⟩
  · exact ⟨hzero, hzero⟩

/-- Between 0 and the size nothing overflows. -/
lemma chunkLen_eq {st : DownloadFlashState} (hpos : 0 ≤ st.pos) (hpos' : st.pos < 2 ^ 31)
    (hsize : 0 ≤ st.size) (hsize' : st.size < 2 ^ 31) :
    st.chunkLen
      = if st.size - st.pos > downloadChunkSize then downloadChunkSize else st.size - st.pos := by
  rw [DownloadFlashState.chunkLen, wrapInt_of_range (by omega) (by omega)]

lemma chunkLen_bounds (st : DownloadFlashState) (hpos : 0 ≤ st.pos) (h : st.pos ≤ st.size)
    (hsize : st.size < 2 ^ 31) :
    0 ≤ st.chunkLen ∧ st.chunkLen ≤ downloadChunkSize ∧ st.pos + st.chunkLen ≤ st.size ∧
      st.nextPos = st.pos + st.chunkLen := by
  have hlen := chunkLen_eq hpos (by omega) (by omega) hsize
  have hnext : st.pos + st.chunkLen < 2 ^ 31 → 0 ≤ st.chunkLen →
      st.nextPos = st.pos + st.chunkLen :=
    fun hhi hlo => wrapInt_of_range (by omega) hhi
  simp only [downloadChunkSize] at hlen ⊢
  split_ifs at hlen <;> exact ⟨by omega, by omega, by omega, hnext (by omega) (by omega)⟩

lemma payload_flash (hread : spiFlashRead.Reads flash flashSize) (st : DownloadFlashState)
    (hpos : 0 ≤ st.pos) (hle : st.pos ≤ st.size) (hmax : st.size < 2 ^ 31)
    (hsize : st.size ≤ flashSize) (data : Bytes) :
    (HttpCall.send (spiFlashRead st.pos data st.chunkLen) st.chunkLen).payload
      = NorFlash.read flash st.pos.toNat st.chunkLen.toNat := by
  obtain ⟨hlo, _, hhi, _⟩ := chunkLen_bounds st hpos hle hmax
  rw [HttpCall.payload, if_neg (by omega), hread st.pos st.chunkLen data hpos hlo (by omega),
    List.take_left' (NorFlash.length_read flash st.pos.toNat st.chunkLen.toNat)]

lemma SendsRest.nil (size : ℤ) : SendsRest flash size size [] [] where
  body := by rw [Int.sub_self]; rfl
  sends _ _ hmem := absurd hmem List.not_mem_nil
  reads _ hr := absurd hr List.not_mem_nil

/-- A chunk inside the slice comes before the rest. -/
lemma SendsRest.cons {size pos len : ℤ} {data : Bytes} {out : List HttpCall} {reads : List (ℤ × ℤ)}
    (hpos : 0 ≤ pos) (hlo : 0 ≤ len) (hmax : len ≤ downloadChunkSize) (hhi : pos + len ≤ size)
    (hpay : (HttpCall.send data len).payload = NorFlash.read flash pos.toNat len.toNat)
    (h : SendsRest flash size (pos + len) out reads) :
    SendsRest flash size pos (.send data len :: out) ((pos, len) :: reads) where
  body := by
    have hsplit : (size - pos).toNat = len.toNat + (size - (pos + len)).toNat := by omega
    have hadr : (pos + len).toNat = pos.toNat + len.toNat := by omega
    rw [bodySent_cons, hpay, h.body, hsplit, NorFlash.read_add, hadr]
  sends := by
    intro d l hmem
    rcases List.mem_cons.mp hmem with heq | hmem
    · obtain ⟨_, rfl⟩ := HttpCall.send.inj heq
      exact ⟨hlo, hmax⟩
    · exact h.sends d l hmem
  reads := by
    intro r hr
    rcases List.mem_cons.mp hr with rfl | hr
    · exact ⟨hlo, hmax, le_rfl, hhi⟩
    · obtain ⟨hlo', hmax', hpos', hend'⟩ := h.reads r hr
      exact ⟨hlo', hmax', by omega, hend'⟩

/-- A chunk that does not end the download is a full one. -/
lemma flashChunkLen_full (st : DownloadFlashState) (hpos : 0 ≤ st.pos) (hle : st.pos ≤ st.size)
    (hsize : st.size < 2 ^ 31) (h : st.pos + st.chunkLen ≠ st.size) :
    st.chunkLen = downloadChunkSize := by
  rw [chunkLen_eq hpos (by omega) (by omega) hsize] at h ⊢
  split_ifs at h ⊢ with hgt
  · rfl
  · exact absurd (by omega) h

/-- **The rest of a download**, from a cursor that is not past the size: whatever the record was
started with, the bytes `[pos, size)` of the flash are sent. -/
lemma flashChunk_run (hread : spiFlashRead.Reads flash flashSize) {args : Args}
    {stack : ℕ → FlashStack} {size : ℤ} (hsize : size ≤ flashSize) (hint : size < 2 ^ 31) {pos : ℤ}
    (hpos : 0 ≤ pos) (hle : pos ≤ size) {k : ℕ} {data : Option DownloadFlashState}
    {head : List HttpCall} {before : List (ℤ × ℤ)}
    (hcall : flashCall spiFlashRead args stack k data before
      = flashChunk spiFlashRead ⟨size, pos⟩ (stack k).data head before) :
    ∃ out after, CgiRun (flashCall spiFlashRead args stack) k data before (head ++ out) after ∧
      ∃ reads, after = before ++ reads ∧ SendsRest flash size pos out reads := by
  refine CgiRun.of_pieces
    (fun pos k head before => flashChunk spiFlashRead ⟨size, pos⟩ (stack k).data head before)
    (fun pos _ => 0 ≤ pos ∧ pos ≤ size) (fun pos => (size - pos).toNat)
    (fun pos out before after => ∃ reads, after = before ++ reads ∧
      SendsRest flash size pos out reads) ?_ ⟨hpos, hle⟩ hcall
  rintro pos k head before ⟨hpos, hle⟩
  obtain ⟨hlo, hmax, hhi, hnext⟩ := chunkLen_bounds ⟨size, pos⟩ hpos hle hint
  have hpay := payload_flash hread ⟨size, pos⟩ hpos hle hint hsize (stack k).data
  have hfull := flashChunkLen_full ⟨size, pos⟩ hpos hle hint
  simp only [flashChunk, hnext]
  generalize DownloadFlashState.chunkLen ⟨size, pos⟩ = len at *
  simp only at hhi hpay hfull
  by_cases hend : pos + len = size
  · rw [if_pos hend]
    have hnil : SendsRest flash size (pos + len) [] [] := by
      rw [hend]
      exact SendsRest.nil size
    exact Or.inl ⟨_, _, _, _, rfl, _, rfl, hnil.cons hpos hlo hmax hhi hpay⟩
  · rw [if_neg hend]
    have hlen : 0 < len := by
      rw [hfull hend]
      decide
    refine Or.inr ⟨pos + len, _, _, _, ⟨by omega, hhi⟩, by omega, rfl, rfl, ?_⟩
    rintro out _ ⟨reads, rfl, hrest⟩
    exact ⟨_, List.append_assoc _ _ _, hrest.cons hpos hlo hmax hhi hpay⟩

/-- The whole run announces `size` and sends the flash bytes `[off, off + size)`, in chunks that
stay inside the slice. -/
def SendsSlice (spiFlashRead : SpiFlashRead) (flash : NorFlash.Cells) (args : Args)
    (stack : ℕ → FlashStack) (size off : ℤ) : Prop :=
  ∃ out reads, CgiRun (flashCall spiFlashRead args stack) 0 none [] out reads ∧
    .header (ascii "Content-Length") (sprintfD size) ∈ out ∧
    bodySent out = NorFlash.read flash off.toNat size.toNat ∧
    (∀ data len, HttpCall.send data len ∈ out → 0 ≤ len ∧ len ≤ downloadChunkSize) ∧
    ∀ r ∈ reads, 0 ≤ r.2 ∧ r.2 ≤ downloadChunkSize ∧ off ≤ r.1 ∧ r.1 + r.2 ≤ off + size

variable {args : Args} {stack : ℕ → FlashStack}

variable (spiFlashRead) in
lemma flashCall_first {q : DownloadFlashState} (hq : flashArgs args (stack 0).abuf = q)
    (hsize : 0 < q.size) (reads : List (ℤ × ℤ)) :
    flashCall spiFlashRead args stack 0 none reads
      = flashChunk spiFlashRead q (stack 0).data (flashHeaders args q) reads := by
  have hne : ¬ q.size = 0 := by omega
  simp [flashCall, cgiDownloadFlash, hq, hne]

lemma bodySent_flashHeaders (st : DownloadFlashState) : bodySent (flashHeaders args st) = [] := by
  simp [flashHeaders]

lemma sendsSlice_of_zero (hread : spiFlashRead.Reads flash flashSize) {size : ℤ}
    (hq : flashArgs args (stack 0).abuf = ⟨size, 0⟩) (hsize : 0 < size) (hfit : size ≤ flashSize) :
    SendsSlice spiFlashRead flash args stack size 0 := by
  have hint : size < 2 ^ 31 := by
    have hrange := (flashArgs_range args (stack 0).abuf).1
    rwa [hq] at hrange
  obtain ⟨out, reads, hrun, _, rfl, hrest⟩ := flashChunk_run hread hfit hint le_rfl hsize.le
    (flashCall_first spiFlashRead hq hsize [])
  refine ⟨_, _, hrun, by simp [flashHeaders], ?_, ?_, ?_⟩
  · rw [bodySent_append, bodySent_flashHeaders, List.nil_append, hrest.body, Int.sub_zero]
  · intro d l hmem
    rcases List.mem_append.mp hmem with hmem | hmem
    · simp [flashHeaders] at hmem
    · exact hrest.sends d l hmem
  · intro r hr
    obtain ⟨hlo, hmax, hpos, hend⟩ := hrest.reads r hr
    exact ⟨hlo, hmax, hpos, by omega⟩

/-- From another address the body comes out too short, or a length is negative. -/
lemma zero_of_sendsSlice (hread : spiFlashRead.Reads flash flashSize) {size off : ℤ}
    (hq : flashArgs args (stack 0).abuf = ⟨size, off⟩) (hsize : 0 < size) (hoff : 0 ≤ off)
    (hfit : off + size ≤ flashSize) (h : SendsSlice spiFlashRead flash args stack size off) :
    off = 0 := by
  obtain ⟨out, reads, hrun, _, hbody, hsends, _⟩ := h
  have hcall := flashCall_first spiFlashRead hq hsize []
  obtain ⟨hint, hintOff⟩ : size < 2 ^ 31 ∧ off < 2 ^ 31 := by
    have hrange := flashArgs_range args (stack 0).abuf
    rwa [hq] at hrange
  by_cases hle : off ≤ size
  · obtain ⟨out', reads', hrun', _, _, hrest⟩ :=
      flashChunk_run hread (by omega) hint hoff hle hcall
    obtain ⟨rfl, _⟩ := hrun.unique hrun'
    rw [bodySent_append, bodySent_flashHeaders, List.nil_append, hrest.body] at hbody
    have hlen := congrArg List.length hbody
    rw [NorFlash.length_read, NorFlash.length_read] at hlen
    omega
  · -- the cursor starts behind the end: one send of a negative length, and the run is over
    have hlen : DownloadFlashState.chunkLen ⟨size, off⟩ = size - off := by
      rw [chunkLen_eq hoff hintOff hsize.le hint]
      refine if_neg ?_
      simp only [downloadChunkSize]
      omega
    have hnext : DownloadFlashState.nextPos ⟨size, off⟩ = size := by
      rw [DownloadFlashState.nextPos, hlen]
      simp only [add_sub_cancel]
      exact wrapInt_of_range (by omega) hint
    simp only [flashChunk, hlen, hnext, if_true] at hcall
    obtain ⟨rfl, _⟩ := hrun.unique (.of_done hcall)
    have hneg := hsends _ (size - off) (List.mem_append_right _ (List.mem_singleton_self _))
    omega

/-- **A flash download sends the slice that was asked for exactly when it starts at address 0.** -/
theorem cgiDownloadFlash_slice (hread : spiFlashRead.Reads flash flashSize) {size off : ℤ}
    (hq : flashArgs args (stack 0).abuf = ⟨size, off⟩) (hsize : 0 < size) (hoff : 0 ≤ off)
    (hfit : off + size ≤ flashSize) :
    SendsSlice spiFlashRead flash args stack size off ↔ off = 0 := by
  constructor
  · exact zero_of_sendsSlice hread hq hsize hoff hfit
  · rintro rfl
    exact sendsSlice_of_zero hread hq hsize (by omega)

end Run

/-! ## The two links of the developer page -/

/-- A flash of 16 MiB with the same byte everywhere. -/
def blankFlash : SpiFlashRead :=
  fun pos buf len => NorFlash.read (fun _ => 0xFF) pos.toNat len.toNat ++ buf.drop len.toNat

lemma blankFlash_reads (flashSize : ℤ) : blankFlash.Reads (fun _ => 0xFF) flashSize :=
  fun _ _ _ _ _ _ => rfl

/-- The arguments of a link, by their texts. -/
def linkArgs (size off name : String) : Args := fun key =>
  if key = "size" then some (ascii size)
  else if key = "off" then some (ascii off)
  else if key = "name" then some (ascii name)
  else none

lemma flashArgs_link {size off name : String} {s o : ℤ} (abuf : Bytes)
    (hs : 0 < ((ascii size).take 15).length) (ho : 0 < ((ascii off).take 15).length)
    (hsize : strtol 0 (cString ((ascii size).take 15)) = s)
    (hoff : strtol 0 (cString ((ascii off).take 15)) = o) :
    flashArgs (linkArgs size off name) abuf = ⟨s, o⟩ := by
  have hs' : ((((ascii size).take 15).length : ℕ) : ℤ) > 0 := by omega
  have ho' : ((((ascii off).take 15).length : ℕ) : ℤ) > 0 := by omega
  simp only [flashArgs, httpdFindArg, linkArgs, if_true, if_pos hs', hsize,
    if_neg (show ¬ "off" = "size" by decide), if_pos ho', hoff]

/-- `getflash.cgi?size=0x1000000&off=0&name=flash.bin`. -/
theorem cgiDownloadFlash_slice_full :
    SendsSlice blankFlash (fun _ => 0xFF) (linkArgs "0x1000000" "0" "flash.bin")
      (fun _ => ⟨[], []⟩) 0x1000000 0 := by
  have hq : flashArgs (linkArgs "0x1000000" "0" "flash.bin") [] = ⟨0x1000000, 0⟩ :=
    flashArgs_link [] (by decide) (by decide) (by decide) (by decide)
  exact (cgiDownloadFlash_slice
    (blankFlash_reads 0x1000000) hq (by decide) (by decide)
    (by decide)).mpr rfl

/-- `getflash.cgi?size=0x10000&off=0xFF0000&name=coredump.bin`. -/
theorem cgiDownloadFlash_not_slice :
    ¬ ∀ (spiFlashRead : SpiFlashRead) (flash : NorFlash.Cells) (flashSize : ℤ) (args : Args)
      (stack : ℕ → FlashStack) (size off : ℤ), spiFlashRead.Reads flash flashSize →
      flashArgs args (stack 0).abuf = ⟨size, off⟩ → 0 < size → 0 ≤ off → off + size ≤ flashSize →
      SendsSlice spiFlashRead flash args stack size off := by
  intro h
  have hq : flashArgs (linkArgs "0x10000" "0xFF0000" "coredump.bin") [] = ⟨0x10000, 0xFF0000⟩ :=
    flashArgs_link [] (by decide) (by decide) (by decide) (by decide)
  have hslice := h blankFlash (fun _ => 0xFF) 0x1000000
    (linkArgs "0x10000" "0xFF0000" "coredump.bin") (fun _ => ⟨[], []⟩) 0x10000 0xFF0000
    (blankFlash_reads 0x1000000) hq (by decide) (by decide) (by decide)
  exact absurd (zero_of_sendsSlice (blankFlash_reads 0x1000000) hq (by decide) (by decide)
    (by decide) hslice) (by decide)

end Chooser
