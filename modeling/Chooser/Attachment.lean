import Chooser.Download
import Chooser.FlashDownload
import Chooser.RamAppfs
import Chooser.Lib.Buffer
import Chooser.Lib.QuotedString

/-!
# The attachment name

Both downloads put a name of the user's choice into the header `Content-Disposition`, between two
quotes and in a buffer of 256 bytes.  `cgiDownloadFile` replaces quotes and non-ASCII bytes of the
stored name on the way; `cgiDownloadFlash` prints its argument as it is.

The buffer is large enough for all names.  The header is safe (`SafeAttachment`) for fewer: a line
break goes through in both handlers, a backslash takes the byte behind it with it, be it the closing
quote, and a quote in the argument of `getflash.cgi` closes the string.  `attachment_safe_iff` says
for which names nothing of this happens.
-/

namespace Chooser

open CStr Buffer QuotedString

/-! ## The buffer -/

/-- The text in front of the name. -/
def attachmentPrefix : Bytes := ascii "attachment; filename=\""

/-- `for (int i=0; i<strlen(name); i++)`, with the stores through `p`: the buffer and `p`
afterwards. -/
def sanitiseStores : Bytes → ℤ → Bytes → Option (Bytes × ℤ)
  | buff, p, [] => some (buff, p)
  | buff, p, c :: cs =>
      (store buff p (headerNameByte c)).bind fun buff => sanitiseStores buff (p + 1) cs

/-- What `cgiDownloadFile` does with `buff`. -/
def fileDisposition (buff name : Bytes) : Option Bytes :=
  (strcpy buff 0 attachmentPrefix).bind fun buff =>
    (sanitiseStores buff (cString buff).length (cString name)).bind fun r =>
      strcpy r.1 r.2 (ascii "\"")

/-- What `cgiDownloadFlash` does with `buff`. -/
def flashDisposition (buff abuf : Bytes) : Option Bytes :=
  strcpy buff 0 (attachmentPrefix ++ cString abuf ++ ascii "\"")

lemma sanitiseStores_eq (buff : Bytes) (p : ℤ) (name : Bytes) :
    sanitiseStores buff p name = (storeAll buff p (name.map headerNameByte)).map fun buff =>
      (buff, p + (name.length : ℕ)) := by
  induction name generalizing buff p with
  | nil => simp [sanitiseStores, storeAll]
  | cons c cs ih =>
      rw [sanitiseStores, List.map_cons, storeAll]
      cases store buff p (headerNameByte c) with
      | none => rfl
      | some buff =>
          rw [Option.bind_some, Option.bind_some, ih, List.length_cons, Nat.cast_succ,
            Int.add_assoc, Int.add_comm 1]

lemma headerNameByte_ne_zero {c : UInt8} (h : c ≠ 0) : headerNameByte c ≠ 0 := by
  unfold headerNameByte
  split_ifs
  · decide
  · exact h

lemma attachmentPrefix_ne_zero : ∀ c ∈ attachmentPrefix, c ≠ 0 := ne_zero_of_all (by decide)

lemma length_attachmentPrefix : attachmentPrefix.length = 22 := rfl

/-- The value of a header made of a text that has no NUL. -/
lemma attachment_ne_zero {body : Bytes} (h : ∀ c ∈ body, c ≠ 0) :
    ∀ c ∈ attachmentPrefix ++ body ++ ascii "\"", c ≠ 0 := by
  intro c hc
  rw [List.mem_append, List.mem_append] at hc
  rcases hc with (hc | hc) | hc
  · exact attachmentPrefix_ne_zero c hc
  · exact h c hc
  · exact ne_zero_of_all (by decide) c hc

/-- The name is written from the NUL of the first piece on, the quote from the end of the name. -/
lemma fileDisposition_copies {buff name : Bytes} (h : (cString name).length + 24 ≤ buff.length) :
    fileDisposition buff name = some (memcpy buff 0
      (attachmentPrefix ++ (cString name).map headerNameByte ++ ascii "\"" ++ [0])) := by
  have hquote : cString (ascii "\"") = ascii "\"" := by decide
  have hprefix : strcpy buff 0 attachmentPrefix = some (memcpy buff 0 (attachmentPrefix ++ [0])) :=
    strcpy_eq (i := 0) attachmentPrefix_ne_zero (by rw [length_attachmentPrefix]; omega)
  have hfits : attachmentPrefix.length
      + ((cString name).map headerNameByte ++ (ascii "\"" ++ [0])).length ≤ buff.length := by
    simp only [length_attachmentPrefix, List.length_append, List.length_map]
    have htail : (ascii "\"").length + [(0 : UInt8)].length = 2 := rfl
    omega
  have hbehind := storeAll_behind (by simp) hfits
  rw [storeAll_append, List.length_map] at hbehind
  rw [fileDisposition, hprefix, Option.bind_some, cString_terminated attachmentPrefix_ne_zero,
    sanitiseStores_eq, Option.bind_map]
  simp only [strcpy, hquote, Function.comp_def, List.append_assoc]
  exact hbehind

/-- **The file name fits**, and the buffer then holds the value of the header. -/
theorem fileDisposition_eq {buff name : Bytes} (h : (cString name).length + 24 ≤ buff.length) :
    ∃ buff', fileDisposition buff name = some buff' ∧
      cString buff' = attachmentPrefix ++ (cString name).map headerNameByte ++ ascii "\"" := by
  have hfree : ∀ c ∈ (cString name).map headerNameByte, c ≠ 0 := by
    intro c hc
    obtain ⟨d, hd, rfl⟩ := List.mem_map.mp hc
    exact headerNameByte_ne_zero (cString_nul_free name d hd)
  exact ⟨_, fileDisposition_copies h, cString_terminated (attachment_ne_zero hfree)⟩

/-- **The argument fits.** -/
theorem flashDisposition_eq {buff abuf : Bytes} (h : (cString abuf).length + 24 ≤ buff.length) :
    ∃ buff', flashDisposition buff abuf = some buff' ∧
      cString buff' = attachmentPrefix ++ cString abuf ++ ascii "\"" := by
  have hfree := attachment_ne_zero (cString_nul_free abuf)
  refine ⟨_, strcpy_eq (i := 0) hfree ?_, cString_terminated hfree⟩
  simp only [List.length_append, length_attachmentPrefix]
  have hquote : (ascii "\"").length = 1 := rfl
  omega

/-! ## Safe headers -/

/-- **A safe header value**: one line, of the form `attachment; filename=".."`, in which the string
closes at the last quote and means the name `unquoted`. -/
structure SafeAttachment (value unquoted : Bytes) : Prop where
  line : ∀ c ∈ value, c ≠ 10 ∧ c ≠ 13
  closes : ∃ body, value = ascii "attachment; filename=\"" ++ body ++ ascii "\"" ∧
    unquote false (body ++ ascii "\"") = some (unquoted, [])

lemma safeAttachment_iff (body unquoted : Bytes) :
    SafeAttachment (attachmentPrefix ++ body ++ ascii "\"") unquoted ↔
      (∀ c ∈ body, c ≠ 10 ∧ c ≠ 13) ∧ unquote false (body ++ [34]) = some (unquoted, []) := by
  have hquote : ascii "\"" = [34] := rfl
  constructor
  · rintro ⟨hline, body', heq, hclose⟩
    obtain rfl : body = body' :=
      List.append_cancel_left (List.append_cancel_right heq)
    refine ⟨fun c hc => hline c (by simp [hc]), ?_⟩
    rwa [hquote] at hclose
  · rintro ⟨hline, hclose⟩
    refine ⟨fun c hc => ?_, body, rfl, by rwa [hquote]⟩
    rw [List.mem_append, List.mem_append] at hc
    rcases hc with (hc | hc) | hc
    · have hprefix : attachmentPrefix.all (fun c => c != 10 && c != 13) = true := by decide
      simpa using List.all_eq_true.mp hprefix c hc
    · exact hline c hc
    · rw [hquote, List.mem_singleton] at hc
      subst hc
      decide

/-- The name that a download should get: quotes and non-ASCII bytes are underscores. -/
def underscored (c : UInt8) : UInt8 := if c = 39 ∨ c = 34 ∨ 0x7F < c then 95 else c

lemma headerNameByte_eq (c : UInt8) : headerNameByte c = underscored c := by
  have hall : ∀ n : Fin 256, UInt8.ofNat n.val &&& 0x80 ≠ 0 ↔ 0x7F < UInt8.ofNat n.val := by
    decide +kernel
  have hc := hall ⟨c.toNat, c.toNat_lt⟩
  rw [UInt8.ofNat_toNat] at hc
  simp only [headerNameByte, underscored, hc]

lemma underscored_ne_quote (c : UInt8) : underscored c ≠ 34 := by
  unfold underscored
  split_ifs with h
  · decide
  · exact fun hc => h (.inr (.inl hc))

/-- Line breaks and backslashes are not replaced, and nothing is replaced by one. -/
lemma underscored_eq_iff {c d : UInt8} (hd : d = 10 ∨ d = 13 ∨ d = 92) :
    underscored c = d ↔ c = d := by
  unfold underscored
  split_ifs with h
  · constructor
    · rintro rfl
      exact absurd hd (by decide)
    · rintro rfl
      rcases hd with rfl | rfl | rfl <;> exact absurd h (by decide)
  · exact Iff.rfl

/-- **The names that `cgiDownloadFile` makes a safe header of.** -/
lemma safeAttachment_file (name : Bytes) :
    SafeAttachment (attachmentPrefix ++ name.map headerNameByte ++ ascii "\"")
        (name.map underscored) ↔ ∀ c ∈ name, c ≠ 10 ∧ c ≠ 13 ∧ c ≠ 92 := by
  have hmap : name.map headerNameByte = name.map underscored :=
    List.map_congr_left fun c _ => headerNameByte_eq c
  have hquotes : ∀ c ∈ name.map underscored, c ≠ 34 := by
    intro c hc
    obtain ⟨d, _, rfl⟩ := List.mem_map.mp hc
    exact underscored_ne_quote d
  rw [hmap, safeAttachment_iff, unquote_self_iff hquotes]
  simp only [List.forall_mem_map, ne_eq, underscored_eq_iff (.inl rfl),
    underscored_eq_iff (.inr (.inl rfl)), underscored_eq_iff (.inr (.inr rfl))]
  constructor
  · rintro ⟨hline, hslash⟩ c hc
    exact ⟨(hline c hc).1, (hline c hc).2, hslash c hc⟩
  · intro h
    exact ⟨fun c hc => ⟨(h c hc).1, (h c hc).2.1⟩, fun c hc => (h c hc).2.2⟩

/-- **The names that `cgiDownloadFlash` makes a safe header of.** -/
lemma safeAttachment_flash (name : Bytes) :
    (∃ unquoted, SafeAttachment (attachmentPrefix ++ name ++ ascii "\"") unquoted) ↔
      (∀ c ∈ name, c ≠ 10 ∧ c ≠ 13) ∧ QuotesEscaped name := by
  rw [← closes_iff]
  simp only [safeAttachment_iff, exists_and_left]
  refine and_congr_right fun _ => ?_
  cases unquote false (name ++ [34]) with
  | none => simp
  | some r => simp [Prod.ext_iff]

/-! ## The handlers -/

/-- The values of `Content-Disposition` in an answer. -/
def dispositions (out : List HttpCall) : List Bytes :=
  out.filterMap fun c => match c with
    | .header field value => if field = ascii "Content-Disposition" then some value else none
    | _ => none

/-- A name that appfs can store. -/
def Storable (name : Bytes) : Prop := (∀ c ∈ name, c ≠ 0) ∧ name.length ≤ 111

/-- **The answer of `cgiDownloadFile` is safe**: the header is built inside `buff`, it is the one
that is sent, and it names the file. -/
def FileAttachment (buff name : Bytes) (out : List HttpCall) : Prop :=
  ∃ buff', fileDisposition buff name = some buff' ∧ dispositions out = [cString buff'] ∧
    SafeAttachment (cString buff') (name.map underscored)

/-- The name that `getflash.cgi` is asked for. -/
def flashName (args : Args) : Bytes := (args "name").getD (ascii "data.dat")

/-- **The answer of `cgiDownloadFlash` is safe**, with any name. -/
def FlashAttachment (buff : Bytes) (args : Args) (out : List HttpCall) : Prop :=
  ∃ buff' unquoted, flashDisposition buff (flashName args) = some buff' ∧
    dispositions out = [cString buff'] ∧ SafeAttachment (cString buff') unquoted

lemma dispositions_send (out : List HttpCall) (data : Bytes) (len : ℤ) :
    dispositions (out ++ [.send data len]) = dispositions out := by
  simp [dispositions]

lemma dispositions_downloadHeaders (name : Bytes) (size : ℕ) :
    dispositions (downloadHeaders name size)
      = [attachmentPrefix ++ (cString name).map headerNameByte ++ ascii "\""] := by
  have htype : ascii "Content-Type" ≠ ascii "Content-Disposition" := by decide
  have hlen : ascii "Content-Length" ≠ ascii "Content-Disposition" := by decide
  simp [dispositions, downloadHeaders, htype, hlen, attachmentPrefix]

/-- The argument fits in `abuf`, so it is taken whole. -/
lemma httpdFindArg_flashName {args : Args} (hname : ∀ v, args "name" = some v → v.length ≤ 14) :
    (httpdFindArg args "name" (ascii "data.dat") 15).2 = flashName args := by
  rw [httpdFindArg, flashName]
  cases h : args "name" with
  | none => rfl
  | some v => exact List.take_of_length_le ((hname v h).trans (by omega))

lemma dispositions_flashHeaders {args : Args} (hname : ∀ v, args "name" = some v → v.length ≤ 14)
    (st : DownloadFlashState) :
    dispositions (flashHeaders args st)
      = [attachmentPrefix ++ cString (flashName args) ++ ascii "\""] := by
  have htype : ascii "Content-Type" ≠ ascii "Content-Disposition" := by decide
  have hlen : ascii "Content-Length" ≠ ascii "Content-Disposition" := by decide
  rw [← httpdFindArg_flashName hname]
  simp [dispositions, flashHeaders, htype, hlen, attachmentPrefix]

lemma dispositions_download {σ : Type} {A : Appfs σ} {stack : DownloadStack} {args : Args} {s : σ}
    {idx : Handle} {name : Bytes} {size : ℕ} (post : HttpdPostData)
    (hlookup : downloadLookup A args stack.sidx s = some (idx, name, size)) :
    dispositions (cgiDownloadFile A stack ⟨true, true, none, args, post⟩ s).out
      = [attachmentPrefix ++ (cString name).map headerNameByte ++ ascii "\""] := by
  have hcall : cgiDownloadFile A stack ⟨true, true, none, args, post⟩ s
      = downloadChunk A ⟨idx, size, 0⟩ stack.data (downloadHeaders name size) s := by
    simp [cgiDownloadFile, hlookup]
  rw [hcall, downloadChunk, ← dispositions_downloadHeaders name size]
  split_ifs <;> exact dispositions_send _ _ _

lemma dispositions_flash {spiFlashRead : SpiFlashRead} {stack : FlashStack} {args : Args}
    (post : HttpdPostData) (reads : List (ℤ × ℤ)) (hsize : (flashArgs args stack.abuf).size ≠ 0)
    (hname : ∀ v, args "name" = some v → v.length ≤ 14) :
    dispositions (cgiDownloadFlash spiFlashRead stack ⟨true, true, none, args, post⟩ reads).1.out
      = [attachmentPrefix ++ cString (flashName args) ++ ascii "\""] := by
  have hcall : cgiDownloadFlash spiFlashRead stack ⟨true, true, none, args, post⟩ reads
      = flashChunk spiFlashRead (flashArgs args stack.abuf) stack.data
        (flashHeaders args (flashArgs args stack.abuf)) reads := by
    simp [cgiDownloadFlash, hsize]
  rw [hcall, flashChunk, ← dispositions_flashHeaders hname (flashArgs args stack.abuf)]
  split_ifs <;> exact dispositions_send _ _ _

/-- A name argument of 14 bytes fits, and so does `data.dat`. -/
lemma length_flashName_le {args : Args} (hname : ∀ v, args "name" = some v → v.length ≤ 14) :
    (flashName args).length ≤ 14 := by
  rw [flashName]
  cases h : args "name" with
  | none => decide
  | some v => exact hname v h

section Safe

variable {args : Args} {buff : Bytes}

/-- The stored names with which `cgiDownloadFile` is safe. -/
lemma fileAttachment_iff {σ : Type} {A : Appfs σ} {stack : DownloadStack} {s : σ} {idx : Handle}
    {name : Bytes} {size : ℕ} (post : HttpdPostData)
    (hlookup : downloadLookup A args stack.sidx s = some (idx, name, size))
    (hname : Storable name) (hbuff : buff.length = 256) :
    FileAttachment buff name (cgiDownloadFile A stack ⟨true, true, none, args, post⟩ s).out ↔
      ∀ c ∈ name, c ≠ 10 ∧ c ≠ 13 ∧ c ≠ 92 := by
  have hcstr : cString name = name := cString_of_nul_free hname.1
  have hroom : (cString name).length + 24 ≤ buff.length := by
    have hlen := hname.2
    rw [hcstr]
    omega
  obtain ⟨buff', hbuild, hvalue⟩ := fileDisposition_eq hroom
  rw [FileAttachment, dispositions_download post hlookup, ← safeAttachment_file]
  rw [hcstr] at hvalue ⊢
  constructor
  · rintro ⟨b, _, hsent, hsafe⟩
    rwa [List.singleton_inj.mp hsent]
  · intro hsafe
    exact ⟨buff', hbuild, by rw [hvalue], by rwa [hvalue]⟩

/-- The requests with which `cgiDownloadFlash` is safe. -/
lemma flashAttachment_iff {spiFlashRead : SpiFlashRead} {stack : FlashStack} (post : HttpdPostData)
    (reads : List (ℤ × ℤ)) (hsize : (flashArgs args stack.abuf).size ≠ 0)
    (hname : ∀ v, args "name" = some v → v.length ≤ 14) (hbuff : buff.length = 256) :
    FlashAttachment buff args
        (cgiDownloadFlash spiFlashRead stack ⟨true, true, none, args, post⟩ reads).1.out ↔
      (∀ c ∈ cString (flashName args), c ≠ 10 ∧ c ≠ 13) ∧
        QuotesEscaped (cString (flashName args)) := by
  have hroom : (cString (flashName args)).length + 24 ≤ buff.length := by
    have hlen := length_flashName_le hname
    have hle : (cString (flashName args)).length ≤ (flashName args).length :=
      (List.takeWhile_prefix _).length_le
    omega
  obtain ⟨buff', hbuild, hvalue⟩ := flashDisposition_eq hroom
  rw [FlashAttachment, dispositions_flash post reads hsize hname, ← safeAttachment_flash]
  constructor
  · rintro ⟨b, unquoted, _, hsent, hsafe⟩
    exact ⟨unquoted, by rwa [List.singleton_inj.mp hsent]⟩
  · rintro ⟨unquoted, hsafe⟩
    exact ⟨buff', unquoted, hbuild, by rw [hvalue], by rwa [hvalue]⟩

end Safe

/-- **When the attachment name leaves the headers intact.**  For every device, every stored name and
every request, whatever lies in the buffer: the header that `cgiDownloadFile` sends is safe if and
only if the name has no line break and no backslash, and the one of `cgiDownloadFlash` if and only
if its name has no line break, every quote in it is escaped, and its end escapes nothing. -/
theorem attachment_safe_iff {σ : Type} (A : Appfs σ) (spiFlashRead : SpiFlashRead) (args : Args)
    (post : HttpdPostData) {buff : Bytes} (hbuff : buff.length = 256) :
    (∀ (stack : DownloadStack) (s : σ) (idx : Handle) (name : Bytes) (size : ℕ),
      downloadLookup A args stack.sidx s = some (idx, name, size) → Storable name →
      (FileAttachment buff name (cgiDownloadFile A stack ⟨true, true, none, args, post⟩ s).out ↔
        ∀ c ∈ name, c ≠ 10 ∧ c ≠ 13 ∧ c ≠ 92)) ∧
    ∀ (stack : FlashStack) (reads : List (ℤ × ℤ)),
      (flashArgs args stack.abuf).size ≠ 0 → (∀ v, args "name" = some v → v.length ≤ 14) →
      (FlashAttachment buff args
          (cgiDownloadFlash spiFlashRead stack ⟨true, true, none, args, post⟩ reads).1.out ↔
        (∀ c ∈ cString (flashName args), c ≠ 10 ∧ c ≠ 13) ∧
          QuotesEscaped (cString (flashName args))) := by
  constructor
  · intro stack s idx name size hlookup hname
    exact fileAttachment_iff post hlookup hname hbuff
  · intro stack reads hsize hname
    exact flashAttachment_iff post reads hsize hname hbuff

/-- A device with one file of this name. -/
def storedAs (name : Bytes) : RamAppfs := (RamAppfs.exec (.createFile name 1) .empty).2

/-- The file 0, or one byte of flash under this name. -/
def attachmentArgs (name : Bytes) : Args := fun key =>
  if key = "idx" then some (ascii "0")
  else if key = "size" then some (ascii "1")
  else if key = "name" then some name
  else none

/-- For a literal the check is a computation. -/
lemma plain_of_all {b : Bytes} (h : b.all (fun c => c != 10 && c != 13 && c != 92) = true) :
    ∀ c ∈ b, c ≠ 10 ∧ c ≠ 13 ∧ c ≠ 92 := by
  simpa [and_assoc] using h

/-- Plain names are safe. -/
theorem attachment_safe_iff_plain :
    FileAttachment (List.replicate 256 7) (ascii "app") (cgiDownloadFile RamAppfs.device ⟨[], []⟩
      ⟨true, true, none, attachmentArgs [], ⟨[], 0, 0⟩⟩ (storedAs (ascii "app"))).out ∧
    FlashAttachment (List.replicate 256 7) (attachmentArgs (ascii "f.bin"))
      (cgiDownloadFlash (fun _ buf _ => buf) ⟨[], []⟩
        ⟨true, true, none, attachmentArgs (ascii "f.bin"), ⟨[], 0, 0⟩⟩ []).1.out := by
  have hbuff : (List.replicate 256 (7 : UInt8)).length = 256 := List.length_replicate
  have hfile := (attachment_safe_iff RamAppfs.device (fun _ buf _ => buf) (attachmentArgs [])
    ⟨[], 0, 0⟩ hbuff).1
  have hflash := (attachment_safe_iff RamAppfs.device (fun _ buf _ => buf)
    (attachmentArgs (ascii "f.bin")) ⟨[], 0, 0⟩ hbuff).2
  have hplain : ∀ c ∈ ascii "f.bin", c ≠ 10 ∧ c ≠ 13 ∧ c ≠ 92 := plain_of_all (by decide)
  constructor
  · refine (hfile ⟨[], []⟩ (storedAs (ascii "app")) 0 (ascii "app") 1 ?_ ?_).mpr ?_
    · decide
    · exact ⟨ne_zero_of_all (by decide), by decide⟩
    · exact plain_of_all (by decide)
  · refine (hflash ⟨[], []⟩ [] ?_ ?_).mpr ⟨?_, ?_⟩
    · decide
    · rintro v ⟨rfl⟩
      decide
    · exact fun c hc => ⟨(hplain c hc).1, (hplain c hc).2.1⟩
    · exact (closes_iff (ascii "f.bin")).mp (by decide)

/-- A stored name with a line break, and a name of a piece of flash with a quote, are not. -/
theorem attachment_unsafe :
    ¬ FileAttachment (List.replicate 256 7) (ascii "a\r\nX: b")
      (cgiDownloadFile RamAppfs.device ⟨[], []⟩
        ⟨true, true, none, attachmentArgs [], ⟨[], 0, 0⟩⟩ (storedAs (ascii "a\r\nX: b"))).out ∧
    ¬ FlashAttachment (List.replicate 256 7) (attachmentArgs (ascii "a\"b"))
      (cgiDownloadFlash (fun _ buf _ => buf) ⟨[], []⟩
        ⟨true, true, none, attachmentArgs (ascii "a\"b"), ⟨[], 0, 0⟩⟩ []).1.out := by
  constructor
  · have hlookup : downloadLookup RamAppfs.device (attachmentArgs []) []
        (storedAs (ascii "a\r\nX: b")) = some (0, ascii "a\r\nX: b", 1) := by decide
    rw [fileAttachment_iff ⟨[], 0, 0⟩ hlookup
      ⟨ne_zero_of_all (by decide), by decide⟩ List.length_replicate]
    exact fun h => (h 10 (by decide)).1 rfl
  · have hname : ∀ v, attachmentArgs (ascii "a\"b") "name" = some v → v.length ≤ 14 := by
      rintro v ⟨rfl⟩
      decide
    rw [flashAttachment_iff ⟨[], 0, 0⟩ [] (by decide) hname List.length_replicate]
    -- the quote stands behind no backslash
    rintro ⟨_, hquotes, _⟩
    exact absurd (hquotes (ascii "a") (ascii "b") rfl) (by decide)

end Chooser
