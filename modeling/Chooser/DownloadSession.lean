import Chooser.Server
import Chooser.RamAppfs

/-!
# Downloads while others upload and delete

A download keeps the handle, and reads through it in every call; nobody tells it when the file
behind the handle goes away.  As the result of the read is not looked at, the session then sends
what lies on its stack, or the bytes of the file that got the handle.  What it has sent is a prefix
of the file it announced as long as that file is still there at each of its calls
(`download_prefix`).
-/

namespace Chooser

open CStr

section Defs

variable {σ ν : Type} (A : Appfs σ) (files : σ → Files)

/-- The record with which the next call of a download reads. -/
def NextRecord (s : Server σ ν) (d : DownloadConn σ) (stack : DownloadStack) (st : DownloadState) :
    Prop :=
  d.cgiData = some st ∨ d.cgiData = none ∧
    ∃ k name size, downloadLookup A d.getArgs stack.sidx s.fs = some (k, name, size) ∧
      st = ⟨k, size, 0⟩

/-- **The condition of a step.**  A call of a download finds behind its handle a file with the
content that was there when the headers were sent, and the read succeeds. -/
def ContentKept (s : Server σ ν) (e : ServerEvent) : Prop :=
  ∀ c stack d, e = .call c stack → s.conns c = some (.download d) → d.closed = false →
    (∀ k fs₀ f₀, d.headers = some (k, fs₀) → files fs₀ k = some f₀ →
      ∃ f, files s.fs k = some f ∧ f.content = f₀.content) ∧
    ∀ st, NextRecord A s d stack st →
      (A.read st.fd st.pos st.chunkLen stack.data s.fs).1 = espOk

/-- **What every download has sent** is a prefix of the file it sent the headers for. -/
def PrefixSent (s : Server σ ν) : Prop :=
  ∀ c d k fs₀, s.conns c = some (.download d) → d.headers = some (k, fs₀) →
    ∃ f, files fs₀ k = some f ∧ bodySent d.sent <+: f.content

/-- A download that has sent its headers: the record and the bytes are in step. -/
structure Sending (d : DownloadConn σ) (k : Handle) (fs₀ : σ) : Prop where
  headers : d.headers = some (k, fs₀)
  rest : ∃ f pos, files fs₀ k = some f ∧ d.cgiData = some ⟨k, f.size, pos⟩ ∧ pos ≤ f.size ∧
    bodySent d.sent = f.content.take pos

/-- A download that has not begun, or failed, or is sending. -/
def DownloadInv (d : DownloadConn σ) : Prop :=
  (d.headers = none ∧ (d.closed = false → d.cgiData = none ∧ d.sent = [])) ∨
    ∃ k fs₀, Sending files d k fs₀

def DownloadsInv (s : Server σ ν) : Prop :=
  ∀ c d, s.conns c = some (.download d) → DownloadInv files d

end Defs

section Steps

variable {σ ν : Type} {A : Appfs σ} {nvs : NvsExec ν} {files : σ → Files}

lemma DownloadsInv.prefixSent {s : Server σ ν} (h : DownloadsInv files s) : PrefixSent files s := by
  intro c d k fs₀ hconn hheaders
  rcases h c d hconn with ⟨hnone, _⟩ | ⟨k', fs', hk, f, pos, hf, _, _, hbody⟩
  · rw [hnone] at hheaders
    simp at hheaders
  · rw [hk] at hheaders
    obtain ⟨rfl, rfl⟩ := Prod.mk.inj (Option.some.inj hheaders)
    exact ⟨f, hf, hbody ▸ List.take_prefix pos f.content⟩

/-- A step that changes one connection at most. -/
lemma DownloadsInv.of_conn {s s' : Server σ ν} (h : DownloadsInv files s) {c : ConnId}
    {sess : Session σ} (hconns : s'.conns = Function.update s.conns c (some sess))
    (hsess : ∀ d, sess = .download d → DownloadInv files d) : DownloadsInv files s' := by
  intro c' d hd
  rw [hconns] at hd
  by_cases hc : c' = c
  · rw [hc, Function.update_self] at hd
    exact hsess d (Option.some.inj hd)
  · rw [Function.update_of_ne hc] at hd
    exact h c' d hd

variable (hA : A.Laws files)
include hA

/-- One chunk: the piece of the content that follows what was sent. -/
lemma downloadChunk_sends {fs : σ} {k : Handle} {f f₀ : AppfsFile} {pos : ℕ}
    (hf : files fs k = some f) (hcontent : f.content = f₀.content) (hpos : pos ≤ f₀.size)
    {data : Bytes} (hread : (A.read k pos (DownloadState.chunkLen ⟨k, f₀.size, pos⟩) data
      fs).1 = espOk) (head : List HttpCall) :
    ∃ pos', pos ≤ pos' ∧ pos' ≤ f₀.size ∧
      (downloadChunk A ⟨k, f₀.size, pos⟩ data head fs).cgiData = some ⟨k, f₀.size, pos'⟩ ∧
      bodySent (downloadChunk A ⟨k, f₀.size, pos⟩ data head fs).out
        = bodySent head ++ (f₀.content.drop pos).take (pos' - pos) := by
  have hfit := chunkLen_fits ⟨k, f₀.size, pos⟩ hpos
  have hsize : f₀.size = f.size := by rw [← f₀.length_content, ← hcontent, f.length_content]
  refine ⟨pos + DownloadState.chunkLen ⟨k, f₀.size, pos⟩, by omega, hfit, ?_, ?_⟩
  · simp only [downloadChunk]
    split_ifs <;> rfl
  · have hout : (downloadChunk A ⟨k, f₀.size, pos⟩ data head fs).out = head ++
        [.send (A.read k pos (DownloadState.chunkLen ⟨k, f₀.size, pos⟩) data fs).2
          (DownloadState.chunkLen ⟨k, f₀.size, pos⟩)] := by
      simp only [downloadChunk]
      split_ifs <;> rfl
    simp only at hfit
    rw [hout, bodySent_append, bodySent_cons, bodySent_nil, List.append_nil, payload_send_nat,
      read_content hA hf (by omega) hread, hcontent, Nat.add_sub_cancel_left]

/-- **A call of a download** whose content is kept. -/
lemma downloadStep_inv {s : Server σ ν} (hs : DownloadsInv files s) {c : ConnId}
    {stack : DownloadStack} (hc : ContentKept A files s (.call c stack)) {d : DownloadConn σ}
    (hconn : s.conns c = some (.download d)) (hopen : d.closed = false) :
    DownloadsInv files (serverStep A nvs s (.call c stack)) := by
  obtain ⟨hkept, hread⟩ := hc c stack d rfl hconn hopen
  obtain ⟨hstep, heq⟩ := serverStep_call (A := A) hconn hopen
  rw [hstep, heq]
  refine hs.of_conn rfl fun d' hd' => ?_
  obtain rfl := Session.download.inj hd'
  rcases hs c d hconn with ⟨hnone, hfresh⟩ | ⟨k, fs₀, hk, f₀, pos, hf₀, hdata, hpos, hbody⟩
  · obtain ⟨hdata, hsent⟩ := hfresh hopen
    rw [hdata, hsent]
    cases hlook : downloadLookup A d.getArgs stack.sidx s.fs with
    | none => exact Or.inl ⟨rfl, fun h => by simp [cgiDownloadFile, hlook] at h⟩
    | some r =>
        -- the first call: headers, and the first chunk
        obtain ⟨k, name, size⟩ := r
        obtain ⟨f, hf, hinfo⟩ : ∃ f, files s.fs k = some f ∧ (name, size) = (f.name, f.size) := by
          rw [downloadLookup] at hlook
          split_ifs at hlook with hvalid
          · obtain ⟨hk, hinfo⟩ := Prod.mk.inj (Option.some.inj hlook)
            rw [hk, hA.fdValid] at hvalid
            obtain ⟨f, hf⟩ := Option.isSome_iff_exists.mp hvalid.2
            rw [hk, hA.entryInfo hf] at hinfo
            exact ⟨f, hf, hinfo.symm⟩
        obtain ⟨rfl, rfl⟩ := Prod.mk.inj hinfo
        have hok := hread ⟨k, f.size, 0⟩ (Or.inr ⟨hdata, k, f.name, f.size, hlook, rfl⟩)
        obtain ⟨pos', _, hle, hcgi, hout⟩ := downloadChunk_sends hA hf rfl (Nat.zero_le _) hok
          (downloadHeaders f.name f.size)
        refine Or.inr ⟨k, s.fs, rfl, f, pos', hf, ?_, hle, ?_⟩
        · simpa [cgiDownloadFile, hlook] using hcgi
        · rw [bodySent_downloadHeaders, List.nil_append, List.drop_zero, Nat.sub_zero] at hout
          simpa [cgiDownloadFile, hlook] using hout
  · obtain ⟨f, hf, hcontent⟩ := hkept k fs₀ f₀ hk hf₀
    have hok := hread _ (Or.inl hdata)
    rw [hdata]
    obtain ⟨pos', hle', hle, hcgi, hout⟩ := downloadChunk_sends hA hf hcontent hpos hok []
    refine Or.inr ⟨k, fs₀, hk, f₀, pos', hf₀, ?_, hle, ?_⟩
    · simpa [cgiDownloadFile] using hcgi
    · rw [bodySent_nil, List.nil_append] at hout
      rw [show (cgiDownloadFile A stack ⟨true, true, some ⟨k, f₀.size, pos⟩, d.getArgs,
        ⟨[], 0, 0⟩⟩ s.fs).out = (downloadChunk A ⟨k, f₀.size, pos⟩ stack.data [] s.fs).out by
          simp [cgiDownloadFile], bodySent_append, hbody, hout, ← List.take_add]
      congr 1
      omega

/-- **Every step** that meets the condition keeps the invariant. -/
theorem serverStep_downloads (s : Server σ ν) (e : ServerEvent) (hs : DownloadsInv files s)
    (hc : ContentKept A files s e) : DownloadsInv files (serverStep A nvs s e) := by
  have hto := serverStep_to A nvs s e
  generalize hstep : serverStep A nvs s e = s' at hto ⊢
  cases hto with
  | quiet | delete | deleteRow => exact hs
  | openDownload =>
      refine hs.of_conn rfl fun d hd => ?_
      obtain rfl := Session.download.inj hd
      exact Or.inl ⟨rfl, fun _ => ⟨rfl, rfl⟩⟩
  | download hconn hopen =>
      rw [← hstep]
      exact downloadStep_inv hA hs hc hconn hopen
  | abortDownload hconn =>
      refine hs.of_conn rfl fun d' hd' => ?_
      obtain rfl := Session.download.inj hd'
      -- nothing is sent
      rcases hs _ _ hconn with ⟨hnone, _⟩ | ⟨k, fs₀, hk, hrest⟩
      · exact Or.inl ⟨hnone, nofun⟩
      · exact Or.inr ⟨k, fs₀, hk, hrest⟩
  | openUpload | openIndex => exact hs.of_conn rfl nofun
  | post | index | abortUpload | abortIndex => exact hs.of_conn rfl nofun

/-- **Downloads send prefixes as long as the file is kept.**  In every run in which each call of a
download finds its file still there, with the content it had at the headers, and can read it, all
that any download has sent is a prefix of that content, in every state reached. -/
theorem download_prefix (nvs : NvsExec ν) (fs : σ) (v : ν) (es : List ServerEvent)
    (hes : Machine.AllSteps (serverStep A nvs) (ContentKept A files) (Server.initial fs v) es) :
    PrefixSent files (Machine.run (serverStep A nvs) (Server.initial fs v) es) :=
  DownloadsInv.prefixSent (Machine.run_invariant
    (serverStep_downloads hA) (fun c d hd => by simp [Server.initial] at hd) hes)

end Steps

/-! ## A file that goes away -/

/-- The index 0, for every key. -/
def argsZero : Args := fun _ => some (ascii "0")

/-- One file, a byte longer than a chunk. -/
def longFile : RamAppfs := (RamAppfs.exec (.createFile (ascii "a") 1025) .empty).2

lemma longFile_files : longFile.files 0 = some ⟨ascii "a", 1025, RamAppfs.oldData⟩ := rfl

/-- Headers and first chunk of the download of this file. -/
def longFirst : List HttpCall :=
  downloadHeaders (ascii "a") 1025 ++
    [.send (RamAppfs.device.read 0 0 1024 [] longFile).2 (1024 : ℕ)]

/-- The server after the first call of the download. -/
def longBegun : Server RamAppfs Unit :=
  serverStep RamAppfs.device noNvs (serverStep RamAppfs.device noNvs (.initial longFile ())
    (.openDownload 0 argsZero)) (.call 0 ⟨[], []⟩)

lemma longFile_lookup :
    downloadLookup RamAppfs.device argsZero [] longFile = some (0, ascii "a", 1025) := by
  decide

lemma longBegun_conn :
    longBegun.conns 0 = some (.download ⟨argsZero, some ⟨0, 1025, 1024⟩, longFirst, false,
      some (0, longFile)⟩) := by
  obtain ⟨hstep, heq⟩ := serverStep_call (A := RamAppfs.device) (c := 0)
    (s := serverStep RamAppfs.device noNvs (.initial longFile ()) (.openDownload 0 argsZero))
    (d := ⟨argsZero, none, [], false, none⟩) rfl rfl
  rw [longBegun, hstep, heq]
  have hfs : (serverStep RamAppfs.device noNvs (.initial longFile ())
    (.openDownload 0 argsZero)).fs = longFile := rfl
  simp [hfs, Server.withConn, cgiDownloadFile, longFile_lookup, downloadChunk,
    DownloadState.chunkLen, downloadBufSize, longFirst]

lemma bodySent_longFirst :
    bodySent longFirst = NorFlash.read RamAppfs.oldData 0 1024 := by
  have hread : (RamAppfs.device.read 0 0 1024 [] longFile).2.take 1024 = _ :=
    read_content RamAppfs.device_laws longFile_files (by decide)
      (RamAppfs.read_succeeds longFile_files (by decide))
  rw [longFirst, bodySent_append, bodySent_downloadHeaders, List.nil_append, bodySent_cons,
    bodySent_nil, List.append_nil, payload_send_nat, hread, AppfsFile.content,
    NorFlash.take_drop_read RamAppfs.oldData (by decide)]

lemma contentKept_of_not_call {σ ν : Type} {A : Appfs σ} {files : σ → Files} {s : Server σ ν}
    {e : ServerEvent} (h : ∀ c stack, e ≠ .call c stack) : ContentKept A files s e :=
  fun c stack _ he => absurd he (h c stack)

/-- The file is deleted when all of it has been sent. -/
theorem download_prefix_whole :
    PrefixSent RamAppfs.files (Machine.run (serverStep RamAppfs.device noNvs)
      (Server.initial longFile ())
      [.openDownload 0 argsZero, .call 0 ⟨[], []⟩, .call 0 ⟨[], []⟩, .delete argsZero []]) := by
  refine download_prefix RamAppfs.device_laws noNvs longFile () _
    ⟨contentKept_of_not_call (by simp), ?_, ?_, contentKept_of_not_call (by simp), trivial⟩
  · intro c stack d he hd _
    obtain ⟨rfl, rfl⟩ := ServerEvent.call.inj he
    obtain rfl : (⟨argsZero, none, [], false, none⟩ : DownloadConn RamAppfs) = d :=
      Session.download.inj (Option.some.inj hd)
    refine ⟨fun k fs₀ f₀ hk => by simp at hk, ?_⟩
    rintro st (hst | ⟨_, k, name, size, hlook, rfl⟩)
    · simp at hst
    · obtain ⟨rfl, hinfo⟩ := Prod.mk.inj (Option.some.inj (longFile_lookup.symm.trans hlook))
      obtain ⟨_, rfl⟩ := Prod.mk.inj hinfo
      exact RamAppfs.read_succeeds longFile_files (by decide)
  · intro c stack d he hd _
    obtain ⟨rfl, rfl⟩ := ServerEvent.call.inj he
    obtain rfl := Session.download.inj (Option.some.inj (longBegun_conn.symm.trans hd))
    refine ⟨fun k fs₀ f₀ hk hf₀ => ?_, ?_⟩
    · obtain ⟨rfl, rfl⟩ := Prod.mk.inj (Option.some.inj hk)
      exact ⟨f₀, hf₀, rfl⟩
    · rintro st (hst | ⟨hnone, _⟩)
      · obtain rfl := Option.some.inj hst
        exact RamAppfs.read_succeeds longFile_files (by decide)
      · simp at hnone

/-- The file is deleted between the two calls, and the second sends the byte that was on the
stack. -/
theorem download_not_prefix :
    ¬ ∀ (σ ν : Type) (A : Appfs σ) (nvs : NvsExec ν) (files : σ → Files) (fs : σ) (v : ν)
      (es : List ServerEvent), A.Laws files →
      PrefixSent files (Machine.run (serverStep A nvs) (Server.initial fs v) es) := by
  intro h
  have hprefix := h RamAppfs Unit RamAppfs.device noNvs RamAppfs.files longFile ()
    [.openDownload 0 argsZero, .call 0 ⟨[], []⟩, .delete argsZero [], .call 0 ⟨[], [0]⟩]
    RamAppfs.device_laws
  simp only [Machine.run_cons, Machine.run_nil] at hprefix
  rw [← longBegun] at hprefix
  obtain ⟨s, hs⟩ : ∃ s, s = serverStep RamAppfs.device noNvs longBegun (.delete argsZero []) :=
    ⟨_, rfl⟩
  rw [← hs] at hprefix
  have hconn := longBegun_conn
  have hgone : RamAppfs.files s.fs 0 = none := by
    rw [hs]
    rfl
  replace hconn : s.conns 0 = _ := (by rw [hs]; rfl : s.conns 0 = longBegun.conns 0).trans hconn
  have hread : (RamAppfs.device.read 0 1024 1 [0] s.fs).2 = [0] :=
    (RamAppfs.device_laws.read_invalid hgone).2
  obtain ⟨hstep, heq⟩ := serverStep_call (A := RamAppfs.device) hconn rfl
  rw [hstep, heq] at hprefix
  obtain ⟨f, hf, hp⟩ := hprefix 0 _ 0 longFile (Function.update_self 0 _ s.conns) rfl
  obtain rfl := Option.some.inj (longFile_files.symm.trans hf)
  have hbody : bodySent (cgiDownloadFile RamAppfs.device ⟨[], [0]⟩
      ⟨true, true, some ⟨0, 1025, 1024⟩, argsZero, ⟨[], 0, 0⟩⟩ s.fs).out = [0] := by
    simp [cgiDownloadFile, downloadChunk, DownloadState.chunkLen, downloadBufSize, hread,
      HttpCall.payload]
  rw [bodySent_append, bodySent_longFirst, hbody, AppfsFile.content,
    NorFlash.read_add RamAppfs.oldData 0 1024 1] at hp
  rw [List.prefix_append_right_inj] at hp
  exact absurd hp (by decide)

end Chooser
