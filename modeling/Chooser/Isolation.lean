import Chooser.Server
import Chooser.RamAppfs

/-!
# Concurrent uploads

All uploads create and rename the one file `__upload_temp_file__.tmp`, but each writes through the
handle it got when it created it.  Another upload that starts meanwhile takes the file away, and
its own may get the same handle.

What holds is about the sessions whose file is left alone: as long as no session completes a page
after its temporary file has gone, every session writes to the file it created, and what it
acknowledges is stored (`uploads_isolated`).  The invariant says of each open upload that its
temporary file, should it still be there, holds what the session has written.
-/

namespace Chooser

open CStr

section Defs

variable {σ ν : Type} (A : Appfs σ) (nvs : NvsExec ν) (files : σ → Files)

/-- The temporary file that `c` created is still there, under the handle. -/
def OwnsTemp (s : Server σ ν) (c : ConnId) (fd : Handle) : Prop :=
  ∃ f, files s.fs fd = some f ∧ f.name = uploadTempName ∧ s.creator fd = some c

/-- **The condition of a step.**  A post buffer that completes a page of a session finds the
temporary file of that session still there, and no erase or write of a last page fails. -/
def TempKept (s : Server σ ν) (e : ServerEvent) : Prop :=
  ∀ c chunk u, e = .post c chunk → s.conns c = some (.upload u) → u.closed = false →
    (∀ st, u.cgiData = some st → st.state = .write → st.lenLeft ≤ chunk.length →
      OwnsTemp files s c st.fd) ∧
    ∀ ev ∈ (serverStep A nvs s e).log, ¬ LastPageFault u.len ev

/-- **Isolation of a step.**  A session that renames and answers 200 has stored its own body under
its name, and only the temporary file that the session created is erased or written. -/
structure Isolated (s : Server σ ν) (e : ServerEvent) : Prop where
  stored : ∀ c chunk u u', e = .post c chunk → s.conns c = some (.upload u) → u.closed = false →
    (serverStep A nvs s e).conns c = some (.upload u') →
    (∃ ev ∈ (serverStep A nvs s e).log, ∃ old new, ev.call = .rename old new ∧
      ev.answer.err = espOk) → .startResponse 200 ∈ u'.sent →
    ∃ h f, files (serverStep A nvs s e).fs h = some f ∧ f.name = uploadName u'.getArgs ∧
      f.content = u'.received ∧ f.size = u'.len
  own : ∀ ev ∈ (serverStep A nvs s e).log, ∀ fd adr,
    ((∃ n, ev.call = .erase fd adr n) ∨ ∃ data, ev.call = .write fd adr data) →
    ∃ c chunk f, e = .post c chunk ∧ files ev.before fd = some f ∧ f.name = uploadTempName ∧
      (serverStep A nvs s e).creator fd = some c

/-! ## The invariant -/

/-- A session that writes: its counters are right, and so is its file if it is still there. -/
structure WritingIf (fs : σ) (creator : Handle → Option ConnId) (c : ConnId) (args : Args)
    (len : ℕ) (got : Bytes) (st : UploadState) : Prop where
  state : st.state = .write
  ok : st.Ok
  counters : Counters len got st
  name : cString st.name = uploadName args
  file : ∀ f, files fs st.fd = some f → f.name = uploadTempName → creator st.fd = some c →
    f.size = len ∧ Stored got st.address f.flash

/-- An open upload: nothing received, or writing, or failed. -/
structure UploadInv (fs : σ) (creator : Handle → Option ConnId) (c : ConnId) (u : UploadConn) :
    Prop where
  sent : u.sent = []
  fits : u.received.length ≤ u.len
  phase : (u.cgiData.getD .initial = .initial ∧ u.received = [] ∧ ∀ h, creator h ≠ some c) ∨
    ∃ st, u.cgiData = some st ∧
      (WritingIf files fs creator c u.getArgs u.len u.received st ∨ st.Ok ∧ st.state = .error)

structure UploadsInv (s : Server σ ν) : Prop where
  fresh : ∀ c, s.conns c = none → ∀ h, s.creator h ≠ some c
  uploads : ∀ c u, s.conns c = some (.upload u) → u.closed = false →
    UploadInv files s.fs s.creator c u

/-- What a step has to leave alone for the sake of the session `c`. -/
def Undisturbed (fs fs' : σ) (creator creator' : Handle → Option ConnId) (c : ConnId) : Prop :=
  ∀ h, creator' h = some c → creator h = some c ∧
    ∀ f, files fs' h = some f → f.name = uploadTempName → files fs h = some f

end Defs

section Frame

variable {σ ν : Type} {files : σ → Files}

lemma undisturbed_refl (fs : σ) (creator : Handle → Option ConnId) (c : ConnId) :
    Undisturbed files fs fs creator creator c := fun _ h => ⟨h, fun _ hf _ => hf⟩

lemma UploadInv.frame {fs fs' : σ} {creator creator' : Handle → Option ConnId} {c : ConnId}
    {u : UploadConn} (h : UploadInv files fs creator c u)
    (hu : Undisturbed files fs fs' creator creator' c) : UploadInv files fs' creator' c u where
  sent := h.sent
  fits := h.fits
  phase := by
    rcases h.phase with ⟨hst, hrec, hcr⟩ | ⟨st, hst, hw | herr⟩
    · exact Or.inl ⟨hst, hrec, fun k hk => hcr k (hu k hk).1⟩
    · refine Or.inr ⟨st, hst, Or.inl ⟨hw.state, hw.ok, hw.counters, hw.name, ?_⟩⟩
      intro f hf hname hk
      obtain ⟨hk', hold⟩ := hu st.fd hk
      exact hw.file f (hold f hf hname) hname hk'
    · exact Or.inr ⟨st, hst, Or.inr herr⟩

/-- A step that changes one connection, which is not an open upload afterwards, and leaves the
others undisturbed. -/
lemma UploadsInv.of_conn {s s' : Server σ ν} (h : UploadsInv files s) {c : ConnId}
    {sess : Session σ} (hconns : s'.conns = Function.update s.conns c (some sess))
    (hsess : ∀ u, sess = .upload u → u.closed = false → UploadInv files s'.fs s'.creator c u)
    (hfresh : ∀ c', c' ≠ c → ∀ k, s'.creator k = some c' → s.creator k = some c')
    (hu : ∀ c', c' ≠ c → Undisturbed files s.fs s'.fs s.creator s'.creator c') :
    UploadsInv files s' where
  fresh c' hnone k hk := by
    rw [hconns] at hnone
    by_cases hc : c' = c
    · rw [hc, Function.update_self] at hnone
      simp at hnone
    · rw [Function.update_of_ne hc] at hnone
      exact h.fresh c' hnone k (hfresh c' hc k hk)
  uploads c' u hu' hopen := by
    rw [hconns] at hu'
    by_cases hc : c' = c
    · subst hc
      rw [Function.update_self] at hu'
      exact hsess u (Option.some.inj hu') hopen
    · rw [Function.update_of_ne hc] at hu'
      exact (h.uploads c' u hu' hopen).frame (hu c' hc)

lemma UploadsInv.quiet {s : Server σ ν} (h : UploadsInv files s) : UploadsInv files s.quiet :=
  ⟨h.fresh, h.uploads⟩

/-- A step that changes one connection and nothing else of the device. -/
lemma UploadsInv.withConn {s : Server σ ν} (h : UploadsInv files s) {c : ConnId}
    {sess : Session σ}
    (hsess : ∀ u, sess = .upload u → u.closed = false → UploadInv files s.fs s.creator c u) :
    UploadsInv files (s.quiet.withConn c sess) :=
  h.of_conn rfl hsess (fun _ _ _ hk => hk) fun c' _ => undisturbed_refl s.fs s.creator c'

lemma UploadsInv.initial (fs : σ) (nvs : ν) : UploadsInv files (Server.initial fs nvs) where
  fresh _ _ _ := by simp [Server.initial]
  uploads _ _ hu := by simp [Server.initial] at hu

end Frame

/-! ## A post buffer -/

section Post

variable {σ ν : Type} {A : Appfs σ} {files : σ → Files}

/-- What feeding a buffer to an open upload does, with the files and their creators. -/
structure FeedOut (files : σ → Files) (fs : σ) (creator : Handle → Option ConnId) (c : ConnId)
    (args : Args) (len : ℕ) (got : Bytes) (r : UploadState × σ × List (AppfsEvent σ)) :
    Prop where
  fresh : ∀ c', c' ≠ c → ∀ h, createdBy c r.2.2 creator h = some c' → creator h = some c'
  others : ∀ c', c' ≠ c →
    Undisturbed files fs r.2.1 creator (createdBy c r.2.2 creator) c'
  own : ∀ ev ∈ r.2.2, ∀ fd adr,
    ((∃ n, ev.call = .erase fd adr n) ∨ ∃ data, ev.call = .write fd adr data) →
    ∃ f, files ev.before fd = some f ∧ f.name = uploadTempName ∧
      createdBy c r.2.2 creator fd = some c
  phase : (r.1 = .initial ∧ r.2.2 = [] ∧ got = [] ∧
      ∀ h, createdBy c r.2.2 creator h ≠ some c) ∨
    WritingIf files r.2.1 (createdBy c r.2.2 creator) c args len got r.1 ∨
    (r.1.state = .done ∧ len ≤ got.length ∧
      ((∀ ev ∈ r.2.2, ¬ LastPageFault len ev) → ∃ h f, files r.2.1 h = some f ∧
        f.name = uploadName args ∧ f.content = got.take len ∧ f.size = len)) ∨
    r.1.Ok ∧ r.1.state = .error

/-- A buffer that makes no call. -/
lemma feedOut_quiet {fs : σ} {creator : Handle → Option ConnId} {c : ConnId} {args : Args}
    {len : ℕ} {got : Bytes} {st : UploadState}
    (h : (st = .initial ∧ got = [] ∧ ∀ h, creator h ≠ some c) ∨
      WritingIf files fs creator c args len got st ∨ st.Ok ∧ st.state = .error) :
    FeedOut files fs creator c args len got (st, fs, []) where
  fresh _ _ _ hk := hk
  others c' _ := undisturbed_refl fs creator c'
  own ev hev := by simp at hev
  phase := by
    rcases h with ⟨hst, hrec, hcr⟩ | hw | herr
    · exact Or.inl ⟨hst, rfl, hrec, hcr⟩
    · exact Or.inr (Or.inl hw)
    · exact Or.inr (Or.inr (Or.inr herr))

/-- A session that makes progress, from the moment its file exists. -/
lemma Progress.feedOut {F₀ : Files} {log₀ : List (AppfsEvent σ)} {st₀ : UploadState}
    {fs : σ} {creator creator₁ : Handle → Option ConnId} {c : ConnId} {args : Args} {len : ℕ}
    {got : Bytes} {r : UploadState × σ × List (AppfsEvent σ)}
    (h : Progress files F₀ log₀ len st₀ got r) (hname : cString st₀.name = uploadName args)
    (hcr : createdBy c log₀ creator = creator₁) (hc : creator₁ st₀.fd = some c)
    (hother : ∀ c', c' ≠ c → ∀ k, creator₁ k = some c' → creator k = some c')
    (hlog₀ : ∀ ev ∈ log₀, ∀ fd adr, ¬ ((∃ n, ev.call = .erase fd adr n) ∨
      ∃ data, ev.call = .write fd adr data)) : FeedOut files fs creator c args len got r := by
  obtain ⟨evs, hlog, hevs⟩ := h.events
  have hcr' : createdBy c r.2.2 creator = creator₁ := by
    rw [hlog, createdBy_append, hcr, createdBy_of_no_create]
    intro ev hev n size hcall
    rcases hevs ev hev with hquiet | hfinal
    · exact hquiet.no_create n size hcall
    · rw [hfinal.call] at hcall
      simp at hcall
  refine ⟨fun c' hne k hk => ?_, fun c' hne k hk => ?_, fun ev hev fd adr hcall => ?_, ?_⟩
  · rw [hcr'] at hk
    exact hother c' hne k hk
  · rw [hcr'] at hk
    refine ⟨hother c' hne k hk, fun f hf hfname => ?_⟩
    -- the only temporary file there is belongs to `c`
    rw [h.temp hf hfname, hc] at hk
    exact absurd (Option.some.inj hk).symm hne
  · rw [hcr']
    rw [hlog] at hev
    rcases List.mem_append.mp hev with hev | hev
    · exact absurd hcall (hlog₀ ev hev fd adr)
    · rcases hevs ev hev with hquiet | hfinal
      · obtain ⟨hfd, f, hf, hfname⟩ := hquiet.own fd adr hcall
        rw [hfd]
        exact ⟨f, hf, hfname, hc⟩
      · rw [hfinal.call] at hcall
        simp at hcall
  · refine Or.inr ?_
    rw [hcr']
    rcases h.phase with hw | hfin | ⟨hok, herr, _⟩
    · obtain ⟨f, hf, hfname, hsize, hstored⟩ := hw.file
      refine Or.inl ⟨hw.state, hw.ok, hw.counters, by rw [h.name, hname], fun g hg _ _ => ?_⟩
      rw [hf] at hg
      obtain rfl := Option.some.inj hg
      exact ⟨hsize, hstored⟩
    · obtain ⟨f, hf, hfname, hsize, hcontent⟩ := hfin.file
      refine Or.inr (Or.inl ⟨hfin.state, hfin.count, fun hgood =>
        ⟨_, f, hf, ?_, hcontent hgood, hsize⟩⟩)
      rw [hfname, h.name, hname]
    · exact Or.inr (Or.inr ⟨hok, herr⟩)

variable (hA : A.Laws files)
include hA

/-- The first bytes: the file is created, or the upload has failed. -/
lemma feedOut_first {fs : σ} {creator : Handle → Option ConnId} {c : ConnId} {args : Args} {len : ℕ}
    (hlen : 0 < len) {chunk : Bytes} (hnil : chunk ≠ []) :
    FeedOut files fs creator c args len chunk
      (uploadFeed (record A.exec) args len (.initial, fs, []) chunk) := by
  obtain ⟨hname, ⟨hok, st₀, hfd, hname₀, hprog⟩ | ⟨herr, hstate, heq⟩⟩ :=
    uploadBody_spec hA hlen hnil fs
  · refine Progress.feedOut hprog (by rw [hname₀, hname]) (createdBy_create_ok hok) ?_ ?_ ?_
    · rw [hfd]
      exact Function.update_self _ _ _
    · intro c' hne k hk
      by_cases hkfd : k = (A.exec (.createFile uploadTempName len) fs).1.fd
      · rw [hkfd, Function.update_self] at hk
        exact absurd (Option.some.inj hk).symm hne
      · rwa [Function.update_of_ne hkfd] at hk
    · intro ev hev fd adr
      obtain rfl := List.mem_singleton.mp hev
      simp [callEvent]
  · have hcreator : createdBy c [callEvent A.exec (.createFile uploadTempName len) fs] creator
      = creator := createdBy_create_fail herr
    rw [show uploadFeed (record A.exec) args len (.initial, fs, []) chunk
      = uploadBody (record A.exec) args len (fs, []) chunk from rfl]
    have hokay : (uploadBody (record A.exec) args len (fs, []) chunk).1.Ok :=
      uploadFeed_ok hlen UploadState.initial_ok chunk
    generalize uploadBody (record A.exec) args len (fs, []) chunk = r at *
    obtain ⟨st', w⟩ := r
    obtain rfl : w = _ := heq
    refine ⟨fun c' _ k hk => ?_, fun c' _ k hk => ?_, fun ev hev fd adr hcall => ?_,
      Or.inr (Or.inr (Or.inr ⟨hokay, hstate⟩))⟩
    · simpa only [hcreator] using hk
    · simp only [hcreator] at hk
      refine ⟨hk, fun f hf hfname => ?_⟩
      rcases hA.create_fail herr with hsame | hgone
      · rwa [← hsame]
      · exact absurd hfname (Files.without_eq_some.mp (hgone ▸ hf)).2
    · obtain rfl := List.mem_singleton.mp hev
      simp [callEvent] at hcall

/-- A buffer for an upload that is writing, whose file must still be there if a page gets full. -/
lemma feedOut_writing {fs : σ} {creator : Handle → Option ConnId} {c : ConnId} {args : Args}
    {len : ℕ} {got : Bytes} {st : UploadState}
    (hw : WritingIf files fs creator c args len got st) {chunk : Bytes} (hnil : chunk ≠ [])
    (hfit : got.length + chunk.length ≤ len)
    (htemp : st.lenLeft ≤ chunk.length →
      ∃ f, files fs st.fd = some f ∧ f.name = uploadTempName ∧ creator st.fd = some c) :
    FeedOut files fs creator c args len (got ++ chunk)
      (uploadFeed (record A.exec) args len (st, fs, []) chunk) := by
  have hlen : 0 < len := by
    have := List.length_pos_of_ne_nil hnil
    omega
  by_cases hlt : chunk.length < st.lenLeft
  · -- the bytes fit in the page
    rw [uploadFeed_copy hlen hw.ok hw.state hlt]
    refine feedOut_quiet (Or.inr (Or.inl ⟨hw.state, hw.ok.copy hw.state hlt, ?_, hw.name, ?_⟩))
    · rw [st.lenLeft_eq] at hlt
      have hroom := hw.ok.room hw.state
      exact hw.counters.copy (by omega) (by omega)
    · intro f hf hfname hk
      obtain ⟨hsize, hstored⟩ := hw.file f hf hfname hk
      exact ⟨hsize, hstored.append (by have := hw.counters.count; omega) chunk⟩
  · obtain ⟨f, hf, hfname, hk⟩ := htemp (by omega)
    obtain ⟨hsize, hstored⟩ := hw.file f hf hfname hk
    have hwriting : Writing files len got st fs :=
      ⟨hw.state, hw.ok, hw.counters, f, hf, hfname, hsize, hstored⟩
    exact Progress.feedOut ((hwriting.progress hA []).feed hA _ hlen chunk) hw.name rfl hk
      (fun _ _ _ hk => hk) (by simp)

/-- **A buffer for an open upload.** -/
lemma feedOut {fs : σ} {creator : Handle → Option ConnId} {c : ConnId} {u : UploadConn}
    (h : UploadInv files fs creator c u) {chunk : Bytes}
    (hfit : u.received.length + chunk.length ≤ u.len)
    (htemp : ∀ st, u.cgiData = some st → st.state = .write → st.lenLeft ≤ chunk.length →
      ∃ f, files fs st.fd = some f ∧ f.name = uploadTempName ∧ creator st.fd = some c) :
    FeedOut files fs creator c u.getArgs u.len (u.received ++ chunk)
      (uploadFeed (record A.exec) u.getArgs u.len (u.cgiData.getD .initial, fs, []) chunk) := by
  by_cases hnil : chunk = []
  · subst hnil
    rw [uploadFeed_nil, List.append_nil]
    refine feedOut_quiet ?_
    rcases h.phase with ⟨hst, hrec, hcr⟩ | ⟨st, hst, hw | herr⟩
    · exact Or.inl ⟨hst, hrec, hcr⟩
    · rw [hst]
      exact Or.inr (Or.inl hw)
    · rw [hst]
      exact Or.inr (Or.inr herr)
  · have hlen : 0 < u.len := by
      have := List.length_pos_of_ne_nil hnil
      omega
    rcases h.phase with ⟨hst, hrec, hcr⟩ | ⟨st, hst, hw | ⟨hok, herr⟩⟩
    · rw [hst, hrec, List.nil_append]
      exact feedOut_first hA hlen hnil
    · rw [hst, Option.getD_some]
      exact feedOut_writing hA hw hnil hfit (htemp st hst hw.state)
    · rw [hst, Option.getD_some, uploadFeed_stopped hlen hok (Or.inr herr)]
      exact feedOut_quiet (Or.inr (Or.inr ⟨hok, herr⟩))

omit hA in
/-- What a buffer makes of the connection. -/
lemma post_cases {ω : Type} {exec : Exec ω} {u : UploadConn} (hopen : u.closed = false)
    {chunk : Bytes} (hfit : u.received.length + chunk.length ≤ u.len) (w : ω) :
    ∃ sent closed, UploadConn.post exec (u, w) chunk =
        ({ u with
            received := u.received ++ chunk
            cgiData := some (uploadFeed exec u.getArgs u.len (u.cgiData.getD .initial, w) chunk).1
            sent := sent
            closed := closed },
          (uploadFeed exec u.getArgs u.len (u.cgiData.getD .initial, w) chunk).2) ∧
      (closed = false ∧ sent = u.sent ∧ u.received.length + chunk.length < u.len ∨
        closed = true ∧ u.received.length + chunk.length = u.len ∧ sent = u.sent ++
          uploadResponse (uploadFeed exec u.getArgs u.len (u.cgiData.getD .initial, w) chunk).1)
      := by
  rcases hfit.lt_or_eq with hlt | heq
  · exact ⟨_, _, post_open hopen chunk hlt w, Or.inl ⟨hopen, rfl, hlt⟩⟩
  · exact ⟨_, _, post_last hopen chunk heq w, Or.inr ⟨rfl, heq, rfl⟩⟩

omit hA in
/-- A step without calls is isolated. -/
lemma isolated_of_no_calls {nvs : NvsExec ν} {s : Server σ ν} {e : ServerEvent}
    (h : (serverStep A nvs s e).log = []) : Isolated A nvs files s e where
  stored _ _ _ _ _ _ _ _ hren := by
    obtain ⟨ev, hev, _⟩ := hren
    rw [h] at hev
    simp at hev
  own ev hev := by
    rw [h] at hev
    simp at hev

/-- A post buffer for an open upload. -/
lemma postStep_open {nvs : NvsExec ν} {s : Server σ ν} (hs : UploadsInv files s) {c : ConnId}
    {chunk : Bytes} {u : UploadConn} (hconn : s.conns c = some (.upload u))
    (hopen : u.closed = false) (hfit : u.received.length + chunk.length ≤ u.len)
    (hc : TempKept A nvs files s (.post c chunk)) :
    Isolated A nvs files s (.post c chunk) ∧
      UploadsInv files (serverStep A nvs s (.post c chunk)) := by
  have hinv := hs.uploads c u hconn hopen
  obtain ⟨htemp, hfault⟩ := hc c chunk u rfl hconn hopen
  have hout := feedOut hA hinv hfit htemp
  obtain ⟨sent, closed, hpost, hend⟩ := post_cases hopen hfit (s.fs, [])
  obtain ⟨hfs, hlog, hcr, hconns⟩ := serverStep_post nvs chunk hconn hopen hfit hpost
  have hok := hout.phase
  generalize uploadFeed (record A.exec) u.getArgs u.len (u.cgiData.getD .initial, s.fs, []) chunk
    = r at *
  rw [hlog] at hfault
  refine ⟨⟨fun c' chunk' v u' he hv hvopen hu' hren hanswer => ?_,
    fun ev hev fd adr hcall => ?_⟩, ?_⟩
  · obtain ⟨rfl, rfl⟩ := ServerEvent.post.inj he
    rw [hconns, Function.update_self] at hu'
    obtain rfl := Session.upload.inj (Option.some.inj hu')
    rw [hlog] at hren
    rw [hfs]
    rcases hend with ⟨_, rfl, _⟩ | ⟨_, hall, rfl⟩
    · -- an answer before the end of the body does not exist
      simp [hinv.sent] at hanswer
    · have hlen : (u.received ++ chunk).length = u.len := by rw [List.length_append, hall]
      rcases hok with ⟨_, hnolog, _⟩ | hw | ⟨_, _, hstored⟩ | ⟨_, herr⟩
      · obtain ⟨ev, hev, _⟩ := hren
        rw [hnolog] at hev
        simp at hev
      · have hroom := hw.ok.room hw.state
        have hcount := hw.counters.count
        have hsum := hw.counters.sum
        omega
      · obtain ⟨h, f, hf, hfname, hcontent, hsize⟩ := hstored hfault
        rw [← hlen, List.take_length] at hcontent
        exact ⟨h, f, hf, hfname, hcontent, hsize⟩
      · rw [hinv.sent] at hanswer
        simp [uploadResponse, herr] at hanswer
  · rw [hlog] at hev
    obtain ⟨f, hf, hfname, hk⟩ := hout.own ev hev fd adr hcall
    exact ⟨c, chunk, f, rfl, hf, hfname, by rw [hcr]; exact hk⟩
  · refine hs.of_conn hconns (fun v hv hvopen => ?_) ?_ ?_
    · obtain rfl := Session.upload.inj hv
      rcases hend with ⟨_, rfl, hlt⟩ | ⟨rfl, _⟩
      · refine ⟨hinv.sent, by simp only [List.length_append]; omega, ?_⟩
        rw [hfs, hcr]
        rcases hok with ⟨hst, _, hrec, hfresh⟩ | hw | ⟨_, hcount, _⟩ | herr
        · exact Or.inl ⟨hst, hrec, hfresh⟩
        · exact Or.inr ⟨r.1, rfl, Or.inl hw⟩
        · rw [List.length_append] at hcount
          omega
        · exact Or.inr ⟨r.1, rfl, Or.inr herr⟩
      · exact absurd hvopen (by simp)
    · rw [hcr]
      exact hout.fresh
    · rw [hfs, hcr]
      exact hout.others

/-! ## The other steps -/

lemma delete_sub {name : Bytes} {s : σ} {h : Handle} {f : AppfsFile}
    (hf : files (A.exec (.deleteFile name) s).2 h = some f) : files s h = some f := by
  by_cases hok : (A.exec (.deleteFile name) s).1.err = espOk
  · rw [hA.delete_ok hok] at hf
    exact (Files.without_eq_some.mp hf).1
  · rwa [hA.delete_fail hok] at hf

lemma deleteStep_isolated {nvs : NvsExec ν} {s : Server σ ν} (hs : UploadsInv files s)
    (args : Args) (fdText : Bytes) :
    (∀ ev ∈ (deleteStep A nvs s args fdText).log, ∃ n, ev.call = .deleteFile n) ∧
      UploadsInv files (deleteStep A nvs s args fdText) := by
  rw [deleteStep, cgiDelete]
  cases deleteIdx args fdText with
  | none => exact ⟨by simp, hs.fresh, hs.uploads⟩
  | some k =>
      refine ⟨fun ev hev => ?_, hs.fresh, fun c u hu hopen => ?_⟩
      · obtain rfl := List.mem_singleton.mp hev
        exact ⟨_, rfl⟩
      · exact (hs.uploads c u hu hopen).frame fun h hk =>
          ⟨hk, fun f hf _ => delete_sub hA hf⟩

omit hA in
/-- A step that only deletes is isolated. -/
lemma isolated_of_deletes {nvs : NvsExec ν} {s : Server σ ν} {e : ServerEvent}
    (hpost : ∀ c chunk, e ≠ .post c chunk)
    (hlog : ∀ ev ∈ (serverStep A nvs s e).log, ∃ n, ev.call = .deleteFile n) :
    Isolated A nvs files s e where
  stored c chunk _ _ he := absurd he (hpost c chunk)
  own ev hev fd adr hcall := by
    obtain ⟨n, hn⟩ := hlog ev hev
    rw [hn] at hcall
    simp at hcall

/-- **Every step** from a state in the invariant that meets the condition is isolated and keeps the
invariant. -/
theorem serverStep_isolated {nvs : NvsExec ν} (s : Server σ ν) (e : ServerEvent)
    (hs : UploadsInv files s) (hc : TempKept A nvs files s e) :
    Isolated A nvs files s e ∧ UploadsInv files (serverStep A nvs s e) := by
  have hto := serverStep_to A nvs s e
  generalize hstep : serverStep A nvs s e = s' at hto ⊢
  cases hto with
  | quiet => exact ⟨isolated_of_no_calls (by rw [hstep]; rfl), hs.quiet⟩
  | openUpload hfree =>
      refine ⟨isolated_of_no_calls (by rw [hstep]; rfl), hs.withConn fun u hu _ => ?_⟩
      obtain rfl := Session.upload.inj hu
      exact ⟨rfl, Nat.zero_le _, Or.inl ⟨rfl, rfl, hs.fresh _ hfree⟩⟩
  | post hconn hopen hfit => exact hstep ▸ postStep_open hA hs hconn hopen hfit hc
  | abortUpload =>
      refine ⟨isolated_of_no_calls (by rw [hstep]; rfl), hs.withConn fun u hu hopen => ?_⟩
      obtain rfl := Session.upload.inj hu
      cases hopen
  | index =>
      refine ⟨isolated_of_no_calls (by rw [hstep]; rfl), ?_⟩
      exact hs.of_conn rfl nofun (fun _ _ _ hk => hk) fun c' _ =>
        undisturbed_refl s.fs s.creator c'
  | openDownload | openIndex =>
      exact ⟨isolated_of_no_calls (by rw [hstep]; rfl), hs.withConn nofun⟩
  | download | abortDownload | abortIndex =>
      exact ⟨isolated_of_no_calls (by rw [hstep]; rfl), hs.withConn nofun⟩
  | delete =>
      obtain ⟨hlog, hinv⟩ := deleteStep_isolated hA hs _ _
      exact ⟨isolated_of_deletes nofun (by rw [hstep]; exact hlog), hinv⟩
  | deleteRow =>
      obtain ⟨hlog, hinv⟩ := deleteStep_isolated hA hs _ _
      exact ⟨isolated_of_deletes nofun (by rw [hstep]; exact hlog), hinv⟩

/-- **Concurrent uploads are isolated as long as their temporary files are left alone.**  In every
run, in whatever order the handlers of the connections are called, if no post buffer completes a
page of a session whose temporary file is gone, and no erase or write of a last page fails, then
every acknowledged upload is stored under its name with its own body, and no session erases or
writes another file than the temporary file it has created. -/
theorem uploads_isolated (nvs : NvsExec ν) (fs : σ) (v : ν) (es : List ServerEvent)
    (hes : Machine.AllSteps (serverStep A nvs) (TempKept A nvs files) (Server.initial fs v) es) :
    Machine.AllSteps (serverStep A nvs) (Isolated A nvs files) (Server.initial fs v) es :=
  Machine.AllSteps.of_invariant (serverStep_isolated hA)
    (UploadsInv.initial fs v) hes

end Post

/-! ## Two sessions that get in each other's way -/

section Overlap

variable {σ : Type} {A : Appfs σ} {args : Args}

variable (args) in
/-- A first buffer of one byte that is not the whole body. -/
lemma post_first {len : ℕ} (hlen : 1 < len) {s s₁ : σ} {fd : Handle}
    (hcreate : A.exec (.createFile uploadTempName len) s = (⟨espOk, fd⟩, s₁)) (x : UInt8) :
    ∃ st, UploadConn.post (record A.exec) (.opened args len, s, []) [x]
        = (⟨args, len, [x], some st, [], false⟩, s₁,
          [⟨.createFile uploadTempName len, ⟨espOk, fd⟩, s, s₁⟩]) ∧
      st.state = .write ∧ st.Ok ∧ st.fd = fd ∧ st.address = 0 ∧ st.len = len - 1 := by
  have hinit := UploadState.initial_ok
  have hpos : 0 < len := by omega
  rw [post_open rfl [x] (by simp [UploadConn.opened]; omega)]
  show ∃ st, ((⟨args, len, [x], some (uploadFeed (record A.exec) args len
    (.initial, s, []) [x]).1, [], false⟩ : UploadConn), (uploadFeed (record A.exec) args len
    (.initial, s, []) [x]).2) = _ ∧ _
  rw [uploadFeed_start hpos hinit rfl (by simp)]
  obtain ⟨hok, _⟩ := uploadStart_ok (record A.exec) hpos hinit rfl (s, [])
  rcases uploadStart_cases (record A.exec) args len .initial (s, []) with ⟨herr, _⟩ | ⟨_, err, heq⟩
  · rw [record_answer, hcreate] at herr
    exact absurd rfl herr
  · rw [heq, record_eq hcreate] at hok ⊢
    have hleft : ([x] : Bytes).length < UploadState.lenLeft ({ UploadState.initial with
        name := (httpdFindArg args "name" UploadState.initial.name 512).2, fd := fd, err := err,
        len := len, address := 0, state := .write } : UploadState) := by
      rw [UploadState.lenLeft_eq]
      show 1 < min len (pageLen - 0)
      simp only [pageLen]
      omega
    rw [uploadFeed_copy hpos hok rfl hleft]
    exact ⟨_, rfl, rfl, hok.copy rfl hleft, rfl, rfl, rfl⟩

/-- A flush at the start of a block erases through the handle of the session. -/
lemma uploadFlush_erases {st : UploadState} (hadr : st.address = 0) (s : σ)
    (log : List (AppfsEvent σ)) :
    callEvent A.exec (.erase st.fd 0 spiFlashEraseSize) s
      ∈ (uploadFlush (record A.exec) st (s, log)).2.2 := by
  have hlog : callEvent A.exec (.erase st.fd 0 spiFlashEraseSize) s
      ∈ (uploadErase (record A.exec) st (s, log)).2.2 := by
    simp [uploadErase, hadr]
  have hwrite : callEvent A.exec (.erase st.fd 0 spiFlashEraseSize) s
      ∈ (uploadWrite (record A.exec) (uploadErase (record A.exec) st (s, log)).1
        (uploadErase (record A.exec) st (s, log)).2).2.2 := List.mem_append_left _ hlog
  rw [uploadFlush]
  dsimp only
  split_ifs
  · exact List.mem_append_left _ hwrite
  · exact hwrite

end Overlap

/-- The name `b`, for every key. -/
def argsB : Args := fun _ => some (ascii "b")

/-- The file system after the first byte of the first upload. -/
def halfUploaded : RamAppfs := (RamAppfs.exec (.createFile uploadTempName 2) .empty).2

/-- The same after the first byte of a second upload. -/
def secondCreated : RamAppfs := (RamAppfs.exec (.createFile uploadTempName 2) halfUploaded).2

/-- The flush of its only page succeeds. -/
lemma uploadFlush_secondCreated (st : UploadState) (hfd : st.fd = 0) (hadr : st.address = 0)
    (hlen : st.len = 0) : ∀ ev ∈ (uploadFlush (record RamAppfs.device.exec) st
      (secondCreated, [])).2.2, ev.answer.err = espOk := by
  obtain ⟨data, hdata⟩ : ∃ data, st.pageData.take st.pagePos = data := ⟨_, rfl⟩
  obtain ⟨erased, herased⟩ : ∃ t, t = (RamAppfs.exec (.erase 0 0 spiFlashEraseSize)
    secondCreated).2 := ⟨_, rfl⟩
  obtain ⟨written, hwritten⟩ : ∃ t, t = (RamAppfs.exec (.write 0 0 data) erased).2 := ⟨_, rfl⟩
  have herase : RamAppfs.device.exec (.erase st.fd 0 spiFlashEraseSize) secondCreated
      = (⟨espOk, -1⟩, erased) := by
    rw [hfd, herased]
    exact Prod.ext rfl rfl
  have hwrite : RamAppfs.device.exec (.write st.fd 0 data) erased = (⟨espOk, -1⟩, written) := by
    rw [hfd, hwritten, herased]
    exact Prod.ext rfl rfl
  have hrename : RamAppfs.device.exec (.rename uploadTempName (cString st.name)) written
      = (⟨espOk, -1⟩, (RamAppfs.exec (.rename uploadTempName (cString st.name)) written).2) := by
    refine RamAppfs.exec_eq ?_
    rw [hwritten, herased]
    rfl
  obtain ⟨_, hflush⟩ := uploadFlush_page hadr hlen hdata (record_eq herase []) (record_eq hwrite _)
    (record_eq hrename _)
  rw [hflush]
  simp

lemma tempKept_of_not_post {A : Appfs RamAppfs} {s : Server RamAppfs Unit} {e : ServerEvent}
    (h : ∀ c chunk, e ≠ .post c chunk) : TempKept A noNvs RamAppfs.files s e :=
  fun c chunk _ he => absurd he (h c chunk)

/-- The first buffer of an upload only creates its file. -/
lemma tempKept_first {s : Server RamAppfs Unit} {c : ConnId} {args : Args} {len : ℕ} {x : UInt8}
    {s₁ : RamAppfs} {fd : Handle} (hconn : s.conns c = some (.upload (.opened args len)))
    (hlen : 1 < len) (hcreate : RamAppfs.device.exec (.createFile uploadTempName len) s.fs
      = (⟨espOk, fd⟩, s₁)) : TempKept RamAppfs.device noNvs RamAppfs.files s (.post c [x]) := by
  intro c' chunk u he hu _
  obtain ⟨rfl, rfl⟩ := ServerEvent.post.inj he
  obtain rfl := Session.upload.inj (Option.some.inj (hconn.symm.trans hu))
  obtain ⟨st, hpost, _⟩ := post_first (A := RamAppfs.device) args hlen hcreate x
  obtain ⟨_, hlog, _⟩ := serverStep_post noNvs [x] hconn rfl
    (by simp [UploadConn.opened]; omega) hpost
  refine ⟨fun st' hst => by simp [UploadConn.opened] at hst, fun ev hev hfault => ?_⟩
  rw [hlog] at hev
  obtain rfl := List.mem_singleton.mp hev
  exact hfault.1 rfl

/-- Two uploads at a time: the second takes away the temporary file of the first, which sends
nothing more. -/
def yieldingUploads : List ServerEvent :=
  [.openUpload 0 argsA 2, .openUpload 1 argsB 2, .post 0 [1], .post 1 [8], .post 1 [9],
    .abort 0 ⟨[], []⟩]

/-- The second writes its file, in the sector that was that of the first. -/
theorem uploads_isolated_yielding :
    Machine.AllSteps (serverStep RamAppfs.device noNvs)
      (Isolated RamAppfs.device noNvs RamAppfs.files) (Server.initial .empty ())
      yieldingUploads := by
  refine uploads_isolated RamAppfs.device_laws noNvs .empty () _
    ⟨tempKept_of_not_post (by simp), tempKept_of_not_post (by simp), ?_⟩
  obtain ⟨s, hs⟩ : ∃ s, s = serverStep RamAppfs.device noNvs (serverStep RamAppfs.device noNvs
    (Server.initial .empty ()) (.openUpload 0 argsA 2)) (.openUpload 1 argsB 2) := ⟨_, rfl⟩
  rw [← hs]
  have hfs : s.fs = .empty := by rw [hs]; rfl
  have hconn₀ : s.conns 0 = some (.upload (.opened argsA 2)) := by rw [hs]; rfl
  have hconn₁ : s.conns 1 = some (.upload (.opened argsB 2)) := by rw [hs]; rfl
  clear hs
  -- each creates its file, and both get the first sector
  have hcreate₀ : RamAppfs.device.exec (.createFile uploadTempName 2) s.fs
      = (⟨espOk, 0⟩, halfUploaded) := by
    rw [hfs]
    exact Prod.ext (by decide) rfl
  have hkept₀ := tempKept_first (x := 1) hconn₀ (by decide) hcreate₀
  obtain ⟨_, hpost₀, _⟩ := post_first (A := RamAppfs.device) argsA (by decide) hcreate₀ 1
  obtain ⟨hfs₁, _, _, hconns₁⟩ := serverStep_post noNvs [1] hconn₀ rfl (by decide) hpost₀
  refine ⟨hkept₀, ?_⟩
  generalize serverStep RamAppfs.device noNvs s (.post 0 [1]) = s₁ at *
  replace hfs₁ : s₁.fs = halfUploaded := hfs₁
  have hconn₁' : s₁.conns 1 = some (.upload (.opened argsB 2)) := by
    rw [hconns₁, Function.update_of_ne (by decide), hconn₁]
  have hcreate₁ : RamAppfs.device.exec (.createFile uploadTempName 2) s₁.fs
      = (⟨espOk, 0⟩, secondCreated) := by
    rw [hfs₁]
    exact Prod.ext (by decide) rfl
  have hkept₁ := tempKept_first (x := 8) hconn₁' (by decide) hcreate₁
  obtain ⟨st, hpost₁, hw, hok, hfd, hadr, hlen⟩ :=
    post_first (A := RamAppfs.device) argsB (by decide) hcreate₁ 8
  obtain ⟨hfs₂, _, hcr₂, hconns₂⟩ := serverStep_post noNvs [8] hconn₁' rfl (by decide) hpost₁
  refine ⟨hkept₁, ?_, tempKept_of_not_post (by simp), trivial⟩
  generalize serverStep RamAppfs.device noNvs s₁ (.post 1 [8]) = s₂ at *
  replace hfs₂ : s₂.fs = secondCreated := hfs₂
  -- the second buffer completes the page of the second upload
  intro c chunk u he hu _
  obtain ⟨rfl, rfl⟩ := ServerEvent.post.inj he
  have hconn₂ : s₂.conns 1 = some (.upload ⟨argsB, 2, [8], some st, [], false⟩) := by
    rw [hconns₂, Function.update_self]
  obtain rfl := Session.upload.inj (Option.some.inj (hconn₂.symm.trans hu))
  refine ⟨fun st' hst _ _ => ?_, fun ev hev hfault => ?_⟩
  · obtain rfl := Option.some.inj hst
    rw [hfd]
    refine ⟨⟨uploadTempName, 2, RamAppfs.oldData⟩, by rw [hfs₂]; rfl, rfl, ?_⟩
    simp [hcr₂, createdBy]
  · have hroom := hok.room hw
    have hleft : st.lenLeft = 1 := by
      rw [st.lenLeft_eq]
      omega
    obtain ⟨_, hlog, _⟩ := serverStep_post noNvs [9] hconn₂ rfl le_rfl (post_last rfl [9] rfl _)
    have hfeed : uploadFeed (record RamAppfs.device.exec) argsB 2 (st, s₂.fs, []) [9] = _ :=
      uploadFeed_flush (by decide) hok hw (by rw [hleft]; decide) (s₂.fs, [])
    rw [hleft, List.drop_one, List.tail_cons, uploadFeed_nil, List.take_succ_cons, List.take_zero]
      at hfeed
    replace hlog := hlog.trans (congrArg (·.2.2) hfeed)
    rw [hlog, hfs₂] at hev
    exact hfault.1 (uploadFlush_secondCreated (st.copy [9]) hfd hadr
      (by rw [copy_len, hlen]; rfl) ev hev)

/-- Two uploads: the second starts and ends while the first has sent half of its body. -/
def overlappingUploads : List ServerEvent :=
  [.openUpload 0 argsA 2, .openUpload 1 argsB 1, .post 0 [1], .post 1 [9], .post 0 [2]]

/-- The second upload finishes and gets the handle of the first, which then erases and writes the
file of the second. -/
theorem uploads_not_isolated :
    ¬ ∀ (σ ν : Type) (A : Appfs σ) (nvs : NvsExec ν) (files : σ → Files) (fs : σ) (v : ν)
      (es : List ServerEvent), A.Laws files →
      Machine.AllSteps (serverStep A nvs) (Isolated A nvs files) (Server.initial fs v) es := by
  intro h
  obtain ⟨_, _, _, _, hlast, _⟩ := h RamAppfs Unit RamAppfs.device noNvs RamAppfs.files .empty ()
    overlappingUploads RamAppfs.device_laws
  obtain ⟨s, hs⟩ : ∃ s, s = serverStep RamAppfs.device noNvs (serverStep RamAppfs.device noNvs
    (Server.initial .empty ()) (.openUpload 0 argsA 2)) (.openUpload 1 argsB 1) := ⟨_, rfl⟩
  rw [← hs] at hlast
  have hfs : s.fs = .empty := by rw [hs]; rfl
  have hconn₀ : s.conns 0 = some (.upload (.opened argsA 2)) := by rw [hs]; rfl
  have hconn₁ : s.conns 1 = some (.upload (.opened argsB 1)) := by rw [hs]; rfl
  clear hs
  -- half of the first body: its temporary file gets the first sector
  obtain ⟨st, hpost, hw, hok, hfd, hadr, hlen⟩ := post_first (A := RamAppfs.device) argsA
    (show 1 < 2 by decide) (s := .empty) (Prod.ext (by decide) rfl) 1
  obtain ⟨hfs₁, _, _, hconns₁⟩ := serverStep_post (A := RamAppfs.device) (c := 0) noNvs [1]
    hconn₀ rfl (by decide) (by rw [hfs, hpost])
  generalize serverStep RamAppfs.device noNvs s (.post 0 [1]) = s₁ at *
  -- the whole second upload, into the same sector
  obtain ⟨_, hrun⟩ := uploadRun_page argsB RamAppfs.device [9] (by decide) (by decide)
    halfUploaded (ascii "b") (by decide) (Prod.ext (by decide) rfl) (Prod.ext (by decide) rfl)
    (Prod.ext (by decide) rfl) (Prod.ext (by decide) rfl)
  replace hrun := (congrArg (fun fs => (uploadRun (record RamAppfs.device.exec) argsB 1 [[9]]
    (fs, [])).2) hfs₁).trans hrun
  obtain ⟨hfs₂, _, _, hconns₂⟩ := serverStep_post (A := RamAppfs.device) (s := s₁)
    (c := 1) (u := .opened argsB 1) noNvs [9]
    (by rw [hconns₁, Function.update_of_ne (by decide), hconn₁]) rfl (by decide) rfl
  replace hfs₂ := hfs₂.trans (congrArg Prod.fst hrun)
  generalize serverStep RamAppfs.device noNvs s₁ (.post 1 [9]) = s₂ at *
  -- the rest of the first body
  have hroom := hok.room hw
  have hleft : st.lenLeft = 1 := by
    rw [st.lenLeft_eq]
    omega
  have hconn₂ : s₂.conns 0 = some (.upload ⟨argsA, 2, [1], some st, [], false⟩) := by
    rw [hconns₂, Function.update_of_ne (by decide), hconns₁, Function.update_self]
  obtain ⟨_, hlog, _, _⟩ := serverStep_post (A := RamAppfs.device) (s := s₂) (c := 0)
    noNvs [2] hconn₂ rfl le_rfl (post_last rfl [2] rfl _)
  have hflush := uploadFlush_erases (A := RamAppfs.device)
    (show (st.copy [2]).address = 0 from hadr) s₂.fs []
  have hfeed : uploadFeed (record RamAppfs.device.exec) argsA 2 (st, s₂.fs, []) [2] = _ :=
    uploadFeed_flush (by decide) hok hw (by rw [hleft]; decide) (s₂.fs, [])
  rw [hleft, List.drop_one, List.tail_cons, uploadFeed_nil, List.take_succ_cons, List.take_zero]
    at hfeed
  rw [← hfeed] at hflush
  obtain ⟨_, _, f, _, hf, hfname, _⟩ := hlast.own _ (by rw [hlog]; exact hflush) 0 0
    (Or.inl ⟨spiFlashEraseSize, by rw [callEvent, copy_fd, hfd]⟩)
  have hb : (s₂.fs.files 0).map (·.name) = some (ascii "b") := by
    rw [hfs₂]
    decide
  rw [show s₂.fs.files 0 = some f from hf, Option.map_some, hfname] at hb
  exact absurd hb (by decide)

end Chooser
