import Chooser.Isolation
import Chooser.TempFiles
import Chooser.Lib.KeyStore

/-!
# The web interface as a store of files

What the clients see is a store of files by name.  However their connections are interleaved, the
device is such a store: an upload puts its file there in one act, in the call that acknowledges it,
a delete removes one, and nothing else changes anything (`serverStep_store`).  The temporary file
does not count, and the condition is that of isolation, `TempKept`.

The history of a run is the list of these acts, call by call.  It has one put for every acknowledged
upload, removes a file only where a call is to delete it, and explains what is stored in the end
(`server_history`).
-/

namespace Chooser

open CStr

/-! ## The files by name -/

open Classical in
/-- What is stored under each name. -/
noncomputable def Files.view (F : Files) (n : Bytes) : Option Bytes :=
  if h : ∃ b, F.Stores n b then some h.choose else none

section View

variable {σ : Type} {A : Appfs σ} {files : σ → Files}

/-- A name has one content at most. -/
lemma stores_unique (hA : A.Laws files) {s : σ} {n b b' : Bytes} (h : (files s).Stores n b)
    (h' : (files s).Stores n b') : b = b' := by
  obtain ⟨k, f, hf, rfl, rfl⟩ := h
  obtain ⟨k', f', hf', hname, rfl⟩ := h'
  obtain rfl := hA.unique hf hf' hname.symm
  obtain rfl := Option.some.inj (hf.symm.trans hf')
  rfl

lemma view_eq_some_iff (hA : A.Laws files) {s : σ} {n b : Bytes} :
    (files s).view n = some b ↔ (files s).Stores n b := by
  unfold Files.view
  constructor
  · intro h
    split_ifs at h with hex
    exact Option.some.inj h ▸ hex.choose_spec
  · intro h
    have hex : ∃ b, (files s).Stores n b := ⟨b, h⟩
    rw [dif_pos hex, stores_unique hA hex.choose_spec h]

lemma Files.SameUnder.stores_iff {F F' : Files} {n b : Bytes} (h : F.SameUnder F' n) :
    F.Stores n b ↔ F'.Stores n b := by
  constructor
  · rintro ⟨k, f, hf, hname, hcontent⟩
    exact ⟨k, f, (h k f hname).mp hf, hname, hcontent⟩
  · rintro ⟨k, f, hf, hname, hcontent⟩
    exact ⟨k, f, (h k f hname).mpr hf, hname, hcontent⟩

open Classical in
lemma Files.SameUnder.view_eq {F F' : Files} {n : Bytes} (h : F.SameUnder F' n) :
    F.view n = F'.view n := by
  have hstores : F.Stores n = F'.Stores n := funext fun b => propext h.stores_iff
  exact congrArg (fun P : Bytes → Prop => if h : ∃ b, P b then some h.choose else none) hstores

/-- A name that no file has. -/
lemma view_without (F : Files) (n : Bytes) : (F.without n).view n = none := by
  refine dif_neg ?_
  rintro ⟨b, k, f, hf, hname, _⟩
  exact (Files.without_eq_some.mp hf).2 hname

end View

/-! ## The acts -/

/-- What a call of a handler does to the store. -/
inductive ServerAct where
  | put (c : ConnId) (name content : Bytes)
  | remove (name : Bytes)

def ServerAct.act : ServerAct → KeyStore.Act Bytes Bytes
  | .put _ name content => .put name content
  | .remove name => .remove name

/-- The connection of an upload. -/
def ServerAct.conn : ServerAct → Option ConnId
  | .put c _ _ => some c
  | .remove _ => none

section Acts

variable {σ ν : Type}

/-- The connection has uploaded this under this name, and was told so. -/
def Server.Acked (s : Server σ ν) (c : ConnId) (name content : Bytes) : Prop :=
  ∃ u, s.conns c = some (.upload u) ∧ u.closed = true ∧ u.sent = uploadOkResponse ∧
    uploadName u.getArgs = name ∧ u.received = content

/-- A connection is acknowledged once. -/
lemma Server.Acked.unique {s : Server σ ν} {c : ConnId} {n b n' b' : Bytes} (h : s.Acked c n b)
    (h' : s.Acked c n' b') : n = n' ∧ b = b' := by
  obtain ⟨u, hu, _, _, rfl, rfl⟩ := h
  obtain ⟨u', hu', _, _, rfl, rfl⟩ := h'
  obtain rfl := Session.upload.inj (Option.some.inj (hu.symm.trans hu'))
  exact ⟨rfl, rfl⟩

/-- The event is a request to delete the file that is called this. -/
def ServerEvent.Deletes (A : Appfs σ) (s : Server σ ν) (e : ServerEvent) (name : Bytes) : Prop :=
  ∃ args fdText k, (e = .delete args fdText ∨ ∃ row, e = .deleteRow row fdText ∧
    args = rowArgs row.1) ∧ deleteIdx args fdText = some k ∧ (A.entryInfo k s.fs).1 = name

/-- **What one call of a handler does**: one act at most. -/
structure StoreStep (A : Appfs σ) (nvs : NvsExec ν) (files : σ → Files) (s : Server σ ν)
    (e : ServerEvent) (xs : List ServerAct) : Prop where
  single : xs.length ≤ 1
  store : ∀ n, n ≠ uploadTempName → (files (serverStep A nvs s e).fs).view n
    = KeyStore.run (files s.fs).view (xs.map ServerAct.act) n
  /-- Wherever the call is cut off, the act has been done or not. -/
  during : ∀ ev ∈ (serverStep A nvs s e).log, ev.after = (serverStep A nvs s e).fs ∨
    ∀ n, n ≠ uploadTempName → (files ev.after).view n = (files s.fs).view n
  put : ∀ c n b, .put c n b ∈ xs → (serverStep A nvs s e).Acked c n b ∧ ¬ s.Acked c n b
  acked : ∀ c n b, (serverStep A nvs s e).Acked c n b → s.Acked c n b ∨ .put c n b ∈ xs
  remove : ∀ n, .remove n ∈ xs → e.Deletes A s n

/-- The act of a call is all that it does. -/
lemma StoreStep.eq_singleton {A : Appfs σ} {nvs : NvsExec ν} {files : σ → Files} {s : Server σ ν}
    {e : ServerEvent} {xs : List ServerAct} {x : ServerAct} (h : StoreStep A nvs files s e xs)
    (hx : x ∈ xs) : xs = [x] := by
  have hsingle := h.single
  match xs, hx with
  | [y], hx => rw [List.mem_singleton.mp hx]
  | _ :: _ :: _, _ => simp at hsingle

/-- A call that does nothing. -/
lemma StoreStep.nothing {A : Appfs σ} {nvs : NvsExec ν} {files : σ → Files} {s : Server σ ν}
    {e : ServerEvent}
    (hstore : ∀ n, n ≠ uploadTempName → (files s.fs).SameUnder (files (serverStep A nvs s e).fs) n)
    (hduring : ∀ ev ∈ (serverStep A nvs s e).log, ev.after = (serverStep A nvs s e).fs ∨
      ∀ n, n ≠ uploadTempName → (files s.fs).SameUnder (files ev.after) n)
    (hacked : ∀ c n b, (serverStep A nvs s e).Acked c n b → s.Acked c n b) :
    StoreStep A nvs files s e [] where
  single := Nat.zero_le 1
  store n hn := (hstore n hn).view_eq.symm
  during ev hev := (hduring ev hev).imp_right fun h n hn => (h n hn).view_eq.symm
  put _ _ _ h := absurd h List.not_mem_nil
  acked c n b h := Or.inl (hacked c n b h)
  remove _ h := absurd h List.not_mem_nil

end Acts

/-! ## A post buffer -/

section Post

variable {σ ν : Type} {A : Appfs σ} {files : σ → Files} (hA : A.Laws files)

/-- What a buffer does to the other names. -/
structure FeedSeen (files : σ → Files) (fs : σ) (args : Args) (n : Bytes)
    (r : UploadState × σ × List (AppfsEvent σ)) : Prop where
  during : ∀ ev ∈ r.2.2, ev.after = r.2.1 ∨ (files fs).SameUnder (files ev.after) n
  after : (r.1.state = .done → n ≠ uploadName args) → (files fs).SameUnder (files r.2.1) n

/-- A buffer that makes no call is not seen. -/
lemma feedSeen_quiet (fs : σ) (args : Args) (n : Bytes) (st : UploadState) :
    FeedSeen files fs args n (st, fs, []) where
  during _ hev := absurd hev List.not_mem_nil
  after _ := Files.SameUnder.refl _ n

/-- A session that makes progress is seen under its name only, and only when it is done. -/
lemma Progress.feedSeen {F₀ : Files} {log₀ : List (AppfsEvent σ)} {len : ℕ} {st₀ : UploadState}
    {fs : σ} {args : Args} {got n : Bytes} {r : UploadState × σ × List (AppfsEvent σ)}
    (h : Progress files F₀ log₀ len st₀ got r) (hname : cString st₀.name = uploadName args)
    (hn : n ≠ uploadTempName) (hF₀ : (files fs).SameUnder F₀ n)
    (hlog₀ : ∀ ev ∈ log₀, (files fs).SameUnder (files ev.after) n) :
    FeedSeen files fs args n r where
  during ev hev := by
    obtain ⟨evs, hlog, hevs⟩ := h.events
    rw [hlog] at hev
    rcases List.mem_append.mp hev with hev | hev
    · exact Or.inr (hlog₀ ev hev)
    · rcases hevs ev hev with hquiet | hfinal
      · exact Or.inr (hF₀.trans (hquiet.after n hn))
      · exact Or.inl hfinal.after
  after hdone := hF₀.trans (h.frame n hn (hname ▸ hdone))

include hA

/-- **A buffer, seen from the other names.** -/
lemma feedSeen {fs : σ} {creator : Handle → Option ConnId} {c : ConnId} {u : UploadConn}
    (h : UploadInv files fs creator c u) {chunk : Bytes}
    (hfit : u.received.length + chunk.length ≤ u.len)
    (htemp : ∀ st, u.cgiData = some st → st.state = .write → st.lenLeft ≤ chunk.length →
      ∃ f, files fs st.fd = some f ∧ f.name = uploadTempName ∧ creator st.fd = some c)
    {n : Bytes} (hn : n ≠ uploadTempName) :
    FeedSeen files fs u.getArgs n
      (uploadFeed (record A.exec) u.getArgs u.len (u.cgiData.getD .initial, fs, []) chunk) := by
  by_cases hnil : chunk = []
  · rw [hnil, uploadFeed_nil]
    exact feedSeen_quiet fs u.getArgs n _
  · have hlen : 0 < u.len := by
      have := List.length_pos_of_ne_nil hnil
      omega
    rcases h.phase with ⟨hst, _, _⟩ | ⟨st, hst, hw | ⟨hok, herr⟩⟩
    · -- the first bytes create the temporary file
      have hcreate : (files fs).SameUnder
          (files (callEvent A.exec (.createFile uploadTempName u.len) fs).after) n :=
        sameUnder_create hA hn u.len fs
      rw [hst, show uploadFeed (record A.exec) u.getArgs u.len (.initial, fs, []) chunk
        = uploadBody (record A.exec) u.getArgs u.len (fs, []) chunk from rfl]
      obtain ⟨hname, hspec⟩ : cString (uploadBody (record A.exec) u.getArgs u.len (fs, [])
          chunk).1.name = uploadName u.getArgs ∧ _ := uploadBody_spec hA hlen hnil fs
      obtain ⟨_, st₀, _, hname₀, hprog⟩ | ⟨_, _, heq⟩ := hspec
      · refine hprog.feedSeen (hname₀ ▸ hname) hn hcreate fun ev hev => ?_
        rw [List.mem_singleton.mp hev]
        exact hcreate
      · refine ⟨fun ev hev => ?_, fun _ => ?_⟩ <;> rw [heq] at *
        · rw [List.mem_singleton.mp hev]
          exact Or.inl rfl
        · exact hcreate
    · rw [hst, Option.getD_some]
      by_cases hlt : chunk.length < st.lenLeft
      · rw [uploadFeed_copy hlen hw.ok hw.state hlt]
        exact feedSeen_quiet fs u.getArgs n _
      · obtain ⟨f, hf, hfname, hk⟩ := htemp st hst hw.state (not_lt.mp hlt)
        obtain ⟨hsize, hstored⟩ := hw.file f hf hfname hk
        have hwriting : Writing files u.len u.received st fs :=
          ⟨hw.state, hw.ok, hw.counters, f, hf, hfname, hsize, hstored⟩
        exact ((hwriting.progress hA []).feed hA u.getArgs hlen chunk).feedSeen hw.name hn
          (Files.SameUnder.refl _ n) fun ev hev => absurd hev List.not_mem_nil
    · rw [hst, Option.getD_some, uploadFeed_stopped hlen hok (Or.inr herr)]
      exact feedSeen_quiet fs u.getArgs n _

omit hA in
/-- The answer to an upload that is done, and to no other. -/
lemma uploadResponse_eq_ok_iff {st : UploadState} :
    uploadResponse st = uploadOkResponse ↔ st.state = .done := by
  refine ⟨fun h => ?_, uploadResponse_done⟩
  by_contra hstate
  have hlen := congrArg List.length h
  simp [uploadResponse, uploadOkResponse, hstate] at hlen

omit hA in
/-- A step that changes one connection acknowledges no other. -/
lemma acked_of_conns {s s' : Server σ ν} {c : ConnId} {sess : Session σ}
    (hconns : s'.conns = Function.update s.conns c (some sess)) {c' : ConnId} {n b : Bytes}
    (h : s'.Acked c' n b) :
    s.Acked c' n b ∨ c' = c ∧ ∃ u, sess = .upload u ∧ u.closed = true ∧
      u.sent = uploadOkResponse ∧ uploadName u.getArgs = n ∧ u.received = b := by
  obtain ⟨u, hu, hclosed, hsent, hname, hbody⟩ := h
  rw [hconns] at hu
  by_cases hc : c' = c
  · rw [hc, Function.update_self] at hu
    exact Or.inr ⟨hc, u, Option.some.inj hu, hclosed, hsent, hname, hbody⟩
  · rw [Function.update_of_ne hc] at hu
    exact Or.inl ⟨u, hu, hclosed, hsent, hname, hbody⟩

/-- **A post buffer** does nothing, or it is the last one and puts the file. -/
lemma postStep_store {nvs : NvsExec ν} {s : Server σ ν} (hs : UploadsInv files s) {c : ConnId}
    {chunk : Bytes} {u : UploadConn} (hconn : s.conns c = some (.upload u))
    (hopen : u.closed = false) (hfit : u.received.length + chunk.length ≤ u.len)
    (hc : TempKept A nvs files s (.post c chunk)) :
    ∃ xs, StoreStep A nvs files s (.post c chunk) xs := by
  have hinv := hs.uploads c u hconn hopen
  obtain ⟨htemp, hfault⟩ := hc c chunk u rfl hconn hopen
  have hseen : ∀ n, n ≠ uploadTempName → FeedSeen files s.fs u.getArgs n _ :=
    fun n hn => feedSeen hA hinv hfit htemp hn
  have hphase := (feedOut hA hinv hfit htemp).phase
  obtain ⟨sent, closed, hpost, hend⟩ := post_cases hopen hfit (s.fs, [])
  obtain ⟨hfs, hlog, _, hconns⟩ := serverStep_post nvs chunk hconn hopen hfit hpost
  generalize uploadFeed (record A.exec) u.getArgs u.len (u.cgiData.getD .initial, s.fs, []) chunk
    = r at *
  rw [hlog] at hfault
  have hduring : ∀ ev ∈ (serverStep A nvs s (.post c chunk)).log,
      ev.after = (serverStep A nvs s (.post c chunk)).fs ∨
        ∀ n, n ≠ uploadTempName → (files s.fs).SameUnder (files ev.after) n := by
    intro ev hev
    rw [hlog] at hev
    rw [hfs]
    by_cases hlast : ev.after = r.2.1
    · exact Or.inl hlast
    · exact Or.inr fun n hn => ((hseen n hn).during ev hev).resolve_left hlast
  by_cases hdone : r.1.state = .done
  · -- the body is complete
    obtain ⟨hcount, hstored⟩ : u.len ≤ (u.received ++ chunk).length ∧
        ((∀ ev ∈ r.2.2, ¬ LastPageFault u.len ev) → ∃ h f, files r.2.1 h = some f ∧
          f.name = uploadName u.getArgs ∧ f.content = (u.received ++ chunk).take u.len ∧
          f.size = u.len) := by
      rcases hphase with ⟨hst, _⟩ | hw | ⟨_, hcount, hstored⟩ | ⟨_, herr⟩
      · rw [hst] at hdone
        cases hdone
      · rw [hw.state] at hdone
        cases hdone
      · exact ⟨hcount, hstored⟩
      · rw [herr] at hdone
        cases hdone
    obtain ⟨k, f, hf, hfname, hcontent, _⟩ := hstored hfault
    rw [List.length_append] at hcount
    rcases hend with ⟨_, _, hlt⟩ | ⟨rfl, hall, rfl⟩
    · omega
    · have hbody : f.content = u.received ++ chunk := by
        rw [hcontent, List.take_of_length_le (by rw [List.length_append]; omega)]
      have hacked : (serverStep A nvs s (.post c chunk)).Acked c (uploadName u.getArgs)
          (u.received ++ chunk) := by
        refine ⟨_, (congrFun hconns c).trans (Function.update_self _ _ _), rfl, ?_, rfl, rfl⟩
        rw [hinv.sent, List.nil_append]
        exact uploadResponse_done hdone
      have hnot : ∀ n b, ¬ s.Acked c n b := by
        rintro n b ⟨v, hv, hclosed, _⟩
        obtain rfl := Session.upload.inj (Option.some.inj (hconn.symm.trans hv))
        rw [hopen] at hclosed
        cases hclosed
      refine ⟨[.put c (uploadName u.getArgs) (u.received ++ chunk)], le_rfl, fun n hn => ?_, ?_,
        fun c' n b hx => ?_, fun c' n b h => ?_, fun n hx => ?_⟩
      · rw [hfs, List.map_singleton, ServerAct.act, KeyStore.run_cons, KeyStore.run_nil,
          KeyStore.apply_put]
        by_cases hname : n = uploadName u.getArgs
        · subst hname
          rw [Function.update_self]
          exact (view_eq_some_iff hA).mpr ⟨k, f, hf, hfname, hbody⟩
        · rw [Function.update_of_ne hname]
          exact ((hseen n hn).after fun _ => hname).view_eq.symm
      · exact fun ev hev => (hduring ev hev).imp_right fun h n hn => (h n hn).view_eq.symm
      · obtain ⟨rfl, rfl, rfl⟩ := ServerAct.put.inj (List.mem_singleton.mp hx)
        exact ⟨hacked, hnot _ _⟩
      · rcases acked_of_conns hconns h with h | ⟨rfl, _⟩
        · exact Or.inl h
        · obtain ⟨rfl, rfl⟩ := h.unique hacked
          exact Or.inr (List.mem_singleton_self _)
      · cases List.mem_singleton.mp hx
  · refine ⟨[], .nothing (fun n hn => ?_) hduring fun c' n b h => ?_⟩
    · rw [hfs]
      exact (hseen n hn).after fun h => absurd h hdone
    · rcases acked_of_conns hconns h with h | ⟨_, u', hu', hclosed, hsent, _⟩
      · exact h
      · obtain rfl := Session.upload.inj hu'
        rcases hend with ⟨rfl, _⟩ | ⟨_, _, rfl⟩
        · cases hclosed
        · rw [hinv.sent, List.nil_append] at hsent
          exact absurd (uploadResponse_eq_ok_iff.mp hsent) hdone

/-! ## The other steps -/

/-- A delete request removes one file, or does nothing. -/
lemma deleteStep_store {nvs : NvsExec ν} {s : Server σ ν} {e : ServerEvent} {args : Args}
    {fdText : Bytes} (hstep : serverStep A nvs s e = deleteStep A nvs s args fdText)
    (he : e = .delete args fdText ∨ ∃ row, e = .deleteRow row fdText ∧ args = rowArgs row.1) :
    ∃ xs, StoreStep A nvs files s e xs := by
  have hacked : ∀ c n b, (serverStep A nvs s e).Acked c n b → s.Acked c n b := by
    rw [hstep]
    exact fun c n b h => h
  cases hidx : deleteIdx args fdText with
  | none =>
      have hdelete : deleteStep A nvs s args fdText = { s with log := [], nvsLog := [] } := by
        rw [deleteStep, cgiDelete]
        simp only [hidx]
      rw [hdelete] at hstep
      refine ⟨[], .nothing (fun n _ => ?_) (fun ev hev => ?_) hacked⟩
      · rw [hstep]
        exact Files.SameUnder.refl _ n
      · rw [hstep] at hev
        exact absurd hev List.not_mem_nil
  | some k =>
      have hfs : (serverStep A nvs s e).fs
          = (A.exec (.deleteFile (A.entryInfo k s.fs).1) s.fs).2 := by
        rw [hstep, deleteStep, cgiDelete]
        simp only [hidx]
        rfl
      have hlog : (serverStep A nvs s e).log
          = [callEvent A.exec (.deleteFile (A.entryInfo k s.fs).1) s.fs] := by
        rw [hstep, deleteStep, cgiDelete]
        simp only [hidx]
        rfl
      have hduring : ∀ ev ∈ (serverStep A nvs s e).log, ev.after = (serverStep A nvs s e).fs := by
        intro ev hev
        rw [hlog] at hev
        rw [List.mem_singleton.mp hev, hfs]
        rfl
      by_cases hok : (A.exec (.deleteFile (A.entryInfo k s.fs).1) s.fs).1.err = espOk
      · refine ⟨[.remove (A.entryInfo k s.fs).1], le_rfl, fun n _ => ?_,
          fun ev hev => Or.inl (hduring ev hev), fun c n b hx => ?_,
          fun c n b h => Or.inl (hacked c n b h), fun n hx => ?_⟩
        · rw [hfs, hA.delete_ok hok, List.map_singleton, ServerAct.act, KeyStore.run_cons,
            KeyStore.run_nil, KeyStore.apply_remove]
          by_cases hname : n = (A.entryInfo k s.fs).1
          · rw [hname, Function.update_self, view_without]
          · rw [Function.update_of_ne hname]
            exact (Files.sameUnder_without hname).view_eq.symm
        · cases List.mem_singleton.mp hx
        · obtain rfl := ServerAct.remove.inj (List.mem_singleton.mp hx)
          exact ⟨args, fdText, k, he, hidx, rfl⟩
      · refine ⟨[], .nothing (fun n _ => ?_) (fun ev hev => Or.inl (hduring ev hev)) hacked⟩
        rw [hfs, hA.delete_fail hok]
        exact Files.SameUnder.refl _ n

omit hA in
/-- A step that leaves the files alone, and acknowledges nothing. -/
lemma storeStep_of_conns {nvs : NvsExec ν} {s : Server σ ν} {e : ServerEvent}
    (hfs : (serverStep A nvs s e).fs = s.fs) (hlog : (serverStep A nvs s e).log = [])
    (hacked : ∀ c n b, (serverStep A nvs s e).Acked c n b → s.Acked c n b) :
    StoreStep A nvs files s e [] :=
  .nothing (fun n _ => hfs ▸ Files.SameUnder.refl _ n) (by simp [hlog]) hacked

/-- **Every call of a handler is one act on the store, or none.** -/
theorem serverStep_store {nvs : NvsExec ν} {s : Server σ ν} (hs : UploadsInv files s)
    {e : ServerEvent} (hc : TempKept A nvs files s e) : ∃ xs, StoreStep A nvs files s e xs := by
  have hto := serverStep_to A nvs s e
  -- a connection that is not an upload, or has sent nothing, acknowledges nothing
  have hsilent : ∀ {s' : Server σ ν} {c : ConnId} {sess : Session σ}, serverStep A nvs s e = s' →
      s'.fs = s.fs → s'.log = [] → s'.conns = Function.update s.conns c (some sess) →
      (∀ u, sess = .upload u → u.closed = true → u.sent = []) →
      ∃ xs, StoreStep A nvs files s e xs := by
    intro s' c sess hstep hfs hlog hconns hsess
    refine ⟨[], storeStep_of_conns (hstep ▸ hfs) (hstep ▸ hlog) fun c' n b h => ?_⟩
    rcases acked_of_conns (hstep ▸ hconns) h with h | ⟨_, u, hu, hclosed, hsent, _⟩
    · exact h
    · rw [hsess u hu hclosed] at hsent
      cases hsent
  generalize hstep : serverStep A nvs s e = s' at hto
  cases hto with
  | quiet =>
      exact ⟨[], storeStep_of_conns (by rw [hstep]; rfl) (by rw [hstep]; rfl) fun c n b h => by
        rw [hstep] at h
        exact h⟩
  | openUpload =>
      refine hsilent hstep rfl rfl rfl fun u hu hclosed => ?_
      obtain rfl := Session.upload.inj hu
      cases hclosed
  | openDownload => exact hsilent hstep rfl rfl rfl nofun
  | openIndex => exact hsilent hstep rfl rfl rfl nofun
  | post hconn hopen hfit => exact postStep_store hA hs hconn hopen hfit hc
  | download => exact hsilent hstep rfl rfl rfl nofun
  | index => exact hsilent hstep rfl rfl rfl nofun
  | abortUpload hconn hopen =>
      refine hsilent hstep rfl rfl rfl fun v hv _ => ?_
      obtain rfl := Session.upload.inj hv
      exact (hs.uploads _ _ hconn hopen).sent
  | abortDownload => exact hsilent hstep rfl rfl rfl nofun
  | abortIndex => exact hsilent hstep rfl rfl rfl nofun
  | delete => exact deleteStep_store hA hstep (Or.inl rfl)
  | deleteRow => exact deleteStep_store hA hstep (Or.inr ⟨_, rfl, rfl⟩)

/-! ## Runs -/

omit hA in
/-- What was acknowledged stays acknowledged. -/
lemma Server.Acked.step {nvs : NvsExec ν} {s : Server σ ν} {c : ConnId} {n b : Bytes}
    (h : s.Acked c n b) (e : ServerEvent) : (serverStep A nvs s e).Acked c n b := by
  obtain ⟨u, hu, hclosed, hrest⟩ := h
  have hto := serverStep_to A nvs s e
  have hother : ∀ {c' : ConnId} {sess : Session σ}, c' ≠ c →
      Function.update s.conns c' (some sess) c = some (.upload u) :=
    fun hne => (Function.update_of_ne (Ne.symm hne) _ _).trans hu
  -- the connection is neither new nor open
  have hnew : ∀ {c' : ConnId}, s.conns c' = none → c' ≠ c := by
    rintro c' hfree rfl
    rw [hfree] at hu
    cases hu
  have hbusy : ∀ {c' : ConnId} {sess : Session σ}, s.conns c' = some sess →
      (∀ v, sess = .upload v → v.closed = false) → c' ≠ c := by
    rintro c' sess hconn hopen rfl
    rw [hopen u (Option.some.inj (hconn.symm.trans hu))] at hclosed
    cases hclosed
  refine ⟨u, ?_, hclosed, hrest⟩
  generalize serverStep A nvs s e = s' at hto
  cases hto with
  | quiet | delete | deleteRow => exact hu
  | openUpload hfree => exact hother (hnew hfree)
  | openDownload hfree => exact hother (hnew hfree)
  | openIndex hfree => exact hother (hnew hfree)
  | post hconn hopen => exact hother (hbusy hconn fun v hv => Session.upload.inj hv ▸ hopen)
  | download hconn => exact hother (hbusy hconn nofun)
  | index hconn => exact hother (hbusy hconn nofun)
  | abortUpload hconn hopen => exact hother (hbusy hconn fun v hv => Session.upload.inj hv ▸ hopen)
  | abortDownload hconn => exact hother (hbusy hconn nofun)
  | abortIndex hconn => exact hother (hbusy hconn nofun)

/-- **The history of a run**, from the store `V₀` to the state `s`: it explains what is stored, and
has one act for each acknowledged upload. -/
structure History (files : σ → Files) (V₀ : Bytes → Option Bytes) (s : Server σ ν)
    (xs : List ServerAct) : Prop where
  store : ∀ n, n ≠ uploadTempName →
    (files s.fs).view n = KeyStore.run V₀ (xs.map ServerAct.act) n
  acked : ∀ c n b, .put c n b ∈ xs ↔ s.Acked c n b
  once : (xs.filterMap ServerAct.conn).Nodup

omit hA in
lemma History.initial (fs : σ) (v : ν) :
    History files (files fs).view (Server.initial fs v) [] where
  store _ _ := rfl
  acked c n b := by
    constructor
    · exact fun h => absurd h List.not_mem_nil
    · rintro ⟨u, hu, _⟩
      cases hu
  once := List.nodup_nil

omit hA in
/-- A history goes on with the act of the next call. -/
lemma History.step {nvs : NvsExec ν} {V₀ : Bytes → Option Bytes} {s : Server σ ν}
    {xs ys : List ServerAct} (h : History files V₀ s xs) {e : ServerEvent}
    (hstep : StoreStep A nvs files s e ys) :
    History files V₀ (serverStep A nvs s e) (xs ++ ys) where
  store n hn := by
    rw [hstep.store n hn, List.map_append, KeyStore.run_append]
    exact KeyStore.run_congr (h.store n hn)
  acked c n b := by
    rw [List.mem_append]
    constructor
    · rintro (hx | hy)
      · exact ((h.acked c n b).mp hx).step e
      · exact (hstep.put c n b hy).1
    · intro hacked
      exact (hstep.acked c n b hacked).imp_left (h.acked c n b).mpr
  once := by
    rw [List.filterMap_append, List.nodup_append]
    refine ⟨h.once, ?_, fun c hc c' hc' heq => ?_⟩
    · have hlen : (ys.filterMap ServerAct.conn).length ≤ 1 :=
        (List.length_filterMap_le _ _).trans hstep.single
      match hys : ys.filterMap ServerAct.conn with
      | [] => exact List.nodup_nil
      | [c] => exact List.nodup_singleton c
      | _ :: _ :: _ => simp [hys] at hlen
    · -- who is acknowledged now was not acknowledged before
      subst heq
      obtain ⟨x, hx, hxc⟩ := List.mem_filterMap.mp hc
      obtain ⟨y, hy, hyc⟩ := List.mem_filterMap.mp hc'
      cases x with
      | remove n => cases hxc
      | put cx n b =>
          cases y with
          | remove n' => cases hyc
          | put cy n' b' =>
              obtain rfl := Option.some.inj hxc
              obtain rfl := Option.some.inj hyc
              have hbefore := (h.acked _ n b).mp hx
              obtain ⟨hafter, hnot⟩ := hstep.put _ n' b' hy
              have hstays : (serverStep A nvs s e).Acked _ n b := hbefore.step e
              obtain ⟨rfl, rfl⟩ := hstays.unique hafter
              exact hnot hbefore

/-- A run has a history, whatever the history before it: its acts are those of its calls. -/
lemma History.run {nvs : NvsExec ν} {V₀ : Bytes → Option Bytes} {s : Server σ ν}
    {xs : List ServerAct} (h : History files V₀ s xs) (hs : UploadsInv files s)
    {es : List ServerEvent}
    (hes : Machine.AllSteps (serverStep A nvs) (TempKept A nvs files) s es) :
    UploadsInv files (Machine.run (serverStep A nvs) s es) ∧
      ∃ yss, Machine.Emits (serverStep A nvs) (StoreStep A nvs files) s es yss ∧
        History files V₀ (Machine.run (serverStep A nvs) s es) (xs ++ yss.flatten) := by
  induction es generalizing s xs with
  | nil => exact ⟨hs, [], .nil s, by rwa [List.flatten_nil, List.append_nil]⟩
  | cons e es ih =>
      obtain ⟨ys, hstep⟩ := serverStep_store hA hs hes.1
      obtain ⟨hinv, yss, hemits, hrun⟩ :=
        ih (h.step hstep) (serverStep_isolated hA s e hs hes.1).2 hes.2
      refine ⟨hinv, ys :: yss, .cons hstep hemits, ?_⟩
      rwa [List.flatten_cons, ← List.append_assoc]

/-- **The web interface is a store of files.**  In every run, in whatever order the handlers of the
connections are called, if the temporary files of the uploads are left alone and no erase or write
of a last page fails, each call of a handler does one act or none, and these acts, in their order,
explain what is stored under each name.  A file is removed only in a call that is to delete the file
of its name, and the history has exactly one put for each acknowledged upload, in the call that
acknowledges it, with its name and its whole body. -/
theorem server_history (nvs : NvsExec ν) (fs : σ) (v : ν) (es : List ServerEvent)
    (hes : Machine.AllSteps (serverStep A nvs) (TempKept A nvs files) (Server.initial fs v) es) :
    ∃ xss, Machine.Emits (serverStep A nvs) (StoreStep A nvs files) (Server.initial fs v) es xss ∧
      History files (files fs).view (Machine.run (serverStep A nvs) (Server.initial fs v) es)
        xss.flatten := by
  obtain ⟨_, xss, hemits, hxss⟩ :=
    (History.initial fs v).run hA (UploadsInv.initial fs v) hes
  exact ⟨xss, hemits, hxss⟩

end Post

/-- An upload of one byte, named `a`. -/
def oneUpload : List ServerEvent := [.openUpload 0 argsA 1, .post 0 [7]]

/-- The server when its body arrives. -/
def uploadOpened : Server RamAppfs Unit :=
  serverStep RamAppfs.device noNvs (Server.initial .empty ()) (.openUpload 0 argsA 1)

/-- The body is written in four calls, and acknowledged. -/
lemma oneUpload_post :
    (serverStep RamAppfs.device noNvs uploadOpened (.post 0 [7])).Acked 0 (ascii "a") [7] ∧
    (∀ ev ∈ (serverStep RamAppfs.device noNvs uploadOpened (.post 0 [7])).log,
      ev.answer.err = espOk) ∧
    ∃ ev ∈ (serverStep RamAppfs.device noNvs uploadOpened (.post 0 [7])).log,
      ev.after = erasedOnly := by
  obtain ⟨hsent, hrun⟩ := uploadRun_page argsA RamAppfs.device [7] (by decide) (by decide) .empty
    (ascii "a") (by decide) (Prod.ext (by decide) rfl) (Prod.ext (by decide) rfl)
    (Prod.ext (by decide) rfl) (Prod.ext (by decide) rfl)
  obtain ⟨_, hlog, _, hconns⟩ := serverStep_post (A := RamAppfs.device) (c := 0)
    (s := uploadOpened) (u := .opened argsA 1) noNvs [7] rfl rfl (by decide) rfl
  replace hlog := hlog.trans (congrArg Prod.snd hrun)
  refine ⟨⟨_, (congrFun hconns 0).trans (Function.update_self _ _ _), rfl, hsent, by decide, rfl⟩,
    ?_, ?_⟩
  · rw [hlog]
    simp
  · rw [hlog]
    exact ⟨_, List.mem_cons_of_mem _ List.mem_cons_self, rfl⟩

/-- Its calls succeed, and it is acknowledged. -/
lemma oneUpload_spec :
    Machine.AllSteps (serverStep RamAppfs.device noNvs)
      (TempKept RamAppfs.device noNvs RamAppfs.files) (Server.initial .empty ()) oneUpload ∧
    (Machine.run (serverStep RamAppfs.device noNvs) (Server.initial .empty ()) oneUpload).Acked 0
      (ascii "a") [7] := by
  obtain ⟨hacked, hok, _⟩ := oneUpload_post
  refine ⟨⟨tempKept_of_not_post (by simp), fun c chunk u he hu _ => ?_, trivial⟩, hacked⟩
  obtain ⟨rfl, rfl⟩ := ServerEvent.post.inj he
  obtain rfl : UploadConn.opened argsA 1 = u := Session.upload.inj (Option.some.inj hu)
  exact ⟨fun st hst => by simp [UploadConn.opened] at hst, fun ev hev hlast => hlast.1 (hok ev hev)⟩

/-- The history of one upload. -/
theorem server_history_one :
    ∃ xss, Machine.Emits (serverStep RamAppfs.device noNvs)
        (StoreStep RamAppfs.device noNvs RamAppfs.files) (Server.initial .empty ()) oneUpload xss ∧
      History RamAppfs.files (RamAppfs.files .empty).view
        (Machine.run (serverStep RamAppfs.device noNvs) (Server.initial .empty ()) oneUpload)
        xss.flatten ∧ xss.flatten = [.put 0 (ascii "a") [7]] := by
  obtain ⟨hkept, hacked⟩ := oneUpload_spec
  obtain ⟨xss, hemits, hhistory⟩ :=
    server_history RamAppfs.device_laws noNvs .empty () oneUpload hkept
  have hmem := (hhistory.acked 0 (ascii "a") [7]).mpr hacked
  refine ⟨xss, hemits, hhistory, ?_⟩
  cases hemits with
  | @cons _ _ xs _ _ hopen hrest =>
      cases hrest with
      | @cons _ _ ys _ _ hpost hnil =>
          cases hnil
          have hfirst : xs = [] := by
            refine List.eq_nil_iff_forall_not_mem.mpr fun x hx => ?_
            cases x with
            | put c n b =>
                -- a new connection has not been answered
                obtain ⟨u, hu, hclosed, _⟩ := (hopen.put c n b hx).1
                have hconns : (serverStep RamAppfs.device noNvs (Server.initial .empty ())
                    (.openUpload 0 argsA 1)).conns
                    = Function.update (fun _ => none) 0 (some (.upload (.opened argsA 1))) := rfl
                rw [hconns] at hu
                by_cases hc : c = 0
                · rw [hc, Function.update_self] at hu
                  obtain rfl := Session.upload.inj (Option.some.inj hu)
                  cases hclosed
                · rw [Function.update_of_ne hc] at hu
                  cases hu
            | remove n =>
                obtain ⟨_, _, _, he | ⟨_, he, _⟩, _⟩ := hopen.remove n hx
                · cases he
                · cases he
          rw [hfirst, List.flatten_cons, List.flatten_singleton, List.nil_append] at hmem ⊢
          exact hpost.eq_singleton hmem

/-! ## An upload after its acknowledgement -/

section Kept

variable {σ ν : Type} {A : Appfs σ} {files : σ → Files}

/-- The call does not end the life of the file of this name: it acknowledges no upload of the name,
and is no request to delete it. -/
def Spares (A : Appfs σ) (nvs : NvsExec ν) (name : Bytes) (s : Server σ ν) (e : ServerEvent) :
    Prop :=
  (∀ c b, (serverStep A nvs s e).Acked c name b → s.Acked c name b) ∧ ¬ e.Deletes A s name

/-- Such a call leaves the file as it is. -/
lemma StoreStep.view_of_spares {nvs : NvsExec ν} {s : Server σ ν} {e : ServerEvent}
    {xs : List ServerAct} (h : StoreStep A nvs files s e xs) {n : Bytes} (hn : n ≠ uploadTempName)
    (hspares : Spares A nvs n s e) :
    (files (serverStep A nvs s e).fs).view n = (files s.fs).view n := by
  rw [h.store n hn]
  refine KeyStore.run_of_forall_ne fun x hx => ?_
  obtain ⟨a, ha, rfl⟩ := List.mem_map.mp hx
  rintro rfl
  cases a with
  | put c name content =>
      obtain ⟨hafter, hbefore⟩ := h.put c name content ha
      exact hbefore (hspares.1 c content hafter)
  | remove name => exact hspares.2 (h.remove name ha)

variable (hA : A.Laws files)
include hA

lemma view_run_of_spares {nvs : NvsExec ν} {n : Bytes} (hn : n ≠ uploadTempName)
    {s : Server σ ν} (hs : UploadsInv files s) {es : List ServerEvent}
    (hes : Machine.AllSteps (serverStep A nvs) (TempKept A nvs files) s es)
    (hspares : Machine.AllSteps (serverStep A nvs) (Spares A nvs n) s es) :
    (files (Machine.run (serverStep A nvs) s es).fs).view n = (files s.fs).view n := by
  induction es generalizing s with
  | nil => rfl
  | cons e es ih =>
      obtain ⟨xs, hstep⟩ := serverStep_store hA hs hes.1
      have hinv := (serverStep_isolated hA s e hs hes.1).2
      exact (ih hinv hes.2 hspares.2).trans (hstep.view_of_spares hn hspares.1)

/-- **An acknowledged upload stays**, with the body that was sent, while other connections upload,
download, list and delete, until an upload of its name is acknowledged or its file is to be
deleted. -/
theorem acknowledged_kept (nvs : NvsExec ν) (fs : σ) (v : ν) {before after : List ServerEvent}
    {e : ServerEvent} {c : ConnId} {n b : Bytes} (hn : n ≠ uploadTempName)
    (hes : Machine.AllSteps (serverStep A nvs) (TempKept A nvs files) (Server.initial fs v)
      (before ++ e :: after))
    (hnew : ¬ (Machine.run (serverStep A nvs) (Server.initial fs v) before).Acked c n b)
    (hack : (Machine.run (serverStep A nvs) (Server.initial fs v) (before ++ [e])).Acked c n b)
    (hspares : Machine.AllSteps (serverStep A nvs) (Spares A nvs n)
      (Machine.run (serverStep A nvs) (Server.initial fs v) (before ++ [e])) after) :
    (files (Machine.run (serverStep A nvs) (Server.initial fs v) (before ++ e :: after)).fs).Stores
      n b := by
  obtain ⟨hbefore, he, hafter⟩ := Machine.allSteps_append.mp hes
  have hs := Machine.run_invariant (fun s e hs hc => (serverStep_isolated hA s e hs hc).2)
    (UploadsInv.initial fs v) hbefore
  have hsplit : Machine.run (serverStep A nvs) (Server.initial fs v) (before ++ [e])
      = serverStep A nvs (Machine.run (serverStep A nvs) (Server.initial fs v) before) e := by
    simp [Machine.run]
  have hwhole : Machine.run (serverStep A nvs) (Server.initial fs v) (before ++ e :: after)
      = Machine.run (serverStep A nvs) (serverStep A nvs
        (Machine.run (serverStep A nvs) (Server.initial fs v) before) e) after := by
    simp [Machine.run]
  rw [hsplit] at hack hspares
  rw [hwhole, ← view_eq_some_iff hA]
  generalize Machine.run (serverStep A nvs) (Server.initial fs v) before = s at *
  obtain ⟨xs, hstep⟩ := serverStep_store hA hs he
  have hinv := (serverStep_isolated hA s e hs he).2
  have hput : (files (serverStep A nvs s e).fs).view n = some b := by
    have hmem := (hstep.acked c n b hack).resolve_left hnew
    obtain rfl := hstep.eq_singleton hmem
    rw [hstep.store n hn]
    exact Function.update_self _ _ _
  rw [view_run_of_spares hA hn hinv hafter hspares, hput]

end Kept

/-- The upload is there while another connection asks for the index. -/
theorem acknowledged_kept_index :
    (Machine.run (serverStep RamAppfs.device noNvs) (Server.initial .empty ())
      ([.openUpload 0 argsA 1] ++ .post 0 [7] :: [.openIndex 1])).fs.files.Stores
      (ascii "a") [7] := by
  obtain ⟨hkept, hacked⟩ := oneUpload_spec
  refine acknowledged_kept RamAppfs.device_laws noNvs .empty () (by decide)
    (Machine.allSteps_append.mpr ⟨⟨hkept.1, trivial⟩, hkept.2.1, tempKept_of_not_post (by simp),
      trivial⟩) ?_ hacked ⟨⟨fun c b h => ?_, ?_⟩, trivial⟩
  · rintro ⟨u, hu, hclosed, _⟩
    obtain rfl : UploadConn.opened argsA 1 = u := Session.upload.inj (Option.some.inj hu)
    cases hclosed
  · rw [serverStep, Server.openConn] at h
    split_ifs at h
    · rcases acked_of_conns rfl h with h | ⟨_, u, hu, _⟩
      · exact h
      · cases hu
    · exact h
  · rintro ⟨args, fdText, k, he | ⟨row, he, _⟩, _⟩
    · cases he
    · cases he

end Chooser
