import Chooser.SystemSettings

/-!
# Which indices a delete accepts

A download and a delete carry the same argument.  `cgiDownloadFile` asks `appfsFdValid` before it
uses the index; `cgiDelete` does not, and deletes the file whose name `appfsEntryInfo` leaves, with
the namespace of that name.  For an index without a file this name is unspecified, and the request
is harmless only if nothing has it (`HarmlessIndex`).

With that, a request deletes what a download of the same index would have fetched, nothing where
the download is refused, and sending it twice is as good as sending it once (`delete_as_download`).
-/

namespace Chooser

open CStr

section Defs

variable {σ ν : Type} (A : Appfs σ) (nvs : NvsExec ν) (files : σ → Files) (spaces : ν → NvsSpaces)

/-- The two stores after a delete request. -/
def deleteRequest (args : Args) (fdText : Bytes) (w : σ × ν) : σ × ν :=
  (cgiDelete A nvs fdText ⟨true, true, none, args, ⟨[], 0, 0⟩⟩ w).2

/-- The two stores hold the same. -/
def SameStores (w w' : σ × ν) : Prop :=
  files w'.1 = files w.1 ∧ spaces w'.2 = spaces w.2

/-- **A delete does to a file what a download of the same index reads.** -/
structure DeletesAsDownload (args : Args) (fdText : Bytes) (w : σ × ν) : Prop where
  /-- An index that the download refuses deletes nothing. -/
  refused : downloadLookup A args fdText w.1 = none →
    SameStores files spaces w (deleteRequest A nvs args fdText w)
  /-- Otherwise it is the file of the handle that goes, and at most the namespace of its name. -/
  accepted : ∀ k name size, downloadLookup A args fdText w.1 = some (k, name, size) →
    files (deleteRequest A nvs args fdText w).1 = Function.update (files w.1) k none ∧
    ∀ ns, ns ≠ name → spaces (deleteRequest A nvs args fdText w).2 ns = spaces w.2 ns
  /-- Sending it again does nothing more. -/
  again : SameStores files spaces (deleteRequest A nvs args fdText w)
    (deleteRequest A nvs args fdText (deleteRequest A nvs args fdText w))

/-- **The condition of a request.**  The index has a file, or the name that `appfsEntryInfo` leaves
for it is that of no file and of no namespace that could be opened and holds something. -/
def HarmlessIndex (args : Args) (fdText : Bytes) (w : σ × ν) : Prop :=
  ∀ k, deleteIdx args fdText = some k → A.fdValid k w.1 = false →
    ¬ (files w.1).Has (A.entryInfo k w.1).1 ∧
      ((nvs (.openRw (A.entryInfo k w.1).1) w.2).1 = espOk →
        spaces w.2 (A.entryInfo k w.1).1 = NvsKeys.empty)

/-- Deleting a stored file succeeds. -/
def DeletesSucceed : Prop :=
  ∀ s h f, files s h = some f → (A.exec (.deleteFile f.name) s).1.err = espOk

end Defs

section Requests

variable {σ ν : Type} {A : Appfs σ} {nvs : NvsExec ν} {files : σ → Files} {spaces : ν → NvsSpaces}
  {args : Args} {fdText : Bytes} {w : σ × ν}

/-- Both handlers read the index alike; the download also checks it. -/
lemma downloadLookup_eq (s : σ) : downloadLookup A args fdText s =
    (deleteIdx args fdText).bind fun k =>
      if A.fdValid k s then some (k, A.entryInfo k s) else none := by
  simp only [downloadLookup, deleteIdx]
  by_cases hlen : (httpdFindArg args "idx" fdText 16).1 > 0
  · simp [hlen]
  · simp [hlen]

lemma deleteRequest_none (h : deleteIdx args fdText = none) :
    deleteRequest A nvs args fdText w = w := by
  simp [deleteRequest, cgiDelete, h]

lemma deleteRequest_some {k : Handle} (h : deleteIdx args fdText = some k) :
    deleteRequest A nvs args fdText w =
      ((A.exec (.deleteFile (A.entryInfo k w.1).1) w.1).2,
        eraseNamespace nvs (A.entryInfo k w.1).1 w.2) := by
  simp [deleteRequest, cgiDelete, h]

/-- Without an index the download is refused, and the delete does nothing. -/
lemma deletesAsDownload_of_none (hidx : deleteIdx args fdText = none) :
    DeletesAsDownload A nvs files spaces args fdText w := by
  have hsame : deleteRequest A nvs args fdText w = w := deleteRequest_none hidx
  have hrefused : downloadLookup A args fdText w.1 = none := by rw [downloadLookup_eq, hidx]; rfl
  refine ⟨?_, ?_, ?_⟩
  · intro _
    rw [hsame]
    exact ⟨rfl, rfl⟩
  · intro k name size haccepted
    rw [hrefused] at haccepted
    simp at haccepted
  · rw [hsame, hsame]
    exact ⟨rfl, rfl⟩

lemma harmlessIndex_of_none (hidx : deleteIdx args fdText = none) :
    HarmlessIndex A nvs files spaces args fdText w := by
  intro k hk
  rw [hidx] at hk
  simp at hk

/-- With an index, the download takes it if it has a file. -/
lemma downloadLookup_some {k : Handle} (hidx : deleteIdx args fdText = some k) (s : σ) :
    downloadLookup A args fdText s = if A.fdValid k s then some (k, A.entryInfo k s) else none := by
  rw [downloadLookup_eq, hidx]
  rfl

variable (hA : A.Laws files)
include hA

/-- As names are unique, dropping a name drops one file. -/
lemma without_eq_update {s : σ} {k : Handle} {f : AppfsFile} (hf : files s k = some f) :
    (files s).without f.name = Function.update (files s) k none := by
  funext h
  by_cases hk : h = k
  · rw [hk, Function.update_self, Files.without, hf]
    simp
  · rw [Function.update_of_ne hk]
    cases hg : files s h with
    | none => rw [Files.without, hg, Option.filter_none]
    | some g => exact Files.without_of_ne hg fun hname => hk (hA.unique hg hf hname)

variable (hN : NvsLaws nvs spaces) (hdel : DeletesSucceed A files)
include hN hdel

/-- **A request changes nothing**, exactly when nobody has the name that is looked up for its
index. -/
lemma deleteRequest_unchanged {k : Handle} (hk : deleteIdx args fdText = some k) :
    SameStores files spaces w (deleteRequest A nvs args fdText w) ↔
      ¬ (files w.1).Has (A.entryInfo k w.1).1 ∧
        ((nvs (.openRw (A.entryInfo k w.1).1) w.2).1 = espOk →
          spaces w.2 (A.entryInfo k w.1).1 = NvsKeys.empty) := by
  rw [SameStores, deleteRequest_some hk]
  simp only [eraseNamespace_spaces hN]
  refine and_congr ⟨?_, delete_absent hA⟩ ⟨?_, ?_⟩
  · rintro hsame ⟨h, f, hf, hname⟩
    have hgone : files (A.exec (.deleteFile (A.entryInfo k w.1).1) w.1).2
        = (files w.1).without (A.entryInfo k w.1).1 := by
      rw [← hname]
      exact hA.delete_ok (hdel w.1 h f hf)
    rw [← hsame, hgone] at hf
    exact (Files.without_eq_some.mp hf).2 hname
  · intro hsame hopen
    rw [if_pos hopen] at hsame
    rw [← hsame, erased_self]
  · intro hempty
    split_ifs with hopen
    · rw [NvsSpaces.erased, ← hempty hopen, Function.update_eq_self]
    · rfl

/-- A request whose index has a file deletes it, and no other. -/
lemma deleteRequest_valid {k : Handle} (hk : deleteIdx args fdText = some k) {f : AppfsFile}
    (hf : files w.1 k = some f) :
    files (deleteRequest A nvs args fdText w).1 = Function.update (files w.1) k none ∧
    ∀ ns, ns ≠ f.name → spaces (deleteRequest A nvs args fdText w).2 ns = spaces w.2 ns := by
  rw [deleteRequest_some hk, hA.entryInfo hf]
  refine ⟨?_, ?_⟩
  · rw [hA.delete_ok (hdel w.1 k f hf), without_eq_update hA hf]
  · intro ns hns
    simp only [eraseNamespace_spaces hN]
    split_ifs
    · exact erased_of_ne hns
    · rfl

/-- After a harmless request the index has no file. -/
lemma fdValid_after {k : Handle} (hk : deleteIdx args fdText = some k)
    (h : A.fdValid k w.1 = false → SameStores files spaces w (deleteRequest A nvs args fdText w)) :
    A.fdValid k (deleteRequest A nvs args fdText w).1 = false := by
  rw [hA.fdValid]
  cases hf : files w.1 k with
  | none =>
      have hinvalid : A.fdValid k w.1 = false := by rw [hA.fdValid, hf]; rfl
      rw [(h hinvalid).1, hf]
      rfl
  | some f =>
      rw [(deleteRequest_valid hA hN hdel hk hf).1, Function.update_self]
      rfl

/-- A delete that is as careful as a download only takes harmless indices. -/
lemma DeletesAsDownload.harmless {k : Handle} (hidx : deleteIdx args fdText = some k)
    (h : DeletesAsDownload A nvs files spaces args fdText w) :
    HarmlessIndex A nvs files spaces args fdText w ∧
      HarmlessIndex A nvs files spaces args fdText (deleteRequest A nvs args fdText w) := by
  refine ⟨?_, ?_⟩
  · intro k' hk' hinvalid
    obtain rfl := Option.some.inj (hidx.symm.trans hk')
    have hrefused := h.refused (by rw [downloadLookup_some hidx, hinvalid]; rfl)
    exact (deleteRequest_unchanged hA hN hdel hidx).mp hrefused
  · intro k' hk' _
    obtain rfl := Option.some.inj (hidx.symm.trans hk')
    exact (deleteRequest_unchanged hA hN hdel hidx).mp h.again

/-- And one that takes only harmless indices is as careful. -/
lemma deletesAsDownload_of_harmless {k : Handle} (hidx : deleteIdx args fdText = some k)
    (hfirst : HarmlessIndex A nvs files spaces args fdText w)
    (hsecond : HarmlessIndex A nvs files spaces args fdText (deleteRequest A nvs args fdText w)) :
    DeletesAsDownload A nvs files spaces args fdText w := by
  have hrefused : A.fdValid k w.1 = false →
      SameStores files spaces w (deleteRequest A nvs args fdText w) := by
    intro hinvalid
    exact (deleteRequest_unchanged hA hN hdel hidx).mpr (hfirst k hidx hinvalid)
  have hafter := fdValid_after hA hN hdel hidx hrefused
  refine ⟨?_, ?_, (deleteRequest_unchanged hA hN hdel hidx).mpr (hsecond k hidx hafter)⟩
  · intro hnone
    refine hrefused ?_
    rw [downloadLookup_some hidx] at hnone
    split_ifs at hnone with hvalid
    · simpa using hvalid
  · intro k' name size haccepted
    rw [downloadLookup_some hidx] at haccepted
    split_ifs at haccepted with hvalid
    obtain ⟨f, hf⟩ := Option.isSome_iff_exists.mp (by rw [← hA.fdValid]; exact hvalid)
    rw [hA.entryInfo hf] at haccepted
    obtain ⟨rfl, rfl, rfl⟩ := haccepted
    exact deleteRequest_valid hA hN hdel hidx hf

variable (args fdText w) in
/-- **A delete is as careful as a download, where the indices are harmless.**  For every request,
file system and contents of the storage: the request deletes exactly the file that a download of the
same index would have read, nothing where the download is refused, and no more when it is sent
twice, if and only if the index is harmless each time the request arrives. -/
theorem delete_as_download :
    DeletesAsDownload A nvs files spaces args fdText w ↔
      HarmlessIndex A nvs files spaces args fdText w ∧
        HarmlessIndex A nvs files spaces args fdText (deleteRequest A nvs args fdText w) := by
  cases hidx : deleteIdx args fdText with
  | none =>
      exact iff_of_true (deletesAsDownload_of_none hidx)
        ⟨harmlessIndex_of_none hidx, harmlessIndex_of_none hidx⟩
  | some k =>
      refine ⟨DeletesAsDownload.harmless hA hN hdel hidx, ?_⟩
      rintro ⟨hfirst, hsecond⟩
      exact deletesAsDownload_of_harmless hA hN hdel hidx hfirst hsecond

end Requests

/-! ## An index behind the last file -/

/-- A client deletes the only file, and reloads the page. -/
theorem delete_as_download_twice :
    DeletesAsDownload RamAppfs.device ramNvs RamAppfs.files id argsZero [] (oneFile, wifiOff) := by
  refine (delete_as_download argsZero [] (oneFile, wifiOff) RamAppfs.device_laws ramNvs_laws
    fun _ _ _ hf => RamAppfs.delete_of_file hf).mpr ⟨?_, ?_⟩
  · intro k hk hinvalid
    obtain rfl : (0 : ℤ) = k := Option.some.inj hk
    exact absurd hinvalid (by decide)
  · intro k hk _
    obtain rfl : (0 : ℤ) = k := Option.some.inj hk
    refine ⟨?_, ?_⟩
    · rintro ⟨h, f, hf, _⟩
      have hnone := RamAppfs.none_of_sectors (p := fun _ => True)
        (s := (RamAppfs.exec (.deleteFile (ascii "b")) oneFile).2) (by decide) h trivial
      exact absurd (hnone.symm.trans hf) (by simp)
    · intro _
      funext key
      show (if ([] : Bytes) = settingsNamespace ∧ key = ascii "wifi" then some [0] else none) = none
      exact if_neg fun h => absurd h.1 (by decide)

/-- A file without a name, under the handle 0. -/
def namelessFile : RamAppfs := (RamAppfs.exec (.createFile [] 1) .empty).2

/-- The index 5, for every key. -/
def argsFive : Args := fun _ => some (ascii "5")

/-- For the index 5 there is no file, and `appfsEntryInfo` leaves an empty name. -/
theorem delete_not_as_download :
    ¬ ∀ (σ ν : Type) (A : Appfs σ) (nvs : NvsExec ν) (files : σ → Files) (spaces : ν → NvsSpaces)
      (args : Args) (fdText : Bytes) (w : σ × ν), A.Laws files → NvsLaws nvs spaces →
      DeletesSucceed A files → DeletesAsDownload A nvs files spaces args fdText w := by
  intro h
  have hdel := h RamAppfs NvsSpaces RamAppfs.device ramNvs RamAppfs.files id argsFive []
    (namelessFile, wifiOff) RamAppfs.device_laws ramNvs_laws
    fun _ _ _ hf => RamAppfs.delete_of_file hf
  have hkept := congrFun (hdel.refused (by decide)).1 0
  have hgone := RamAppfs.none_of_sectors (p := fun _ => True)
    (s := (deleteRequest RamAppfs.device ramNvs argsFive [] (namelessFile, wifiOff)).1)
    (by decide) 0 trivial
  rw [hgone] at hkept
  have hstored : (namelessFile.files 0).isSome = true := by decide
  rw [← show _ = namelessFile.files 0 from hkept] at hstored
  simp at hstored

end Chooser
