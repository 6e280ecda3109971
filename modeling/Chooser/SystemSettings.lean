import Chooser.DownloadSession
import Chooser.Nvs
import Chooser.RowDelete

/-!
# The settings of the chooser, and the web interface

The settings live in the NVS namespace `8bkc`, next to one namespace for each app.  The only handler
that writes to NVS is `cgiDelete`: it erases the namespace named like the file behind the index
(`serverStep_nvs`).  The upload handler takes any name for a file, `8bkc` included, so deleting such
a file erases the settings.

As long as no delete looks up that name, and none goes through an index without a file, the settings
stay, and a delete erases the namespace of the deleted app only (`settings_kept`).
-/

namespace Chooser

open CStr

section Defs

variable {σ ν : Type} (A : Appfs σ) (nvs : NvsExec ν) (files : σ → Files) (spaces : ν → NvsSpaces)

/-- The index that a step asks to be deleted, if it is a delete request with an index. -/
def requestedHandle (s : Server σ ν) : ServerEvent → Option Handle
  | .delete args fdText => deleteIdx args fdText
  | .deleteRow row fdText => if row ∈ s.rows then deleteIdx (rowArgs row.1) fdText else none
  | _ => none

/-- A step changes no namespace but the one of the app that it is asked to delete. -/
def ErasesOwnNamespace (s : Server σ ν) (e : ServerEvent) : Prop :=
  ∀ ns, spaces (serverStep A nvs s e).nvs ns ≠ spaces s.nvs ns →
    ∃ k f, requestedHandle s e = some k ∧ files s.fs k = some f ∧ f.name = ns

/-- **The condition of a step.**  Where the name that is looked up for an index leads to a namespace
that can be opened and holds something, a file has this index, and it is not named like the
settings. -/
def DeletesAppOnly (s : Server σ ν) (e : ServerEvent) : Prop :=
  ∀ k, requestedHandle s e = some k →
    (nvs (.openRw (A.entryInfo k s.fs).1) s.nvs).1 = espOk →
    spaces s.nvs (A.entryInfo k s.fs).1 ≠ NvsKeys.empty →
    (files s.fs k).isSome ∧ (A.entryInfo k s.fs).1 ≠ settingsNamespace

end Defs

section Steps

variable {σ ν : Type} {A : Appfs σ} {nvs : NvsExec ν} {files : σ → Files} {spaces : ν → NvsSpaces}

/-! ## What a step does to the storage -/

lemma deleteStep_nvs (s : Server σ ν) (args : Args) (fdText : Bytes) :
    (deleteStep A nvs s args fdText).nvs = match deleteIdx args fdText with
      | some k => eraseNamespace nvs (A.entryInfo k s.fs).1 s.nvs
      | none => s.nvs := by
  rw [deleteStep, cgiDelete]
  cases deleteIdx args fdText with
  | none => rfl
  | some k => exact eraseNamespace_record _ _ _

/-- **The storage is touched by deletes only.** -/
theorem serverStep_nvs (s : Server σ ν) (e : ServerEvent) :
    (serverStep A nvs s e).nvs = match requestedHandle s e with
      | some k => eraseNamespace nvs (A.entryInfo k s.fs).1 s.nvs
      | none => s.nvs := by
  have hto := serverStep_to A nvs s e
  generalize serverStep A nvs s e = s' at hto ⊢
  cases hto with
  | quiet hdelete hrow =>
      have hnone : requestedHandle s e = none := by
        cases e with
        | delete args fdText => exact absurd rfl (hdelete args fdText)
        | deleteRow row fdText => exact if_neg (hrow row fdText rfl)
        | _ => rfl
      rw [hnone]
      rfl
  | delete => exact deleteStep_nvs s _ _
  | @deleteRow row fdText hrow =>
      have hsome : requestedHandle s (.deleteRow row fdText) = deleteIdx (rowArgs row.1) fdText :=
        if_pos hrow
      rw [hsome]
      exact deleteStep_nvs s (rowArgs row.1) fdText
  | openUpload | openDownload | openIndex => rfl
  | post | download | index => rfl
  | abortUpload | abortDownload | abortIndex => rfl

variable (hN : NvsLaws nvs spaces)
include hN

/-- In terms of the contents: at most the namespace that was looked up is erased. -/
lemma serverStep_spaces (s : Server σ ν) (e : ServerEvent) :
    spaces (serverStep A nvs s e).nvs = spaces s.nvs ∨
    ∃ k, requestedHandle s e = some k ∧
      (nvs (.openRw (A.entryInfo k s.fs).1) s.nvs).1 = espOk ∧
      spaces (serverStep A nvs s e).nvs = (spaces s.nvs).erased (A.entryInfo k s.fs).1 := by
  rw [serverStep_nvs]
  cases hk : requestedHandle s e with
  | none => exact Or.inl rfl
  | some k =>
      simp only [eraseNamespace_spaces hN]
      split_ifs with hopen
      · exact Or.inr ⟨k, rfl, hopen, rfl⟩
      · exact Or.inl rfl

/-- A namespace only ever loses its keys. -/
lemma serverStep_kept_or_empty (s : Server σ ν) (e : ServerEvent) (ns : Bytes) :
    spaces (serverStep A nvs s e).nvs ns = spaces s.nvs ns ∨
    spaces (serverStep A nvs s e).nvs ns = NvsKeys.empty := by
  rcases serverStep_spaces hN (A := A) s e with heq | ⟨k, _, _, heq⟩
  · exact Or.inl (by rw [heq])
  · rw [heq]
    by_cases hns : ns = (A.entryInfo k s.fs).1
    · rw [hns]
      exact Or.inr (erased_self _ _)
    · exact Or.inl (erased_of_ne hns)

lemma run_kept_or_empty (es : List ServerEvent) (ns : Bytes) : ∀ s : Server σ ν,
    spaces (Machine.run (serverStep A nvs) s es).nvs ns = spaces s.nvs ns ∨
    spaces (Machine.run (serverStep A nvs) s es).nvs ns = NvsKeys.empty := by
  induction es with
  | nil => exact fun _ => Or.inl rfl
  | cons e es ih =>
      intro s
      rcases ih (serverStep A nvs s e) with heq | hempty
      · rcases serverStep_kept_or_empty hN (A := A) s e ns with heq' | hempty'
        · exact Or.inl (heq.trans heq')
        · exact Or.inr (heq.trans hempty')
      · exact Or.inr hempty

/-- What is the same after a run was the same after its first step. -/
lemma kept_of_run {s : Server σ ν} {e : ServerEvent} {es : List ServerEvent} {ns : Bytes}
    (h : spaces (Machine.run (serverStep A nvs) s (e :: es)).nvs ns = spaces s.nvs ns) :
    spaces (serverStep A nvs s e).nvs ns = spaces s.nvs ns := by
  rcases serverStep_kept_or_empty hN (A := A) s e ns with heq | hempty
  · exact heq
  · rw [Machine.run_cons] at h
    rcases run_kept_or_empty hN (A := A) es ns (serverStep A nvs s e) with heq | hempty'
    · exact heq.symm.trans h
    · rw [hempty, ← hempty', h]

/-! ## The condition -/

variable (hA : A.Laws files)
include hA

/-- **One step** keeps the settings and erases nothing but the deleted app's namespace, exactly when
it meets the condition. -/
lemma step_kept_iff (s : Server σ ν) (e : ServerEvent) :
    spaces (serverStep A nvs s e).nvs settingsNamespace = spaces s.nvs settingsNamespace ∧
        ErasesOwnNamespace A nvs files spaces s e ↔
      DeletesAppOnly A nvs files spaces s e := by
  constructor
  · rintro ⟨hkept, hown⟩ k hk hopen hne
    have hstep : spaces (serverStep A nvs s e).nvs
        = (spaces s.nvs).erased (A.entryInfo k s.fs).1 := by
      rw [serverStep_nvs, hk]
      simp only [eraseNamespace_spaces hN, if_pos hopen]
    have hlost : spaces (serverStep A nvs s e).nvs (A.entryInfo k s.fs).1
        ≠ spaces s.nvs (A.entryInfo k s.fs).1 := by
      rw [hstep, erased_self]
      exact hne.symm
    obtain ⟨k', f, hk', hf, _⟩ := hown _ hlost
    obtain rfl := Option.some.inj (hk.symm.trans hk')
    refine ⟨by rw [hf]; rfl, ?_⟩
    intro hname
    rw [hname] at hlost
    exact hlost hkept
  · intro hc
    rcases serverStep_spaces hN (A := A) s e with heq | ⟨k, hk, hopen, heq⟩
    · refine ⟨by rw [heq], ?_⟩
      intro ns hns
      rw [heq] at hns
      exact absurd rfl hns
    · by_cases hempty : spaces s.nvs (A.entryInfo k s.fs).1 = NvsKeys.empty
      · -- there was nothing to erase
        have hsame : spaces (serverStep A nvs s e).nvs = spaces s.nvs := by
          rw [heq, NvsSpaces.erased, ← hempty, Function.update_eq_self]
        refine ⟨by rw [hsame], ?_⟩
        intro ns hns
        rw [hsame] at hns
        exact absurd rfl hns
      · obtain ⟨hsome, hname⟩ := hc k hk hopen hempty
        obtain ⟨f, hf⟩ := Option.isSome_iff_exists.mp hsome
        refine ⟨by rw [heq, erased_of_ne hname.symm], ?_⟩
        intro ns hns
        refine ⟨k, f, hk, hf, ?_⟩
        by_contra hne
        rw [heq, hA.entryInfo hf, erased_of_ne (Ne.symm hne)] at hns
        exact hns rfl

lemma run_kept_iff (es : List ServerEvent) : ∀ s : Server σ ν,
    spaces (Machine.run (serverStep A nvs) s es).nvs settingsNamespace
          = spaces s.nvs settingsNamespace ∧
        Machine.AllSteps (serverStep A nvs) (ErasesOwnNamespace A nvs files spaces) s es ↔
      Machine.AllSteps (serverStep A nvs) (DeletesAppOnly A nvs files spaces) s es := by
  induction es with
  | nil => exact fun _ => ⟨fun _ => trivial, fun _ => ⟨rfl, trivial⟩⟩
  | cons e es ih =>
      intro s
      constructor
      · rintro ⟨hkept, hown, hrest⟩
        have hfirst := kept_of_run hN hkept
        rw [Machine.run_cons] at hkept
        exact ⟨(step_kept_iff hN hA s e).mp ⟨hfirst, hown⟩,
          (ih _).mp ⟨hkept.trans hfirst.symm, hrest⟩⟩
      · rintro ⟨hc, hrest⟩
        obtain ⟨hfirst, hown⟩ := (step_kept_iff hN hA s e).mpr hc
        obtain ⟨hkept, hsteps⟩ := (ih _).mpr hrest
        exact ⟨hkept.trans hfirst, hown, hsteps⟩

/-- **The web interface keeps the settings exactly as long as no file is deleted under their
name.**  After any sequence of requests, from any file system and any contents of the storage, the
namespace `8bkc` is what it was and each delete has erased the namespace of its own app only, if and
only if every step meets the condition. -/
theorem settings_kept (fs : σ) (v : ν) (es : List ServerEvent) :
    spaces (Machine.run (serverStep A nvs) (Server.initial fs v) es).nvs settingsNamespace
          = spaces v settingsNamespace ∧
        Machine.AllSteps (serverStep A nvs) (ErasesOwnNamespace A nvs files spaces)
          (Server.initial fs v) es ↔
      Machine.AllSteps (serverStep A nvs) (DeletesAppOnly A nvs files spaces)
        (Server.initial fs v) es :=
  run_kept_iff hN hA es (Server.initial fs v)

end Steps

/-! ## An app that is called like the settings -/

/-- A storage in which the WiFi is switched off. -/
def wifiOff : NvsSpaces := fun ns key =>
  if ns = settingsNamespace ∧ key = ascii "wifi" then some [0] else none

/-- A client deletes the file `b`. -/
theorem settings_kept_other :
    (Machine.run (serverStep RamAppfs.device ramNvs) (Server.initial oneFile wifiOff)
      [.delete argsZero []]).nvs settingsNamespace = wifiOff settingsNamespace := by
  refine ((settings_kept ramNvs_laws RamAppfs.device_laws oneFile wifiOff
    [.delete argsZero []]).mpr ⟨?_, trivial⟩).1
  intro k hk _ _
  obtain rfl : (0 : ℤ) = k := Option.some.inj hk
  exact ⟨rfl, by decide⟩

/-- The name `8bkc`, for every key. -/
def argsSettings : Args := fun _ => some settingsNamespace

/-- A client uploads a file `8bkc`, and deletes it. -/
theorem settings_not_kept :
    ¬ ∀ (σ ν : Type) (A : Appfs σ) (nvs : NvsExec ν) (files : σ → Files) (spaces : ν → NvsSpaces)
      (fs : σ) (v : ν) (es : List ServerEvent), NvsLaws nvs spaces → A.Laws files →
      spaces (Machine.run (serverStep A nvs) (Server.initial fs v) es).nvs settingsNamespace
          = spaces v settingsNamespace ∧
        Machine.AllSteps (serverStep A nvs) (ErasesOwnNamespace A nvs files spaces)
          (Server.initial fs v) es := by
  intro h
  have hkept := (h RamAppfs NvsSpaces RamAppfs.device ramNvs RamAppfs.files id .empty wifiOff
    [.openUpload 0 argsSettings 1, .post 0 [7], .delete argsZero []] ramNvs_laws
    RamAppfs.device_laws).1
  rw [Machine.run_cons, Machine.run_cons, Machine.run_cons, Machine.run_nil] at hkept
  obtain ⟨s, hs⟩ : ∃ s, s = serverStep RamAppfs.device ramNvs (Server.initial .empty wifiOff)
    (.openUpload 0 argsSettings 1) := ⟨_, rfl⟩
  rw [← hs] at hkept
  have hconn : s.conns 0 = some (.upload (.opened argsSettings 1)) := by rw [hs]; rfl
  obtain ⟨_, hrun⟩ := uploadRun_page argsSettings RamAppfs.device [7] (by decide) (by decide) s.fs
    settingsNamespace (by decide) (RamAppfs.exec_eq (a := ⟨espOk, 0⟩) (by rw [hs]; decide))
    (RamAppfs.exec_eq (a := ⟨espOk, -1⟩) (by rw [hs]; decide))
    (RamAppfs.exec_eq (a := ⟨espOk, -1⟩) (by rw [hs]; decide))
    (RamAppfs.exec_eq (a := ⟨espOk, -1⟩) (by rw [hs]; decide))
  obtain ⟨hfs, _⟩ := serverStep_post (A := RamAppfs.device) ramNvs [7] hconn rfl (by decide) rfl
  replace hfs := hfs.trans (congrArg Prod.fst hrun)
  obtain ⟨f, hf, hname⟩ : ∃ f,
      (serverStep RamAppfs.device ramNvs s (.post 0 [7])).fs.files 0 = some f ∧
        f.name = settingsNamespace := by
    refine Option.map_eq_some_iff.mp ?_
    rw [hfs, hs]
    decide
  have hnvs : (serverStep RamAppfs.device ramNvs s (.post 0 [7])).nvs = wifiOff := by
    rw [serverStep_nvs, hs]
    rfl
  generalize serverStep RamAppfs.device ramNvs s (.post 0 [7]) = s' at *
  -- the delete looks up the name of the file, and erases the namespace of that name
  have hzero : requestedHandle s' (.delete argsZero []) = some 0 := by
    show deleteIdx argsZero [] = some 0
    decide
  rw [serverStep_nvs, hzero] at hkept
  simp only [RamAppfs.device_laws.entryInfo hf, hname, hnvs, eraseNamespace_spaces ramNvs_laws]
    at hkept
  have hopen : (ramNvs (.openRw settingsNamespace) wifiOff).1 = espOk := by decide
  rw [if_pos hopen] at hkept
  have hkey := congrFun hkept (ascii "wifi")
  rw [id_eq, erased_self] at hkey
  exact absurd hkey (by decide)

end Chooser
