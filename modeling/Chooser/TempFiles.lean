import Chooser.UploadFile
import Chooser.Delete
import Chooser.RamAppfs

/-!
# Temporary files, crashes and boots

At boot `delete_temp_files` walks through the file system and deletes every file whose name
matches `__*.tmp`.  Together with an upload that writes to such a file and renames it last, this
makes uploads atomic across a power loss (`upload_crash_atomic`): wherever the session stops, the
boot after it finds either the old state of the name or the whole new file.

It also decides which uploads last.  The handler takes any name, those that match the pattern
included, and such a file is gone after the next boot; every other acknowledged upload stays until
the name is uploaded again or deleted (`upload_durable`).
-/

namespace Chooser

open CStr

/-- `fnmatch("__*.tmp", name, 0)==0` -/
def isTemp (name : Bytes) : Bool := fnmatch (ascii "__*.tmp") name

/-- **What counts as temporary**: everything that starts with `__` and ends with `.tmp`. -/
theorem isTemp_iff (name : Bytes) :
    isTemp name = true ↔ ∃ mid, name = ascii "__" ++ mid ++ ascii ".tmp" := by
  have h : ascii "__*.tmp" = ascii "__" ++ 42 :: ascii ".tmp" := by decide
  rw [isTemp, h]
  exact fnmatch_prefix_suffix (literal_of_all (by decide)) (literal_of_all (by decide)) name

lemma isTemp_uploadTempName : isTemp uploadTempName = true :=
  (isTemp_iff uploadTempName).mpr ⟨ascii "upload_temp_file__", by decide⟩

lemma ne_uploadTempName {n : Bytes} (h : isTemp n = false) : n ≠ uploadTempName := by
  rintro rfl
  rw [isTemp_uploadTempName] at h
  simp at h

/-! ## The scan -/

section Scan

variable {ω : Type} (A : Appfs ω)

/-- The loop of `delete_temp_files`, from the entry after `h` on; `none` is out of fuel. -/
def deleteTempFilesLoop : ℕ → Handle → ω → Option ω
  | 0, _, _ => none
  | n + 1, h, w =>
      let h := A.nextEntry h w
      if h = appfsInvalidFd then some w
      else
        let name := (A.entryInfo h w).1
        if isTemp name then deleteTempFilesLoop n h (A.exec (.deleteFile name) w).2
        else deleteTempFilesLoop n h w

/-- Handles only go up, so this many rounds are enough. -/
def scanFuel : ℕ := handleBound.toNat + 2

def deleteTempFiles (w : ω) : ω := (deleteTempFilesLoop A scanFuel appfsInvalidFd w).getD w

end Scan

section Laws

variable {σ : Type} {A : Appfs σ} {files : σ → Files} (hA : A.Laws files)
include hA

/-- **The scan ends**, with or without failures. -/
lemma deleteTempFilesLoop_ends {n : ℕ} : ∀ {h : Handle} {w : σ × List (AppfsEvent σ)},
    appfsInvalidFd ≤ h → (handleBound - h).toNat < n →
    ∃ w', deleteTempFilesLoop A.recorded n h w = some w' := by
  induction n with
  | zero => exact fun _ hn => absurd hn (Nat.not_lt_zero _)
  | succ n ih =>
      rintro h ⟨s, log⟩ hlo hn
      rw [deleteTempFilesLoop]
      rcases hA.next (s := s) hlo with ⟨hend, _⟩ | ⟨hlt, hsome, _⟩
      · have hend' : A.recorded.nextEntry h (s, log) = appfsInvalidFd := hend
        exact ⟨_, if_pos hend'⟩
      · have hnext : A.recorded.nextEntry h (s, log) = A.nextEntry h s := rfl
        obtain ⟨f, hf⟩ := Option.isSome_iff_exists.mp hsome
        have hne : A.nextEntry h s ≠ appfsInvalidFd := (hlo.trans_lt hlt).ne'
        have hsmall : (handleBound - A.nextEntry h s).toNat < n := by
          refine lt_of_lt_of_le ((Int.toNat_lt_toNat (Int.sub_pos_of_lt
            (hlt.trans (hA.bounded hf).2))).mpr (Int.sub_lt_sub_left hlt handleBound)) ?_
          exact Nat.lt_succ_iff.mp hn
        simp only [hnext, if_neg hne]
        split_ifs
        · exact ih (hlo.trans hlt.le) hsmall
        · exact ih (hlo.trans hlt.le) hsmall

omit hA in
lemma deleteTempFilesLoop_log {n : ℕ} : ∀ {h : Handle} {w w' : σ × List (AppfsEvent σ)},
    deleteTempFilesLoop A.recorded n h w = some w' → w.2 <+: w'.2 := by
  induction n with
  | zero => exact fun hs => by simp [deleteTempFilesLoop] at hs
  | succ n ih =>
      intro h w w' hs
      rw [deleteTempFilesLoop] at hs
      dsimp only at hs
      split_ifs at hs
      · rw [Option.some.inj hs]
      · exact (List.prefix_append _ _).trans (ih hs)
      · exact ih hs

omit hA in
/-- As no file stands between `h` and the next entry, a file behind `h` is that entry's, or stands
behind it. -/
lemma next_or_behind {s : σ} {h k : Handle} {f g : AppfsFile}
    (hg : files s (A.nextEntry h s) = some g)
    (hbetween : ∀ k, h < k → k < A.nextEntry h s → files s k = none)
    (hf : files s k = some f) (hk : h < k) :
    A.nextEntry h s < k ∨ k = A.nextEntry h s ∧ f = g := by
  rcases lt_trichotomy k (A.nextEntry h s) with hlt | rfl | hgt
  · rw [hbetween k hk hlt] at hf
    simp at hf
  · rw [hg] at hf
    exact Or.inr ⟨rfl, (Option.some.inj hf).symm⟩
  · exact Or.inl hgt

/-- **What the scan leaves**: of the files behind `h` those that are not temporary, and everything
up to `h`. -/
lemma deleteTempFilesLoop_files {n : ℕ} : ∀ {h : Handle} {s s' : σ} {log log'},
    appfsInvalidFd ≤ h → deleteTempFilesLoop A.recorded n h (s, log) = some (s', log') →
    (∀ ev ∈ log', ev.answer.err = espOk) → ∀ k f, files s' k = some f ↔
      files s k = some f ∧ (h < k → isTemp f.name = false) := by
  induction n with
  | zero => exact fun _ hs => by simp [deleteTempFilesLoop] at hs
  | succ n ih =>
      intro h s s' log log' hlo hs hok k f
      rw [deleteTempFilesLoop] at hs
      have hnext : A.recorded.nextEntry h (s, log) = A.nextEntry h s := rfl
      rcases hA.next (s := s) hlo with ⟨hend, hnone⟩ | ⟨hlt, hsome, hbetween⟩
      · simp only [hnext, if_pos hend, Option.some.injEq, Prod.mk.injEq] at hs
        obtain ⟨rfl, rfl⟩ := hs
        refine ⟨fun hf => ⟨hf, fun hk => ?_⟩, And.left⟩
        rw [hnone k hk] at hf
        simp at hf
      · have hne : A.nextEntry h s ≠ appfsInvalidFd := (hlo.trans_lt hlt).ne'
        have hlo' := hlo.trans hlt.le
        obtain ⟨g, hg⟩ := Option.isSome_iff_exists.mp hsome
        have hname : (A.recorded.entryInfo (A.nextEntry h s) (s, log)).1 = g.name := by
          show (A.entryInfo (A.nextEntry h s) s).1 = g.name
          rw [hA.entryInfo hg]
        simp only [hnext, if_neg hne, hname] at hs
        have hcase : ∀ {k f}, files s k = some f → h < k →
            A.nextEntry h s < k ∨ k = A.nextEntry h s ∧ f = g :=
          next_or_behind hg hbetween
        by_cases htemp : isTemp g.name = true
        · rw [if_pos htemp] at hs
          have hdel : (A.exec (.deleteFile g.name) s).1.err = espOk :=
            hok (callEvent A.exec (.deleteFile g.name) s)
              ((deleteTempFilesLoop_log hs).subset (by
                show _ ∈ log ++ [callEvent A.exec (.deleteFile g.name) s]
                simp))
          have hfiles : files (A.exec (.deleteFile g.name) s).2 = (files s).without g.name :=
            hA.delete_ok hdel
          rw [ih hlo' hs hok k f]
          show files (A.exec (.deleteFile g.name) s).2 k = some f ∧ _ ↔ _
          rw [hfiles, Files.without_eq_some]
          constructor
          · rintro ⟨⟨hf, hfg⟩, hrest⟩
            refine ⟨hf, fun hk => ?_⟩
            rcases hcase hf hk with hgt | ⟨_, rfl⟩
            · exact hrest hgt
            · exact absurd rfl hfg
          · rintro ⟨hf, hrest⟩
            refine ⟨⟨hf, fun hfg => ?_⟩, fun hk => hrest (hlt.trans hk)⟩
            obtain rfl := hA.unique hf hg hfg
            have hkeep := hrest hlt
            rw [hfg, htemp] at hkeep
            simp at hkeep
        · rw [if_neg htemp] at hs
          rw [ih hlo' hs hok k f]
          refine and_congr_right fun hf =>
            ⟨fun hrest hk => ?_, fun hrest hk => hrest (hlt.trans hk)⟩
          rcases hcase hf hk with hgt | ⟨_, rfl⟩
          · exact hrest hgt
          · simpa using htemp

/-- **After a boot** the files are those that are not temporary. -/
theorem deleteTempFiles_files {s : σ}
    (hok : ∀ ev ∈ (deleteTempFiles A.recorded (s, [])).2, ev.answer.err = espOk) (k : Handle)
    (f : AppfsFile) : files (deleteTempFiles A.recorded (s, [])).1 k = some f ↔
      files s k = some f ∧ isTemp f.name = false := by
  obtain ⟨⟨s', log'⟩, hs⟩ := deleteTempFilesLoop_ends hA (n := scanFuel) (w := (s, []))
    le_rfl (by decide)
  rw [deleteTempFiles, hs] at hok ⊢
  rw [Option.getD_some, deleteTempFilesLoop_files hA le_rfl hs hok k f]
  refine and_congr_right fun hf => ⟨fun h => h (lt_of_lt_of_le ?_ (hA.bounded hf).1), fun h _ => h⟩
  decide

lemma sameUnder_boot {s : σ}
    (hok : ∀ ev ∈ (deleteTempFiles A.recorded (s, [])).2, ev.answer.err = espOk) {n : Bytes}
    (hn : isTemp n = false) :
    (files s).SameUnder (files (deleteTempFiles A.recorded (s, [])).1) n := by
  intro k f hf
  rw [deleteTempFiles_files hA hok, hf]
  exact ⟨fun h => ⟨h, hn⟩, And.left⟩

/-- No call of the scan is seen under a name that is not temporary, whether or not it succeeds. -/
lemma deleteTempFilesLoop_during {m : Bytes} (hm : isTemp m = false) {n : ℕ} :
    ∀ {h : Handle} {s : σ} {log : List (AppfsEvent σ)} {w' : σ × List (AppfsEvent σ)},
    deleteTempFilesLoop A.recorded n h (s, log) = some w' →
    ∀ ev ∈ w'.2, ev ∈ log ∨ (files s).SameUnder (files ev.after) m := by
  induction n with
  | zero => exact fun hs => by simp [deleteTempFilesLoop] at hs
  | succ n ih =>
      intro h s log w' hs ev hev
      rw [deleteTempFilesLoop] at hs
      dsimp only at hs
      split_ifs at hs with hend htemp
      · obtain rfl := Option.some.inj hs
        exact Or.inl hev
      · have hne : m ≠ (A.entryInfo (A.nextEntry h s) s).1 := by
          rintro rfl
          have htemp' : isTemp (A.entryInfo (A.nextEntry h s) s).1 = true := htemp
          rw [hm] at htemp'
          cases htemp'
        have hdelete := sameUnder_delete hA hne s
        rcases ih hs ev hev with hlog | hrest
        · rcases List.mem_append.mp hlog with hlog | hlast
          · exact Or.inl hlog
          · obtain rfl := List.mem_singleton.mp hlast
            exact Or.inr hdelete
        · exact Or.inr (hdelete.trans hrest)
      · exact ih hs ev hev

/-- **A boot can be cut off** after any of its calls. -/
lemma sameUnder_boot_during {s : σ} {m : Bytes} (hm : isTemp m = false) :
    ∀ ev ∈ (deleteTempFiles A.recorded (s, [])).2, (files s).SameUnder (files ev.after) m := by
  intro ev hev
  obtain ⟨w', hs⟩ := deleteTempFilesLoop_ends hA (n := scanFuel) (w := (s, [])) le_rfl (by decide)
  rw [deleteTempFiles, hs] at hev
  exact (deleteTempFilesLoop_during hA hm hs ev hev).resolve_left List.not_mem_nil

end Laws

/-! ## A power loss during an upload -/

/-- The states in which a session can be interrupted: before its first call to the file system,
after any of them, and where it stands after the last buffer. -/
def Interrupted {σ : Type} (s : σ) (w : σ × List (AppfsEvent σ)) (c : σ) : Prop :=
  c = s ∨ c = w.1 ∨ ∃ ev ∈ w.2, c = ev.after

section Crash

variable {σ : Type} {A : Appfs σ} {files : σ → Files} (hA : A.Laws files) {args : Args}
include hA

omit hA in
/-- A session that is done has got all of its body, and what it has stored is the body. -/
lemma Progress.stores {F₀ : Files} {log₀ : List (AppfsEvent σ)} {len : ℕ} {st₀ : UploadState}
    {body : Bytes} {r : UploadState × σ × List (AppfsEvent σ)}
    (h : Progress files F₀ log₀ len st₀ body r) (hname : cString st₀.name = uploadName args)
    (hfit : body.length ≤ len) (hok : ∀ ev ∈ r.2.2, ev.answer.err = espOk)
    (hstate : r.1.state = .done) :
    body.length = len ∧ (files r.2.1).Stores (uploadName args) body := by
  rcases h.phase with hw | hfin | ⟨_, herr, _⟩
  · exact absurd (hstate.symm.trans hw.state) (by simp)
  · have hall : body.length = len := le_antisymm hfit hfin.count
    obtain ⟨f, hf, hfname, _, hcontent⟩ := hfin.file
    refine ⟨hall, _, f, hf, by rw [hfname, h.name, hname], ?_⟩
    rw [hcontent fun ev hev hlast => hlast.1 (hok ev hev), ← hall, List.take_length]
  · exact absurd (hstate.symm.trans herr) (by simp)

/-- **Where an upload can be interrupted.**  Seen from the outside, where temporary files do not
count, the file system is as before; or the session has got all of its body, and the file is
there. -/
theorem uploadRun_interrupted {len : ℕ} {chunks : List Bytes}
    (hfit : chunks.flatten.length ≤ len) {s c : σ}
    (hok : ∀ ev ∈ (uploadRun (record A.exec) args len chunks (s, [])).2.2, ev.answer.err = espOk)
    (hc : Interrupted s (uploadRun (record A.exec) args len chunks (s, [])).2 c) :
    (∀ m, m ≠ uploadTempName → (files s).SameUnder (files c) m) ∨
    chunks.flatten.length = len ∧ c = (uploadRun (record A.exec) args len chunks (s, [])).2.1 ∧
      (uploadRun (record A.exec) args len chunks (s, [])).1.sent = uploadOkResponse ∧
      (files c).Stores (uploadName args) chunks.flatten ∧
      ∀ m, m ≠ uploadTempName → m ≠ uploadName args → (files s).SameUnder (files c) m := by
  by_cases hnil : chunks.flatten = []
  · rw [uploadRun_empty hnil] at hc
    rcases hc with rfl | rfl | ⟨ev, hev, _⟩
    · exact Or.inl fun m _ => Files.SameUnder.refl _ m
    · exact Or.inl fun m _ => Files.SameUnder.refl _ m
    · simp at hev
  have hlen : 0 < len := lt_of_lt_of_le (List.length_pos_of_ne_nil hnil) hfit
  rw [uploadRun_world hlen hfit] at hok hc ⊢
  obtain ⟨hnm, hout⟩ := uploadBody_spec hA hlen hnil s
  have hcreated : ∀ m, m ≠ uploadTempName → (files s).SameUnder
      (files (callEvent A.exec (.createFile uploadTempName len) s).after) m :=
    fun m hm => sameUnder_create hA hm len s
  rcases hout with ⟨_, st₀, _, hname₀, h⟩ | ⟨_, _, heq⟩
  · have hfinal : ∀ m, m ≠ uploadTempName →
        ((uploadBody (record A.exec) args len (s, []) chunks.flatten).1.state = .done →
          m ≠ uploadName args) →
        (files s).SameUnder
          (files (uploadBody (record A.exec) args len (s, []) chunks.flatten).2.1) m := by
      intro m hm hdone
      refine (hcreated m hm).trans (h.frame m hm fun hd => ?_)
      rw [hname₀, hnm]
      exact hdone hd
    -- a session that is done has got everything
    have hdone : (uploadBody (record A.exec) args len (s, []) chunks.flatten).1.state = .done →
        c = (uploadBody (record A.exec) args len (s, []) chunks.flatten).2.1 →
        chunks.flatten.length = len ∧
        c = (uploadBody (record A.exec) args len (s, []) chunks.flatten).2.1 ∧
        (uploadRun (record A.exec) args len chunks (s, [])).1.sent = uploadOkResponse ∧
        (files c).Stores (uploadName args) chunks.flatten ∧
        ∀ m, m ≠ uploadTempName → m ≠ uploadName args → (files s).SameUnder (files c) m := by
      intro hstate hceq
      obtain ⟨hall, hstores⟩ := h.stores (by rw [hname₀, hnm]) hfit hok hstate
      rw [← hceq] at hstores
      refine ⟨hall, hceq, ?_, hstores, fun m hm hmn => ?_⟩
      · rw [uploadRun_done _ _ hlen hall]
        exact uploadResponse_done hstate
      · rw [hceq]
        exact hfinal m hm fun _ => hmn
    rcases hc with rfl | hceq | ⟨ev, hev, rfl⟩
    · exact Or.inl fun m _ => Files.SameUnder.refl _ m
    · by_cases hstate : (uploadBody (record A.exec) args len (s, []) chunks.flatten).1.state = .done
      · exact Or.inr (hdone hstate hceq)
      · rw [hceq]
        exact Or.inl fun m hm => hfinal m hm fun hd => absurd hd hstate
    · obtain ⟨evs, hlog, hevs⟩ := h.events
      rw [hlog] at hev
      rcases List.mem_append.mp hev with hev | hev
      · obtain rfl := List.mem_singleton.mp hev
        exact Or.inl hcreated
      · rcases hevs ev hev with hquiet | hren
        · exact Or.inl fun m hm => (hcreated m hm).trans (hquiet.after m hm)
        · exact Or.inr (hdone hren.state hren.after)
  · rw [heq] at hc
    rcases hc with rfl | rfl | ⟨ev, hev, rfl⟩
    · exact Or.inl fun m _ => Files.SameUnder.refl _ m
    · exact Or.inl hcreated
    · obtain rfl := List.mem_singleton.mp hev
      exact Or.inl hcreated

/-- **Uploads are atomic across a power loss.**  Interrupt an upload anywhere, boot, and let
`delete_temp_files` run: the name has its old state or the complete new content, all other files
are as before, and no temporary file is left. -/
theorem upload_crash_atomic (hperm : isTemp (uploadName args) = false) {len : ℕ}
    {chunks : List Bytes} (hfit : chunks.flatten.length ≤ len) {s c : σ}
    (hok : ∀ ev ∈ (uploadRun (record A.exec) args len chunks (s, [])).2.2, ev.answer.err = espOk)
    (hc : Interrupted s (uploadRun (record A.exec) args len chunks (s, [])).2 c)
    (hboot : ∀ ev ∈ (deleteTempFiles A.recorded (c, [])).2, ev.answer.err = espOk) :
    let s' := (deleteTempFiles A.recorded (c, [])).1
    ((files s).SameUnder (files s') (uploadName args) ∨
      chunks.flatten.length = len ∧ (files s').Stores (uploadName args) chunks.flatten) ∧
    (∀ m, isTemp m = false → m ≠ uploadName args → (files s).SameUnder (files s') m) ∧
    ∀ h f, files s' h = some f → isTemp f.name = false := by
  intro s'
  have hafter : ∀ m, isTemp m = false → (files c).SameUnder (files s') m :=
    fun m hm => sameUnder_boot hA hboot hm
  refine ⟨?_, fun m hm hmn => ?_, fun h f hf => ((deleteTempFiles_files hA hboot h f).mp hf).2⟩
  · rcases uploadRun_interrupted hA hfit hok hc with hsame | ⟨hall, _, _, hstored, _⟩
    · exact Or.inl ((hsame _ (ne_uploadTempName hperm)).trans (hafter _ hperm))
    · obtain ⟨h, f, hf, hfname, hcontent⟩ := hstored
      exact Or.inr ⟨hall, h, f, (hafter _ hperm h f hfname).mp hf, hfname, hcontent⟩
  · rcases uploadRun_interrupted hA hfit hok hc with hsame | ⟨_, _, _, _, hframe⟩
    · exact (hsame m (ne_uploadTempName hm)).trans (hafter m hm)
    · exact (hframe m (ne_uploadTempName hm) hmn).trans (hafter m hm)

end Crash

/-! ## A run on a fixed input -/

lemma RamAppfs.scan_ok {n : ℕ} : ∀ {h : Handle} {w w' : RamAppfs × List (AppfsEvent RamAppfs)},
    appfsInvalidFd ≤ h → deleteTempFilesLoop device.recorded n h w = some w' →
    (∀ ev ∈ w.2, ev.answer.err = espOk) → ∀ ev ∈ w'.2, ev.answer.err = espOk := by
  induction n with
  | zero => exact fun _ hs => by simp [deleteTempFilesLoop] at hs
  | succ n ih =>
      rintro h ⟨s, log⟩ w' hlo hs hok
      rw [deleteTempFilesLoop] at hs
      dsimp only at hs
      rcases device_laws.next (s := s) hlo with ⟨hend, _⟩ | ⟨hlt, hsome, _⟩
      · rw [if_pos (show device.recorded.nextEntry h (s, log) = appfsInvalidFd from hend)] at hs
        rw [← Option.some.inj hs]
        exact hok
      · obtain ⟨f, hf⟩ := Option.isSome_iff_exists.mp hsome
        have hname : (device.recorded.entryInfo (device.recorded.nextEntry h (s, log))
            (s, log)).1 = f.name := by
          show (device.entryInfo (device.nextEntry h s) s).1 = f.name
          rw [device_laws.entryInfo hf]
        rw [if_neg (show ¬ device.recorded.nextEntry h (s, log) = appfsInvalidFd from
          (hlo.trans_lt hlt).ne'), hname] at hs
        have hlo' : appfsInvalidFd ≤ device.recorded.nextEntry h (s, log) := hlo.trans hlt.le
        split_ifs at hs
        · refine ih hlo' hs fun ev hev => ?_
          rcases List.mem_append.mp hev with hev | hev
          · exact hok ev hev
          · obtain rfl := List.mem_singleton.mp hev
            exact delete_of_file hf
        · exact ih hlo' hs hok

/-- On the small device a boot never fails. -/
lemma RamAppfs.boot_ok (s : RamAppfs) :
    ∀ ev ∈ (deleteTempFiles device.recorded (s, [])).2, ev.answer.err = espOk := by
  obtain ⟨w', hs⟩ := deleteTempFilesLoop_ends device_laws (n := scanFuel) (w := (s, [])) le_rfl
    (by decide)
  rw [deleteTempFiles, hs]
  exact scan_ok le_rfl hs (by simp)

/-- An empty file system, after the create and the erase of an upload of one byte. -/
def erasedOnly : RamAppfs :=
  (RamAppfs.exec (.erase 0 0 spiFlashEraseSize)
    (RamAppfs.exec (.createFile uploadTempName 1) .empty).2).2

/-- The power fails after the erase. -/
theorem upload_crash_atomic_erased :
    let s' := (deleteTempFiles RamAppfs.device.recorded (erasedOnly, [])).1
    (RamAppfs.empty.files.SameUnder s'.files (ascii "a") ∨
      (1 : ℕ) = 1 ∧ s'.files.Stores (ascii "a") [7]) ∧
    (∀ m, isTemp m = false → m ≠ ascii "a" → RamAppfs.empty.files.SameUnder s'.files m) ∧
    ∀ h f, s'.files h = some f → isTemp f.name = false := by
  obtain ⟨_, hrun⟩ := uploadRun_page argsA RamAppfs.device [7] (by decide) (by decide) .empty
    (ascii "a") (by decide) (Prod.ext (by decide) rfl) (Prod.ext (by decide) rfl)
    (Prod.ext (by decide) rfl) (Prod.ext (by decide) rfl)
  rw [show ([7] : Bytes).length = 1 from rfl] at hrun
  have hok : ∀ ev ∈ (uploadRun (record RamAppfs.device.exec) argsA 1 [[7]] (.empty, [])).2.2,
      ev.answer.err = espOk := by
    rw [hrun]
    simp
  have hint : Interrupted .empty (uploadRun (record RamAppfs.device.exec) argsA 1 [[7]]
      (.empty, [])).2 erasedOnly := by
    rw [hrun]
    exact Or.inr (Or.inr ⟨_, List.mem_cons_of_mem _ (List.mem_cons_self ..), rfl⟩)
  exact upload_crash_atomic RamAppfs.device_laws (by decide) (by decide) hok hint
    (RamAppfs.boot_ok erasedOnly)

end Chooser
