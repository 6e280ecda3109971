import Chooser.TempFiles

/-!
# How long an acknowledged upload lasts

A device that serves one request after the other, and reboots now and then: uploads that run to
their end or are broken off, deletes, and boots with `delete_temp_files`.  An upload that was
answered 200 with an empty body should stay until its name is uploaded again or deleted.  It does
when its name does not match the pattern of the temporary files; one that does is gone after the
next boot (`upload_durable`).
-/

namespace Chooser

open CStr

/-- What happens to the device: a request that runs to its end or is aborted after the buffers
given, or a boot. -/
inductive DeviceOp where
  | upload (args : Args) (len : ℕ) (chunks : List Bytes)
  | delete (args : Args) (fdText : Bytes)
  | reboot

section Ops

variable {σ ν : Type} (A : Appfs σ) (nvs : NvsExec ν)

/-- The state afterwards with the calls that were made, and what was answered. -/
def DeviceOp.run (op : DeviceOp) (w : σ × ν) :
    (σ × List (AppfsEvent σ)) × ν × List HttpCall :=
  match op with
  | .upload args len chunks =>
      let r := uploadRun (record A.exec) args len chunks (w.1, [])
      (r.2, w.2, r.1.sent)
  | .delete args fdText =>
      let r := cgiDelete A.recorded nvs fdText ⟨true, true, none, args, ⟨[], 0, 0⟩⟩ ((w.1, []), w.2)
      (r.2.1, r.2.2, r.1.out)
  | .reboot => (deleteTempFiles A.recorded (w.1, []), w.2, [])

def deviceStep (w : σ × ν) (op : DeviceOp) : σ × ν :=
  ((op.run A nvs w).1.1, (op.run A nvs w).2.1)

variable (files : σ → Files)

/-- The calls succeed, no more than the announced body arrives, and a delete request names a
file. -/
def OpSucceeds (w : σ × ν) (op : DeviceOp) : Prop :=
  (∀ ev ∈ (op.run A nvs w).1.2, ev.answer.err = espOk) ∧
  match op with
  | .upload _ len chunks => chunks.flatten.length ≤ len
  | .delete args fdText => ∀ k, deleteIdx args fdText = some k → (files w.1 k).isSome
  | .reboot => True

/-- The request ends the life of the file named `n`: an upload to this name that is acknowledged,
or a delete request for the file. -/
def Supersedes (n : Bytes) (w : σ × ν) (op : DeviceOp) : Prop :=
  match op with
  | .upload args _ _ => uploadName args = n ∧ (op.run A nvs w).2.2 = uploadOkResponse
  | .delete args fdText =>
      ∃ k f, deleteIdx args fdText = some k ∧ files w.1 k = some f ∧ f.name = n
  | .reboot => False

end Ops

section Laws

variable {σ ν : Type} {A : Appfs σ} {nvs : NvsExec ν} {files : σ → Files}

/-- A request without a body is not acknowledged. -/
lemma uploadRun_nil_sent {ω : Type} {exec : Exec ω} {args : Args} {len : ℕ} {chunks : List Bytes}
    (h : chunks.flatten = []) (w : ω) :
    (uploadRun exec args len chunks w).1.sent ≠ uploadOkResponse := by
  rcases Nat.eq_zero_or_pos len with rfl | hpos
  · cases chunks with
    | nil => simp [uploadRun, UploadConn.opened, uploadOkResponse]
    | cons c chunks =>
        obtain rfl : c = [] := (List.append_eq_nil_iff.mp h).1
        rw [uploadRun, List.foldl_cons, post_last rfl [] rfl, foldl_post_closed rfl]
        simp [UploadConn.opened, uploadFeed_nil, uploadResponse, UploadState.initial,
          uploadOkResponse]
  · have hopen := uploadRun_open exec args (by rw [h]; exact hpos) w
    rw [hopen.sent]
    simp [uploadOkResponse]

variable (hA : A.Laws files)
include hA

/-- An upload that has arrived whole is acknowledged and stored, if no call fails. -/
lemma uploadRun_stored {args : Args} {len : ℕ} {chunks : List Bytes} (hbody : chunks.flatten ≠ [])
    (hwhole : chunks.flatten.length = len) {s : σ}
    (hok : ∀ ev ∈ (uploadRun (record A.exec) args len chunks (s, [])).2.2, ev.answer.err = espOk) :
    (uploadRun (record A.exec) args len chunks (s, [])).1.sent = uploadOkResponse ∧
      (files (uploadRun (record A.exec) args len chunks (s, [])).2.1).Stores (uploadName args)
        chunks.flatten := by
  subst hwhole
  rw [uploadRun_done _ _ (List.length_pos_of_ne_nil hbody) rfl] at hok ⊢
  obtain ⟨hdone, ⟨k, f, hf, hfname, _, hcontent⟩, _⟩ := uploadBody_succeeds hA hbody hok
  exact ⟨uploadResponse_done hdone, k, f, hf, hfname, hcontent⟩

/-- An acknowledged upload has stored its body. -/
lemma uploadRun_acknowledged {args : Args} {len : ℕ} {chunks : List Bytes}
    (hfit : chunks.flatten.length ≤ len) {s : σ}
    (hok : ∀ ev ∈ (uploadRun (record A.exec) args len chunks (s, [])).2.2, ev.answer.err = espOk)
    (hack : (uploadRun (record A.exec) args len chunks (s, [])).1.sent = uploadOkResponse) :
    (files (uploadRun (record A.exec) args len chunks (s, [])).2.1).Stores (uploadName args)
      chunks.flatten := by
  have hbody : chunks.flatten ≠ [] := fun hnil => uploadRun_nil_sent hnil _ hack
  rcases hfit.lt_or_eq with hlt | rfl
  · have hopen := uploadRun_open (record A.exec) args hlt (s, [])
    rw [hopen.sent] at hack
    simp [uploadOkResponse] at hack
  · exact (uploadRun_stored hA hbody rfl hok).2

/-- **A request, seen from a name that is not temporary**: the file stays, unless the request
supersedes it. -/
lemma sameUnder_step {n : Bytes} (hn : isTemp n = false) {w : σ × ν} {op : DeviceOp}
    (hop : OpSucceeds A nvs files w op) (hsup : ¬ Supersedes A nvs files n w op) :
    (files w.1).SameUnder (files (deviceStep A nvs w op).1) n := by
  have htemp := ne_uploadTempName hn
  obtain ⟨hok, hfit⟩ := hop
  cases op with
  | upload args len chunks =>
      rcases uploadRun_interrupted hA hfit hok (Or.inr (Or.inl rfl)) with
        hsame | ⟨_, _, hsent, _, hframe⟩
      · exact hsame n htemp
      · exact hframe n htemp fun hname => hsup ⟨hname.symm, hsent⟩
  | delete args fdText =>
      show (files w.1).SameUnder (files (cgiDelete A.recorded nvs fdText _ _).2.1.1) n
      rw [cgiDelete]
      cases hidx : deleteIdx args fdText with
      | none => exact Files.SameUnder.refl _ n
      | some k =>
          obtain ⟨f, hf⟩ := Option.isSome_iff_exists.mp (hfit k hidx)
          have hname : (A.entryInfo k w.1).1 = f.name := by rw [hA.entryInfo hf]
          refine sameUnder_delete hA (fun hn => hsup ⟨k, f, hidx, hf, ?_⟩) w.1
          rw [hn]
          exact hname.symm
  | reboot => exact sameUnder_boot hA hok hn

/-- **Acknowledged uploads last, unless they look like temporary files.**  If the name of an
acknowledged upload does not match `__*.tmp`, then after any further requests and boots that do not
supersede it the file is there with the content of that upload.  If it does match, no boot leaves
it. -/
theorem upload_durable {w : σ × ν} {args : Args} {len : ℕ} {chunks : List Bytes}
    (hop : OpSucceeds A nvs files w (.upload args len chunks))
    (hack : ((DeviceOp.upload args len chunks).run A nvs w).2.2 = uploadOkResponse) :
    (isTemp (uploadName args) = false → ∀ ops,
      Machine.AllSteps (deviceStep A nvs) (fun w op => OpSucceeds A nvs files w op ∧
        ¬ Supersedes A nvs files (uploadName args) w op)
        (deviceStep A nvs w (.upload args len chunks)) ops →
      (files (Machine.run (deviceStep A nvs) (deviceStep A nvs w (.upload args len chunks)) ops).1
        ).Stores (uploadName args) chunks.flatten) ∧
    (isTemp (uploadName args) = true → ∀ w', OpSucceeds A nvs files w' .reboot →
      ¬ (files (deviceStep A nvs w' .reboot).1).Has (uploadName args)) := by
  refine ⟨fun hperm ops hops => ?_, fun htemp w' hboot => ?_⟩
  · have hstep : ∀ w op, (files w.1).Stores (uploadName args) chunks.flatten →
        OpSucceeds A nvs files w op ∧ ¬ Supersedes A nvs files (uploadName args) w op →
        (files (deviceStep A nvs w op).1).Stores (uploadName args) chunks.flatten := by
      rintro w op ⟨h, f, hf, hfname, hcontent⟩ ⟨hsucc, hsup⟩
      exact ⟨h, f, (sameUnder_step hA hperm hsucc hsup h f hfname).mp hf, hfname, hcontent⟩
    exact Machine.run_invariant hstep (uploadRun_acknowledged hA hop.2 hop.1 hack) hops
  · rintro ⟨h, f, hf, hfname⟩
    have hkept := ((deleteTempFiles_files hA hboot.1 h f).mp hf).2
    rw [hfname, htemp] at hkept
    simp at hkept

end Laws

/-! ## Runs on fixed inputs -/

/-- An upload of one byte to an empty device, under the name that `args` gives. -/
lemma upload_empty (args : Args) (name : Bytes) (hname : (httpdFindArg args "name" [] 512).2 = name)
    (hren : (RamAppfs.exec (.rename uploadTempName (cString name))
      (RamAppfs.exec (.write 0 0 [7]) erasedOnly).2).1 = ⟨espOk, -1⟩) :
    OpSucceeds RamAppfs.device noNvs RamAppfs.files (.empty, ()) (.upload args 1 [[7]]) ∧
    ((DeviceOp.upload args 1 [[7]]).run RamAppfs.device noNvs (.empty, ())).2.2
      = uploadOkResponse := by
  obtain ⟨hsent, hrun⟩ := uploadRun_page args RamAppfs.device [7] (by decide) (by decide)
    .empty name hname (Prod.ext (by decide) rfl) (Prod.ext (by decide) rfl)
    (Prod.ext (by decide) rfl) (Prod.ext hren rfl)
  rw [show ([7] : Bytes).length = 1 from rfl] at hsent hrun
  refine ⟨⟨?_, (by decide : ([[7]] : List Bytes).flatten.length ≤ 1)⟩, hsent⟩
  show ∀ ev ∈ (uploadRun (record RamAppfs.device.exec) args 1 [[7]] (.empty, [])).2.2, _
  rw [hrun]
  simp

/-- An upload named `a`, and a boot. -/
theorem upload_durable_boot :
    (Machine.run (deviceStep RamAppfs.device noNvs) (.empty, ())
      [.upload argsA 1 [[7]], .reboot]).1.files.Stores (ascii "a") [7] := by
  obtain ⟨hop, hack⟩ := upload_empty argsA (ascii "a") (by decide) (by decide)
  have hname : uploadName argsA = ascii "a" := by decide
  have h := (upload_durable RamAppfs.device_laws hop hack).1 (by rw [hname]; decide) [.reboot]
    ⟨⟨⟨RamAppfs.boot_ok _, trivial⟩, id⟩, trivial⟩
  rw [hname] at h
  exact h

/-- The name `__a.tmp`, for every key. -/
def argsTemp : Args := fun _ => some (ascii "__a.tmp")

/-- An upload named `__a.tmp` is acknowledged, and gone after the next boot. -/
theorem upload_not_durable :
    ¬ ∀ (σ ν : Type) (A : Appfs σ) (nvs : NvsExec ν) (files : σ → Files) (w : σ × ν) (args : Args)
      (len : ℕ) (chunks : List Bytes) (ops : List DeviceOp), A.Laws files →
      uploadName args ≠ [] → OpSucceeds A nvs files w (.upload args len chunks) →
      ((DeviceOp.upload args len chunks).run A nvs w).2.2 = uploadOkResponse →
      Machine.AllSteps (deviceStep A nvs) (fun w op => OpSucceeds A nvs files w op ∧
        ¬ Supersedes A nvs files (uploadName args) w op)
        (deviceStep A nvs w (.upload args len chunks)) ops →
      (files (Machine.run (deviceStep A nvs) (deviceStep A nvs w (.upload args len chunks)) ops).1
        ).Stores (uploadName args) chunks.flatten := by
  intro h
  obtain ⟨hop, hack⟩ := upload_empty argsTemp (ascii "__a.tmp") (by decide) (by decide)
  have hboot := RamAppfs.boot_ok
    (deviceStep RamAppfs.device noNvs (.empty, ()) (.upload argsTemp 1 [[7]])).1
  obtain ⟨k, f, hf, hfname, _⟩ := h RamAppfs Unit RamAppfs.device noNvs RamAppfs.files (.empty, ())
    argsTemp 1 [[7]] [.reboot] RamAppfs.device_laws (by decide) hop hack
    ⟨⟨⟨hboot, trivial⟩, id⟩, trivial⟩
  have hkept := ((deleteTempFiles_files RamAppfs.device_laws hboot k f).mp hf).2
  rw [hfname] at hkept
  exact absurd hkept (by decide)

end Chooser
