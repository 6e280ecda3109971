import Chooser.Store

/-!
# The store over many boots

The power can fail at any time: between two calls of handlers, or within one, after any of the calls
to the file system that it makes.  The boot after it removes the temporary files, and may be cut off
in the same way; when one has come to its end, the web server starts anew, with no connections.

Over a whole life of the device, the files whose names are not temporary are a store still
(`life_history`): every acknowledged upload is in its history, and what was cut off has been done
completely or not at all.
-/

namespace Chooser

open CStr

/-- A power cycle: the server at its start, the calls of handlers, and the one that the power
failure cuts off, if it comes within a call. -/
structure PowerCycle (σ ν : Type) where
  start : Server σ ν
  calls : List ServerEvent
  cut : Option ServerEvent

section Life

variable {σ ν : Type} (A : Appfs σ) (nvs : NvsExec ν) (files : σ → Files)

/-- The server when the power fails, after the calls that have come to their end. -/
def PowerCycle.stop (p : PowerCycle σ ν) : Server σ ν :=
  Machine.run (serverStep A nvs) p.start p.calls

/-- Where the file system stands then: where the last call has left it, or where one of the calls to
the file system has that the call which is cut off makes. -/
def PowerCycle.CutOff (p : PowerCycle σ ν) (c : σ) : Prop :=
  match p.cut with
  | none => c = (p.stop A nvs).fs
  | some e => TempKept A nvs files (p.stop A nvs) e ∧
      (c = (p.stop A nvs).fs ∨ ∃ ev ∈ (serverStep A nvs (p.stop A nvs) e).log, c = ev.after)

/-- **The boots after a power failure**, from the files `c` to the files `c'`: any number that are
cut off, each after one of its deletes, and one in which all of them succeed. -/
inductive Boots : σ → σ → Prop
  | whole {c : σ} (hok : ∀ ev ∈ (deleteTempFiles A.recorded (c, [])).2, ev.answer.err = espOk) :
      Boots c (deleteTempFiles A.recorded (c, [])).1
  | cutOff {c c' : σ} {ev : AppfsEvent σ} (hev : ev ∈ (deleteTempFiles A.recorded (c, [])).2)
      (hrest : Boots ev.after c') : Boots c c'

/-- **A life of the device**: power cycles that lead from the files `fs` to the files `fs'`. -/
inductive Life : σ → List (PowerCycle σ ν) → σ → Prop
  | stop (fs : σ) : Life fs [] fs
  | cycle {fs c c' fs' : σ} {p : PowerCycle σ ν} {ps : List (PowerCycle σ ν)} {v : ν}
      (hstart : p.start = Server.initial fs v)
      (hcalls : Machine.AllSteps (serverStep A nvs) (TempKept A nvs files) p.start p.calls)
      (hcut : p.CutOff A nvs files c) (hboots : Boots A c c') (hrest : Life c' ps fs') :
      Life fs (p :: ps) fs'

/-- **The acts of a power cycle** are those of its calls, with one put for each acknowledged upload,
and perhaps that of the call that was cut off. -/
def CycleActs (p : PowerCycle σ ν) (xs : List ServerAct) : Prop :=
  ∃ yss zs, xs = yss.flatten ++ zs ∧
    Machine.Emits (serverStep A nvs) (StoreStep A nvs files) p.start p.calls yss ∧
    (∀ c n b, .put c n b ∈ yss.flatten ↔ (p.stop A nvs).Acked c n b) ∧
    (yss.flatten.filterMap ServerAct.conn).Nodup ∧
    (zs = [] ∨ ∃ e, p.cut = some e ∧ StoreStep A nvs files (p.stop A nvs) e zs)

variable {A nvs files} (hA : A.Laws files)
include hA

/-- A power failure leaves the store before or after the act of the call. -/
lemma cutOff_store {V₀ : Bytes → Option Bytes} {p : PowerCycle σ ν} {xs : List ServerAct}
    (h : History files V₀ (p.stop A nvs) xs) (hs : UploadsInv files (p.stop A nvs)) {c : σ}
    (hcut : p.CutOff A nvs files c) :
    ∃ zs, (zs = [] ∨ ∃ e, p.cut = some e ∧ StoreStep A nvs files (p.stop A nvs) e zs) ∧
      ∀ n, n ≠ uploadTempName →
        (files c).view n = KeyStore.run V₀ ((xs ++ zs).map ServerAct.act) n := by
  by_cases hsame : ∀ n, n ≠ uploadTempName → (files c).view n = (files (p.stop A nvs).fs).view n
  · refine ⟨[], Or.inl rfl, fun n hn => ?_⟩
    rw [List.append_nil, hsame n hn, h.store n hn]
  · -- then a call has been cut off after its act
    rw [PowerCycle.CutOff] at hcut
    cases hp : p.cut with
    | none =>
        rw [hp] at hcut
        exact absurd (fun n _ => by rw [hcut]) hsame
    | some e =>
        rw [hp] at hcut
        obtain ⟨he, rfl | ⟨ev, hev, rfl⟩⟩ := hcut
        · exact absurd (fun _ _ => rfl) hsame
        · obtain ⟨zs, hstep⟩ := serverStep_store hA hs he
          have hdone := (hstep.during ev hev).resolve_right hsame
          refine ⟨zs, Or.inr ⟨e, rfl, hstep⟩, fun n hn => ?_⟩
          rw [hdone, (h.step hstep).store n hn]

/-- The files that are not temporary are kept. -/
lemma Boots.sameUnder {c c' : σ} (h : Boots A c c') {n : Bytes} (hn : isTemp n = false) :
    (files c).SameUnder (files c') n := by
  induction h with
  | whole hok => exact sameUnder_boot hA hok hn
  | cutOff hev _ ih => exact (sameUnder_boot_during hA hn _ hev).trans ih

/-- The last boot leaves no other. -/
lemma Boots.isTemp_eq_false {c c' : σ} (h : Boots A c c') {k : Handle} {f : AppfsFile}
    (hf : files c' k = some f) : isTemp f.name = false := by
  induction h with
  | whole hok => exact ((deleteTempFiles_files hA hok k f).mp hf).2
  | cutOff _ _ ih => exact ih hf

/-- **Over a whole life the device is a store of files.**  However the connections are interleaved,
and wherever the power fails, during the boots too, as long as the temporary files of the uploads
are left alone, no erase or write of a last page fails, and in the last boot after each failure the
deletes succeed: what is stored under a name that is not temporary is explained by the acts of all
power cycles, in their order.  These are the acts of the calls, one put for each acknowledged
upload, with its whole body, removals in calls that are to delete the file of this name, and for
each power failure at most the act of the call that was cut off.  And no temporary file is left. -/
theorem life_history {fs fs' : σ} {ps : List (PowerCycle σ ν)} (h : Life A nvs files fs ps fs') :
    ∃ xss : List (List ServerAct), List.Forall₂ (CycleActs A nvs files) ps xss ∧
      (∀ n, isTemp n = false → (files fs').view n
        = KeyStore.run (files fs).view (xss.flatten.map ServerAct.act) n) ∧
      (ps ≠ [] → ∀ k f, files fs' k = some f → isTemp f.name = false) := by
  induction h with
  | stop fs => exact ⟨[], .nil, fun n _ => rfl, fun h => absurd rfl h⟩
  | @cycle fs c c' fs' p ps v hstart hcalls hcut hboots hrest ih =>
      obtain ⟨xss, hacts, hstore, htemp⟩ := ih
      have hhistory : History files (files fs).view p.start [] := by
        rw [hstart]
        exact History.initial fs v
      have huploads : UploadsInv files p.start := by
        rw [hstart]
        exact UploadsInv.initial fs v
      obtain ⟨hinv, yss, hemits, hys⟩ := hhistory.run hA huploads hcalls
      rw [List.nil_append] at hys
      obtain ⟨zs, hzs, hview⟩ := cutOff_store hA (p := p) hys hinv hcut
      refine ⟨(yss.flatten ++ zs) :: xss,
        .cons ⟨yss, zs, rfl, hemits, hys.acked, hys.once, hzs⟩ hacts, fun n hn => ?_, fun _ => ?_⟩
      · rw [hstore n hn, List.flatten_cons, List.map_append, KeyStore.run_append]
        refine KeyStore.run_congr ?_
        rw [← (hboots.sameUnder hA hn).view_eq, hview n (ne_uploadTempName hn)]
      · cases hrest with
        | stop => exact fun k f hf => hboots.isTemp_eq_false hA hf
        | cycle => exact htemp (List.cons_ne_nil _ _)

end Life

/-- The power fails while an upload of one byte is being written. -/
def onePowerCycle : PowerCycle RamAppfs Unit :=
  ⟨Server.initial .empty (), [.openUpload 0 argsA 1], some (.post 0 [7])⟩

/-- It fails after the erase, and then comes a boot. -/
theorem life_history_one :
    let fs' := (deleteTempFiles RamAppfs.device.recorded (erasedOnly, [])).1
    ∃ xss : List (List ServerAct),
      List.Forall₂ (CycleActs RamAppfs.device noNvs RamAppfs.files) [onePowerCycle] xss ∧
      (∀ n, isTemp n = false → (RamAppfs.files fs').view n
        = KeyStore.run (RamAppfs.files .empty).view (xss.flatten.map ServerAct.act) n) ∧
      ([onePowerCycle] ≠ [] → ∀ k f, RamAppfs.files fs' k = some f → isTemp f.name = false) := by
  obtain ⟨hopen, hpost, _⟩ := oneUpload_spec.1
  obtain ⟨_, _, ev, hev, hafter⟩ := oneUpload_post
  exact life_history RamAppfs.device_laws (.cycle rfl ⟨hopen, trivial⟩
    ⟨hpost, Or.inr ⟨ev, hev, hafter.symm⟩⟩ (.whole (RamAppfs.boot_ok _)) (.stop _))

end Chooser
