import Chooser.Appfs

/-!
# Deleting a file

`cgiDelete` serves `delete.cgi?idx=..`: it looks up the name of the file behind the index, erases
the NVS namespace of that name, and deletes the file of that name.  The index is not checked; for
a handle without a file the name is whatever `appfsEntryInfo` leaves in an uninitialised pointer.
-/

namespace Chooser

open CStr

/-- The calls to the non-volatile storage. -/
inductive NvsCall where
  | openRw (name : Bytes)
  | eraseAll (name : Bytes)
  | commit (name : Bytes)
  | close (name : Bytes)
deriving DecidableEq, Repr

/-- How the non-volatile storage answers. -/
abbrev NvsExec (ν : Type) := NvsCall → ν → EspErr × ν

/-- A storage that remembers what it was asked. -/
def nvsRecord {ν : Type} (nvs : NvsExec ν) : NvsExec (ν × List NvsCall) :=
  fun call v => ((nvs call v.1).1, (nvs call v.1).2, v.2 ++ [call])

/-- A storage without namespaces. -/
def noNvs : NvsExec Unit := fun _ v => (-1, v)

def deletedResponse : List HttpCall :=
  [.startResponse 302, .header (ascii "Content-Type") (ascii "text/html"),
    .header (ascii "Location") (ascii "index.html"), .endHeaders, .send (ascii "Killed") (-1)]

def deleteInvalidIdx : List HttpCall :=
  [.startResponse 200, .header (ascii "Content-Type") (ascii "text/html"), .endHeaders,
    .send (ascii "Invalid idx var\n") (-1)]

/-- The index of a request, if it has one. -/
def deleteIdx (args : Args) (fdText : Bytes) : Option Handle :=
  let a := httpdFindArg args "idx" fdText 16
  if a.1 > 0 then some (atoi a.2) else none

section Handler

variable {σ ν : Type} (A : Appfs σ) (nvs : NvsExec ν)

/-- Erases the namespace of an app, if it can be opened. -/
def eraseNamespace (name : Bytes) (v : ν) : ν :=
  let r := nvs (.openRw name) v
  if r.1 = espOk then
    (nvs (.close name) (nvs (.commit name) (nvs (.eraseAll name) r.2).2).2).2
  else r.2

def cgiDelete (fdText : Bytes) (connData : HttpdConnData Unit) (w : σ × ν) :
    CgiOutcome Unit × σ × ν :=
  match deleteIdx connData.getArgs fdText with
  | some fd =>
      let name := (A.entryInfo fd w.1).1
      (⟨.done, connData.cgiData, false, deletedResponse⟩,
        (A.exec (.deleteFile name) w.1).2, eraseNamespace nvs name w.2)
  | none => (⟨.done, connData.cgiData, false, deleteInvalidIdx⟩, w)

end Handler

/-- The link of an index row: `atoi` reads back the handle that `%d` printed. -/
lemma deleteIdx_link {args : Args} {n : ℕ} (hn : n < 2 ^ 31) (fdText : Bytes)
    (h : args "idx" = some (decimal n)) : deleteIdx args fdText = some (n : ℤ) := by
  have hlen : (decimal n).length ≤ 10 := length_decimal_le (by omega) (by omega)
  simp [deleteIdx, httpdFindArg, h, List.take_of_length_le (by omega : (decimal n).length ≤ 16),
    decimal_ne_nil n, atoi_decimal hn]

section Laws

variable {σ : Type} {A : Appfs σ} {files : σ → Files}

/-- Deleting a name that is not `n` is not seen under `n`, whether or not it succeeds. -/
lemma sameUnder_delete (hA : A.Laws files) {name n : Bytes} (hn : n ≠ name) (s : σ) :
    (files s).SameUnder (files (A.exec (.deleteFile name) s).2) n := by
  by_cases hok : (A.exec (.deleteFile name) s).1.err = espOk
  · rw [hA.delete_ok hok]
    exact Files.sameUnder_without hn
  · rw [hA.delete_fail hok]
    exact Files.SameUnder.refl _ n

end Laws

end Chooser
