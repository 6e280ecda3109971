import Chooser.Httpd
import Chooser.Lib.NorFlash

/-!
# The application file system

The chooser keeps the uploaded apps in `appfs`, a library that is not part of the repository.  It
enters the model as a parameter: an `Appfs σ` is a device over states `σ` that answers calls, and
`Appfs.Laws` is what the handlers rely on, stated over a view of the device as a map from handles
to files.

* A *handle* is the number of a file's first sector.  It identifies a file only as long as the
  file exists; a later file may get the same number.
* The bytes behind a handle are NOR flash: a new file holds whatever its sectors held before, and
  a write can only clear bits.
* Creating, renaming and deleting are atomic.  A failed erase or write may leave anything in the
  file it was aimed at, and touches no other.

`record` wraps a device so that it keeps the list of calls it answered, with the states before
and after each: the statements about power loss and about who wrote where are read off it.
-/

namespace Chooser

open CStr

/-- `esp_err_t`. -/
abbrev EspErr := ℤ

/-- `ESP_OK`. -/
def espOk : EspErr := 0

/-- `appfs_handle_t`. -/
abbrev Handle := ℤ

/-- `APPFS_INVALID_FD`. -/
def appfsInvalidFd : Handle := -1

/-- Handles are C `int`s, small enough for the cursor of the file index to hold them. -/
def handleBound : ℤ := 2 ^ 31 - 0x100

/-- The calls that change the file system. -/
inductive AppfsCall where
  | createFile (name : Bytes) (size : ℕ)
  | erase (fd : Handle) (adr len : ℕ)
  | write (fd : Handle) (adr : ℕ) (data : Bytes)
  | rename (old new : Bytes)
  | deleteFile (name : Bytes)
deriving DecidableEq, Repr

/-- The result of a call: the error code, and the handle that a create stores. -/
structure AppfsAnswer where
  err : EspErr
  fd : Handle
deriving DecidableEq, Repr

/-- How a device answers the calls that change it. -/
abbrev Exec (ω : Type) := AppfsCall → ω → AppfsAnswer × ω

/-- A file system device. -/
structure Appfs (σ : Type) where
  exec : Exec σ
  nextEntry : Handle → σ → Handle
  entryInfo : Handle → σ → Bytes × ℕ
  fdValid : Handle → σ → Bool
  /-- `appfsRead(fd, pos, buf, len)`: the error code and the buffer afterwards. -/
  read : Handle → ℕ → ℕ → Bytes → σ → EspErr × Bytes
  freeMem : σ → ℕ

/-! ## What is stored -/

/-- A stored file: its name, its size, and the flash its sectors are made of. -/
structure AppfsFile where
  name : Bytes
  size : ℕ
  flash : NorFlash.Cells

/-- The bytes of a file. -/
def AppfsFile.content (f : AppfsFile) : Bytes := NorFlash.read f.flash 0 f.size

@[simp] lemma AppfsFile.length_content (f : AppfsFile) : f.content.length = f.size := by
  simp [AppfsFile.content]

/-- The bytes reserved for a file of a given size: whole sectors of 64 KiB. -/
def reserved (size : ℕ) : ℕ := (size + 65535) / 65536 * 65536

/-- The files of a device, by handle. -/
abbrev Files := Handle → Option AppfsFile

/-- All files but those of one name. -/
def Files.without (F : Files) (n : Bytes) : Files := fun h => (F h).filter fun f => f.name ≠ n

lemma Files.without_eq_some {F : Files} {n : Bytes} {h : Handle} {f : AppfsFile} :
    F.without n h = some f ↔ F h = some f ∧ f.name ≠ n := by
  simp [Files.without, Option.filter_eq_some_iff]

lemma Files.without_of_ne {F : Files} {n : Bytes} {h : Handle} {f : AppfsFile}
    (hf : F h = some f) (hn : f.name ≠ n) : F.without n h = some f :=
  Files.without_eq_some.mpr ⟨hf, hn⟩

/-- Is a file of this name stored? -/
def Files.Has (F : Files) (n : Bytes) : Prop := ∃ h f, F h = some f ∧ f.name = n

/-- A file of this name is stored and its bytes are `b`. -/
def Files.Stores (F : Files) (n b : Bytes) : Prop :=
  ∃ h f, F h = some f ∧ f.name = n ∧ f.content = b

/-- What stands under the name `n` is the same in both: the same files with the same contents, or
none. -/
def Files.SameUnder (F F' : Files) (n : Bytes) : Prop :=
  ∀ h f, f.name = n → (F h = some f ↔ F' h = some f)

lemma Files.SameUnder.refl (F : Files) (n : Bytes) : F.SameUnder F n := fun _ _ _ => Iff.rfl

lemma Files.SameUnder.trans {F F' F'' : Files} {n : Bytes} (h : F.SameUnder F' n)
    (h' : F'.SameUnder F'' n) : F.SameUnder F'' n :=
  fun k f hf => (h k f hf).trans (h' k f hf)

/-- Dropping the files of one name changes nothing under the others. -/
lemma Files.sameUnder_without {F : Files} {n m : Bytes} (h : m ≠ n) :
    F.SameUnder (F.without n) m := by
  intro k f hf
  rw [Files.without_eq_some]
  exact ⟨fun hk => ⟨hk, hf ▸ h⟩, And.left⟩

/-- A change of one file is not seen under a name that this file has neither before nor after. -/
lemma Files.sameUnder_update {F : Files} {k : Handle} {o : Option AppfsFile} {m : Bytes}
    (hold : ∀ f, F k = some f → f.name ≠ m) (hnew : ∀ f, o = some f → f.name ≠ m) :
    F.SameUnder (Function.update F k o) m := by
  intro h f hf
  by_cases hk : h = k
  · subst hk
    rw [Function.update_self]
    exact ⟨fun hF => absurd hf (hold f hF), fun ho => absurd hf (hnew f ho)⟩
  · rw [Function.update_of_ne hk]

/-! ## What the handlers rely on -/

/-- The behaviour of the file system that the handlers rely on, over the files it stores. -/
structure Appfs.Laws {σ : Type} (A : Appfs σ) (files : σ → Files) : Prop where
  /-- A handle is a non-negative `int`. -/
  bounded : ∀ {s h f}, files s h = some f → 0 ≤ h ∧ h < handleBound
  /-- A name belongs to one file. -/
  unique : ∀ {s h h' f f'}, files s h = some f → files s h' = some f' → f.name = f'.name → h = h'
  /-- Create first removes a file of the same name, and takes sectors no other file owns. -/
  create_ok : ∀ {n size s}, (A.exec (.createFile n size) s).1.err = espOk →
    (∀ f, files s (A.exec (.createFile n size) s).1.fd = some f → f.name = n) ∧
    ∃ flash, files (A.exec (.createFile n size) s).2
      = Function.update ((files s).without n) (A.exec (.createFile n size) s).1.fd
          (some ⟨n, size, flash⟩)
  create_fail : ∀ {n size s}, (A.exec (.createFile n size) s).1.err ≠ espOk →
    files (A.exec (.createFile n size) s).2 = files s ∨
    files (A.exec (.createFile n size) s).2 = (files s).without n
  /-- A successful erase inside the reserved sectors. -/
  erase_ok : ∀ {fd adr len s f}, (A.exec (.erase fd adr len) s).1.err = espOk →
    files s fd = some f → adr + len ≤ reserved f.size →
    files (A.exec (.erase fd adr len) s).2
      = Function.update (files s) fd (some { f with flash := NorFlash.erase f.flash adr len })
  /-- Erasing touches only the flash of the file that owns the handle. -/
  erase_frame : ∀ fd adr len s, ∃ flash, files (A.exec (.erase fd adr len) s).2
    = Function.update (files s) fd ((files s fd).map fun f => { f with flash := flash })
  write_ok : ∀ {fd adr data s f}, (A.exec (.write fd adr data) s).1.err = espOk →
    files s fd = some f → adr + data.length ≤ reserved f.size →
    files (A.exec (.write fd adr data) s).2
      = Function.update (files s) fd (some { f with flash := NorFlash.program f.flash adr data })
  write_frame : ∀ fd adr data s, ∃ flash, files (A.exec (.write fd adr data) s).2
    = Function.update (files s) fd ((files s fd).map fun f => { f with flash := flash })
  /-- Rename looks the source up by name, replaces another file of the target name, and keeps
  handle, size and content. -/
  rename_ok : ∀ {old new s}, (A.exec (.rename old new) s).1.err = espOk →
    ∃ h f, files s h = some f ∧ f.name = old ∧
      files (A.exec (.rename old new) s).2
        = Function.update ((files s).without new) h (some { f with name := new })
  rename_fail : ∀ {old new s}, (A.exec (.rename old new) s).1.err ≠ espOk →
    files (A.exec (.rename old new) s).2 = files s
  delete_ok : ∀ {n s}, (A.exec (.deleteFile n) s).1.err = espOk →
    files (A.exec (.deleteFile n) s).2 = (files s).without n
  delete_fail : ∀ {n s}, (A.exec (.deleteFile n) s).1.err ≠ espOk →
    files (A.exec (.deleteFile n) s).2 = files s
  /-- The least handle above `h` that has a file, whether or not `h` still has one. -/
  next : ∀ {h s}, appfsInvalidFd ≤ h →
    (A.nextEntry h s = appfsInvalidFd ∧ ∀ h', h < h' → files s h' = none) ∨
    (h < A.nextEntry h s ∧ (files s (A.nextEntry h s)).isSome ∧
      ∀ h', h < h' → h' < A.nextEntry h s → files s h' = none)
  /-- On a handle without a file the answer is unspecified. -/
  entryInfo : ∀ {s h f}, files s h = some f → A.entryInfo h s = (f.name, f.size)
  fdValid : ∀ s h, A.fdValid h s = (files s h).isSome
  read_ok : ∀ {fd pos len buf s f}, files s fd = some f → pos + len ≤ f.size →
    (A.read fd pos len buf s).1 = espOk →
    (A.read fd pos len buf s).2 = NorFlash.read f.flash pos len ++ buf.drop len
  /-- Reading a handle without a file fails and leaves the buffer alone. -/
  read_invalid : ∀ {fd pos len buf s}, files s fd = none →
    (A.read fd pos len buf s).1 ≠ espOk ∧ (A.read fd pos len buf s).2 = buf

/-- The handle of a stored file, as a number that `%d` prints and `atoi` reads back. -/
lemma Appfs.Laws.handle_nat {σ : Type} {A : Appfs σ} {files : σ → Files} (hA : A.Laws files)
    {s : σ} {h : Handle} {f : AppfsFile} (hf : files s h = some f) :
    ∃ n : ℕ, h = (n : ℤ) ∧ n < 2 ^ 31 := by
  obtain ⟨hlo, hhi⟩ := hA.bounded hf
  obtain ⟨n, rfl⟩ := Int.eq_ofNat_of_zero_le hlo
  refine ⟨n, rfl, ?_⟩
  have hlt : (n : ℤ) < 2 ^ 31 - 0x100 := hhi
  omega

/-! ## Keeping a record of the calls -/

/-- One answered call, with the states before and after it. -/
structure AppfsEvent (σ : Type) where
  call : AppfsCall
  answer : AppfsAnswer
  before : σ
  after : σ

/-- What is recorded of a call made in the state `s`. -/
def callEvent {σ : Type} (exec : Exec σ) (call : AppfsCall) (s : σ) : AppfsEvent σ :=
  ⟨call, (exec call s).1, s, (exec call s).2⟩

/-- A device that remembers what it was asked. -/
def record {σ : Type} (exec : Exec σ) : Exec (σ × List (AppfsEvent σ)) :=
  fun call w => ((exec call w.1).1, (exec call w.1).2, w.2 ++ [callEvent exec call w.1])

@[simp] lemma record_answer {σ : Type} (exec : Exec σ) (call : AppfsCall)
    (w : σ × List (AppfsEvent σ)) : (record exec call w).1 = (exec call w.1).1 := rfl

@[simp] lemma record_state {σ : Type} (exec : Exec σ) (call : AppfsCall)
    (w : σ × List (AppfsEvent σ)) : (record exec call w).2.1 = (exec call w.1).2 := rfl

@[simp] lemma record_log {σ : Type} (exec : Exec σ) (call : AppfsCall)
    (w : σ × List (AppfsEvent σ)) :
    (record exec call w).2.2 = w.2 ++ [callEvent exec call w.1] := rfl

lemma record_eq {σ : Type} {exec : Exec σ} {call : AppfsCall} {s s' : σ} {a : AppfsAnswer}
    (h : exec call s = (a, s')) (log : List (AppfsEvent σ)) :
    record exec call (s, log) = (a, s', log ++ [⟨call, a, s, s'⟩]) := by
  simp [record, callEvent, h]

/-- The same device with a record of its calls. -/
def Appfs.recorded {σ : Type} (A : Appfs σ) : Appfs (σ × List (AppfsEvent σ)) where
  exec := record A.exec
  nextEntry h w := A.nextEntry h w.1
  entryInfo h w := A.entryInfo h w.1
  fdValid h w := A.fdValid h w.1
  read fd pos len buf w := A.read fd pos len buf w.1
  freeMem w := A.freeMem w.1

/-- Calls whose results come from an oracle: the `k`-th call is answered by `orc k`, and the world
is the list of calls made so far. -/
def oracleExec (orc : ℕ → AppfsAnswer) : Exec (List AppfsCall) :=
  fun call calls => (orc calls.length, calls ++ [call])

end Chooser
