import Chooser.Delete

/-!
# The non-volatile storage

NVS keeps values by key, under namespaces.  The chooser's own settings are the namespace `8bkc`;
every other namespace belongs to the app of that name.  Like the file system it is not part of the
repository, so it enters as a parameter `NvsExec ν`, and `NvsLaws` says what is relied on, over a
view of its contents.
-/

namespace Chooser

open CStr

/-- The values of one namespace, by key. -/
abbrev NvsKeys := Bytes → Option Bytes

/-- The contents of the storage, by namespace. -/
abbrev NvsSpaces := Bytes → NvsKeys

/-- A namespace without keys. -/
def NvsKeys.empty : NvsKeys := fun _ => none

/-- The contents without the keys of one namespace. -/
def NvsSpaces.erased (N : NvsSpaces) (ns : Bytes) : NvsSpaces :=
  Function.update N ns NvsKeys.empty

@[simp] lemma erased_self (N : NvsSpaces) (ns : Bytes) : N.erased ns ns = NvsKeys.empty :=
  Function.update_self ..

lemma erased_of_ne {N : NvsSpaces} {ns ns' : Bytes} (h : ns' ≠ ns) : N.erased ns ns' = N ns' :=
  Function.update_of_ne h ..

/-- The namespace that `app_main`, `guiSplash`, `debug_screen` and `show_options` open. -/
def settingsNamespace : Bytes := ascii "8bkc"

/-- What `cgiDelete` relies on: opening a namespace and erasing all of it erases exactly its
keys. -/
structure NvsLaws {ν : Type} (nvs : NvsExec ν) (spaces : ν → NvsSpaces) : Prop where
  openRw : ∀ ns v, spaces (nvs (.openRw ns) v).2 = spaces v
  eraseAll : ∀ ns v, (nvs (.openRw ns) v).1 = espOk →
    spaces (nvs (.eraseAll ns) (nvs (.openRw ns) v).2).2 = (spaces v).erased ns
  commit : ∀ ns v, spaces (nvs (.commit ns) v).2 = spaces v
  close : ∀ ns v, spaces (nvs (.close ns) v).2 = spaces v

section Laws

variable {ν : Type} {nvs : NvsExec ν} {spaces : ν → NvsSpaces}

/-- Erasing the namespace of an app, if it can be opened. -/
lemma eraseNamespace_spaces (hN : NvsLaws nvs spaces) (name : Bytes) (v : ν) :
    spaces (eraseNamespace nvs name v)
      = if (nvs (.openRw name) v).1 = espOk then (spaces v).erased name else spaces v := by
  rw [eraseNamespace]
  split_ifs with hopen
  · rw [hN.close, hN.commit, hN.eraseAll name v hopen]
  · exact hN.openRw name v

/-- The record that is kept of the calls changes nothing. -/
lemma eraseNamespace_record (name : Bytes) (v : ν) (log : List NvsCall) :
    (eraseNamespace (nvsRecord nvs) name (v, log)).1 = eraseNamespace nvs name v := by
  have hopen : (nvsRecord nvs (.openRw name) (v, log)).1 = (nvs (.openRw name) v).1 := rfl
  rw [eraseNamespace, eraseNamespace, hopen]
  split_ifs
  · rfl
  · rfl

end Laws

/-! ## Bytes in a namespace -/

/-- The value of a key that holds one byte. -/
def nvsByte (keys : NvsKeys) (key : Bytes) : Option UInt8 :=
  match keys key with
  | some [b] => some b
  | _ => none

/-- `nvs_get_u8(handle, key, &n)` on an `int`: where the key is there, the low byte is written. -/
def nvsGetU8 (keys : NvsKeys) (key : Bytes) (n : ℤ) : ℤ :=
  match nvsByte keys key with
  | some b => n / 256 * 256 + b.toNat
  | none => n

/-- `nvs_set_u8(handle, key, n)` -/
def nvsSetU8 (keys : NvsKeys) (key : Bytes) (n : ℤ) : NvsKeys :=
  Function.update keys key (some [UInt8.ofInt n])

lemma nvsByte_set_self (keys : NvsKeys) (key : Bytes) (n : ℤ) :
    nvsByte (nvsSetU8 keys key n) key = some (UInt8.ofInt n) := by
  rw [nvsByte, nvsSetU8, Function.update_self]

lemma nvsByte_set_of_ne (keys : NvsKeys) {key key' : Bytes} (n : ℤ) (h : key' ≠ key) :
    nvsByte (nvsSetU8 keys key n) key' = nvsByte keys key' := by
  rw [nvsByte, nvsSetU8, Function.update_of_ne h, nvsByte]

/-- An `int` that is a byte goes through `uint8_t` unchanged. -/
lemma toNat_ofInt_byte {n : ℤ} (h : 0 ≤ n ∧ n ≤ 255) : ((UInt8.ofInt n).toNat : ℤ) = n := by
  simp only [UInt8.ofInt, UInt8.toNat_ofNat']
  omega

/-- What is read into an `int` that is a byte is a byte. -/
lemma nvsGetU8_byte (keys : NvsKeys) (key : Bytes) {n : ℤ} (h : 0 ≤ n ∧ n ≤ 255) :
    0 ≤ nvsGetU8 keys key n ∧ nvsGetU8 keys key n ≤ 255 := by
  unfold nvsGetU8
  split
  · rename_i b _
    have hb := b.toNat_lt
    omega
  · exact h

/-! ## A storage that keeps the laws -/

/-- The contents themselves, with names of up to 15 bytes. -/
def ramNvs : NvsExec NvsSpaces
  | .openRw ns, N => (if ns.length ≤ 15 then espOk else -1, N)
  | .eraseAll ns, N => (espOk, N.erased ns)
  | .commit _, N => (espOk, N)
  | .close _, N => (espOk, N)

lemma ramNvs_laws : NvsLaws ramNvs id where
  openRw _ _ := rfl
  eraseAll _ _ _ := rfl
  commit _ _ := rfl
  close _ _ := rfl

end Chooser
