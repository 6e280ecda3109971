import Chooser.Appfs

/-!
# A file system that keeps the laws

The smallest device that does what `Appfs.Laws` asks for: eight sectors of 64 KiB, a file a
sector.  A new file takes the first free sector and finds old data in it.  It shows that the laws
can be met, and the runs on fixed inputs are made on it.
-/

namespace Chooser

open CStr

/-- The files, with unique names and in existing sectors. -/
structure RamAppfs where
  files : Files
  unique : ∀ {h h' f f'}, files h = some f → files h' = some f' → f.name = f'.name → h = h'
  bounded : ∀ {h f}, files h = some f → 0 ≤ h ∧ h < 8

namespace RamAppfs

/-- The handles of the sectors. -/
def sectors : List Handle := [0, 1, 2, 3, 4, 5, 6, 7]

lemma mem_sectors {h : ℤ} (h0 : 0 ≤ h) (h8 : h < 8) : h ∈ sectors := by
  simp only [sectors, List.mem_cons, List.not_mem_nil, or_false]
  omega

lemma bounded_of_mem {h : ℤ} (hmem : h ∈ sectors) : 0 ≤ h ∧ h < 8 := by
  simp only [sectors, List.mem_cons, List.not_mem_nil, or_false] at hmem
  omega

/-- Which handles are free can be computed. -/
lemma none_of_sectors {s : RamAppfs} {p : Handle → Prop}
    (h : ∀ k ∈ sectors, p k → (s.files k).isNone = true) : ∀ k, p k → s.files k = none := by
  intro k hk
  by_contra hne
  obtain ⟨f, hf⟩ := Option.ne_none_iff_exists'.mp hne
  have hnone := h k (mem_sectors (s.bounded hf).1 (s.bounded hf).2) hk
  rw [hf] at hnone
  simp at hnone

/-- No file. -/
def empty : RamAppfs where
  files _ := none
  unique h := by simp at h
  bounded h := by simp at h

/-- What a sector held before. -/
def oldData : NorFlash.Cells := fun _ => 0x5A

def without (s : RamAppfs) (n : Bytes) : RamAppfs where
  files := s.files.without n
  unique h h' := s.unique (Files.without_eq_some.mp h).1 (Files.without_eq_some.mp h').1
  bounded h := s.bounded (Files.without_eq_some.mp h).1

/-- Puts a file whose name no other file has. -/
def put (s : RamAppfs) (h : Handle) (f : AppfsFile) (h0 : 0 ≤ h ∧ h < 8)
    (hnew : ∀ h' g, s.files h' = some g → g.name = f.name → h' = h) : RamAppfs where
  files := Function.update s.files h (some f)
  unique := by
    intro k k' g g' hk hk' hname
    by_cases hkh : k = h <;> by_cases hkh' : k' = h
    · rw [hkh, hkh']
    · rw [hkh, Function.update_self] at hk
      rw [Function.update_of_ne hkh'] at hk'
      exact absurd (hnew k' g' hk' (by rw [← hname, Option.some.inj hk])) hkh'
    · rw [Function.update_of_ne hkh] at hk
      rw [hkh', Function.update_self] at hk'
      exact absurd (hnew k g hk (by rw [hname, Option.some.inj hk'])) hkh
    · rw [Function.update_of_ne hkh] at hk
      rw [Function.update_of_ne hkh'] at hk'
      exact s.unique hk hk' hname
  bounded := by
    intro k g hk
    by_cases hkh : k = h
    · rw [hkh]
      exact h0
    · rw [Function.update_of_ne hkh] at hk
      exact s.bounded hk

lemma without_new (s : RamAppfs) (n : Bytes) (h : Handle) :
    ∀ h' g, (s.without n).files h' = some g → g.name = n → h' = h :=
  fun _ _ hg hname => absurd hname (Files.without_eq_some.mp hg).2

/-- The handle of the file of a name. -/
def lookup (s : RamAppfs) (n : Bytes) : Option Handle :=
  sectors.find? fun h => (s.files h).any fun f => f.name = n

lemma of_lookup {s : RamAppfs} {n : Bytes} {h : Handle} (hl : s.lookup n = some h) :
    ∃ f, s.files h = some f ∧ f.name = n := by
  have hany := List.find?_some hl
  obtain ⟨f, hf, hname⟩ := (Option.any_eq_true _ _).mp hany
  exact ⟨f, hf, by simpa using hname⟩

lemma lookup_of_file {s : RamAppfs} {h : Handle} {f : AppfsFile} (hf : s.files h = some f) :
    (s.lookup f.name).isSome = true := by
  rw [lookup, List.find?_isSome]
  refine ⟨h, mem_sectors (s.bounded hf).1 (s.bounded hf).2, ?_⟩
  rw [hf]
  simp

/-- The flash of a file is replaced. -/
def reflash (s : RamAppfs) (h : Handle) (f : AppfsFile) (hf : s.files h = some f)
    (flash : NorFlash.Cells) : RamAppfs :=
  s.put h { f with flash := flash } (s.bounded hf) fun _ _ hg hname => s.unique hg hf hname

def failed : AppfsAnswer := ⟨-1, appfsInvalidFd⟩

def succeeded : AppfsAnswer := ⟨espOk, appfsInvalidFd⟩

/-- The first free sector, once the files named `n` are gone. -/
def freeSector (s : RamAppfs) (n : Bytes) : Option Handle :=
  sectors.find? fun h => ((s.without n).files h).isNone

def exec : Exec RamAppfs
  | .createFile n size, s =>
      match hfree : s.freeSector n with
      | none => (failed, s)
      | some h =>
          if size ≤ 65536 then
            (⟨espOk, h⟩, (s.without n).put h ⟨n, size, oldData⟩
              (bounded_of_mem (List.mem_of_find?_eq_some hfree)) (s.without_new n h))
          else (failed, s)
  | .erase fd adr len, s =>
      match hf : s.files fd with
      | none => (failed, s)
      | some f => (succeeded, s.reflash fd f hf (NorFlash.erase f.flash adr len))
  | .write fd adr data, s =>
      match hf : s.files fd with
      | none => (failed, s)
      | some f => (succeeded, s.reflash fd f hf (NorFlash.program f.flash adr data))
  | .rename old new, s =>
      match s.lookup old with
      | none => (failed, s)
      | some h =>
          match hf : s.files h with
          | none => (failed, s)
          | some f => (succeeded, (s.without new).put h { f with name := new } (s.bounded hf)
              (s.without_new new h))
  | .deleteFile n, s => if (s.lookup n).isSome then (succeeded, s.without n) else (failed, s)

/-- The device. -/
def device : Appfs RamAppfs where
  exec := exec
  nextEntry h s := (sectors.find? fun k => decide (h < k) && (s.files k).isSome).getD appfsInvalidFd
  entryInfo h s := (s.files h).elim ([], 0) fun f => (f.name, f.size)
  fdValid h s := (s.files h).isSome
  read h pos len buf s :=
    (s.files h).elim (-1, buf) fun f =>
      if pos + len ≤ f.size then (espOk, NorFlash.read f.flash pos len ++ buf.drop len)
      else (-1, buf)
  freeMem s := 65536 * (sectors.filter fun h => (s.files h).isNone).length

lemma failed_ne : failed.err ≠ espOk := by decide

/-- `sectors` is in ascending order, so the first match is the least. -/
lemma find?_sectors_least {p : Handle → Bool} {k : Handle} (hk : sectors.find? p = some k) :
    ∀ h ∈ sectors, h < k → p h = false := by
  have hsorted : sectors.Pairwise (· < ·) := by decide
  generalize sectors = l at hk hsorted
  induction l with
  | nil => simp at hk
  | cons a l ih =>
      intro h hmem hlt
      rw [List.pairwise_cons] at hsorted
      by_cases hpa : p a = true
      · rw [List.find?_cons_of_pos hpa] at hk
        obtain rfl := Option.some.inj hk
        rcases List.mem_cons.mp hmem with rfl | hmem
        · exact absurd hlt (lt_irrefl _)
        · exact absurd (hlt.trans (hsorted.1 h hmem)) (lt_irrefl _)
      · rw [List.find?_cons_of_neg hpa] at hk
        rcases List.mem_cons.mp hmem with rfl | hmem
        · simpa using hpa
        · exact ih hk hsorted.2 h hmem hlt

lemma next_law (h : Handle) (s : RamAppfs) :
    (device.nextEntry h s = appfsInvalidFd ∧ ∀ h', h < h' → s.files h' = none) ∨
    (h < device.nextEntry h s ∧ (s.files (device.nextEntry h s)).isSome ∧
      ∀ h', h < h' → h' < device.nextEntry h s → s.files h' = none) := by
  cases hfind : sectors.find? fun k => decide (h < k) && (s.files k).isSome with
  | none =>
      refine Or.inl ⟨by simp [device, hfind], fun h' hlt => ?_⟩
      by_contra hne
      obtain ⟨f, hf⟩ := Option.ne_none_iff_exists'.mp hne
      have hmem : h' ∈ sectors := mem_sectors (s.bounded hf).1 (s.bounded hf).2
      have hno := List.find?_eq_none.mp hfind h' hmem
      simp [hlt, hf] at hno
  | some k =>
      have hk : device.nextEntry h s = k := by simp [device, hfind]
      have hp := List.find?_some hfind
      simp only [Bool.and_eq_true, decide_eq_true_eq] at hp
      rw [hk]
      refine Or.inr ⟨hp.1, hp.2, fun h' hlt hlt' => ?_⟩
      by_contra hne
      obtain ⟨f, hf⟩ := Option.ne_none_iff_exists'.mp hne
      have hmem : h' ∈ sectors := mem_sectors (s.bounded hf).1 (s.bounded hf).2
      have hno := find?_sectors_least hfind h' hmem hlt'
      simp [hlt, hf] at hno

/-- A flash command either finds no file, or replaces the flash of the one it finds. -/
lemma erase_cases (fd : Handle) (adr len : ℕ) (s : RamAppfs) :
    (s.files fd = none ∧ exec (.erase fd adr len) s = (failed, s)) ∨
    ∃ f, ∃ hf : s.files fd = some f,
      exec (.erase fd adr len) s
        = (succeeded, s.reflash fd f hf (NorFlash.erase f.flash adr len)) := by
  simp only [exec]
  split
  · rename_i hnone
    exact Or.inl ⟨hnone, rfl⟩
  · rename_i f hf
    exact Or.inr ⟨f, hf, rfl⟩

lemma write_cases (fd : Handle) (adr : ℕ) (data : Bytes) (s : RamAppfs) :
    (s.files fd = none ∧ exec (.write fd adr data) s = (failed, s)) ∨
    ∃ f, ∃ hf : s.files fd = some f,
      exec (.write fd adr data) s
        = (succeeded, s.reflash fd f hf (NorFlash.program f.flash adr data)) := by
  simp only [exec]
  split
  · rename_i hnone
    exact Or.inl ⟨hnone, rfl⟩
  · rename_i f hf
    exact Or.inr ⟨f, hf, rfl⟩

section Reflash

variable {s : RamAppfs} {fd : Handle} {out : AppfsAnswer × RamAppfs}
  {flash : AppfsFile → NorFlash.Cells}

/-- What a flash command does to a file that is there. -/
lemma files_of_reflash {f : AppfsFile} (hf : s.files fd = some f)
    (hcases : (s.files fd = none ∧ out = (failed, s)) ∨
      ∃ f, ∃ hf : s.files fd = some f, out = (succeeded, s.reflash fd f hf (flash f))) :
    out.2.files = Function.update s.files fd (some { f with flash := flash f }) := by
  rcases hcases with ⟨hnone, _⟩ | ⟨g, hg, hout⟩
  · rw [hf] at hnone
    simp at hnone
  · obtain rfl := Option.some.inj (hf.symm.trans hg)
    rw [hout]
    rfl

/-- Whatever it finds, a flash command leaves everything but the flash of `fd` alone. -/
lemma frame_of_reflash
    (hcases : (s.files fd = none ∧ out = (failed, s)) ∨
      ∃ f, ∃ hf : s.files fd = some f, out = (succeeded, s.reflash fd f hf (flash f))) :
    ∃ cells, out.2.files
      = Function.update s.files fd ((s.files fd).map fun f => { f with flash := cells }) := by
  rcases hcases with ⟨hnone, hout⟩ | ⟨f, hf, hout⟩
  · exact ⟨oldData, by rw [hout, hnone, Option.map_none, ← hnone, Function.update_eq_self]⟩
  · exact ⟨flash f, by rw [hf, Option.map_some, hout]; rfl⟩

end Reflash

/-- A create that succeeds took a sector that no file of another name owns. -/
lemma create_succeeds {n : Bytes} {size : ℕ} {s : RamAppfs}
    (hok : (exec (.createFile n size) s).1.err = espOk) :
    (∀ f, s.files (exec (.createFile n size) s).1.fd = some f → f.name = n) ∧
    (exec (.createFile n size) s).2.files
      = Function.update (s.files.without n) (exec (.createFile n size) s).1.fd
          (some ⟨n, size, oldData⟩) := by
  simp only [exec] at hok ⊢
  split at hok
  · exact absurd hok failed_ne
  · rename_i h hfree
    split_ifs at hok with hsize
    · rw [if_pos hsize]
      refine ⟨fun f hf => ?_, rfl⟩
      have hnone : s.files.without n h = none := by
        simpa [without] using List.find?_some hfree
      by_contra hname
      have hkept := Files.without_of_ne hf hname
      rw [hnone] at hkept
      simp at hkept
    · exact absurd hok failed_ne

/-- A create that fails changed nothing. -/
lemma create_fails {n : Bytes} {size : ℕ} {s : RamAppfs} :
    (exec (.createFile n size) s).1.err ≠ espOk → (exec (.createFile n size) s).2 = s := by
  simp only [exec]
  split
  · exact fun _ => rfl
  · split_ifs with hsize
    · exact fun hbad => absurd rfl hbad
    · exact fun _ => rfl

/-- A rename that succeeds found a file of the old name. -/
lemma rename_succeeds {old new : Bytes} {s : RamAppfs}
    (hok : (exec (.rename old new) s).1.err = espOk) :
    ∃ h f, s.files h = some f ∧ f.name = old ∧
      (exec (.rename old new) s).2.files
        = Function.update (s.files.without new) h (some { f with name := new }) := by
  simp only [exec] at hok ⊢
  split at hok
  · exact absurd hok failed_ne
  · rename_i h hl
    obtain ⟨f, hf, hname⟩ := of_lookup hl
    refine ⟨h, f, hf, hname, ?_⟩
    split
    · rename_i hnone
      rw [hf] at hnone
      simp at hnone
    · rename_i g hg
      obtain rfl := Option.some.inj (hf.symm.trans hg)
      rfl

/-- **The laws can be met.** -/
theorem device_laws : device.Laws RamAppfs.files where
  bounded := by
    intro s h f hf
    obtain ⟨h0, h8⟩ := s.bounded hf
    exact ⟨h0, h8.trans (by decide)⟩
  unique {s} _ _ _ _ := s.unique
  create_ok := by
    intro n size s hok
    obtain ⟨hname, hfiles⟩ := create_succeeds hok
    exact ⟨hname, oldData, hfiles⟩
  create_fail := by
    intro n size s hbad
    exact Or.inl (congrArg files (create_fails hbad))
  erase_ok := by
    intro fd adr len s f _ hf _
    exact files_of_reflash hf (erase_cases fd adr len s)
  erase_frame fd adr len s := frame_of_reflash (erase_cases fd adr len s)
  write_ok := by
    intro fd adr data s f _ hf _
    exact files_of_reflash hf (write_cases fd adr data s)
  write_frame fd adr data s := frame_of_reflash (write_cases fd adr data s)
  rename_ok := rename_succeeds
  rename_fail := by
    intro old new s
    simp only [device, exec]
    split
    · exact fun _ => rfl
    · split
      · exact fun _ => rfl
      · exact fun hbad => absurd rfl hbad
  delete_ok := by
    intro n s
    simp only [device, exec]
    split_ifs with hl
    · exact fun _ => rfl
    · exact fun hok => absurd hok failed_ne
  delete_fail := by
    intro n s
    simp only [device, exec]
    split_ifs with hl
    · exact fun hbad => absurd rfl hbad
    · exact fun _ => rfl
  next := by
    intro h s _
    exact next_law h s
  entryInfo := by
    intro s h f hf
    simp [device, hf]
  fdValid _ _ := rfl
  read_ok := by
    intro fd pos len buf s f hf hle _
    simp [device, hf, hle]
  read_invalid := by
    intro fd pos len buf s hf
    simp [device, hf, espOk]

lemma exec_eq {s : RamAppfs} {call : AppfsCall} {a : AppfsAnswer} (h : (exec call s).1 = a) :
    device.exec call s = (a, (exec call s).2) := Prod.ext h rfl

/-- Deleting a file that exists succeeds. -/
lemma delete_of_file {s : RamAppfs} {h : Handle} {f : AppfsFile} (hf : s.files h = some f) :
    (device.exec (.deleteFile f.name) s).1.err = espOk := by
  show (exec (.deleteFile f.name) s).1.err = espOk
  rw [exec, if_pos (lookup_of_file hf)]
  rfl

/-- Reading inside a file succeeds. -/
lemma read_succeeds {s : RamAppfs} {fd : Handle} {f : AppfsFile} {pos len : ℕ} {buf : Bytes}
    (hf : s.files fd = some f) (hle : pos + len ≤ f.size) :
    (device.read fd pos len buf s).1 = espOk := by
  simp [device, hf, hle]

end RamAppfs

/-- The name `a`, for every key. -/
def argsA : Args := fun _ => some (ascii "a")

end Chooser
