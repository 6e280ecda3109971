import Mathlib

/-!
# NOR flash

A flash is a memory whose cells can be cleared bit by bit but only set all at once: programming
stores the AND of the old and the new byte, erasing a range makes every byte of it `0xFF`.  The
point of the file is `read_program`: programming a range that is still erased stores the data.
-/

namespace NorFlash

/-- The bytes of a flash, by address. -/
abbrev Cells := ℕ → UInt8

/-- The `len` bytes from `adr` on. -/
def read (m : Cells) (adr len : ℕ) : List UInt8 := (List.range len).map fun i => m (adr + i)

/-- Every byte of the range becomes `0xFF`. -/
def erase (m : Cells) (adr len : ℕ) : Cells :=
  fun i => if adr ≤ i ∧ i < adr + len then 0xFF else m i

/-- Bits can only be cleared. -/
def program (m : Cells) (adr : ℕ) (data : List UInt8) : Cells :=
  fun i => if adr ≤ i then m i &&& data.getD (i - adr) 0xFF else m i

/-- The range holds no data. -/
def Erased (m : Cells) (adr len : ℕ) : Prop := ∀ i, adr ≤ i → i < adr + len → m i = 0xFF

@[simp] lemma length_read (m : Cells) (adr len : ℕ) : (read m adr len).length = len := by
  simp [read]

@[simp] lemma read_zero (m : Cells) (adr : ℕ) : read m adr 0 = [] := by
  simp [read]

/-- Reading two adjacent ranges. -/
lemma read_add (m : Cells) (adr a b : ℕ) :
    read m adr (a + b) = read m adr a ++ read m (adr + a) b := by
  simp [read, List.range_add, Function.comp_def, Nat.add_assoc]

lemma read_congr {m m' : Cells} {adr len : ℕ}
    (h : ∀ i, adr ≤ i → i < adr + len → m i = m' i) : read m adr len = read m' adr len := by
  refine List.map_congr_left fun i hi => h _ (by omega) ?_
  have := List.mem_range.mp hi
  omega

/-- Reading part of what was read. -/
lemma take_drop_read (m : Cells) {adr len pos n : ℕ} (h : pos + n ≤ len) :
    ((read m adr len).drop pos).take n = read m (adr + pos) n := by
  have hsplit : len = pos + (n + (len - pos - n)) := by omega
  rw [hsplit, read_add, read_add, List.drop_left' (length_read m adr pos),
    List.take_left' (length_read m (adr + pos) n)]

lemma erased_erase (m : Cells) (adr len : ℕ) : Erased (erase m adr len) adr len := by
  intro i hlo hhi
  simp [erase, hlo, hhi]

lemma Erased.mono {m : Cells} {adr len adr' len' : ℕ} (h : Erased m adr len)
    (hlo : adr ≤ adr') (hhi : adr' + len' ≤ adr + len) : Erased m adr' len' :=
  fun i h1 h2 => h i (by omega) (by omega)

/-- Erasing leaves what stands before the range. -/
lemma read_erase_before (m : Cells) {adr len n : ℕ} (h : n ≤ adr) :
    read (erase m adr len) 0 n = read m 0 n := by
  refine read_congr fun i _ hi => ?_
  have hlt : ¬ adr ≤ i := by omega
  simp [erase, hlt]

/-- Programming leaves what stands before the range. -/
lemma read_program_before (m : Cells) (data : List UInt8) {adr n : ℕ} (h : n ≤ adr) :
    read (program m adr data) 0 n = read m 0 n := by
  refine read_congr fun i _ hi => ?_
  have hlt : ¬ adr ≤ i := by omega
  simp [program, hlt]

/-- Programming leaves what stands behind the range. -/
lemma Erased.program {m : Cells} {adr' len' : ℕ} (h : Erased m adr' len') (data : List UInt8)
    {adr : ℕ} (hadr : adr + data.length ≤ adr') : Erased (program m adr data) adr' len' := by
  intro i hlo hhi
  have hout : data[i - adr]? = none := List.getElem?_eq_none (by omega)
  have hle : adr ≤ i := by omega
  simp [NorFlash.program, hle, hout, h i hlo hhi]

/-- **Programming an erased range stores the data.** -/
theorem read_program {m : Cells} {adr : ℕ} {data : List UInt8} (h : Erased m adr data.length) :
    read (program m adr data) adr data.length = data := by
  refine List.ext_getElem (by simp) fun i hi hi' => ?_
  have hcell : m (adr + i) = 0xFF := h _ (by omega) (by omega)
  have hand : ∀ b : UInt8, (0xFF : UInt8) &&& b = b := fun b => UInt8.neg_one_and
  simp [read, program, hcell, hi', hand]

/-- Without the erase the bytes that are already cleared stay cleared. -/
example : read (program (fun _ => 0x0F) 0 [0xFF, 0x33]) 0 2 = [0x0F, 0x03] := by decide

end NorFlash
