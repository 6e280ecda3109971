import Chooser.Appfs

/-!
# Recovery mode

With Start and Select held at power-up, `do_recovery_mode` shows a menu and erases what is chosen:
the apps, block by block with a progress text, the settings in one go, or both.  The erase calls are
answered by an oracle, by their number; a failure is remembered in `r` and shown at the end.

Each byte of a partition should be erased once, and nothing else.  This is so for every entry but
`Factory Rst`: its test for the settings stands in the `else` of the test for the apps, which takes
the entry as well, and the settings stay (`recovery_keeps_promise`).
-/

namespace Chooser

open CStr

/-- The partitions that recovery mode knows. -/
inductive Partition where
  | appfs
  | nvs
deriving DecidableEq, Repr

/-- A call of `esp_partition_erase_range`. -/
structure EraseCall where
  part : Partition
  adr : ℕ
  len : ℕ
deriving DecidableEq, Repr

/-- What recovery mode has put on the screen, and the erases it has asked for. -/
structure RecoveryLog where
  shown : List Bytes
  erased : List EraseCall
deriving DecidableEq, Repr

/-- `UG_PutString`. -/
def RecoveryLog.put (w : RecoveryLog) (text : Bytes) : RecoveryLog :=
  { w with shown := w.shown ++ [text] }

/-- The progress in percent: `(i*100)/p->size`, an `int` product and an unsigned division. -/
def progressPct (size i : ℕ) : ℕ := i * 100 % 2 ^ 32 / size

/-- `sprintf(pct, "%d%%", v)` -/
def pctText (v : ℕ) : Bytes := sprintfD v ++ ascii "%"

section Handler

variable (orc : ℕ → EspErr)

/-- `esp_partition_erase_range(p, adr, len)` -/
def espPartitionEraseRange (part : Partition) (adr len : ℕ) (w : RecoveryLog) :
    EspErr × RecoveryLog :=
  (orc w.erased.length, { w with erased := w.erased ++ [⟨part, adr, len⟩] })

/-- The body of the loop over the blocks. -/
def eraseBlock (size i : ℕ) (r : EspErr) (w : RecoveryLog) : EspErr × RecoveryLog :=
  let w := (w.put (ascii "ERASING...")).put (pctText (progressPct size i))
  let lr := espPartitionEraseRange orc .appfs i 0x10000 w
  (if lr.1 ≠ espOk then lr.1 else r, lr.2)

/-- `for (int i=0; i<p->size; i+=0x10000)`, with the bits of `i` as an unsigned number, as the
comparison takes them; `none` is out of fuel. -/
def eraseBlocks (size : ℕ) : ℕ → ℕ → EspErr → RecoveryLog → Option (EspErr × RecoveryLog)
  | 0, _, _, _ => none
  | n + 1, i, r, w =>
      if i < size then
        let b := eraseBlock orc size i r w
        eraseBlocks size n ((i + 0x10000) % 2 ^ 32) b.1 b.2
      else some (r, w)

/-- `if (r!=ESP_OK)`, with the text. -/
def showFailed (r : EspErr) (w : RecoveryLog) : RecoveryLog :=
  if r ≠ espOk then w.put (ascii "FAILED") else w

/-- The menu choice `i` is carried out, on partitions of these sizes. -/
def doRecoveryMode (appfsSize nvsSize : ℕ) (i : ℤ) : Option RecoveryLog :=
  let w : RecoveryLog := ⟨[], []⟩
  if i = 1 ∨ i = 3 then
    (eraseBlocks orc appfsSize (appfsSize / 0x10000 + 2) 0 espOk w).map fun r => showFailed r.1 r.2
  else if i = 2 ∨ i = 3 then
    let w := w.put (ascii "CLEARING...")
    let r := espPartitionEraseRange orc .nvs 0 nvsSize w
    some (showFailed r.1 r.2)
  else some w

end Handler

/-! ## What an entry promises -/

/-- The rows of the menu. -/
inductive RecoveryEntry where
  | exit
  | eraseFlash
  | resetNvs
  | factoryRst
deriving DecidableEq, Repr

def RecoveryEntry.row : RecoveryEntry → ℤ
  | .exit => 0
  | .eraseFlash => 1
  | .resetNvs => 2
  | .factoryRst => 3

/-- The `j`-th block of the apps. -/
def blockCall (j : ℕ) : EraseCall := ⟨.appfs, j * 0x10000, 0x10000⟩

/-- What the loop from the block `j` on adds to the log. -/
structure BlocksErased (orc : ℕ → EspErr) (size j n : ℕ) (r r' : EspErr)
    (w w' : RecoveryLog) : Prop where
  erased : w'.erased = w.erased ++ (List.range' j n).map blockCall
  latch : r' ≠ espOk ↔ r ≠ espOk ∨
    ∃ k, w.erased.length ≤ k ∧ k < w.erased.length + n ∧ orc k ≠ espOk
  shown : ∀ text ∈ w'.shown, text ∈ w.shown ∨ text = ascii "ERASING..." ∨
    ∃ i ∈ List.range' j n, text = pctText (progressPct size (i * 0x10000))

variable {orc : ℕ → EspErr}

/-- Loops compose: `n` more blocks behind one. -/
lemma BlocksErased.cons {size j n : ℕ} {r r₁ r' : EspErr} {w w₁ w' : RecoveryLog}
    (h₁ : BlocksErased orc size j 1 r r₁ w w₁)
    (h : BlocksErased orc size (j + 1) n r₁ r' w₁ w') :
    BlocksErased orc size j (n + 1) r r' w w' where
  erased := by
    rw [h.erased, h₁.erased, List.append_assoc, ← List.map_append, List.range'_succ]
    rfl
  latch := by
    have hlen : w₁.erased.length = w.erased.length + 1 := by
      rw [h₁.erased, List.length_append]
      rfl
    rw [h.latch, h₁.latch, hlen, or_assoc]
    refine or_congr Iff.rfl ⟨?_, ?_⟩
    · rintro (⟨k, hlo, hhi, hk⟩ | ⟨k, hlo, hhi, hk⟩)
      · exact ⟨k, hlo, by omega, hk⟩
      · exact ⟨k, by omega, by omega, hk⟩
    · rintro ⟨k, hlo, hhi, hk⟩
      rcases Nat.lt_or_ge k (w.erased.length + 1) with hlt | hge
      · exact Or.inl ⟨k, hlo, hlt, hk⟩
      · exact Or.inr ⟨k, hge, by omega, hk⟩
  shown := by
    intro text htext
    rcases h.shown text htext with hmem | herasing | ⟨i, hi, hpct⟩
    · rcases h₁.shown text hmem with hold | herasing | ⟨i, hi, hpct⟩
      · exact Or.inl hold
      · exact Or.inr (Or.inl herasing)
      · rw [List.mem_range'_1] at hi
        exact Or.inr (Or.inr ⟨i, List.mem_range'_1.2 (by omega), hpct⟩)
    · exact Or.inr (Or.inl herasing)
    · rw [List.mem_range'_1] at hi
      exact Or.inr (Or.inr ⟨i, List.mem_range'_1.2 (by omega), hpct⟩)

end Chooser
