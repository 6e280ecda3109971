import Mathlib

/-!
# Logs that fill a flash from front to back

A flash is erased in blocks of `B` bytes and written in between.  A log of such operations is in
order if every byte is written at most once, only in a block that was erased before, and no block is
erased again once something stands in it (`WriteOnce`).

A writer that appends needs two numbers for this: how far it has written and how far it has erased.
`Frontier` is the logs that such a writer can leave, and `Frontier.writeOnce` says that they are in
order.
-/

namespace FlashLog

/-- An operation, with the start and the length of its range. -/
inductive Op where
  | erase (adr len : ℕ)
  | write (adr len : ℕ)
deriving DecidableEq, Repr

/-- The number of bytes an operation writes. -/
def Op.written : Op → ℕ
  | .erase _ _ => 0
  | .write _ n => n

/-- The number of bytes written by a log. -/
def written (ops : List Op) : ℕ := (ops.map Op.written).sum

lemma written_append (ops ops' : List Op) : written (ops ++ ops') = written ops + written ops' := by
  simp [written]

/-- A log that is in order, for blocks of `B` bytes. -/
structure WriteOnce (B : ℕ) (ops : List Op) : Prop where
  /-- Each write starts where the one before it ended. -/
  consecutive : ∀ pre post adr n, ops = pre ++ .write adr n :: post → adr = written pre
  /-- What is written later lies behind. -/
  once : ∀ pre post adr n, ops = pre ++ .write adr n :: post →
    ∀ adr' n', .write adr' n' ∈ post → adr + n ≤ adr'
  /-- The block of each byte is erased before the byte is written. -/
  erasedBefore : ∀ pre post adr n, ops = pre ++ .write adr n :: post →
    ∀ i, adr ≤ i → i < adr + n → .erase (i / B * B) B ∈ pre
  /-- And never after that. -/
  keptAfter : ∀ pre post adr n, ops = pre ++ .write adr n :: post →
    ∀ i, adr ≤ i → i < adr + n → ∀ adr' n', .erase adr' n' ∈ post → ¬ (adr' ≤ i ∧ i < adr' + n')
  /-- Whole blocks are erased. -/
  aligned : ∀ adr n, .erase adr n ∈ ops → B ∣ adr ∧ n = B

/-- The logs of a writer that has written everything before `e` and erased everything before `b`. -/
inductive Frontier (B : ℕ) : ℕ → ℕ → List Op → Prop
  | nil : Frontier B 0 0 []
  | erase {e : ℕ} {ops : List Op} (h : Frontier B e e ops) (hB : B ∣ e) :
      Frontier B e (e + B) (ops ++ [.erase e B])
  | write {e b n : ℕ} {ops : List Op} (h : Frontier B e b ops) (hn : e + n ≤ b) :
      Frontier B (e + n) b (ops ++ [.write e n])

/-- The last operation of a log is the one in question, or comes after it. -/
lemma append_eq_split {ops pre post : List Op} {x y : Op} (h : ops ++ [x] = pre ++ y :: post) :
    post = [] ∧ ops = pre ∧ x = y ∨ ∃ post', post = post' ++ [x] ∧ ops = pre ++ y :: post' := by
  rcases post.eq_nil_or_concat with rfl | ⟨post', z, rfl⟩
  · exact Or.inl ⟨rfl, List.append_inj' h rfl |>.1, by simpa using (List.append_inj' h rfl).2⟩
  · rw [List.concat_eq_append] at h ⊢
    rw [← List.cons_append, ← List.append_assoc] at h
    obtain ⟨hops, hx⟩ := List.append_inj' h rfl
    exact Or.inr ⟨post', by rw [hx], hops⟩

namespace Frontier

variable {B e b : ℕ} {ops : List Op}

lemma written_eq (h : Frontier B e b ops) : written ops = e := by
  induction h with
  | nil => rfl
  | erase h hB ih => rw [written_append, ih]; rfl
  | write h hn ih => rw [written_append, ih]; rfl

lemma le (h : Frontier B e b ops) : e ≤ b := by
  induction h with
  | nil => exact le_rfl
  | erase h hB ih => exact Nat.le_add_right _ _
  | write h hn ih => exact hn

lemma of_write_mem (h : Frontier B e b ops) {adr n : ℕ} (hmem : .write adr n ∈ ops) :
    adr + n ≤ e := by
  induction h with
  | nil => simp at hmem
  | erase h hB ih => exact ih (by simpa using hmem)
  | write h hn ih =>
      rcases List.mem_append.mp hmem with hmem | hmem
      · exact (ih hmem).trans (Nat.le_add_right _ _)
      · obtain ⟨rfl, rfl⟩ := Op.write.inj (List.mem_singleton.mp hmem)
        exact le_rfl

lemma of_erase_mem (h : Frontier B e b ops) {adr n : ℕ} (hmem : .erase adr n ∈ ops) :
    B ∣ adr ∧ n = B ∧ adr + n ≤ b := by
  induction h with
  | nil => simp at hmem
  | erase h hB ih =>
      rcases List.mem_append.mp hmem with hmem | hmem
      · obtain ⟨hadr, hn, hle⟩ := ih hmem
        exact ⟨hadr, hn, hle.trans (Nat.le_add_right _ _)⟩
      · obtain ⟨rfl, rfl⟩ := Op.erase.inj (List.mem_singleton.mp hmem)
        exact ⟨hB, rfl, le_rfl⟩
  | write h hn ih => exact ih (by simpa using hmem)

/-- Every byte before the second frontier lies in a block that has been erased. -/
lemma erased (h : Frontier B e b ops) {i : ℕ} (hi : i < b) :
    .erase (i / B * B) B ∈ ops := by
  induction h with
  | nil => exact absurd hi (Nat.not_lt_zero i)
  | erase h hB ih =>
      rename_i e ops
      rcases Nat.lt_or_ge i e with hlt | hge
      · exact List.mem_append_left _ (ih hlt)
      · -- the byte lies in the block that is being erased
        obtain ⟨k, rfl⟩ := hB
        have hdiv : i / B = k := by
          refine Nat.div_eq_of_lt_le ?_ ?_
          · rwa [Nat.mul_comm]
          · rwa [Nat.mul_comm, Nat.mul_add, Nat.mul_one]
        rw [hdiv, Nat.mul_comm]
        exact List.mem_append_right _ (List.mem_singleton_self _)
  | write h hn ih => exact List.mem_append_left _ (ih hi)

/-- **A writer that appends is in order.** -/
theorem writeOnce (h : Frontier B e b ops) : WriteOnce B ops := by
  induction h with
  | nil => constructor <;> simp
  | erase h hB ih =>
      rename_i e ops
      refine ⟨?_, ?_, ?_, ?_, ?_⟩
      · intro pre post adr n heq
        rcases append_eq_split heq with ⟨_, _, hx⟩ | ⟨post', rfl, hops⟩
        · simp at hx
        · exact ih.consecutive pre post' adr n hops
      · intro pre post adr n heq adr' n' hmem
        rcases append_eq_split heq with ⟨_, _, hx⟩ | ⟨post', rfl, hops⟩
        · simp at hx
        · exact ih.once pre post' adr n hops adr' n' (by simpa using hmem)
      · intro pre post adr n heq
        rcases append_eq_split heq with ⟨_, _, hx⟩ | ⟨post', rfl, hops⟩
        · simp at hx
        · exact ih.erasedBefore pre post' adr n hops
      · intro pre post adr n heq i hlo hhi adr' n' hmem
        rcases append_eq_split heq with ⟨_, _, hx⟩ | ⟨post', rfl, hops⟩
        · simp at hx
        · rcases List.mem_append.mp hmem with hmem | hmem
          · exact ih.keptAfter pre post' adr n hops i hlo hhi adr' n' hmem
          · -- the new block starts behind everything that has been written
            obtain ⟨rfl, rfl⟩ := Op.erase.inj (List.mem_singleton.mp hmem)
            have hmem : .write adr n ∈ ops := by rw [hops]; simp
            have hle := h.of_write_mem hmem
            omega
      · intro adr n hmem
        obtain ⟨hadr, hn, _⟩ := (h.erase hB).of_erase_mem hmem
        exact ⟨hadr, hn⟩
  | write h hn ih =>
      rename_i e b m ops
      refine ⟨?_, ?_, ?_, ?_, ?_⟩
      · intro pre post adr n heq
        rcases append_eq_split heq with ⟨rfl, rfl, hx⟩ | ⟨post', rfl, hops⟩
        · rw [h.written_eq, (Op.write.inj hx).1]
        · exact ih.consecutive pre post' adr n hops
      · intro pre post adr n heq adr' n' hmem
        rcases append_eq_split heq with ⟨rfl, _, _⟩ | ⟨post', rfl, hops⟩
        · simp at hmem
        · rcases List.mem_append.mp hmem with hmem | hmem
          · exact ih.once pre post' adr n hops adr' n' hmem
          · obtain ⟨rfl, rfl⟩ := Op.write.inj (List.mem_singleton.mp hmem)
            exact h.of_write_mem (by rw [hops]; simp)
      · intro pre post adr n heq i hlo hhi
        rcases append_eq_split heq with ⟨rfl, rfl, hx⟩ | ⟨post', rfl, hops⟩
        · obtain ⟨rfl, rfl⟩ := Op.write.inj hx
          exact h.erased (lt_of_lt_of_le hhi hn)
        · exact ih.erasedBefore pre post' adr n hops i hlo hhi
      · intro pre post adr n heq i hlo hhi adr' n' hmem
        rcases append_eq_split heq with ⟨rfl, _, _⟩ | ⟨post', rfl, hops⟩
        · simp at hmem
        · exact ih.keptAfter pre post' adr n hops i hlo hhi adr' n' (by simpa using hmem)
      · intro adr n hmem
        exact ih.aligned adr n (by simpa using hmem)

end Frontier

end FlashLog
