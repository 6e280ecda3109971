import Mathlib

/-!
# Ring buffers that are only written

A log of the last `N` items: the writer stores at the write pointer, goes on, and at the end of the
buffer begins again at its start, noting that it has been there once.  Which items are in the buffer
then, and where, depends on their number only (`Holds`); reading from the oldest one around the ring
gives the last items in the order in which they were written (`linear_fill`).
-/

namespace Ring

variable {α : Type*}

/-- The cells, the place of the next item, and whether the buffer has been full. -/
structure State (α : Type*) where
  buffer : ℕ → α
  writeptr : ℕ
  hasWrapped : Bool

/-- An empty ring, whatever its cells hold. -/
def State.empty (buffer : ℕ → α) : State α := ⟨buffer, 0, false⟩

/-- One item is written, to a ring of `N` cells. -/
def State.write (N : ℕ) (r : State α) (x : α) : State α :=
  if r.writeptr + 1 = N then ⟨Function.update r.buffer r.writeptr x, 0, true⟩
  else ⟨Function.update r.buffer r.writeptr x, r.writeptr + 1, r.hasWrapped⟩

/-- A sequence of items is written to an empty ring. -/
def State.fill (N : ℕ) (buffer : ℕ → α) (hist : List α) : State α :=
  hist.foldl (State.write N) (.empty buffer)

/-- The number of cells that hold items. -/
def State.size (N : ℕ) (r : State α) : ℕ := if r.hasWrapped then N else r.writeptr

/-- The cell of the oldest item. -/
def State.first (r : State α) : ℕ := if r.hasWrapped then r.writeptr else 0

/-- `n` cells from `ptr` on, around the ring. -/
def State.around (N : ℕ) (r : State α) (ptr n : ℕ) : List α :=
  (List.range n).map fun i => r.buffer ((ptr + i) % N)

lemma around_add (N : ℕ) (r : State α) (ptr a b : ℕ) :
    r.around N ptr (a + b) = r.around N ptr a ++ r.around N (ptr + a) b := by
  simp [State.around, List.range_add, Function.comp_def, Nat.add_assoc]

lemma around_mod (N : ℕ) (r : State α) (ptr n : ℕ) :
    r.around N (ptr % N) n = r.around N ptr n := by
  simp [State.around, Nat.mod_add_mod]

/-- **What the ring holds** after the items `hist`: the pointer and the flag say how many there
were, and each of the last `N` is in its cell. -/
structure Holds (N : ℕ) (hist : List α) (r : State α) : Prop where
  ptr : r.writeptr = hist.length % N
  wrapped : r.hasWrapped = true ↔ N ≤ hist.length
  cell : ∀ i x, hist[i]? = some x → hist.length ≤ i + N → r.buffer (i % N) = x

lemma holds_empty {N : ℕ} (hN : 0 < N) (buffer : ℕ → α) : Holds N [] (State.empty buffer) where
  ptr := (Nat.zero_mod N).symm
  wrapped := by simp [State.empty, hN.ne']
  cell i x hi := by simp at hi

/-- **One item.** It takes the cell of the one that is now too old. -/
lemma Holds.write {N : ℕ} (hN : 0 < N) {hist : List α} {r : State α} (h : Holds N hist r) (x : α) :
    Holds N (hist ++ [x]) (r.write N x) := by
  have hlt : hist.length % N < N := Nat.mod_lt _ hN
  have hcell : ∀ i y, (hist ++ [x])[i]? = some y → (hist ++ [x]).length ≤ i + N →
      Function.update r.buffer r.writeptr x (i % N) = y := by
    intro i y hi hle
    rw [List.length_append, List.length_singleton] at hle
    rw [h.ptr]
    rcases Nat.lt_or_ge i hist.length with hold | hnew
    · rw [List.getElem?_append_left hold] at hi
      -- an older item that is still kept is in another cell
      have hne : i % N ≠ hist.length % N := by
        intro heq
        have hdvd : N ∣ hist.length - i := (Nat.modEq_iff_dvd' hold.le).mp heq
        exact absurd (Nat.le_of_dvd (by omega) hdvd) (by omega)
      rw [Function.update_of_ne hne]
      exact h.cell i y hi (by omega)
    · have hi' := (List.getElem?_eq_some_iff.mp hi).1
      rw [List.length_append, List.length_singleton] at hi'
      obtain rfl : i = hist.length := by omega
      rw [List.getElem?_concat_length] at hi
      rw [Function.update_self, Option.some.inj hi]
  have hmod : (hist.length + 1) % N
      = if hist.length % N + 1 = N then 0 else hist.length % N + 1 := by
    rw [← Nat.mod_add_mod]
    split_ifs with hend
    · rw [hend, Nat.mod_self]
    · exact Nat.mod_eq_of_lt (by omega)
  have hsize : N ≤ hist.length + 1 ↔ hist.length % N + 1 = N ∨ N ≤ hist.length := by
    constructor
    · intro hle
      rcases Nat.lt_or_ge hist.length N with hlt' | hge
      · left
        rw [Nat.mod_eq_of_lt hlt']
        omega
      · exact Or.inr hge
    · rintro (hend | hge)
      · have := Nat.mod_le hist.length N
        omega
      · omega
  rw [State.write]
  split_ifs with hend
  · rw [h.ptr] at hend
    refine ⟨?_, ?_, hcell⟩
    · rw [List.length_append, List.length_singleton, hmod, if_pos hend]
    · rw [List.length_append, List.length_singleton, hsize]
      simp [hend]
  · rw [h.ptr] at hend
    refine ⟨?_, ?_, hcell⟩
    · rw [List.length_append, List.length_singleton, hmod, if_neg hend, h.ptr]
    · rw [List.length_append, List.length_singleton, hsize, h.wrapped]
      simp [hend]

/-- **Every history.** -/
theorem holds_fill {N : ℕ} (hN : 0 < N) (buffer : ℕ → α) (hist : List α) :
    Holds N hist (State.fill N buffer hist) := by
  induction hist using List.reverseRecOn with
  | nil => exact holds_empty hN buffer
  | append_singleton hist x ih =>
      rw [State.fill, List.foldl_append]
      exact ih.write hN x

namespace Holds

variable {N : ℕ} {hist : List α} {r : State α}

lemma size_eq (h : Holds N hist r) : r.size N = min hist.length N := by
  rw [State.size]
  split_ifs with hw
  · exact (Nat.min_eq_right (h.wrapped.mp hw)).symm
  · have hlt : hist.length < N := not_le.mp fun hle => hw (h.wrapped.mpr hle)
    rw [h.ptr, Nat.mod_eq_of_lt hlt, Nat.min_eq_left hlt.le]

/-- The oldest item is the one after those that have been overwritten. -/
lemma first_eq (h : Holds N hist r) : r.first = (hist.length - N) % N := by
  rw [State.first]
  split_ifs with hw
  · rw [h.ptr, Nat.mod_eq_sub_mod (h.wrapped.mp hw)]
  · have hlt : hist.length < N := not_le.mp fun hle => hw (h.wrapped.mpr hle)
    rw [Nat.sub_eq_zero_of_le hlt.le, Nat.zero_mod]

lemma first_lt (hN : 0 < N) (h : Holds N hist r) : r.first < N := by
  rw [h.first_eq]
  exact Nat.mod_lt _ hN

/-- **Around the ring in the order of writing.** -/
theorem linear (h : Holds N hist r) :
    r.around N r.first (r.size N) = hist.drop (hist.length - N) := by
  rw [h.first_eq, around_mod, h.size_eq]
  refine List.ext_getElem? fun i => ?_
  rw [State.around, List.getElem?_map, List.getElem?_drop]
  rcases Nat.lt_or_ge i (min hist.length N) with hlt | hge
  · have hi : hist.length - N + i < hist.length := by omega
    rw [List.getElem?_range hlt, Option.map_some, List.getElem?_eq_getElem hi]
    exact congrArg some (h.cell _ _ (List.getElem?_eq_getElem hi) (by omega))
  · have hnone : hist[hist.length - N + i]? = none := List.getElem?_eq_none (by omega)
    rw [hnone, List.getElem?_eq_none (by simpa using hge), Option.map_none]

end Holds

end Ring
