import Mathlib

/-!
# Free slots of an ascending list

Slots are numbered, and the slots in use are kept in an ascending list.  An allocator that goes
through the list once can look for two things at the same time: the least free slot from a given
one on (`bump`), and the least free slot of all, which is the first gap (`gap`).  It hands out the
first of the two while it is below the limit, and else the second (`alloc`).

Such an allocator never hands out a slot in use (`alloc_free`), and it only gives up when there is
none left (`alloc_eq_none_iff`).
-/

namespace FreeSlot

/-! ## The next free slot -/

/-- What one slot in use does to the candidate. -/
def bumpStep (p x : ℕ) : ℕ := if x = p then p + 1 else p

/-- The candidate behind all slots in use. -/
def bump (p : ℕ) (xs : List ℕ) : ℕ := xs.foldl bumpStep p

@[simp] lemma bump_nil (p : ℕ) : bump p [] = p := rfl

@[simp] lemma bump_cons (p x : ℕ) (xs : List ℕ) : bump p (x :: xs) = bump (bumpStep p x) xs := rfl

lemma le_bumpStep (p x : ℕ) : p ≤ bumpStep p x := by
  unfold bumpStep
  split_ifs <;> omega

lemma le_bump (p : ℕ) (xs : List ℕ) : p ≤ bump p xs := by
  induction xs generalizing p with
  | nil => exact le_rfl
  | cons x xs ih => exact (le_bumpStep p x).trans (ih _)

/-- What is passed over is in use. -/
lemma mem_of_lt_bump {p k : ℕ} {xs : List ℕ} (hp : p ≤ k) (hk : k < bump p xs) : k ∈ xs := by
  induction xs generalizing p with
  | nil => exact absurd hk (by simpa using hp)
  | cons x xs ih =>
      by_cases hx : x = p
      · rcases hp.eq_or_lt with rfl | hlt
        · simp [hx]
        · have hstep : bumpStep p x = p + 1 := if_pos hx
          rw [bump_cons, hstep] at hk
          exact List.mem_cons_of_mem x (ih hlt hk)
      · have hstep : bumpStep p x = p := if_neg hx
        rw [bump_cons, hstep] at hk
        exact List.mem_cons_of_mem x (ih hp hk)

/-- **The candidate is free**, if the list is ascending. -/
theorem bump_not_mem {p : ℕ} {xs : List ℕ} (hxs : xs.Pairwise (· < ·)) : bump p xs ∉ xs := by
  induction xs generalizing p with
  | nil => simp
  | cons x xs ih =>
      obtain ⟨hhead, htail⟩ := List.pairwise_cons.mp hxs
      rw [bump_cons, List.mem_cons, not_or]
      refine ⟨?_, ih htail⟩
      -- behind `x` there are larger slots only, so a candidate that stays at `x` was bumped there
      by_cases hx : x = p
      · have hle := le_bump (bumpStep p x) xs
        have hstep : bumpStep p x = p + 1 := if_pos hx
        omega
      · intro heq
        have hstep : bumpStep p x = p := if_neg hx
        rw [hstep] at heq
        have hle := le_bump p xs
        have hmem : p ∈ xs := mem_of_lt_bump le_rfl (by omega)
        have := hhead p hmem
        omega

/-! ## The first gap -/

/-- What one slot in use does to the search for the first gap.  The flag says that it is found. -/
def gapStep (s : ℕ × Bool) (x : ℕ) : ℕ × Bool :=
  if s.2 then s else if s.1 < x then (s.1, true) else (s.1 + 1, false)

def gap (s : ℕ × Bool) (xs : List ℕ) : ℕ × Bool := xs.foldl gapStep s

@[simp] lemma gap_nil (s : ℕ × Bool) : gap s [] = s := rfl

@[simp] lemma gap_cons (s : ℕ × Bool) (x : ℕ) (xs : List ℕ) :
    gap s (x :: xs) = gap (gapStep s x) xs := rfl

lemma gap_found (p : ℕ) (xs : List ℕ) : gap (p, true) xs = (p, true) := by
  induction xs with
  | nil => rfl
  | cons x xs ih => rw [gap_cons, show gapStep (p, true) x = (p, true) from if_pos rfl, ih]

/-- **The first gap is free, and all slots before it are in use**, for an ascending list of slots
that are not below `lo`. -/
theorem gap_spec {lo : ℕ} {xs : List ℕ} (hxs : xs.Pairwise (· < ·)) (hlo : ∀ x ∈ xs, lo ≤ x) :
    lo ≤ (gap (lo, false) xs).1 ∧ (gap (lo, false) xs).1 ∉ xs ∧
      ∀ k, lo ≤ k → k < (gap (lo, false) xs).1 → k ∈ xs := by
  induction xs generalizing lo with
  | nil => exact ⟨le_rfl, by simp, fun k hk hlt => absurd hlt (not_lt.mpr hk)⟩
  | cons x xs ih =>
      obtain ⟨hhead, htail⟩ := List.pairwise_cons.mp hxs
      by_cases hlt : lo < x
      · have hstep : gapStep (lo, false) x = (lo, true) := by simp [gapStep, hlt]
        rw [gap_cons, hstep, gap_found]
        refine ⟨le_rfl, ?_, fun k hk hklt => absurd hklt (not_lt.mpr hk)⟩
        intro hmem
        rcases List.mem_cons.mp hmem with rfl | hmem
        · exact lt_irrefl _ hlt
        · exact lt_irrefl _ (hlt.trans (hhead lo hmem))
      · obtain rfl : x = lo := le_antisymm (not_lt.mp hlt) (hlo x List.mem_cons_self)
        have hstep : gapStep (x, false) x = (x + 1, false) := by simp [gapStep]
        have hlo' : ∀ y ∈ xs, x + 1 ≤ y := fun y hy => hhead y hy
        obtain ⟨hle, hfree, hused⟩ := ih htail hlo'
        rw [gap_cons, hstep]
        refine ⟨by omega, ?_, fun k hk hklt => ?_⟩
        · rw [List.mem_cons, not_or]
          exact ⟨by omega, hfree⟩
        · rcases hk.eq_or_lt with rfl | hgt
          · exact List.mem_cons_self
          · exact List.mem_cons_of_mem x (hused k hgt hklt)

/-! ## The allocator -/

/-- The slot that is handed out, if there is one, with the candidate `p` for the next free slot and
the slots `lo` to `hi`. -/
def alloc (lo hi p : ℕ) (xs : List ℕ) : Option ℕ :=
  if bump p xs ≤ hi then some (bump p xs)
  else if (gap (lo, false) xs).1 ≤ hi then some (gap (lo, false) xs).1
  else none

variable {lo hi p : ℕ} {xs : List ℕ}

/-- **What is handed out is free**, and one of the slots. -/
theorem alloc_free (hxs : xs.Pairwise (· < ·)) (hlo : ∀ x ∈ xs, lo ≤ x) (hp : lo ≤ p) {k : ℕ}
    (hk : alloc lo hi p xs = some k) : lo ≤ k ∧ k ≤ hi ∧ k ∉ xs := by
  unfold alloc at hk
  split_ifs at hk with hbump hgap
  · obtain rfl := Option.some.inj hk
    exact ⟨hp.trans (le_bump p xs), hbump, bump_not_mem hxs⟩
  · obtain rfl := Option.some.inj hk
    obtain ⟨hle, hfree, _⟩ := gap_spec hxs hlo
    exact ⟨hle, hgap, hfree⟩

/-- **Nothing is handed out only if every slot is in use.** -/
theorem alloc_eq_none_iff (hxs : xs.Pairwise (· < ·)) (hlo : ∀ x ∈ xs, lo ≤ x) (hp : lo ≤ p) :
    alloc lo hi p xs = none ↔ ∀ k, lo ≤ k → k ≤ hi → k ∈ xs := by
  obtain ⟨hle, hfree, hused⟩ := gap_spec hxs hlo
  unfold alloc
  split_ifs with hbump hgap
  · refine iff_of_false (by simp) fun hall => bump_not_mem hxs (hall _ ?_ hbump)
    exact hp.trans (le_bump p xs)
  · exact iff_of_false (by simp) fun hall => hfree (hall _ hle hgap)
  · exact iff_of_true rfl fun k hk hkhi => hused k hk (by omega)

end FreeSlot
