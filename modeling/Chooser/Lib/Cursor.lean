import Mathlib

/-!
# A cursor over a set that changes

A cursor goes up through a set: each step leads to the least element above it, until there is none.
Between two steps the set may change in any way.  `Walk S k x ys` says that from the `k`-th step on,
starting behind `x`, the cursor visits `ys`, where `S k` is the set at the time of the `k`-th step.

Such a walk goes strictly up, finds each element at a time when it was there, and misses none that
stays (`Walk.sorted`, `Walk.mem`, `Walk.survivor`).  Over a bounded set of integers it ends
(`exists_walk`).
-/

namespace Cursor

section Order

variable {α : Type*} [LinearOrder α] {S : ℕ → Set α}

/-- The visits of a cursor, with the number of the next step and the place it stands at. -/
inductive Walk (S : ℕ → Set α) : ℕ → α → List α → Prop
  | stop {k : ℕ} {x : α} (h : ∀ z ∈ S k, ¬ x < z) : Walk S k x []
  | next {k : ℕ} {x y : α} {ys : List α} (hmem : y ∈ S k) (hlt : x < y)
      (hleast : ∀ z ∈ S k, x < z → y ≤ z) (rest : Walk S (k + 1) y ys) : Walk S k x (y :: ys)

namespace Walk

/-- **It goes strictly up.** -/
theorem sorted {k : ℕ} {x : α} {ys : List α} (h : Walk S k x ys) : (x :: ys).Pairwise (· < ·) := by
  induction h with
  | stop h => exact List.pairwise_singleton _ _
  | next hmem hlt hleast rest ih =>
      refine List.pairwise_cons.mpr ⟨?_, ih⟩
      intro z hz
      rcases List.mem_cons.mp hz with rfl | hz
      · exact hlt
      · exact hlt.trans ((List.pairwise_cons.mp ih).1 z hz)

/-- **What is visited is there at that time.** -/
theorem mem {k : ℕ} {x : α} {ys : List α} (h : Walk S k x ys) :
    ∀ (i : ℕ) (y : α), ys[i]? = some y → y ∈ S (k + i) := by
  induction h with
  | stop h => exact fun i y hi => by simp at hi
  | next hmem hlt hleast rest ih =>
      intro i y hi
      cases i with
      | zero =>
          obtain rfl := Option.some.inj hi
          exact hmem
      | succ i =>
          have hmem' := ih i y hi
          rwa [Nat.add_assoc, Nat.add_comm 1 i] at hmem'

/-- **What stays is visited.** -/
theorem survivor {k : ℕ} {x : α} {ys : List α} (h : Walk S k x ys) {z : α} (hx : x < z)
    (hz : ∀ i, i ≤ ys.length → z ∈ S (k + i)) : z ∈ ys := by
  induction h with
  | stop h => exact absurd hx (h z (hz 0 le_rfl))
  | next hmem hlt hleast rest ih =>
      -- the cursor does not overtake an element that is there
      rcases (hleast z (hz 0 (Nat.zero_le _)) hx).lt_or_eq with hlt' | rfl
      · refine List.mem_cons_of_mem _ (ih hlt' fun i hi => ?_)
        have hmem' := hz (i + 1) (Nat.succ_le_succ hi)
        rwa [Nat.add_comm i 1, ← Nat.add_assoc] at hmem'
      · exact List.mem_cons_self

/-- Nothing is visited twice. -/
lemma nodup {k : ℕ} {x : α} {ys : List α} (h : Walk S k x ys) : ys.Nodup :=
  (List.pairwise_cons.mp h.sorted).2.imp fun h => h.ne

end Walk

end Order

/-- **Over a bounded set of integers a walk ends.** -/
theorem exists_walk {S : ℕ → Set ℤ} {a b : ℤ} (hbound : ∀ k, ∀ y ∈ S k, y < b)
    (hstep : ∀ k x, a ≤ x → (∀ z ∈ S k, ¬ x < z) ∨
      ∃ y ∈ S k, x < y ∧ ∀ z ∈ S k, x < z → y ≤ z) (k : ℕ) {x : ℤ} (hx : a ≤ x) :
    ∃ ys, Walk S k x ys := by
  induction hn : (b - x).toNat using Nat.strong_induction_on generalizing k x with
  | _ n ih =>
      rcases hstep k x hx with hstop | ⟨y, hmem, hlt, hleast⟩
      · exact ⟨[], .stop hstop⟩
      · have hy := hbound k y hmem
        obtain ⟨ys, hys⟩ := ih (b - y).toNat (by omega) (k + 1) (hx.trans hlt.le) rfl
        exact ⟨y :: ys, .next hmem hlt hleast hys⟩

end Cursor
